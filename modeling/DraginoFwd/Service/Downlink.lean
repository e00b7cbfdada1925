import DraginoFwd.Jit.Lbt
import DraginoFwd.Lib.Printf

/-!
# The acknowledgement of a downlink

`handleDown` is what `semtech_pull_down` does with a PULL_RESP that it has parsed and counted: it
checks the radio chain, the frequency and the power, takes a slot with `lbt_enqueue`, queues the
packet with `jit_enqueue`, and answers with a TX_ACK.

The answer is to be one TX_ACK that says whether the packet has been queued, and the tables are to
stay as they are when it has not (`Truthful`). `handleDown_truthful_iff` says when that is so. A
packet for a radio chain that does not exist gets no answer, and the slot of a packet that
`jit_enqueue` rejects stays taken (`rejected_keeps_slot`). The bounds of `buff_ack` are left out of
`sendTxAck`, since no answer goes beyond them (`handleDown_fits`).
-/

set_option autoImplicit false

namespace DraginoFwd.Service

open DraginoFwd.Hal
open DraginoFwd.Jit
open DraginoFwd.Lib.Memory
open DraginoFwd.Lib.Printf

/-! ## Configuration -/

/-- `TX_GAIN_LUT_SIZE_MAX` -/
abbrev txGainLutSizeMax : Nat := 16

/-- `struct lgw_tx_gain_lut_s`: the powers of its entries, of which the first `size` are in use. -/
structure TxGainLut where
  rfPower : Vector (BitVec 8) txGainLutSizeMax
  size : Nat
  size_le : size ≤ txGainLutSizeMax

/-- What of `GW.tx` and `GW.lbt` decides about a downlink. -/
structure TxConfig where
  txFreqMin : Fin lgwRfChainNb → BitVec 32
  txFreqMax : Fin lgwRfChainNb → BitVec 32
  txlut : Fin lgwRfChainNb → TxGainLut
  lbtTtyEnabled : Bool

/-- The loop body of `get_tx_gain_lut_index`: the best index so far with its distance. -/
def lutStep (lut : TxGainLut) (rfPower : BitVec 8) (best : Option (Fin txGainLutSizeMax × Int))
    (powIndex : Fin txGainLutSizeMax) : Option (Fin txGainLutSizeMax × Int) :=
  let diff := rfPower.toInt - (lut.rfPower.get powIndex).toInt
  if diff < 0 then best
  else
    match best with
    | none => some (powIndex, diff)
    | some (index, bestMatch) =>
      if diff < bestMatch then some (powIndex, diff) else some (index, bestMatch)

/-- `get_tx_gain_lut_index`: the entry with the highest power up to the requested one. Without one
the code stores the index 0 and fails. -/
def getTxGainLutIndex (lut : TxGainLut) (rfPower : BitVec 8) : Option (Fin txGainLutSizeMax) :=
  (((List.finRange txGainLutSizeMax).take lut.size).foldl (lutStep lut rfPower) none).map Prod.fst

/-! ## TX_ACK -/

/-- `ACK_BUFF_SIZE` -/
abbrev ackBuffSize : Nat := 64

/-- A datagram PKT_TX_ACK: the token in its header, and the text behind the 12 bytes of it. -/
structure TxAck where
  tokenH : BitVec 8
  tokenL : BitVec 8
  text : List Char

/-- The type of an error or a warning. -/
def ackType : JitError → List Char
  | .full | .collisionPacket => "\"COLLISION_PACKET\"".toList
  | .tooLate => "\"TOO_LATE\"".toList
  | .tooEarly => "\"TOO_EARLY\"".toList
  | .collisionBeacon => "\"COLLISION_BEACON\"".toList
  | .txFreq => "\"TX_FREQ\"".toList
  | .txPower => "\"TX_POWER\"".toList
  | .gpsUnlocked => "\"GPS_UNLOCKED\"".toList
  | .ok | .empty | .invalid => "\"UNKNOWN\"".toList

/-- What stands in front of the error or the warning. -/
def ackOpen : List Char := "\x7b\"txpk_ack\":\x7b".toList

/-- What stands behind it. -/
def ackClose : List Char := "\x7d\x7d".toList

/-- `send_tx_ack` -/
def sendTxAck (tokenH tokenL : BitVec 8) (error : JitError) (errorValue : BitVec 32) : TxAck where
  tokenH := tokenH
  tokenL := tokenL
  text :=
    match error with
    | .ok => []
    | .txPower =>
        ackOpen ++ "\"warn\":".toList ++ ackType error ++ ",\"value\":".toList ++
          fmtD errorValue.toInt ++ ackClose
    | _ => ackOpen ++ "\"error\":".toList ++ ackType error ++ ackClose

/-- The TX_ACK reports no error: it has no text, or warns of a power. -/
def TxAck.NoError (ack : TxAck) : Prop :=
  ack.text = [] ∨
    ∃ value, ack.text =
      ackOpen ++ "\"warn\":".toList ++ "\"TX_POWER\"".toList ++ ",\"value\":".toList ++
        fmtD value ++
        ackClose

/-- The TX_ACK reports an error. -/
def TxAck.IsError (ack : TxAck) : Prop :=
  ∃ type, ack.text = ackOpen ++ "\"error\":".toList ++ type ++ ackClose

/-! ## The downlink -/

/-- The queues of the radio chains and the slots of the channel scan. -/
structure DownState where
  queues : Fin lgwRfChainNb → JitQueue
  lbtStat : LbtStat

/-- A downlink that has been parsed: the token of its datagram, the packet, and its class. -/
structure PullResp where
  tokenH : BitVec 8
  tokenL : BitVec 8
  txpkt : LgwPktTx
  downlinkType : JitPktType

/-- The answers that have been sent, and the state. -/
structure Handled where
  acks : List TxAck
  state : DownState

/-- The check of the frequency. -/
def checkFreq (cfg : TxConfig) (c : Fin lgwRfChainNb) (txpkt : LgwPktTx) : JitError :=
  if txpkt.freqHz < cfg.txFreqMin c ∨ cfg.txFreqMax c < txpkt.freqHz then .txFreq else .ok

/-- The check of the power: `warning_result`, `warning_value` and the packet with a power of the
table. -/
def checkPower (lut : TxGainLut) (txpkt : LgwPktTx) : JitError × BitVec 32 × LgwPktTx :=
  let index := getTxGainLutIndex lut txpkt.rfPower
  let power := lut.rfPower.get (index.getD 0)
  if index = none ∨ power ≠ txpkt.rfPower then
    (.txPower, power.signExtend 32, { txpkt with rfPower := power })
  else (.ok, 0#32, txpkt)

/-- The packet that is queued. -/
def TxConfig.adjusted (cfg : TxConfig) (c : Fin lgwRfChainNb) (txpkt : LgwPktTx) : LgwPktTx :=
  (checkPower (cfg.txlut c) txpkt).2.2

/-- `semtech_pull_down` behind the count of a downlink, up to `send_tx_ack`. -/
def handleDown (tgt : Target) (cfg : TxConfig) (timeUs : BitVec 32) (d : PullResp) (s : DownState) :
    Except OutOfBounds Handled :=
  let answer := sendTxAck d.tokenH d.tokenL
  if h : d.txpkt.rfChain.toNat < lgwRfChainNb then
    let c : Fin lgwRfChainNb := ⟨d.txpkt.rfChain.toNat, h⟩
    let jitResult := checkFreq cfg c d.txpkt
    if jitResult = .ok then
      let (warningResult, warningValue, txpkt) := checkPower (cfg.txlut c) d.txpkt
      let lbt := if cfg.lbtTtyEnabled then lbtEnqueue s.lbtStat txpkt timeUs else (.ok, s.lbtStat)
      -- `jit_result` is overwritten, whatever `lbt_enqueue` has returned
      (jitEnqueue tgt (s.queues c) timeUs txpkt d.downlinkType).map fun (jitResult, _, queue) =>
        ⟨[answer (if jitResult = .ok then warningResult else jitResult) warningValue],
          ⟨Function.update s.queues c queue, lbt.2⟩⟩
    else .ok ⟨[answer jitResult 0#32], s⟩
  else .ok ⟨[], s⟩

/-! ## The condition and the property -/

section Property

variable (tgt : Target) (cfg : TxConfig) (timeUs : BitVec 32) (d : PullResp) (s : DownState)

/-- The node that `jit_enqueue` makes of the packet on chain `c`. -/
def downNode (c : Fin lgwRfChainNb) : JitNode :=
  jitNode tgt (s.queues c) timeUs (cfg.adjusted c d.txpkt) d.downlinkType

/-- The packet has joined the queue of its radio chain. -/
def Queued (t : DownState) : Prop :=
  ∃ c : Fin lgwRfChainNb, d.txpkt.rfChain.toNat = c.val ∧
    Inserted (s.queues c) (downNode tgt cfg timeUs d s c) (t.queues c)

/-- One TX_ACK with the token of the datagram, which reports no error just when the packet has been
queued, and no change otherwise. -/
def Truthful : Except OutOfBounds Handled → Prop
  | .error _ => False
  | .ok r => ∃ ack, r.acks = [ack] ∧ ack.tokenH = d.tokenH ∧ ack.tokenL = d.tokenL ∧
      (ack.NoError ↔ Queued tgt cfg timeUs d s r.state) ∧
      (¬ Queued tgt cfg timeUs d s r.state →
        ack.IsError ∧ r.state.queues = s.queues ∧ r.state.lbtStat = s.lbtStat)

/-- The slot that `lbt_enqueue` would take holds what it would write, if there is one. -/
def SlotKept (c : Fin lgwRfChainNb) : Prop :=
  ∀ i ∈ lbtFreeSlot s.lbtStat timeUs,
    s.lbtStat i = ⟨(cfg.adjusted c d.txpkt).freqHz, (cfg.adjusted c d.txpkt).countUs, false⟩

/-- The packet meets the criteria of `jit_enqueue` for the queue of chain `c`. -/
def Admitted (c : Fin lgwRfChainNb) : Prop :=
  Admissible (s.queues c) timeUs (downNode tgt cfg timeUs d s c)

/-- The radio chain exists, and either the frequency is rejected, or the queue is not beyond its
array and no slot changes for a packet that the queue does not take. -/
def Consistent : Prop :=
  ∃ c : Fin lgwRfChainNb, d.txpkt.rfChain.toNat = c.val ∧
    (checkFreq cfg c d.txpkt ≠ .ok ∨
      ((Admitted tgt cfg timeUs d s c → (s.queues c).numPkt.toNat ≤ jitQueueMax) ∧
        (cfg.lbtTtyEnabled = false ∨ SlotKept cfg timeUs d s c ∨
          ((s.queues c).numPkt.toNat < jitQueueMax ∧ Admitted tgt cfg timeUs d s c))))

end Property

/-! ## Texts -/

/-- An error has a text that is no warning. -/
theorem TxAck.IsError.not_noError {ack : TxAck} (h : ack.IsError) : ¬ ack.NoError := by
  obtain ⟨type, htext⟩ := h
  have herror : "\"error\":".toList = ['"', 'e', 'r', 'r', 'o', 'r', '"', ':'] := by decide +kernel
  rintro (hempty | ⟨value, hwarn⟩)
  · rw [htext, herror] at hempty
    simp at hempty
  · -- the texts differ in the first letter of the first name
    have hwarning : "\"warn\":".toList = ['"', 'w', 'a', 'r', 'n', '"', ':'] := by decide +kernel
    rw [htext, herror, hwarning] at hwarn
    simp only [List.append_assoc, List.append_cancel_left_eq, List.cons_append] at hwarn
    injection hwarn with _ htail
    injection htail with hletter
    exact absurd hletter (by decide)

theorem noError_ok (tokenH tokenL : BitVec 8) (value : BitVec 32) :
    (sendTxAck tokenH tokenL .ok value).NoError := Or.inl rfl

theorem noError_txPower (tokenH tokenL : BitVec 8) (value : BitVec 32) :
    (sendTxAck tokenH tokenL .txPower value).NoError := Or.inr ⟨value.toInt, rfl⟩

theorem isError_sendTxAck (tokenH tokenL : BitVec 8) {error : JitError} (value : BitVec 32)
    (hok : error ≠ .ok) (hpower : error ≠ .txPower) :
    (sendTxAck tokenH tokenL error value).IsError := by
  refine ⟨ackType error, ?_⟩
  cases error with
  | ok => exact absurd rfl hok
  | txPower => exact absurd rfl hpower
  | tooLate | tooEarly | full | empty | collisionPacket | collisionBeacon | txFreq | gpsUnlocked
    | invalid => rfl

theorem noError_warning (tokenH tokenL : BitVec 8) (lut : TxGainLut) (txpkt : LgwPktTx)
    (value : BitVec 32) : (sendTxAck tokenH tokenL (checkPower lut txpkt).1 value).NoError := by
  rw [checkPower]
  split
  · exact noError_txPower tokenH tokenL value
  · exact noError_ok tokenH tokenL value

theorem length_ackType_le (error : JitError) : (ackType error).length ≤ 18 := by
  cases error <;> decide +kernel

/-- A TX_ACK with a value of three digits, behind its header and with its terminator, fits
`buff_ack`. -/
theorem sendTxAck_fits (tokenH tokenL : BitVec 8) (error : JitError) {value : BitVec 32}
    (h : value.toInt.natAbs < 10 ^ 3) :
    12 + (sendTxAck tokenH tokenL error value).text.length < ackBuffSize := by
  have htype := length_ackType_le error
  have hpower : (ackType .txPower).length = 10 := by decide +kernel
  have hvalue := (length_fmtD value.toInt).trans_le (widthD_le (by decide) h)
  have hopen : ackOpen.length = 13 := by decide +kernel
  have hclose : ackClose.length = 2 := by decide +kernel
  have herror : "\"error\":".toList.length = 8 := by decide +kernel
  have hwarn : "\"warn\":".toList.length = 7 := by decide +kernel
  have hname : ",\"value\":".toList.length = 9 := by decide +kernel
  have hsize : ackBuffSize = 64 := rfl
  cases error with
  | ok => exact Nat.lt_of_sub_pos (by decide : 0 < ackBuffSize - 12)
  | txPower =>
    simp only [sendTxAck, List.length_append, hopen, hwarn, hpower, hname, hclose]
    omega
  | tooLate | tooEarly | full | empty | collisionPacket | collisionBeacon | txFreq | gpsUnlocked
    | invalid =>
    all_goals
      simp only [sendTxAck, List.length_append, hopen, herror, hclose]
      omega

/-- The value of a warning is a power of the table. -/
theorem checkPower_value (lut : TxGainLut) (txpkt : LgwPktTx) :
    (checkPower lut txpkt).2.1.toInt.natAbs < 10 ^ 3 := by
  rw [checkPower]
  split
  · show (BitVec.signExtend 32 (lut.rfPower.get _)).toInt.natAbs < _
    generalize lut.rfPower.get _ = power
    have hlow := BitVec.le_toInt power
    have hhigh := BitVec.toInt_lt (x := power)
    rw [BitVec.toInt_signExtend_of_le (by decide)]
    omega
  · show (0#32).toInt.natAbs < _
    decide

/-! ## The queues and the slots -/

/-- A queue that a packet has joined is another one. -/
theorem not_inserted_self (q : JitQueue) (node : JitNode) : ¬ Inserted q node q := by
  intro h
  exact Nat.succ_ne_self q.numPkt.toNat h.numPkt.symm

/-- `lbt_enqueue` leaves the slots as they are if it finds none, or writes what is there. -/
theorem lbtEnqueue_eq_self_iff (lbtStat : LbtStat) (packet : LgwPktTx) (timeUs : BitVec 32) :
    (lbtEnqueue lbtStat packet timeUs).2 = lbtStat ↔
      ∀ i ∈ lbtFreeSlot lbtStat timeUs, lbtStat i = ⟨packet.freqHz, packet.countUs, false⟩ := by
  rw [lbtEnqueue]
  cases hfree : lbtFreeSlot lbtStat timeUs with
  | none => simp
  | some i =>
    simp only [Option.mem_def, Option.some.injEq, forall_eq']
    rw [Function.update_eq_self_iff, eq_comm]

section Downlink

variable {tgt : Target} {cfg : TxConfig} {timeUs : BitVec 32} {d : PullResp} {s : DownState}
  {c : Fin lgwRfChainNb}

/-- The slots behind a downlink whose frequency is accepted. -/
def slotsBehind (cfg : TxConfig) (timeUs : BitVec 32) (d : PullResp) (s : DownState)
    (c : Fin lgwRfChainNb) : LbtStat :=
  if cfg.lbtTtyEnabled then (lbtEnqueue s.lbtStat (cfg.adjusted c d.txpkt) timeUs).2 else s.lbtStat

theorem slotsBehind_eq_iff : slotsBehind cfg timeUs d s c = s.lbtStat ↔
    cfg.lbtTtyEnabled = false ∨ SlotKept cfg timeUs d s c := by
  rw [slotsBehind]
  cases cfg.lbtTtyEnabled with
  | false => simp
  | true =>
    rw [if_pos rfl, lbtEnqueue_eq_self_iff]
    simp [SlotKept]

/-- No answer for a radio chain that does not exist. -/
theorem handleDown_noChain (h : ¬ d.txpkt.rfChain.toNat < lgwRfChainNb) :
    handleDown tgt cfg timeUs d s = .ok ⟨[], s⟩ := dif_neg h

/-- An error and nothing else for a frequency that is rejected. -/
theorem handleDown_freq (hc : d.txpkt.rfChain.toNat = c.val) (h : checkFreq cfg c d.txpkt ≠ .ok) :
    handleDown tgt cfg timeUs d s =
      .ok ⟨[sendTxAck d.tokenH d.tokenL (checkFreq cfg c d.txpkt) 0#32], s⟩ := by
  have hlt : d.txpkt.rfChain.toNat < lgwRfChainNb := hc ▸ c.isLt
  have heq : (⟨d.txpkt.rfChain.toNat, hlt⟩ : Fin lgwRfChainNb) = c := Fin.ext hc
  rw [handleDown, dif_pos hlt, heq, if_neg h]

/-- Otherwise `jit_enqueue` decides on the answer. -/
theorem handleDown_enqueue (hc : d.txpkt.rfChain.toNat = c.val)
    (h : checkFreq cfg c d.txpkt = .ok) :
    handleDown tgt cfg timeUs d s =
      (jitEnqueue tgt (s.queues c) timeUs (cfg.adjusted c d.txpkt) d.downlinkType).map
        fun (jitResult, _, queue) =>
          ⟨[sendTxAck d.tokenH d.tokenL
              (if jitResult = .ok then (checkPower (cfg.txlut c) d.txpkt).1 else jitResult)
              (checkPower (cfg.txlut c) d.txpkt).2.1],
            ⟨Function.update s.queues c queue, slotsBehind cfg timeUs d s c⟩⟩ := by
  have hlt : d.txpkt.rfChain.toNat < lgwRfChainNb := hc ▸ c.isLt
  have heq : (⟨d.txpkt.rfChain.toNat, hlt⟩ : Fin lgwRfChainNb) = c := Fin.ext hc
  rw [handleDown, dif_pos hlt, heq, if_pos h]
  have hslots : slotsBehind cfg timeUs d s c =
      (if cfg.lbtTtyEnabled then lbtEnqueue s.lbtStat (cfg.adjusted c d.txpkt) timeUs
        else (.ok, s.lbtStat)).2 := by
    rw [slotsBehind]
    split <;> rfl
  rw [hslots]
  rfl

/-- The chain of a packet is one. -/
theorem queued_iff (hc : d.txpkt.rfChain.toNat = c.val) (t : DownState) :
    Queued tgt cfg timeUs d s t ↔
      Inserted (s.queues c) (downNode tgt cfg timeUs d s c) (t.queues c) := by
  constructor
  · rintro ⟨c', hc', hins⟩
    have heq : c' = c := Fin.ext (hc'.symm.trans hc)
    exact heq ▸ hins
  · exact fun hins => ⟨c, hc, hins⟩

theorem consistent_iff (hc : d.txpkt.rfChain.toNat = c.val) :
    Consistent tgt cfg timeUs d s ↔ checkFreq cfg c d.txpkt ≠ .ok ∨
      ((Admitted tgt cfg timeUs d s c → (s.queues c).numPkt.toNat ≤ jitQueueMax) ∧
        (cfg.lbtTtyEnabled = false ∨ SlotKept cfg timeUs d s c ∨
          ((s.queues c).numPkt.toNat < jitQueueMax ∧ Admitted tgt cfg timeUs d s c))) := by
  constructor
  · rintro ⟨c', hc', h⟩
    have heq : c' = c := Fin.ext (hc'.symm.trans hc)
    exact heq ▸ h
  · exact fun h => ⟨c, hc, h⟩

/-- A rejection leaves the queues alone. -/
theorem truthful_of_reject (hc : d.txpkt.rfChain.toNat = c.val) {error : JitError}
    (hok : error ≠ .ok) (hpower : error ≠ .txPower) (value : BitVec 32) {t : DownState}
    (hqueues : t.queues = s.queues) :
    Truthful tgt cfg timeUs d s (.ok ⟨[sendTxAck d.tokenH d.tokenL error value], t⟩) ↔
      t.lbtStat = s.lbtStat := by
  have herr := isError_sendTxAck d.tokenH d.tokenL value hok hpower
  have hnot : ¬ Queued tgt cfg timeUs d s t := by
    rw [queued_iff hc, hqueues]
    exact not_inserted_self _ _
  constructor
  · rintro ⟨ack, -, -, -, -, hkeeps⟩
    exact (hkeeps hnot).2.2
  · intro hslots
    refine ⟨_, rfl, rfl, rfl, ?_, fun _ => ⟨herr, hqueues, hslots⟩⟩
    exact ⟨fun hno => absurd hno herr.not_noError, fun hin => absurd hin hnot⟩

/-- A packet that joins its queue is answered with no error. -/
theorem truthful_of_queued {ack : TxAck} {t : DownState} (htokenH : ack.tokenH = d.tokenH)
    (htokenL : ack.tokenL = d.tokenL) (hno : ack.NoError) (hin : Queued tgt cfg timeUs d s t) :
    Truthful tgt cfg timeUs d s (.ok ⟨[ack], t⟩) :=
  ⟨ack, rfl, htokenH, htokenL, ⟨fun _ => hin, fun _ => hno⟩, fun hnot => absurd hin hnot⟩

end Downlink

/-- The TX_ACK is the only one and tells the truth just when the radio chain exists, and the
frequency is rejected, or no slot changes, or the queue takes the packet. -/
theorem handleDown_truthful_iff (tgt : Target) (cfg : TxConfig) (timeUs : BitVec 32) (d : PullResp)
    (s : DownState) :
    Truthful tgt cfg timeUs d s (handleDown tgt cfg timeUs d s) ↔
      Consistent tgt cfg timeUs d s := by
  by_cases hchain : d.txpkt.rfChain.toNat < lgwRfChainNb
  · obtain ⟨c, hc⟩ : ∃ c : Fin lgwRfChainNb, d.txpkt.rfChain.toNat = c.val := ⟨⟨_, hchain⟩, rfl⟩
    rw [consistent_iff hc]
    by_cases hfreq : checkFreq cfg c d.txpkt = .ok
    · rw [handleDown_enqueue hc hfreq]
      have hfreq' : ¬ checkFreq cfg c d.txpkt ≠ .ok := fun h => h hfreq
      rw [or_iff_right hfreq', ← or_assoc, ← slotsBehind_eq_iff]
      rcases jitEnqueue_verdict tgt (s.queues c) timeUs (cfg.adjusted c d.txpkt) d.downlinkType with
        ⟨⟨e, pkt', hok, hpower, heq⟩, hwhy⟩ | ⟨hroom, hadm, pkt', q', heq, hins⟩ |
        ⟨hover, hadm, fault, heq⟩
      · -- rejected: the slots decide
        rw [heq]
        show Truthful tgt cfg timeUs d s (.ok ⟨[sendTxAck _ _ (if e = .ok then _ else e) _], _⟩) ↔ _
        rw [if_neg hok, truthful_of_reject hc hok hpower _ (Function.update_eq_self c s.queues)]
        have hnot : ¬ ((s.queues c).numPkt.toNat < jitQueueMax ∧
            Admitted tgt cfg timeUs d s c) := by
          rintro ⟨hroom, hadm⟩
          rcases hwhy with hfull | hnot
          · omega
          · exact hnot hadm
        have hbound : Admitted tgt cfg timeUs d s c → (s.queues c).numPkt.toNat ≤ jitQueueMax := by
          intro hadm
          rcases hwhy with hfull | hnot
          · exact Nat.le_of_eq hfull
          · exact absurd hadm hnot
        exact ⟨fun h => ⟨hbound, Or.inl h⟩, fun h => h.2.resolve_right hnot⟩
      · -- queued
        rw [heq]
        refine iff_of_true ?_ ⟨fun _ => Nat.le_of_lt hroom, Or.inr ⟨hroom, hadm⟩⟩
        refine truthful_of_queued rfl rfl (noError_warning _ _ _ _ _) ?_
        rw [queued_iff hc]
        show Inserted _ _ (Function.update s.queues c q' c)
        rw [Function.update_self]
        exact hins
      · -- behind the array
        rw [heq]
        exact iff_of_false id fun h => Nat.not_le.2 hover (h.1 hadm)
    · rw [handleDown_freq hc hfreq]
      -- rejected before a slot is taken
      have htype : checkFreq cfg c d.txpkt = .txFreq := by
        rw [checkFreq] at hfreq ⊢
        split at hfreq
        · next hout => exact if_pos hout
        · exact absurd rfl hfreq
      rw [htype, truthful_of_reject hc (by decide) (by decide) _ rfl]
      exact iff_of_true rfl (Or.inl (by decide))
  · rw [handleDown_noChain hchain]
    -- no answer at all, where one was due
    refine iff_of_false ?_ ?_
    · rintro ⟨ack, hacks, -⟩
      cases hacks
    · rintro ⟨c, hc, -⟩
      exact hchain (hc ▸ c.isLt)

/-- No TX_ACK leaves `buff_ack`. -/
theorem handleDown_fits {tgt : Target} {cfg : TxConfig} {timeUs : BitVec 32} {d : PullResp}
    {s : DownState} {r : Handled} (h : handleDown tgt cfg timeUs d s = .ok r) :
    ∀ ack ∈ r.acks, 12 + ack.text.length < ackBuffSize := by
  intro ack hmem
  by_cases hchain : d.txpkt.rfChain.toNat < lgwRfChainNb
  · obtain ⟨c, hc⟩ : ∃ c : Fin lgwRfChainNb, d.txpkt.rfChain.toNat = c.val := ⟨⟨_, hchain⟩, rfl⟩
    by_cases hfreq : checkFreq cfg c d.txpkt = .ok
    · rw [handleDown_enqueue hc hfreq] at h
      cases hjit : jitEnqueue tgt (s.queues c) timeUs (cfg.adjusted c d.txpkt) d.downlinkType with
      | error fault =>
        rw [hjit] at h
        cases h
      | ok verdict =>
        rw [hjit] at h
        cases h
        rw [List.mem_singleton.1 hmem]
        exact sendTxAck_fits _ _ _ (checkPower_value _ _)
    · rw [handleDown_freq hc hfreq] at h
      cases h
      rw [List.mem_singleton.1 hmem]
      exact sendTxAck_fits _ _ _ (by decide)
  · rw [handleDown_noChain hchain] at h
    cases h
    cases hmem

/-! ## A slot for nothing -/

/-- All frequencies, one power of 14 dBm, and the channel scan. -/
def scanConfig : TxConfig where
  txFreqMin _ := 0#32
  txFreqMax _ := 0xFFFFFFFF#32
  txlut _ := ⟨Vector.replicate txGainLutSizeMax 14#8, 1, by decide⟩
  lbtTtyEnabled := true

/-- A downlink for the time 1000. -/
def latePullResp : PullResp := ⟨1#8, 2#8, fskPacket 50000#32 5#16 20#16 1000#32, .downlinkClassA⟩

/-- Empty queues and cleared slots. -/
def downStart : DownState := ⟨fun _ => jitQueueInit, fun _ => ⟨0#32, 0#32, false⟩⟩

/-- At the time 1000 the downlink is too late, and its slot stays taken. -/
theorem rejected_keeps_slot :
    ¬ ∀ tgt cfg timeUs d s, Truthful tgt cfg timeUs d s (handleDown tgt cfg timeUs d s) := by
  intro hall
  have htruth := hall fskTarget scanConfig 1000#32 latePullResp downStart
  have hhandled : ((handleDown fskTarget scanConfig 1000#32 latePullResp downStart).toOption.map
      fun r => ((r.state.queues 0).numPkt, (r.state.lbtStat 0).countUs)) =
        some (0#8, 1000#32) := by
    decide +kernel
  cases hr : handleDown fskTarget scanConfig 1000#32 latePullResp downStart with
  | error fault =>
    rw [hr] at hhandled
    cases hhandled
  | ok r =>
    rw [hr] at hhandled htruth
    obtain ⟨hnum, hslot⟩ := Prod.mk.inj (Option.some.inj hhandled)
    obtain ⟨ack, -, -, -, -, hkeeps⟩ := htruth
    have hnot : ¬ Queued fskTarget scanConfig 1000#32 latePullResp downStart r.state := by
      rw [queued_iff (c := 0) rfl]
      intro hins
      have hjoined := hins.numPkt
      rw [hnum] at hjoined
      cases hjoined
    have hslots := congrFun (hkeeps hnot).2.2 0
    rw [hslots] at hslot
    cases hslot

end DraginoFwd.Service

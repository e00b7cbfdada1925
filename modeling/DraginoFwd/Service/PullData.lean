import DraginoFwd.Base64.Decoder
import DraginoFwd.Service.Acks
import DraginoFwd.Service.Downlink

/-!
# The data of a PULL_RESP

`pullDown` is what `semtech_pull_down` does with a datagram in `buff_down`, up to the packet that it
passes to `jit_enqueue`, and the terminator that it writes for the decoder of the header. The JSON
parser is a parameter: it gives `txpk.size`, the characters of `txpk.data` and the other fields of
the packet, or aborts.

No write is to leave `buff_down` and the payload, and the packet is to hold the bytes of
`txpk.data`, with the first three cells of `time_diff` behind them when they are enabled
(`PullSafe`). The size and the number of decoded bytes are used for each other, and `-1` is one of
them. `pullSafe_iff` says what a datagram must be for nothing to go wrong.
-/

set_option autoImplicit false

namespace DraginoFwd.Service

open DraginoFwd.Hal
open DraginoFwd.Jit
open DraginoFwd.Base64
open DraginoFwd.Lib.Memory

/-! ## Configuration and datagrams -/

/-- The size of `buff_down`. -/
abbrev buffDownSize : Nat := 1000

/-- `GW.cfg.time_diff`, an array of eight characters, up to its terminator. -/
structure TimeDiff where
  text : List (BitVec 8)
  length_lt : text.length < 8
  ne_zero : ∀ b ∈ text, b ≠ 0#8

/-- The first three characters of the array. What is behind the text is zero. -/
def TimeDiff.three (t : TimeDiff) : List (BitVec 8) := (t.text ++ List.replicate 3 0#8).take 3

/-- What of `GW` decides about a PULL_RESP. -/
structure PullConfig where
  tx : TxConfig
  tdEnabled : Bool
  timeDiff : TimeDiff

/-- A JSON text without errors: the fields of the packet in front of `txpk.size`, the whole part of
`txpk.size`, and the characters of `txpk.data`. -/
structure Txpk where
  txpkt : LgwPktTx
  size : Int
  data : List Char

/-- The `uint16_t` of `txpk.size`. -/
def Txpk.sizeField (c : Txpk) : BitVec 16 := BitVec.ofInt 16 c.size

/-- The packet before the data are decoded. Its payload has been cleared by `memset`. -/
def Txpk.sized (c : Txpk) : LgwPktTx :=
  { c.txpkt with size := c.sizeField, payload := Vector.replicate 256 0#8 }

/-- The characters of a string in front of its terminator. -/
def cString (l : List (BitVec 8)) : List (BitVec 8) := l.takeWhile fun b => b ≠ 0#8

/-! ## The code -/

/-- `snprintf(txpkt.payload + i, sizeof(txpkt.payload) - i, "%s", text)` for `i` from `-1` on. It
writes nothing without room for a terminator. -/
def snprintfAt (payload : Vector (BitVec 8) 256) (i : Int) (text : List (BitVec 8)) :
    Except OutOfBounds (Vector (BitVec 8) 256) :=
  let n := 256 - i
  if n = 0 then .ok payload
  else if i < 0 then .error ⟨i, 256⟩
  else copy payload i.toNat (text.take (n.toNat - 1) ++ [0#8])

/-- The block under `td_enabled` behind the decoded data. -/
def appendTimeDiff (cfg : PullConfig) (txpkt : LgwPktTx) (i : Int) : Except OutOfBounds LgwPktTx :=
  if cfg.tdEnabled then do
    let payload ← snprintfAt txpkt.payload i cfg.timeDiff.text
    let size := txpkt.size + 3#16
    let payload ← write payload size.toNat 0#8
    .ok { txpkt with size := size, payload := payload }
  else .ok txpkt

/-- The block under `td_enabled` in front of the decoder of the header. -/
def dropTimeDiff (cfg : PullConfig) (txpkt : LgwPktTx) : Except OutOfBounds LgwPktTx :=
  if cfg.tdEnabled then do
    let size := txpkt.size - 3#16
    let payload ← write txpkt.payload size.toNat 0#8
    .ok { txpkt with size := size, payload := payload }
  else .ok txpkt

/-- `txpk.data` is decoded into the payload. Without a packet the process has ended. -/
def takeData (cfg : PullConfig) (c : Txpk) : Except OutOfBounds (Option LgwPktTx) :=
  match b64ToBin c.data c.data.length 256 with
  | .exit => .ok none
  -- a mismatch is only logged
  | .fail => (appendTimeDiff cfg c.sized (-1)).map some
  | .ok bytes => do
      let payload ← copy c.sized.payload 0 bytes
      (appendTimeDiff cfg { c.sized with payload := payload } bytes.length).map some

/-- The packet that `jit_enqueue` is called with: for a radio chain that exists and a frequency that
is accepted. -/
def passed (cfg : TxConfig) (txpkt : LgwPktTx) : Option LgwPktTx :=
  if h : txpkt.rfChain.toNat < lgwRfChainNb then
    if checkFreq cfg ⟨_, h⟩ txpkt = .ok then some (cfg.adjusted ⟨_, h⟩ txpkt) else none
  else none

/-- `semtech_pull_down` from `txpk.size` on. -/
def handleData (cfg : PullConfig) (c : Txpk) : Except OutOfBounds (Option LgwPktTx) := do
  match ← takeData cfg c with
  | none => .ok none
  | some txpkt =>
      if txpkt.rfChain.toNat < lgwRfChainNb then do
        let _ ← dropTimeDiff cfg txpkt
        .ok (passed cfg.tx txpkt)
      else .ok none

/-- `semtech_pull_down` for a datagram of `msgLen` bytes: the packet that is passed to
`jit_enqueue`. -/
def pullDown (cfg : PullConfig) (parse : List (BitVec 8) → Option Txpk)
    (buffDown : Vector (BitVec 8) buffDownSize) (msgLen : Nat) :
    Except OutOfBounds (Option LgwPktTx) :=
  if msgLen < 4 ∨ buffDown.get 0 ≠ protocolVersion ∨
      (buffDown.get 3 ≠ pktPullResp ∧ buffDown.get 3 ≠ pktPullAck) then .ok none
  else if buffDown.get 3 = pktPullAck then .ok none
  else do
    let buffDown ← write buffDown msgLen 0#8
    match parse (cString (buffDown.toList.drop 4)) with
    | none => .ok none
    | some c => handleData cfg c

/-! ## The condition and the property -/

/-- The text that the datagram carries behind its header. -/
def datagramText (buffDown : Vector (BitVec 8) buffDownSize) (msgLen : Nat) : List (BitVec 8) :=
  cString ((buffDown.toList.take msgLen).drop 4)

/-- The datagram is a PULL_RESP. -/
structure IsPullResp (buffDown : Vector (BitVec 8) buffDownSize) (msgLen : Nat) : Prop where
  header : 4 ≤ msgLen
  version : buffDown.get 0 = protocolVersion
  id : buffDown.get 3 = pktPullResp

/-- The radio chain of the packet exists. -/
def HasChain (txpkt : LgwPktTx) : Prop := txpkt.rfChain.toNat < lgwRfChainNb

/-- The radio chain exists and supports the frequency. -/
def Accepted (tx : TxConfig) (txpkt : LgwPktTx) : Prop :=
  ∃ chain : Fin lgwRfChainNb, txpkt.rfChain.toNat = chain.val ∧ checkFreq tx chain txpkt = .ok

section Property

variable (cfg : PullConfig) (c : Txpk)

/-- What is appended to the decoded bytes. -/
def PullConfig.appended : List (BitVec 8) := if cfg.tdEnabled then cfg.timeDiff.three else []

/-- The packet holds the bytes that the data are decoded to, and what is appended to them. -/
def Txpk.Carried (pkt : LgwPktTx) : Prop :=
  ∃ bytes, b64ToBin c.data c.data.length 256 = .ok bytes ∧ pkt.size.toNat ≤ 255 ∧
    pkt.payload.toList.take pkt.size.toNat = bytes ++ cfg.appended

/-- A packet that is accepted has the size of its data. With a time difference, every size leaves
room for it and for the terminator behind it, and the decoding has not failed. -/
def Txpk.Sound : Prop :=
  match b64ToBin c.data c.data.length 256 with
  | .exit => True
  | .fail => cfg.tdEnabled = false ∧ ¬ Accepted cfg.tx c.txpkt
  | .ok bytes =>
      (cfg.tdEnabled = true →
        (c.sizeField + 3#16).toNat < 256 ∧ (HasChain c.txpkt → c.sizeField.toNat < 256)) ∧
      (Accepted cfg.tx c.txpkt → c.sizeField.toNat = bytes.length ∧ bytes.length ≤ 255)

/-- No write leaves the payload, and a packet for `jit_enqueue` holds what the text carries. -/
def Txpk.Safe : Prop :=
  ∃ result, handleData cfg c = .ok result ∧ ∀ pkt ∈ result, c.Carried cfg pkt

variable (parse : List (BitVec 8) → Option Txpk) (buffDown : Vector (BitVec 8) buffDownSize)
  (msgLen : Nat)

/-- No write leaves its array, and a packet for `jit_enqueue` holds what the datagram carries. -/
def PullSafe : Prop :=
  ∃ result, pullDown cfg parse buffDown msgLen = .ok result ∧
    ∀ pkt ∈ result, ∃ c ∈ parse (datagramText buffDown msgLen), c.Carried cfg pkt

/-- A PULL_RESP leaves room for a terminator, and what it holds is sound. -/
def PullSound : Prop :=
  IsPullResp buffDown msgLen →
    msgLen < buffDownSize ∧ ∀ c ∈ parse (datagramText buffDown msgLen), c.Sound cfg

end Property

/-! ## The text of a datagram -/

/-- A string ends at its first terminator. -/
theorem cString_append_zero (l rest : List (BitVec 8)) :
    cString (l ++ 0#8 :: rest) = cString l := by
  induction l with
  | nil => rfl
  | cons b l ih =>
      rw [List.cons_append, cString, cString, List.takeWhile_cons, List.takeWhile_cons]
      split
      · exact congrArg (List.cons b) ih
      · rfl

/-- With the terminator the parser reads nothing behind the datagram. -/
theorem cString_terminated (buffDown : Vector (BitVec 8) buffDownSize) {msgLen : Nat}
    (hheader : 4 ≤ msgLen) (hroom : msgLen < buffDownSize) :
    cString ((buffDown.set msgLen 0#8).toList.drop 4) = datagramText buffDown msgLen := by
  have hlen : buffDown.toList.length = buffDownSize := by simp
  have hfront : (buffDown.toList.take msgLen).length = msgLen :=
    List.length_take_of_le (by omega)
  rw [Vector.toList_set, List.set_eq_take_append_cons_drop, if_pos (by omega),
    List.drop_append_of_le_length (by omega), cString_append_zero]
  rfl

/-! ## The time difference -/

theorem TimeDiff.length_three (t : TimeDiff) : t.three.length = 3 := by
  rw [TimeDiff.three, List.length_take_of_le]
  simp

/-- The cells behind a text that has been written in front of zeros. -/
theorem take_three (text : List (BitVec 8)) {room rest : Nat} (hroom : 3 ≤ room)
    (hrest : 3 ≤ (text.take room ++ 0#8 :: List.replicate rest 0#8).length) :
    (text.take room ++ 0#8 :: List.replicate rest 0#8).take 3 =
      (text ++ List.replicate 3 0#8).take 3 := by
  obtain ⟨room, rfl⟩ := Nat.exists_eq_add_of_le' hroom
  match text with
  | [] =>
      obtain ⟨rest, rfl⟩ := Nat.exists_eq_add_of_le' (show 2 ≤ rest by simpa using hrest)
      rfl
  | [b0] =>
      obtain ⟨rest, rfl⟩ := Nat.exists_eq_add_of_le' (show 1 ≤ rest by simpa using hrest)
      rfl
  | [b0, b1] => rfl
  | b0 :: b1 :: b2 :: text => rfl

/-- The cells of the payload behind some bytes are zero. -/
def Filled (payload : Vector (BitVec 8) 256) (bytes : List (BitVec 8)) : Prop :=
  payload.toList = bytes ++ List.replicate (256 - bytes.length) 0#8

/-- The decoded bytes are stored at the start of a payload that has been cleared. -/
theorem copy_filled (c : Txpk) {bytes : List (BitVec 8)} (hlen : bytes.length ≤ 256) :
    ∃ payload, copy c.sized.payload 0 bytes = .ok payload ∧ Filled payload bytes := by
  obtain ⟨payload, hcopy, hlist⟩ := copy_spec c.sized.payload 0 bytes (by omega)
  refine ⟨payload, hcopy, ?_⟩
  have hzero : c.sized.payload.toList = List.replicate 256 0#8 := Vector.toList_replicate
  rw [Filled, hlist, hzero, List.drop_replicate, Nat.zero_add]
  rfl

/-- `snprintf` behind the bytes stays in the payload, and puts the first three characters there. -/
theorem snprintfAt_spec {payload : Vector (BitVec 8) 256} {bytes : List (BitVec 8)}
    (hfill : Filled payload bytes) (hlen : bytes.length ≤ 256) (t : TimeDiff) :
    ∃ payload', snprintfAt payload bytes.length t.text = .ok payload' ∧
      (bytes.length + 3 < 256 → payload'.toList.take (bytes.length + 3) = bytes ++ t.three) := by
  rw [Filled] at hfill
  by_cases hfull : bytes.length = 256
  · refine ⟨payload, ?_, by omega⟩
    rw [snprintfAt, if_pos (by omega)]
  · have hroom : ((256 : Int) - bytes.length).toNat - 1 = 255 - bytes.length := by omega
    rw [snprintfAt, if_neg (by omega), if_neg (by omega), hroom, Int.toNat_natCast]
    have hfit : bytes.length + (t.text.take (255 - bytes.length) ++ [0#8]).length ≤ 256 := by
      rw [List.length_append, List.length_take, List.length_singleton]
      omega
    obtain ⟨payload', hcopy, hlist⟩ := copy_spec payload bytes.length _ hfit
    refine ⟨payload', hcopy, fun hthree => ?_⟩
    have hsize : payload'.toList.length = 256 := by simp
    rw [hfill, List.take_left' rfl, List.drop_length_add_append, List.drop_replicate,
      List.append_assoc, List.append_assoc, List.singleton_append] at hlist
    rw [hlist, List.length_append] at hsize
    rw [hlist, List.take_length_add_append, take_three t.text (by omega) (by omega)]
    rfl

/-! ## The packet -/

section Packet

variable {cfg : PullConfig} {c : Txpk}

theorem adjusted_size (tx : TxConfig) (chain : Fin lgwRfChainNb) (txpkt : LgwPktTx) :
    (tx.adjusted chain txpkt).size = txpkt.size := by
  rw [TxConfig.adjusted, checkPower]
  split <;> rfl

theorem adjusted_payload (tx : TxConfig) (chain : Fin lgwRfChainNb) (txpkt : LgwPktTx) :
    (tx.adjusted chain txpkt).payload = txpkt.payload := by
  rw [TxConfig.adjusted, checkPower]
  split <;> rfl

theorem mem_passed_iff {tx : TxConfig} {txpkt pkt : LgwPktTx} : pkt ∈ passed tx txpkt ↔
    ∃ chain : Fin lgwRfChainNb, txpkt.rfChain.toNat = chain.val ∧ checkFreq tx chain txpkt = .ok ∧
      tx.adjusted chain txpkt = pkt := by
  rw [passed]
  constructor
  · intro hmem
    split_ifs at hmem with hchain hfreq
    · exact ⟨⟨_, hchain⟩, rfl, hfreq, Option.some.inj hmem⟩
    · cases hmem
    · cases hmem
  · rintro ⟨chain, hchain, hfreq, rfl⟩
    have hlt : txpkt.rfChain.toNat < lgwRfChainNb := hchain ▸ chain.isLt
    have heq : (⟨txpkt.rfChain.toNat, hlt⟩ : Fin lgwRfChainNb) = chain := Fin.ext hchain
    rw [dif_pos hlt, heq, if_pos hfreq]
    rfl

/-- The check of the power leaves the payload alone, so a packet that is passed on carries the data
when the parsed one does. -/
theorem forall_passed_carried_iff {txpkt : LgwPktTx} :
    (∀ pkt ∈ passed cfg.tx txpkt, c.Carried cfg pkt) ↔
      (Accepted cfg.tx txpkt → c.Carried cfg txpkt) := by
  have hsame : ∀ chain, c.Carried cfg (cfg.tx.adjusted chain txpkt) ↔ c.Carried cfg txpkt := by
    intro chain
    rw [Txpk.Carried, Txpk.Carried, adjusted_size, adjusted_payload]
  constructor
  · rintro hall ⟨chain, hchain, hfreq⟩
    exact (hsame chain).1 (hall _ (mem_passed_iff.2 ⟨chain, hchain, hfreq, rfl⟩))
  · intro hcarried pkt hmem
    obtain ⟨chain, hchain, hfreq, rfl⟩ := mem_passed_iff.1 hmem
    exact (hsame chain).2 (hcarried ⟨chain, hchain, hfreq⟩)

theorem Accepted.hasChain {tx : TxConfig} {txpkt : LgwPktTx} (h : Accepted tx txpkt) :
    HasChain txpkt := by
  obtain ⟨chain, hchain, -⟩ := h
  rw [HasChain, hchain]
  exact chain.isLt

/-- Nothing goes wrong for a packet just when the terminator for the header stays in the payload,
and the packet carries the data. -/
theorem safe_of_takeData {txpkt : LgwPktTx} (htake : takeData cfg c = .ok (some txpkt)) :
    c.Safe cfg ↔ (HasChain txpkt → ∃ dropped, dropTimeDiff cfg txpkt = .ok dropped) ∧
      (Accepted cfg.tx txpkt → c.Carried cfg txpkt) := by
  rw [← forall_passed_carried_iff, Txpk.Safe, handleData, htake, ok_bind]
  show (∃ result, (if txpkt.rfChain.toNat < lgwRfChainNb then do
    let _ ← dropTimeDiff cfg txpkt
    .ok (passed cfg.tx txpkt) else .ok none) = .ok result ∧ _) ↔ _
  by_cases hchain : txpkt.rfChain.toNat < lgwRfChainNb
  · rw [if_pos hchain]
    constructor
    · rintro ⟨result, hresult, hall⟩
      obtain ⟨dropped, hdropped, hpassed⟩ := bind_eq_ok.1 hresult
      cases hpassed
      exact ⟨fun _ => ⟨dropped, hdropped⟩, hall⟩
    · rintro ⟨hdrop, hall⟩
      obtain ⟨dropped, hdropped⟩ := hdrop hchain
      exact ⟨_, bind_eq_ok.2 ⟨dropped, hdropped, rfl⟩, hall⟩
  · rw [if_neg hchain]
    refine iff_of_true ⟨none, rfl, by simp⟩ ⟨fun h => absurd h hchain, ?_⟩
    rw [forall_passed_carried_iff]
    exact fun h => absurd h.hasChain hchain

theorem not_safe_of_error {e : OutOfBounds} (htake : takeData cfg c = .error e) :
    ¬ c.Safe cfg := by
  rintro ⟨result, hresult, -⟩
  rw [handleData, htake] at hresult
  cases hresult

/-- Without a time difference the packet is passed on as it is. -/
theorem safe_of_plain (htd : cfg.tdEnabled = false) {txpkt : LgwPktTx}
    (htake : takeData cfg c = .ok (some txpkt)) :
    c.Safe cfg ↔ (Accepted cfg.tx txpkt → c.Carried cfg txpkt) := by
  have hdrop : dropTimeDiff cfg txpkt = .ok txpkt := by
    rw [dropTimeDiff, htd]
    rfl
  rw [safe_of_takeData htake]
  exact and_iff_right fun _ => ⟨txpkt, hdrop⟩

/-- Data that are not decoded do no harm just when the packet is not accepted and nothing is
appended. The offset `-1` is in front of the payload. -/
theorem safe_iff_of_fail (hfail : b64ToBin c.data c.data.length 256 = .fail) :
    c.Safe cfg ↔ cfg.tdEnabled = false ∧ ¬ Accepted cfg.tx c.txpkt := by
  have htake : takeData cfg c = (appendTimeDiff cfg c.sized (-1)).map some := by
    rw [takeData, hfail]
  cases htd : cfg.tdEnabled with
  | true =>
      have hbehind : takeData cfg c = .error ⟨-1, 256⟩ := by
        rw [htake, appendTimeDiff, htd]
        rfl
      exact iff_of_false (not_safe_of_error hbehind) fun h => Bool.noConfusion h.1
  | false =>
      rw [appendTimeDiff, htd] at htake
      rw [safe_of_plain htd htake, and_iff_right rfl]
      have hnot : ¬ c.Carried cfg c.sized := by
        rintro ⟨bytes, hok, -⟩
        rw [hfail] at hok
        cases hok
      exact ⟨fun h hacc => hnot (h hacc), fun h hacc => absurd hacc h⟩

/-- A packet carries the data just when its first cells are theirs. -/
theorem carried_iff {bytes : List (BitVec 8)} {pkt : LgwPktTx}
    (hok : b64ToBin c.data c.data.length 256 = .ok bytes) :
    c.Carried cfg pkt ↔ pkt.size.toNat ≤ 255 ∧
      pkt.payload.toList.take pkt.size.toNat = bytes ++ cfg.appended := by
  constructor
  · rintro ⟨bytes', hok', hcarried⟩
    rw [hok] at hok'
    cases hok'
    exact hcarried
  · exact fun hcarried => ⟨bytes, hok, hcarried⟩

/-- The size is then the number of bytes. -/
theorem Carried.size_eq {bytes : List (BitVec 8)} {pkt : LgwPktTx} (hle : pkt.size.toNat ≤ 255)
    (htake : pkt.payload.toList.take pkt.size.toNat = bytes) : pkt.size.toNat = bytes.length := by
  rw [← htake, List.length_take_of_le]
  rw [Vector.length_toList]
  omega

/-- The decoded bytes are all of the packet, or a part of it. -/
theorem safe_iff_of_plain {bytes : List (BitVec 8)} (htd : cfg.tdEnabled = false)
    (hok : b64ToBin c.data c.data.length 256 = .ok bytes) :
    c.Safe cfg ↔ (Accepted cfg.tx c.txpkt →
      c.sizeField.toNat = bytes.length ∧ bytes.length ≤ 255) := by
  obtain ⟨payload, hcopy, hfill⟩ := copy_filled c (length_b64ToBin_le hok)
  have htake : takeData cfg c = .ok (some { c.sized with payload := payload }) := by
    rw [takeData, hok]
    simp only [hcopy, ok_bind, appendTimeDiff, htd]
    rfl
  have hnone : cfg.appended = [] := by
    rw [PullConfig.appended, htd]
    rfl
  rw [safe_of_plain htd htake, carried_iff hok, hnone, List.append_nil]
  refine forall_congr' fun _ => ?_
  constructor
  · rintro ⟨hle, hcells⟩
    have hsize := Carried.size_eq hle hcells
    exact ⟨hsize, hsize ▸ hle⟩
  · rintro ⟨hsize, hle⟩
    refine ⟨hsize.symm ▸ hle, ?_⟩
    show payload.toList.take c.sizeField.toNat = bytes
    rw [hfill, hsize]
    exact List.take_left' rfl

/-- With a time difference the two terminators stay in the payload just when the sizes do, and the
packet has the size of its data and three more. -/
theorem safe_iff_of_timeDiff {bytes : List (BitVec 8)} (htd : cfg.tdEnabled = true)
    (hok : b64ToBin c.data c.data.length 256 = .ok bytes) :
    c.Safe cfg ↔
      ((c.sizeField + 3#16).toNat < 256 ∧ (HasChain c.txpkt → c.sizeField.toNat < 256)) ∧
      (Accepted cfg.tx c.txpkt → c.sizeField.toNat = bytes.length ∧ bytes.length ≤ 255) := by
  have hlen := length_b64ToBin_le hok
  obtain ⟨payload, hcopy, hfill⟩ := copy_filled c hlen
  obtain ⟨printed, hprint, hthree⟩ := snprintfAt_spec hfill hlen cfg.timeDiff
  have happended : cfg.appended = cfg.timeDiff.three := by
    rw [PullConfig.appended, htd]
    rfl
  have hsize : c.sized.size = c.sizeField := rfl
  have htake : takeData cfg c = (write printed (c.sizeField + 3#16).toNat 0#8).map fun payload =>
      some { c.sized with size := c.sizeField + 3#16, payload := payload } := by
    rw [takeData, hok]
    simp only [hcopy, ok_bind, appendTimeDiff, htd, if_true, hprint, hsize]
    cases hwrite : write printed (c.sizeField + 3#16).toNat 0#8 with
    | error e => rfl
    | ok payload => rfl
  -- the first terminator is written at the size with the three bytes, the second at the size
  by_cases hroom : (c.sizeField + 3#16).toNat < 256
  · rw [write_ok printed 0#8 hroom] at htake
    rw [safe_of_takeData htake, carried_iff hok, happended, and_iff_right hroom]
    have hback : c.sizeField + 3#16 - 3#16 = c.sizeField := BitVec.add_sub_cancel _ _
    have hdrop : (∃ dropped, dropTimeDiff cfg { c.sized with
        size := c.sizeField + 3#16, payload := printed.set (c.sizeField + 3#16).toNat 0#8 } =
          .ok dropped) ↔ c.sizeField.toNat < 256 := by
      rw [dropTimeDiff, htd, if_pos rfl]
      simp only [hback, write]
      split
      · next hlt => exact iff_of_true ⟨_, rfl⟩ hlt
      · next hlt =>
        refine iff_of_false ?_ hlt
        rintro ⟨dropped, hdropped⟩
        cases hdropped
    apply and_congr (imp_congr_right fun _ => hdrop)
    have hsum : (c.sizeField + 3#16).toNat = (c.sizeField.toNat + 3) % 2 ^ 16 :=
      BitVec.toNat_add _ _
    have hfield := c.sizeField.isLt
    refine forall_congr' fun _ => ?_
    constructor
    · rintro ⟨hle, hcells⟩
      have htotal := Carried.size_eq hle hcells
      rw [List.length_append, TimeDiff.length_three] at htotal
      have hfew : (c.sizeField + 3#16).toNat = bytes.length + 3 := htotal
      omega
    · rintro ⟨hfew, hle⟩
      have htotal : (c.sizeField + 3#16).toNat = bytes.length + 3 := by omega
      refine ⟨Nat.le_of_lt_succ hroom, ?_⟩
      show (printed.set (c.sizeField + 3#16).toNat 0#8).toList.take (c.sizeField + 3#16).toNat = _
      rw [Vector.toList_set, List.take_set_of_le le_rfl, htotal]
      exact hthree (htotal ▸ hroom)
  · rw [write, dif_neg hroom] at htake
    exact iff_of_false (not_safe_of_error htake) fun h => hroom h.1.1

end Packet

/-- A text does no harm just when it is sound. -/
theorem safe_iff_sound (cfg : PullConfig) (c : Txpk) : c.Safe cfg ↔ c.Sound cfg := by
  rw [Txpk.Sound]
  cases hdec : b64ToBin c.data c.data.length 256 with
  | exit =>
      refine iff_of_true ⟨none, ?_, by simp⟩ trivial
      rw [handleData, takeData, hdec]
      rfl
  | fail => exact safe_iff_of_fail hdec
  | ok bytes =>
      cases htd : cfg.tdEnabled with
      | true =>
          rw [safe_iff_of_timeDiff htd hdec]
          simp
      | false =>
          rw [safe_iff_of_plain htd hdec]
          simp

/-! ## What is passed on -/

/-! ## Datagrams -/

/-- A datagram that is no PULL_RESP passes nothing on. -/
theorem pullDown_ignored (cfg : PullConfig) (parse : List (BitVec 8) → Option Txpk)
    {buffDown : Vector (BitVec 8) buffDownSize} {msgLen : Nat} (h : ¬ IsPullResp buffDown msgLen) :
    pullDown cfg parse buffDown msgLen = .ok none := by
  rw [pullDown]
  split_ifs with hinvalid hack
  · rfl
  · rfl
  · -- neither ignored nor acknowledged
    push Not at hinvalid
    obtain ⟨hheader, hversion, hid⟩ := hinvalid
    exact absurd ⟨hheader, hversion, by_contra fun hne => hack (hid hne)⟩ h

/-- A PULL_RESP gets its terminator before it is parsed. -/
theorem pullDown_pullResp (cfg : PullConfig) (parse : List (BitVec 8) → Option Txpk)
    {buffDown : Vector (BitVec 8) buffDownSize} {msgLen : Nat} (h : IsPullResp buffDown msgLen) :
    pullDown cfg parse buffDown msgLen = (do
      let buffDown ← write buffDown msgLen 0#8
      match parse (cString (buffDown.toList.drop 4)) with
      | none => .ok none
      | some c => handleData cfg c) := by
  have hid : buffDown.get 3 ≠ pktPullAck := by
    rw [h.id]
    decide
  rw [pullDown, if_neg, if_neg hid]
  rintro (hshort | hversion | ⟨hresp, -⟩)
  · exact absurd h.header (Nat.not_le.2 hshort)
  · exact hversion h.version
  · exact hresp h.id

/-- No write leaves its array, and a packet for `jit_enqueue` holds what the datagram carries, just
when the datagram is shorter than `buff_down` and its text is sound. -/
theorem pullSafe_iff (cfg : PullConfig) (parse : List (BitVec 8) → Option Txpk)
    (buffDown : Vector (BitVec 8) buffDownSize) (msgLen : Nat) :
    PullSafe cfg parse buffDown msgLen ↔ PullSound cfg parse buffDown msgLen := by
  rw [PullSafe, PullSound]
  by_cases hresp : IsPullResp buffDown msgLen
  · rw [pullDown_pullResp cfg parse hresp, imp_iff_right hresp]
    by_cases hroom : msgLen < buffDownSize
    · rw [write_ok buffDown 0#8 hroom, and_iff_right hroom]
      simp only [ok_bind, cString_terminated buffDown hresp.header hroom]
      cases parse (datagramText buffDown msgLen) with
      | none => simp
      | some c => simpa [Txpk.Safe] using safe_iff_sound cfg c
    · -- the terminator is behind the buffer
      rw [write, dif_neg hroom]
      refine iff_of_false ?_ fun h => hroom h.1
      rintro ⟨result, hresult, -⟩
      cases hresult
  · rw [pullDown_ignored cfg parse hresp]
    exact iff_of_true ⟨none, rfl, by simp⟩
      fun h => absurd h hresp

/-! ## A datagram of 1000 bytes -/

/-- No time difference is appended. -/
def bareConfig : PullConfig where
  tx := scanConfig
  tdEnabled := false
  timeDiff := ⟨[0x38#8], by decide, by decide⟩

/-- The header of a PULL_RESP, and blanks. -/
def blankPullResp : Vector (BitVec 8) buffDownSize :=
  ((Vector.replicate buffDownSize 32#8).set 0 protocolVersion).set 3 pktPullResp

/-- A PULL_RESP that fills `buff_down` is terminated behind it, whatever its text is. -/
theorem longest_pullResp_overflows :
    ¬ ∀ cfg parse buffDown msgLen, 1 ≤ msgLen → msgLen ≤ buffDownSize →
      PullSafe cfg parse buffDown msgLen := by
  intro hall
  have hresp : IsPullResp blankPullResp buffDownSize :=
    ⟨by decide, by decide +kernel, by decide +kernel⟩
  obtain ⟨result, hresult, -⟩ :=
    hall bareConfig (fun _ => none) blankPullResp buffDownSize (by decide) le_rfl
  rw [pullDown_pullResp _ _ hresp, write, dif_neg (Nat.lt_irrefl _)] at hresult
  cases hresult

end DraginoFwd.Service

import DraginoFwd.Jit.Entries

/-!
# Listen before talk: the slots of the channel scan

With `lbt_tty_enabled` a downlink takes a slot in `lbt_stat` before it goes to the transmit queue,
`thread_lbt_scan` measures the channel of every slot that is due, and `thread_jit` looks the slot
up by the time stamp of the packet that it has dequeued. A packet without a slot is not sent.

The two tables are kept together by nothing but the order of these calls. A downlink of class A or
B keeps its slot until the lookup, unless a slot is taken or cleared that it still needs
(`reachable_registered`). `cleared_slot_unregistered` is the run of one packet that is scheduled
further ahead than the ten seconds after which the scan clears slots.
-/

set_option autoImplicit false

namespace DraginoFwd.Jit

open DraginoFwd.Hal
open DraginoFwd.Lib.Memory
open DraginoFwd.Lib.SerialClock
open DraginoFwd.Lib.Transition

/-- `NB_LBT_QUEUE` -/
abbrev nbLbtQueue : Nat := 8
/-- `LGW_RF_CHAIN_NB` -/
abbrev lgwRfChainNb : Nat := 2

instance : NeZero nbLbtQueue := ⟨by decide⟩

instance : NeZero lgwRfChainNb := ⟨by decide⟩

/-- `struct lbt_chan_stat` -/
structure LbtChanStat where
  freqHz : BitVec 32
  countUs : BitVec 32
  chanIsFree : Bool
  deriving DecidableEq

/-- `lbt_stat` -/
abbrev LbtStat := Fin nbLbtQueue → LbtChanStat

/-- The slot is the one of the packet. -/
def LbtChanStat.IsFor (slot : LbtChanStat) (pkt : LgwPktTx) : Prop :=
  slot.countUs = pkt.countUs ∧ slot.freqHz = pkt.freqHz

instance (slot : LbtChanStat) (pkt : LgwPktTx) : Decidable (slot.IsFor pkt) :=
  inferInstanceAs (Decidable (_ ∧ _))

/-- The slot that `lbt_enqueue` takes: the first one that lies before the current time. -/
def lbtFreeSlot (lbtStat : LbtStat) (timeUs : BitVec 32) : Option (Fin nbLbtQueue) :=
  (List.finRange nbLbtQueue).find? fun i => (lbtStat i).countUs < timeUs

/-- `lbt_enqueue` -/
def lbtEnqueue (lbtStat : LbtStat) (packet : LgwPktTx) (timeUs : BitVec 32) : JitError × LbtStat :=
  match lbtFreeSlot lbtStat timeUs with
  | some i => (.ok, Function.update lbtStat i ⟨packet.freqHz, packet.countUs, false⟩)
  | none => (.full, lbtStat)

/-- One iteration of the loop of `thread_lbt_scan`, with the time that the pass has started at and
the answer of `lbt_getchan_stat`. -/
def lbtScanSlot (slot : LbtChanStat) (timeUs : BitVec 32) (free : Bool) : LbtChanStat :=
  let diffTime := slot.countUs - timeUs
  let slot :=
    if 40000#32 < diffTime ∧ diffTime < 120000#32 then { slot with chanIsFree := free } else slot
  if 10000000#32 < diffTime then { slot with countUs := 0#32 } else slot

/-- The lookup of `thread_jit`: `chan_is_free` of the first slot with the time stamp. -/
def lbtLookup (lbtStat : LbtStat) (countUs : BitVec 32) : Option Bool :=
  ((List.finRange nbLbtQueue).find? fun j => countUs = (lbtStat j).countUs).map fun j =>
    (lbtStat j).chanIsFree

/-- A downlink of `semtech_pull_down` between `lbt_enqueue` and `jit_enqueue`, with the code of the
former. -/
structure PendingDown where
  rfChain : Fin lgwRfChainNb
  timeUs : BitVec 32
  packet : LgwPktTx
  downlinkType : JitPktType
  jitResult : JitError

/-- Where `thread_jit` is: before a peek, between a peek and its dequeue, or between a dequeue and
the end of the iteration. -/
inductive JitThread where
  | idle
  | peeked (rfChain : Fin lgwRfChainNb) (index : Fin jitQueueMax)
  | dequeued (pkt : LgwPktTx) (pktType : JitPktType)
  deriving DecidableEq

/-- The slots, the queues of the two radio chains, the downlinks between their two calls, and
`thread_jit`. -/
structure LbtState where
  lbtStat : LbtStat
  queues : Fin lgwRfChainNb → JitQueue
  pending : List PendingDown
  jit : JitThread

/-- A step of one of the threads. `pull` and `enqueue` are the two calls of `semtech_pull_down`,
`custom` is the one of `custom_rx2dn` and `beacon` that of the beacon loop. -/
inductive LbtEvent where
  | pull (rfChain : Fin lgwRfChainNb) (timeUs : BitVec 32) (packet : LgwPktTx)
      (downlinkType : JitPktType)
  | enqueue (k : Nat)
  | custom (timeUs : BitVec 32) (packet : LgwPktTx) (downlinkType : JitPktType)
  | beacon (timeUs : BitVec 32) (packet : LgwPktTx)
  | scan (i : Fin nbLbtQueue) (timeUs : BitVec 32) (free : Bool)
  | peek (rfChain : Fin lgwRfChainNb) (timeUs : BitVec 32)
  | dequeue
  | finish

/-- Replace the queue of a radio chain. -/
def LbtState.setQueue (s : LbtState) (rfChain : Fin lgwRfChainNb) (q : JitQueue) : LbtState :=
  { s with queues := Function.update s.queues rfChain q }

/-- The state after a `jit_enqueue`. -/
def LbtState.jitEnqueue (tgt : Target) (s : LbtState) (rfChain : Fin lgwRfChainNb)
    (timeUs : BitVec 32) (packet : LgwPktTx) (pktType : JitPktType) : Option LbtState :=
  match Jit.jitEnqueue tgt (s.queues rfChain) timeUs packet pktType with
  | .ok (_, _, q) => some (s.setQueue rfChain q)
  | .error _ => none

/-- One step, where it can happen and stays inside the array of the queue. -/
def lbtStep (tgt : Target) (s : LbtState) : LbtEvent → Option LbtState
  | .pull rfChain timeUs packet downlinkType =>
      if downlinkType = .beacon then none
      else
        let result := lbtEnqueue s.lbtStat packet timeUs
        let down := ⟨rfChain, timeUs, packet, downlinkType, result.1⟩
        some { s with lbtStat := result.2, pending := down :: s.pending }
  | .enqueue k =>
      s.pending[k]?.bind fun down =>
        { s with pending := s.pending.eraseIdx k }.jitEnqueue tgt down.rfChain down.timeUs
          down.packet down.downlinkType
  | .custom timeUs packet downlinkType =>
      if downlinkType = .beacon then none else s.jitEnqueue tgt 0 timeUs packet downlinkType
  | .beacon timeUs packet => s.jitEnqueue tgt 0 timeUs packet .beacon
  | .scan i timeUs free =>
      some { s with
        lbtStat := Function.update s.lbtStat i (lbtScanSlot (s.lbtStat i) timeUs free) }
  | .peek rfChain timeUs =>
      match s.jit with
      | .idle =>
          let (_, index, q) := jitPeek (s.queues rfChain) timeUs
          let s := s.setQueue rfChain q
          match index with
          | some index => some { s with jit := .peeked rfChain index }
          | none => some s
      | _ => none
  | .dequeue =>
      match s.jit with
      | .peeked rfChain index =>
          match jitDequeue (s.queues rfChain) index.val with
          | .ok (_, some (pkt, pktType), q) =>
              some { s.setQueue rfChain q with jit := .dequeued pkt pktType }
          | .ok (_, none, q) => some { s.setQueue rfChain q with jit := .idle }
          | .error _ => none
      | _ => none
  | .finish =>
      match s.jit with
      | .dequeued _ _ => some { s with jit := .idle }
      | _ => none

/-- Cleared slots, empty queues, and nothing under way. -/
def lbtStart : LbtState where
  lbtStat _ := ⟨0#32, 0#32, false⟩
  queues _ := jitQueueInit
  pending := []
  jit := .idle

/-! ## The condition and the property -/

/-- Between dequeue and lookup every packet that is no beacon has its slot, with its time stamp and
its frequency, and the lookup finds a slot. -/
def LbtState.Registered (s : LbtState) : Prop :=
  ∀ pkt pktType, s.jit = .dequeued pkt pktType → pktType ≠ .beacon →
    (∃ i, (s.lbtStat i).IsFor pkt) ∧ (lbtLookup s.lbtStat pkt.countUs).isSome

/-- The packets that need their slot: queued and no beacon, on the way to the queue with a slot and
a time stamp, or dequeued and no beacon. -/
def LbtState.waiting (s : LbtState) : List LgwPktTx :=
  ((List.finRange lgwRfChainNb).flatMap fun c =>
    ((s.queues c).entries.filter fun n => n.pktType ≠ .beacon).map fun n => n.pkt) ++
  ((s.pending.filter fun d => d.jitResult = .ok ∧ d.downlinkType ≠ .downlinkClassC).map
    fun d => d.packet) ++
  match s.jit with
  | .dequeued pkt pktType => if pktType = .beacon then [] else [pkt]
  | _ => []

/-- The slot is not the only one of a packet that needs it. -/
def LbtState.Spare (s : LbtState) (i : Fin nbLbtQueue) : Prop :=
  ∀ pkt ∈ s.waiting, (s.lbtStat i).IsFor pkt → ∃ j, j ≠ i ∧ (s.lbtStat j).IsFor pkt

instance (s : LbtState) (i : Fin nbLbtQueue) : Decidable (s.Spare i) :=
  inferInstanceAs (Decidable (∀ pkt ∈ s.waiting, _))

/-- `jit_enqueue` puts the packet into the queue. -/
def LbtState.accepts (tgt : Target) (s : LbtState) (rfChain : Fin lgwRfChainNb)
    (timeUs : BitVec 32) (packet : LgwPktTx) (pktType : JitPktType) : Bool :=
  match Jit.jitEnqueue tgt (s.queues rfChain) timeUs packet pktType with
  | .ok (.ok, _, _) => true
  | _ => false

/-- The condition on a step. A slot that is taken or cleared is spare; a packet that gets into the
queue has been given a slot and keeps its time stamp there, and none of them comes from
`custom_rx2dn`; the index of a dequeue is that of a node in use. -/
def KeepsSlots (tgt : Target) (s : LbtState) : LbtEvent → Prop
  | .pull _ timeUs _ _ => ∀ i ∈ lbtFreeSlot s.lbtStat timeUs, s.Spare i
  | .enqueue k => ∀ d ∈ s.pending[k]?,
      s.accepts tgt d.rfChain d.timeUs d.packet d.downlinkType →
        d.jitResult = .ok ∧ d.downlinkType ≠ .downlinkClassC
  | .custom timeUs packet downlinkType => s.accepts tgt 0 timeUs packet downlinkType = false
  | .scan i timeUs _ => 10000000#32 < (s.lbtStat i).countUs - timeUs → s.Spare i
  | .dequeue => ∀ rfChain index, s.jit = .peeked rfChain index →
      index.val < (s.queues rfChain).numPkt.toNat
  | .beacon _ _ | .peek _ _ | .finish => True

instance (tgt : Target) (s : LbtState) : ∀ e, Decidable (KeepsSlots tgt s e)
  | .pull _ _ _ _ => inferInstanceAs (Decidable (∀ i ∈ (_ : Option _), _))
  | .enqueue _ => inferInstanceAs (Decidable (∀ d ∈ (_ : Option _), _))
  | .custom _ _ _ => inferInstanceAs (Decidable (_ = false))
  | .scan _ _ _ => inferInstanceAs (Decidable (_ → _))
  | .dequeue => inferInstanceAs (Decidable (∀ _ _, _ → _))
  | .beacon _ _ | .peek _ _ | .finish => inferInstanceAs (Decidable True)

/-! ## Slots -/

/-- A packet with a slot has one after the write to slot `i`, when that slot was spare or still is
the one of the packet. -/
theorem exists_isFor_update {lbtStat : LbtStat} {i : Fin nbLbtQueue} {slot : LbtChanStat}
    {pkt : LgwPktTx} (hslot : ∃ j, (lbtStat j).IsFor pkt)
    (hspare : (lbtStat i).IsFor pkt → slot.IsFor pkt ∨ ∃ j, j ≠ i ∧ (lbtStat j).IsFor pkt) :
    ∃ j, (Function.update lbtStat i slot j).IsFor pkt := by
  have hother : (∃ j, j ≠ i ∧ (lbtStat j).IsFor pkt) →
      ∃ j, (Function.update lbtStat i slot j).IsFor pkt := by
    rintro ⟨j, hj, hfor⟩
    exact ⟨j, by rwa [Function.update_of_ne hj]⟩
  obtain ⟨j, hfor⟩ := hslot
  by_cases hj : j = i
  · subst hj
    rcases hspare hfor with hnew | hold
    · exact ⟨j, by rwa [Function.update_self]⟩
    · exact hother hold
  · exact hother ⟨j, hj, hfor⟩

/-- The lookup finds a slot with the time stamp when there is one. -/
theorem lbtLookup_isSome {lbtStat : LbtStat} {pkt : LgwPktTx}
    (h : ∃ i, (lbtStat i).IsFor pkt) : (lbtLookup lbtStat pkt.countUs).isSome := by
  obtain ⟨i, hcount, -⟩ := h
  rw [lbtLookup, Option.isSome_map, List.find?_isSome]
  exact ⟨i, List.mem_finRange i, by simp [hcount]⟩

/-- A successful `lbt_enqueue` leaves a slot for its packet. -/
theorem lbtEnqueue_slot {lbtStat : LbtStat} {packet : LgwPktTx} {timeUs : BitVec 32}
    (h : (lbtEnqueue lbtStat packet timeUs).1 = .ok) :
    ∃ i, ((lbtEnqueue lbtStat packet timeUs).2 i).IsFor packet := by
  unfold lbtEnqueue at h ⊢
  split
  · next i hfree => exact ⟨i, by simp [LbtChanStat.IsFor]⟩
  · next hnone =>
    rw [hnone] at h
    cases h

/-- `lbt_enqueue` takes a slot from no packet but those that the slot is the one of. -/
theorem lbtEnqueue_keeps {lbtStat : LbtStat} {packet pkt : LgwPktTx} {timeUs : BitVec 32}
    (hslot : ∃ j, (lbtStat j).IsFor pkt)
    (hspare : ∀ i ∈ lbtFreeSlot lbtStat timeUs, (lbtStat i).IsFor pkt →
      ∃ j, j ≠ i ∧ (lbtStat j).IsFor pkt) :
    ∃ i, ((lbtEnqueue lbtStat packet timeUs).2 i).IsFor pkt := by
  unfold lbtEnqueue
  split
  · next i hfree => exact exists_isFor_update hslot fun hfor => Or.inr (hspare i hfree hfor)
  · exact hslot

/-- A scan changes the time stamp of a slot only when it lies more than ten seconds ahead. -/
theorem lbtScanSlot_isFor {slot : LbtChanStat} {timeUs : BitVec 32} {pkt : LgwPktTx} (free : Bool)
    (h : slot.IsFor pkt) (hnear : ¬ 10000000#32 < slot.countUs - timeUs) :
    (lbtScanSlot slot timeUs free).IsFor pkt := by
  simp only [lbtScanSlot, if_neg hnear]
  split <;> exact h

/-! ## The packets that need a slot -/

/-- Membership in the list of packets that need their slot. -/
theorem LbtState.mem_waiting {s : LbtState} {pkt : LgwPktTx} :
    pkt ∈ s.waiting ↔
      (∃ c, ∃ n ∈ (s.queues c).entries, n.pktType ≠ .beacon ∧ n.pkt = pkt) ∨
      (∃ d ∈ s.pending, d.jitResult = .ok ∧ d.downlinkType ≠ .downlinkClassC ∧ d.packet = pkt) ∨
      ∃ pktType, s.jit = .dequeued pkt pktType ∧ pktType ≠ .beacon := by
  have hjit : (pkt ∈ match s.jit with
      | .dequeued pkt pktType => if pktType = JitPktType.beacon then [] else [pkt]
      | _ => []) ↔ ∃ pktType, s.jit = .dequeued pkt pktType ∧ pktType ≠ .beacon := by
    cases s.jit with
    | dequeued p t => by_cases ht : t = JitPktType.beacon <;> simp [ht, eq_comm]
    | _ => simp
  rw [waiting, List.mem_append, List.mem_append, hjit, or_assoc]
  simp [and_assoc]

/-- What a run keeps: the counters of the queues are in range, and every packet that needs a slot
has one. -/
structure LbtInv (s : LbtState) : Prop where
  bounded : ∀ c, (s.queues c).Bounded
  slots : ∀ pkt ∈ s.waiting, ∃ i, (s.lbtStat i).IsFor pkt

theorem lbtInv_lbtStart : LbtInv lbtStart where
  bounded _ := bounded_jitQueueInit
  slots := by
    intro pkt hpkt
    rcases LbtState.mem_waiting.1 hpkt with ⟨_, _, hn, -⟩ | ⟨_, hd, -⟩ | ⟨_, hjit, -⟩
    · cases hn
    · cases hd
    · cases hjit

theorem LbtInv.registered {s : LbtState} (h : LbtInv s) : s.Registered := by
  intro pkt pktType hjit htype
  have hslot := h.slots pkt (LbtState.mem_waiting.2 (Or.inr (Or.inr ⟨pktType, hjit, htype⟩)))
  exact ⟨hslot, lbtLookup_isSome hslot⟩

/-- A new queue keeps the invariant when the packets that are new in it have slots. -/
theorem LbtInv.setQueue {s : LbtState} (h : LbtInv s) {rfChain : Fin lgwRfChainNb} {q : JitQueue}
    (hq : q.Bounded) (hnew : ∀ n ∈ q.entries, n.pktType ≠ .beacon →
      n ∈ (s.queues rfChain).entries ∨ ∃ i, (s.lbtStat i).IsFor n.pkt) :
    LbtInv (s.setQueue rfChain q) where
  bounded := by
    intro c
    by_cases hc : c = rfChain
    · subst hc
      simpa [LbtState.setQueue] using hq
    · simpa [LbtState.setQueue, hc] using h.bounded c
  slots := by
    intro pkt hpkt
    show ∃ i, (s.lbtStat i).IsFor pkt
    rcases LbtState.mem_waiting.1 hpkt with ⟨c, n, hn, htype, rfl⟩ | hrest
    · -- queued
      have hold : n ∈ (s.queues c).entries → ∃ i, (s.lbtStat i).IsFor n.pkt := fun hmem =>
        h.slots n.pkt (LbtState.mem_waiting.2 (Or.inl ⟨c, n, hmem, htype, rfl⟩))
      by_cases hc : c = rfChain
      · subst hc
        have hn' : n ∈ q.entries := by simpa [LbtState.setQueue] using hn
        rcases hnew n hn' htype with hmem | hslot
        · exact hold hmem
        · exact hslot
      · exact hold (by simpa [LbtState.setQueue, hc] using hn)
    · -- on the way to the queue, or dequeued
      exact h.slots pkt (LbtState.mem_waiting.2 (Or.inr hrest))

/-- New slots, downlinks under way and a new position of `thread_jit` keep the invariant when all
packets that need a slot have one. -/
theorem LbtInv.of_slots {s s' : LbtState} (h : LbtInv s) (hqueues : s'.queues = s.queues)
    (hslots : ∀ pkt ∈ s'.waiting, ∃ i, (s'.lbtStat i).IsFor pkt) : LbtInv s' :=
  ⟨by rw [hqueues]; exact h.bounded, hslots⟩

/-- What a `jit_enqueue` can do: turn the packet away, or insert it. -/
theorem LbtState.jitEnqueue_effect {tgt : Target} {s s' : LbtState} {c : Fin lgwRfChainNb}
    {timeUs : BitVec 32} {packet : LgwPktTx} {pktType : JitPktType} (hb : (s.queues c).Bounded)
    (h : s.jitEnqueue tgt c timeUs packet pktType = some s') :
    (s.accepts tgt c timeUs packet pktType = false ∧ s' = s.setQueue c (s.queues c)) ∨
    (s.accepts tgt c timeUs packet pktType = true ∧ (s.queues c).numPkt.toNat < jitQueueMax ∧
      ∃ q, s' = s.setQueue c q ∧
        Inserted (s.queues c) (jitNode tgt (s.queues c) timeUs packet pktType) q) := by
  rcases jitEnqueue_spec tgt hb timeUs packet pktType with
    ⟨e, pkt', he, heq⟩ | ⟨hroom, -, pkt', q, heq, hins⟩
  · rw [LbtState.jitEnqueue, heq] at h
    cases h
    refine Or.inl ⟨?_, rfl⟩
    rw [accepts, heq]
    cases e with
    | ok => exact absurd rfl he
    | _ => rfl
  · rw [LbtState.jitEnqueue, heq] at h
    cases h
    refine Or.inr ⟨?_, hroom, q, rfl, hins⟩
    rw [accepts, heq]

/-- A `jit_enqueue` keeps the invariant when a packet that it accepts is a beacon or has a slot and
keeps its time stamp. -/
theorem LbtInv.jitEnqueue {tgt : Target} {s s' : LbtState} (h : LbtInv s)
    {c : Fin lgwRfChainNb} {timeUs : BitVec 32} {packet : LgwPktTx} {pktType : JitPktType}
    (hok : s.accepts tgt c timeUs packet pktType = true → pktType ≠ .beacon →
      pktType ≠ .downlinkClassC ∧ ∃ i, (s.lbtStat i).IsFor packet)
    (hstep : s.jitEnqueue tgt c timeUs packet pktType = some s') : LbtInv s' := by
  rcases LbtState.jitEnqueue_effect (h.bounded c) hstep with
    ⟨-, rfl⟩ | ⟨hacc, hroom, q, rfl, hins⟩
  · exact h.setQueue (h.bounded c) fun n hn _ => Or.inl hn
  · apply h.setQueue
    · exact hins.bounded hroom
    · intro n hn htype
      rcases hins.mem.1 hn with rfl | hold
      · -- the packet is queued with the time stamp that its slot has been taken for
        obtain ⟨hclass, hslot⟩ := hok hacc htype
        have hpkt : (jitNode tgt (s.queues c) timeUs packet pktType).pkt = packet := by
          cases pktType with
          | downlinkClassC => exact absurd rfl hclass
          | _ => rfl
        right
        rw [hpkt]
        exact hslot
      · exact Or.inl hold

/-! ## Steps and runs -/

/-- `lbt_enqueue` gives its packet a slot and takes only spare ones. -/
theorem LbtInv.pull {tgt : Target} {s s' : LbtState} (h : LbtInv s) {c : Fin lgwRfChainNb}
    {timeUs : BitVec 32} {packet : LgwPktTx} {downlinkType : JitPktType}
    (hok : ∀ i ∈ lbtFreeSlot s.lbtStat timeUs, s.Spare i)
    (hstep : lbtStep tgt s (.pull c timeUs packet downlinkType) = some s') : LbtInv s' := by
  rw [lbtStep] at hstep
  split at hstep
  · cases hstep
  · cases hstep
    refine h.of_slots rfl ?_
    intro pkt hpkt
    -- a spare slot is the only slot of no packet
    have hkeep : pkt ∈ s.waiting →
        ∃ i, ((lbtEnqueue s.lbtStat packet timeUs).2 i).IsFor pkt := fun hmem =>
      lbtEnqueue_keeps (h.slots pkt hmem) fun i hi hfor => hok i hi pkt hmem hfor
    rcases LbtState.mem_waiting.1 hpkt with hq | ⟨d, hd, hres, hclass, rfl⟩ | hjit
    · exact hkeep (LbtState.mem_waiting.2 (Or.inl hq))
    · rcases List.mem_cons.1 hd with rfl | hd
      -- the downlink itself has the slot that was taken
      · exact lbtEnqueue_slot hres
      · exact hkeep (LbtState.mem_waiting.2 (Or.inr (Or.inl ⟨d, hd, hres, hclass, rfl⟩)))
    · exact hkeep (LbtState.mem_waiting.2 (Or.inr (Or.inr hjit)))

/-- The scan of a slot keeps it, or clears a spare one. -/
theorem LbtInv.scan {s : LbtState} (h : LbtInv s) {i : Fin nbLbtQueue} {timeUs : BitVec 32}
    (free : Bool) (hok : 10000000#32 < (s.lbtStat i).countUs - timeUs → s.Spare i) :
    LbtInv { s with
      lbtStat := Function.update s.lbtStat i (lbtScanSlot (s.lbtStat i) timeUs free) } := by
  refine h.of_slots rfl ?_
  intro pkt hpkt
  have hmem : pkt ∈ s.waiting := hpkt
  apply exists_isFor_update (h.slots pkt hmem)
  intro hfor
  -- only a slot of more than ten seconds ahead is cleared
  by_cases hfar : 10000000#32 < (s.lbtStat i).countUs - timeUs
  · exact Or.inr (hok hfar pkt hmem hfor)
  · exact Or.inl (lbtScanSlot_isFor free hfor hfar)

/-- A peek drops packets only. -/
theorem LbtInv.peek {tgt : Target} {s s' : LbtState} (h : LbtInv s) {c : Fin lgwRfChainNb}
    {timeUs : BitVec 32} (hstep : lbtStep tgt s (.peek c timeUs) = some s') : LbtInv s' := by
  have hpeek : LbtInv (s.setQueue c (jitPeek (s.queues c) timeUs).2.2) := by
    have hcall : JitStep tgt (s.queues c) (.peek timeUs) (jitPeek (s.queues c) timeUs).2.2 := rfl
    rcases hcall.effect (h.bounded c) with ⟨_, _, _, hop, -⟩ | ⟨hb, hsub⟩
    · cases hop
    · exact h.setQueue hb fun n hn _ => Or.inl (hsub.subset hn)
  cases hjit : s.jit with
  | idle =>
    simp only [lbtStep, hjit] at hstep
    split at hstep
    · cases hstep
      refine hpeek.of_slots rfl ?_
      intro pkt hpkt
      apply hpeek.slots pkt
      rcases LbtState.mem_waiting.1 hpkt with hq | hd | ⟨_, hj, -⟩
      · exact LbtState.mem_waiting.2 (Or.inl hq)
      · exact LbtState.mem_waiting.2 (Or.inr (Or.inl hd))
      · cases hj
    · cases hstep
      exact hpeek
  | _ => simp [lbtStep, hjit] at hstep

/-- The dequeue of a node in use takes over its packet. -/
theorem LbtInv.dequeue {tgt : Target} {s s' : LbtState} (h : LbtInv s)
    (hok : ∀ c index, s.jit = .peeked c index → index.val < (s.queues c).numPkt.toNat)
    (hstep : lbtStep tgt s .dequeue = some s') : LbtInv s' := by
  cases hjit : s.jit with
  | peeked c index =>
    have hlt := hok c index hjit
    simp only [lbtStep, hjit] at hstep
    rcases jitDequeue_spec (h.bounded c) index.val with
      ⟨-, hempty⟩ | ⟨hpos, i, last, hi, hlast, heq⟩
    · have h0 := hempty (Int.natCast_nonneg _) (by exact_mod_cast index.isLt)
      omega
    · have hidx : i = index := Fin.ext (by exact_mod_cast hi)
      subst hidx
      rw [heq] at hstep
      cases hstep
      have hb := jitRemoveAt_bounded (h.bounded c) hpos i last
      have hsub := jitRemoveAt_subperm (h.bounded c) hpos i last hlast
      have hrest : LbtInv (s.setQueue c (jitRemoveAt (s.queues c) i last)) :=
        h.setQueue hb fun n hn _ => Or.inl (hsub.subset hn)
      refine hrest.of_slots rfl ?_
      intro pkt hpkt
      show ∃ j, (s.lbtStat j).IsFor pkt
      rcases LbtState.mem_waiting.1 hpkt with hq | hd | ⟨pktType, hj, htype⟩
      · exact hrest.slots pkt (LbtState.mem_waiting.2 (Or.inl hq))
      · exact hrest.slots pkt (LbtState.mem_waiting.2 (Or.inr (Or.inl hd)))
      · -- the packet of the removed node was queued
        cases hj
        have hmem := nodes_mem_entries (h.bounded c) i hlt
        exact h.slots _ (LbtState.mem_waiting.2 (Or.inl ⟨c, _, hmem, htype, rfl⟩))
  | _ => simp [lbtStep, hjit] at hstep

theorem LbtInv.step {tgt : Target} {s s' : LbtState} {e : LbtEvent} (h : LbtInv s)
    (hok : KeepsSlots tgt s e) (hstep : lbtStep tgt s e = some s') : LbtInv s' := by
  cases e with
  | pull c timeUs packet downlinkType => exact h.pull hok hstep
  | enqueue k =>
    obtain ⟨d, hd, hcall⟩ := Option.bind_eq_some_iff.1 hstep
    have hmem := List.mem_of_getElem? hd
    -- the downlink leaves the pending ones and joins the queue
    have herase : LbtInv { s with pending := s.pending.eraseIdx k } := by
      refine h.of_slots rfl ?_
      intro pkt hpkt
      apply h.slots pkt
      rcases LbtState.mem_waiting.1 hpkt with hq | ⟨d', hd', hrest⟩ | hj
      · exact LbtState.mem_waiting.2 (Or.inl hq)
      · have hd'' := List.mem_of_mem_eraseIdx hd'
        exact LbtState.mem_waiting.2 (Or.inr (Or.inl ⟨d', hd'', hrest⟩))
      · exact LbtState.mem_waiting.2 (Or.inr (Or.inr hj))
    apply herase.jitEnqueue ?_ hcall
    intro hacc _
    obtain ⟨hres, hclass⟩ := hok d hd hacc
    refine ⟨hclass, ?_⟩
    exact h.slots _ (LbtState.mem_waiting.2 (Or.inr (Or.inl ⟨d, hmem, hres, hclass, rfl⟩)))
  | custom timeUs packet downlinkType =>
    rw [lbtStep] at hstep
    split at hstep
    · cases hstep
    · apply h.jitEnqueue ?_ hstep
      intro hacc
      -- a packet of `custom_rx2dn` has no slot
      have hrefused : s.accepts tgt 0 timeUs packet downlinkType = false := hok
      rw [hrefused] at hacc
      cases hacc
  | beacon timeUs packet =>
    apply h.jitEnqueue ?_ hstep
    intro _ hne
    exact absurd rfl hne
  | scan i timeUs free =>
    cases hstep
    exact h.scan free hok
  | peek c timeUs => exact h.peek hstep
  | dequeue => exact h.dequeue hok hstep
  | finish =>
    cases hjit : s.jit with
    | dequeued pkt pktType =>
      simp only [lbtStep, hjit] at hstep
      cases hstep
      refine h.of_slots rfl ?_
      intro p hp
      apply h.slots p
      rcases LbtState.mem_waiting.1 hp with hq | hd | ⟨_, hj, -⟩
      · exact LbtState.mem_waiting.2 (Or.inl hq)
      · exact LbtState.mem_waiting.2 (Or.inr (Or.inl hd))
      · cases hj
    | _ => simp [lbtStep, hjit] at hstep

/-- In every run whose steps keep the slots that are still needed, a dequeued packet that is no
beacon has its slot until the lookup. -/
theorem reachable_registered (tgt : Target) :
    ∀ s, Reachable (· = lbtStart) (Guarded (KeepsSlots tgt) (Steps (lbtStep tgt))) s →
      s.Registered := by
  intro s hreach
  have hinv : LbtInv s := by
    apply hreach.invariant
    · rintro s rfl
      exact lbtInv_lbtStart
    · rintro s e t hs ⟨hok, hstep⟩
      exact hs.step hok hstep
  exact hinv.registered

/-- A class A downlink at the given time, received at one second, with a scan at `scanUs` and the
dequeue 10 ms before its time. -/
def classADownlink (countUs scanUs : BitVec 32) : List LbtEvent :=
  [.pull 0 1000000#32 (fskPacket 50000#32 5#16 20#16 countUs) .downlinkClassA, .enqueue 0,
    .scan 0 scanUs true, .peek 0 (countUs - 10000#32), .dequeue]

/-- A downlink two seconds ahead is scanned 100 ms before its time. -/
theorem reachable_registered_near :
    ∃ s, exec (guardedBy (KeepsSlots fskTarget) (lbtStep fskTarget)) lbtStart
        (classADownlink 3000000#32 2900000#32) = some s ∧
      s.jit = .dequeued (fskPacket 50000#32 5#16 20#16 3000000#32) .downlinkClassA ∧
      s.Registered := by
  have hjit : (exec (guardedBy (KeepsSlots fskTarget) (lbtStep fskTarget)) lbtStart
      (classADownlink 3000000#32 2900000#32)).map (fun s => s.jit) =
        some (.dequeued (fskPacket 50000#32 5#16 20#16 3000000#32) .downlinkClassA) := by
    decide +kernel
  obtain ⟨s, hs, hdeq⟩ := Option.map_eq_some_iff.1 hjit
  have hrun := Run.of_exec_guardedBy hs
  exact ⟨s, hs, hdeq, reachable_registered fskTarget s hrun.reachable⟩

/-- A downlink 19 seconds ahead loses its slot to the scan right after it has been queued. -/
theorem cleared_slot_unregistered :
    ¬ ∀ s, Reachable (· = lbtStart) (Steps (lbtStep fskTarget)) s → s.Registered := by
  intro h
  have hrun : (exec (lbtStep fskTarget) lbtStart (classADownlink 20000000#32 1000000#32)).map
      (fun s => (s.jit, (lbtLookup s.lbtStat 20000000#32).isSome)) =
        some (.dequeued (fskPacket 50000#32 5#16 20#16 20000000#32) .downlinkClassA, false) := by
    decide +kernel
  obtain ⟨s, hs, hend⟩ := Option.map_eq_some_iff.1 hrun
  obtain ⟨hjit, hnone⟩ := Prod.mk.inj hend
  have hlookup := (h s (Run.of_exec hs).reachable _ _ hjit (by decide)).2
  have hcount : (fskPacket 50000#32 5#16 20#16 20000000#32).countUs = 20000000#32 := rfl
  rw [hcount, hnone] at hlookup
  cases hlookup

/-! ## The table around a roll-over -/

/-- The slot waits for its scan: its time stamp is ahead, by 512 seconds at most. -/
def LbtChanStat.Pending (slot : LbtChanStat) (timeUs : BitVec 32) : Prop :=
  0 < ahead timeUs slot.countUs ∧ ahead timeUs slot.countUs ≤ 512000000

instance (slot : LbtChanStat) (timeUs : BitVec 32) : Decidable (slot.Pending timeUs) :=
  inferInstanceAs (Decidable (_ ∧ _))

/-- What `lbt_enqueue` is for: the slot that it takes does not wait for a scan and is the only one
that changes, it refuses a packet only when all slots wait, and an error changes nothing. -/
structure KeepsScans (lbtStat : LbtStat) (packet : LgwPktTx) (timeUs : BitVec 32) : Prop where
  taken : ∀ i ∈ lbtFreeSlot lbtStat timeUs, ¬ (lbtStat i).Pending timeUs
  others : ∀ i ∉ lbtFreeSlot lbtStat timeUs, (lbtEnqueue lbtStat packet timeUs).2 i = lbtStat i
  full : (lbtEnqueue lbtStat packet timeUs).1 = .full → ∀ i, (lbtStat i).Pending timeUs
  unchanged : (lbtEnqueue lbtStat packet timeUs).1 ≠ .ok →
    (lbtEnqueue lbtStat packet timeUs).2 = lbtStat

/-- The comparison of the counters as numbers tells past from future: the first slot below the
current time is not so far below it that it lies ahead across the roll-over, and when there is none
all slots are above it, by 512 seconds at most. -/
structure OrderedAsNumbers (lbtStat : LbtStat) (timeUs : BitVec 32) : Prop where
  below : ∀ i, (lbtStat i).countUs < timeUs → (∀ j < i, timeUs ≤ (lbtStat j).countUs) →
    timeUs.toNat - (lbtStat i).countUs.toNat < 2 ^ 32 - 512000000
  above : (∀ i, timeUs ≤ (lbtStat i).countUs) → ∀ i,
    timeUs.toNat < (lbtStat i).countUs.toNat ∧
      (lbtStat i).countUs.toNat - timeUs.toNat ≤ 512000000

/-- The slot that is taken is the first one below the current time. -/
theorem lbtFreeSlot_eq_some_iff {lbtStat : LbtStat} {timeUs : BitVec 32} {i : Fin nbLbtQueue} :
    lbtFreeSlot lbtStat timeUs = some i ↔
      (lbtStat i).countUs < timeUs ∧ ∀ j < i, timeUs ≤ (lbtStat j).countUs := by
  rw [lbtFreeSlot, ← Fin.find?_eq_find?_finRange, Fin.find?_eq_some_iff]
  simp

theorem lbtFreeSlot_eq_none_iff {lbtStat : LbtStat} {timeUs : BitVec 32} :
    lbtFreeSlot lbtStat timeUs = none ↔ ∀ i, timeUs ≤ (lbtStat i).countUs := by
  simp [lbtFreeSlot, List.find?_eq_none]

/-- A slot below the current time waits when the way around the roll-over is short. -/
theorem pending_of_below {slot : LbtChanStat} {timeUs : BitVec 32} (h : slot.countUs < timeUs) :
    slot.Pending timeUs ↔ ¬ timeUs.toNat - slot.countUs.toNat < 2 ^ 32 - 512000000 := by
  have hlt : slot.countUs.toNat < timeUs.toNat := BitVec.lt_def.1 h
  have htime := timeUs.isLt
  rw [LbtChanStat.Pending, ahead_eq, if_neg (Nat.not_le.2 hlt)]
  omega

theorem pending_of_above {slot : LbtChanStat} {timeUs : BitVec 32} (h : timeUs ≤ slot.countUs) :
    slot.Pending timeUs ↔ timeUs.toNat < slot.countUs.toNat ∧
      slot.countUs.toNat - timeUs.toNat ≤ 512000000 := by
  have hle : timeUs.toNat ≤ slot.countUs.toNat := BitVec.le_def.1 h
  rw [LbtChanStat.Pending, ahead_eq, if_pos hle]
  omega

/-- For every table, packet and concentrator time: `lbt_enqueue` loses no scan exactly when the
counters compare as numbers like the times they stand for. -/
theorem keepsScans_iff (lbtStat : LbtStat) (packet : LgwPktTx) (timeUs : BitVec 32) :
    KeepsScans lbtStat packet timeUs ↔ OrderedAsNumbers lbtStat timeUs := by
  constructor
  · intro h
    refine ⟨?_, ?_⟩
    · intro i hlt hfirst
      have htaken := h.taken i (lbtFreeSlot_eq_some_iff.2 ⟨hlt, hfirst⟩)
      rw [pending_of_below hlt, not_not] at htaken
      exact htaken
    · intro hall i
      have hnone := lbtFreeSlot_eq_none_iff.2 hall
      have hfull : (lbtEnqueue lbtStat packet timeUs).1 = .full := by rw [lbtEnqueue, hnone]
      exact (pending_of_above (hall i)).1 (h.full hfull i)
  · intro h
    cases hslot : lbtFreeSlot lbtStat timeUs with
    | none =>
        have hall := lbtFreeSlot_eq_none_iff.1 hslot
        have heq : lbtEnqueue lbtStat packet timeUs = (.full, lbtStat) := by
          rw [lbtEnqueue, hslot]
        refine ⟨?_, ?_, ?_, ?_⟩
        · rw [hslot]
          rintro i ⟨⟩
        · intro i _
          rw [heq]
        · exact fun _ i => (pending_of_above (hall i)).2 (h.above hall i)
        · intro _
          rw [heq]
    | some i =>
        obtain ⟨hlt, hfirst⟩ := lbtFreeSlot_eq_some_iff.1 hslot
        have heq : lbtEnqueue lbtStat packet timeUs =
            (.ok, Function.update lbtStat i ⟨packet.freqHz, packet.countUs, false⟩) := by
          rw [lbtEnqueue, hslot]
        refine ⟨?_, ?_, ?_, ?_⟩
        · rw [hslot]
          rintro j ⟨⟩
          rw [pending_of_below hlt, not_not]
          exact h.below i hlt hfirst
        · rw [hslot]
          intro j hj
          rw [heq]
          exact Function.update_of_ne (fun hji => hj (congrArg some hji.symm)) _ _
        · rw [heq]
          rintro ⟨⟩
        · rw [heq]
          exact fun hne => absurd rfl hne

/-- A scan that is due right behind the roll-over, one second from now, loses its slot. -/
theorem scan_lost_at_rollover :
    ¬ ∀ (lbtStat : LbtStat) (packet : LgwPktTx) (timeUs : BitVec 32),
      KeepsScans lbtStat packet timeUs := by
  intro hall
  have h := hall (fun _ => ⟨868100000#32, 50000#32, false⟩) (fskPacket 50000#32 5#16 20#16 0#32)
    0xFFF17B7F#32
  have hpending : (⟨868100000#32, 50000#32, false⟩ : LbtChanStat).Pending 0xFFF17B7F#32 := by decide
  exact h.taken 0 (by decide) hpending

end DraginoFwd.Jit

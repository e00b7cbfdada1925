import DraginoFwd.Jit.Entries

/-!
# No accepted downlink is lost

`jit_peek` drops a node that is 512 s or more ahead of the time it is called at, which is also how
a node in the past looks on the wrapping clock. `DeliveryStep` is the system of the queue and its
clock: the time never goes backwards, a peek comes at least every 30 ms, and an index it returns is
dequeued before the next one.

A run loses no packet when every accepted one is less than 512 s ahead and at least 30 ms away
from each queued packet (`Deliverable`, `reachable_keeps`). The admission test does not ask for
either: at exactly 512 s ahead it accepts what the next peek drops (`boundary_packet_lost`).
-/

set_option autoImplicit false

namespace DraginoFwd.Jit

open DraginoFwd.Hal
open DraginoFwd.Lib.SerialClock
open DraginoFwd.Lib.Transition

/-- The queue with its clock: the time of the latest call, the time of the latest peek, and the
index that peek returned while it is not dequeued. -/
structure DeliveryState where
  queue : JitQueue
  now : BitVec 32
  lastPeek : BitVec 32
  selected : Option (Fin jitQueueMax)

/-- The clock may go from the latest call to `timeUs`: forward, and no further than 30 ms behind
the latest peek. -/
def DeliveryState.Admits (s : DeliveryState) (timeUs : BitVec 32) : Prop :=
  ahead s.lastPeek s.now ≤ ahead s.lastPeek timeUs ∧ ahead s.lastPeek timeUs ≤ 30000

/-- The calls in time. Another index than the selected one may be dequeued at any time. -/
inductive DeliveryStep (tgt : Target) : DeliveryState → JitOp → DeliveryState → Prop where
  | enqueue {s : DeliveryState} {q' : JitQueue} {timeUs : BitVec 32} {packet : LgwPktTx}
      {pktType : JitPktType} : s.Admits timeUs →
      JitStep tgt s.queue (.enqueue timeUs packet pktType) q' →
      DeliveryStep tgt s (.enqueue timeUs packet pktType) { s with queue := q', now := timeUs }
  | peek {s : DeliveryState} {timeUs : BitVec 32} : s.Admits timeUs → s.selected = none →
      DeliveryStep tgt s (.peek timeUs)
        { queue := (jitPeek s.queue timeUs).2.2
          now := timeUs
          lastPeek := timeUs
          selected := (jitPeek s.queue timeUs).2.1 }
  | dequeue {s : DeliveryState} {q' : JitQueue} {index : Int} :
      JitStep tgt s.queue (.dequeue index) q' →
      DeliveryStep tgt s (.dequeue index)
        { s with
          queue := q'
          selected := s.selected.filter fun k => (k.val : Int) ≠ index }

/-- The initial queue at any time, which counts as the time of a peek. -/
def DeliveryState.Initial (s : DeliveryState) : Prop :=
  s.queue = jitQueueInit ∧ s.now = s.lastPeek ∧ s.selected = none

/-- An enqueue that accepts its packet gives it a send time less than 512 s ahead and at least
30 ms away from every queued packet. -/
def Deliverable (tgt : Target) (s : DeliveryState) (op : JitOp) : Prop :=
  ∀ timeUs packet pktType, op = .enqueue timeUs packet pktType →
    s.queue.numPkt.toNat < jitQueueMax →
    ∀ c, SendTime tgt s.queue timeUs packet pktType c →
      Admissible s.queue timeUs (nodeAt tgt packet pktType c) →
        ahead timeUs c < 512000000 ∧
          ∀ n ∈ s.queue.entries, 30000 ≤ ahead c n.pkt.countUs ∧ 30000 ≤ ahead n.pkt.countUs c

/-- What a run of deliverable packets keeps, with all distances taken from the latest peek. -/
structure DeliveryInv (s : DeliveryState) : Prop where
  bounded : s.queue.Bounded
  elapsed : ahead s.lastPeek s.now ≤ 30000
  near : ∀ n ∈ s.queue.entries,
    ahead s.lastPeek n.pkt.countUs < 512000000 + ahead s.lastPeek s.now
  apart : s.queue.entries.Pairwise fun m n =>
    30000 ≤ ahead m.pkt.countUs n.pkt.countUs ∧ 30000 ≤ ahead n.pkt.countUs m.pkt.countUs
  sorted : s.queue.SortedFrom s.lastPeek
  due : s.selected = none → ∀ n ∈ s.queue.entries, 30000 ≤ ahead s.lastPeek n.pkt.countUs
  first : ∀ k, s.selected = some k → k = 0

theorem DeliveryState.Initial.inv {s : DeliveryState} (h : s.Initial) : DeliveryInv s := by
  obtain ⟨hq, hnow, hsel⟩ := h
  have hent : s.queue.entries = [] := by rw [hq]; rfl
  constructor
  case bounded =>
    rw [hq]
    exact bounded_jitQueueInit
  case elapsed =>
    rw [hnow, ahead_self]
    exact Nat.zero_le _
  case near => simp [hent]
  case apart => simp [hent]
  case sorted => simp [JitQueue.SortedFrom, hent]
  case due => simp [hent]
  case first => simp [hsel]

/-- All nodes are in the half of the clock that is ahead of the latest peek. -/
theorem DeliveryInv.inWindow {s : DeliveryState} (h : DeliveryInv s) :
    s.queue.InWindow s.lastPeek := by
  intro n hn
  have hnear := h.near n hn
  have helapsed := h.elapsed
  have hpow : (2 : Nat) ^ 31 = 2147483648 := by norm_num
  omega

/-- The time may pass without a call. -/
theorem DeliveryInv.advance {s : DeliveryState} (h : DeliveryInv s) {timeUs : BitVec 32}
    (ht : s.Admits timeUs) : DeliveryInv { s with now := timeUs } := by
  obtain ⟨hmono, hlate⟩ := ht
  refine ⟨h.bounded, hlate, fun n hn => ?_, h.apart, h.sorted, h.due, h.first⟩
  have hnear := h.near n hn
  show ahead s.lastPeek n.pkt.countUs < 512000000 + ahead s.lastPeek timeUs
  omega

/-- Without a selected index the nodes are all due later than the next peek, so that a peek finds
none of them outdated. -/
theorem DeliveryInv.fresh {s : DeliveryState} (h : DeliveryInv s) {timeUs : BitVec 32}
    (ht : s.Admits timeUs) (hsel : s.selected = none) :
    ∀ n ∈ s.queue.entries, ahead timeUs n.pkt.countUs < 512000000 ∧
      ahead s.lastPeek n.pkt.countUs =
        ahead s.lastPeek timeUs + ahead timeUs n.pkt.countUs := by
  intro n hn
  obtain ⟨hmono, hlate⟩ := ht
  have hnear := h.near n hn
  have hdue := h.due hsel n hn
  have hleg := ahead_of_le (le_trans hlate hdue)
  omega

theorem DeliveryInv.peek {s : DeliveryState} (h : DeliveryInv s) {timeUs : BitVec 32}
    (ht : s.Admits timeUs) (hsel : s.selected = none) :
    (jitPeek s.queue timeUs).2.2 = s.queue ∧
      DeliveryInv
        { queue := (jitPeek s.queue timeUs).2.2
          now := timeUs
          lastPeek := timeUs
          selected := (jitPeek s.queue timeUs).2.1 } := by
  have hfresh := h.fresh ht hsel
  have hkeep : (jitPeek s.queue timeUs).2.2 = s.queue :=
    jitPeek_of_fresh fun n hn => (hfresh n hn).1
  refine ⟨hkeep, ?_⟩
  have hwin : s.queue.InWindow timeUs := fun n hn => lt_trans (hfresh n hn).1 (by norm_num)
  -- the order from the latest peek is the order from this one: all nodes lie ahead of both
  have hsort : s.queue.SortedFrom timeUs := by
    refine h.sorted.imp_of_mem ?_
    intro m n hm hn hmn
    have hm' := (hfresh m hm).2
    have hn' := (hfresh n hn).2
    omega
  obtain ⟨-, -, hfirst⟩ := jitPeek_sorted h.bounded hwin hsort
  constructor
  case bounded =>
    show (jitPeek s.queue timeUs).2.2.Bounded
    rw [hkeep]
    exact h.bounded
  case elapsed =>
    show ahead timeUs timeUs ≤ 30000
    rw [ahead_self]
    exact Nat.zero_le _
  case near =>
    intro n hn
    show ahead timeUs n.pkt.countUs < 512000000 + ahead timeUs timeUs
    rw [hkeep] at hn
    rw [ahead_self]
    exact (hfresh n hn).1
  case apart =>
    show ((jitPeek s.queue timeUs).2.2.entries).Pairwise _
    rw [hkeep]
    exact h.apart
  case sorted =>
    show (jitPeek s.queue timeUs).2.2.SortedFrom timeUs
    rw [hkeep]
    exact hsort
  case due =>
    -- a peek that selects nothing has no node within the 30 ms
    intro hnone n hn
    rw [hkeep] at hn
    exact jitPeek_none h.bounded (fun m hm => (hfresh m hm).1) hsort hnone n hn
  case first =>
    intro k hk
    exact (hfirst k hk).1

theorem DeliveryInv.insert {s : DeliveryState} (h : DeliveryInv s)
    {q' : JitQueue} {node : JitNode} (hroom : s.queue.numPkt.toNat < jitQueueMax)
    (hins : Inserted s.queue node q') (hlate : 32500 < ahead s.now node.pkt.countUs)
    (hnear : ahead s.now node.pkt.countUs < 512000000)
    (hapart : ∀ n ∈ s.queue.entries, 30000 ≤ ahead node.pkt.countUs n.pkt.countUs ∧
      30000 ≤ ahead n.pkt.countUs node.pkt.countUs) :
    DeliveryInv { s with queue := q' } := by
  have helapsed := h.elapsed
  have hleg : ahead s.lastPeek node.pkt.countUs =
      ahead s.lastPeek s.now + ahead s.now node.pkt.countUs := by
    refine ahead_add_lt ?_
    have : (2 : Nat) ^ 32 = 4294967296 := by norm_num
    omega
  have hnum := hins.numPkt
  constructor
  case bounded =>
    show q'.numPkt.toNat ≤ jitQueueMax
    omega
  case elapsed => exact helapsed
  case near =>
    intro n hn
    show ahead s.lastPeek n.pkt.countUs < 512000000 + ahead s.lastPeek s.now
    rcases hins.mem.1 hn with rfl | hn
    · omega
    · exact h.near n hn
  case apart =>
    show q'.entries.Pairwise _
    rw [hins.perm.pairwise_iff fun {a b} hab => ⟨hab.2, hab.1⟩, List.pairwise_cons]
    exact ⟨hapart, h.apart⟩
  case sorted =>
    apply hins.sortedFrom hroom h.inWindow
    show ahead s.lastPeek node.pkt.countUs < 2 ^ 31
    have hpow : (2 : Nat) ^ 31 = 2147483648 := by norm_num
    omega
  case due =>
    -- at most 30 ms have passed since the peek, and the newcomer is more than 32.5 ms ahead
    intro hnone n hn
    show 30000 ≤ ahead s.lastPeek n.pkt.countUs
    rcases hins.mem.1 hn with rfl | hn
    · omega
    · exact h.due hnone n hn
  case first => exact h.first

theorem DeliveryInv.enqueue {tgt : Target} {s : DeliveryState} (h : DeliveryInv s)
    {q' : JitQueue} {timeUs : BitVec 32} {packet : LgwPktTx} {pktType : JitPktType}
    (ht : s.Admits timeUs) (hok : Deliverable tgt s (.enqueue timeUs packet pktType))
    (hstep : JitStep tgt s.queue (.enqueue timeUs packet pktType) q') :
    s.queue.entries.Subperm q'.entries ∧
      DeliveryInv { s with queue := q', now := timeUs } := by
  have hadv := h.advance ht
  rw [JitStep, jitCall] at hstep
  rcases jitEnqueue_spec tgt h.bounded timeUs packet pktType with
    ⟨e, pkt', -, heq⟩ | ⟨hroom, hadm, pkt', q1, heq, hins⟩
  · -- rejected: the queue is as it was
    rw [heq] at hstep
    cases hstep
    exact ⟨List.Subperm.refl _, hadv⟩
  · -- accepted: the condition on the call gives the distances of the new node
    rw [heq] at hstep
    cases hstep
    obtain ⟨c, hsend, hnode, hc⟩ := jitNode_sendTime tgt s.queue timeUs packet pktType
    have hlate := hadm.notLate
    rw [hnode] at hadm
    obtain ⟨hnear, hapart⟩ := hok timeUs packet pktType rfl hroom c hsend hadm
    rw [← hc] at hnear hapart
    refine ⟨?_, hadv.insert hroom hins hlate hnear hapart⟩
    exact (List.sublist_cons_self _ _).subperm.trans hins.perm.symm.subperm

/-- Behind a selected first node the others are not due before the next peek. -/
theorem DeliveryInv.due_of_tail {s : DeliveryState} (h : DeliveryInv s) :
    ∀ n ∈ s.queue.entries.eraseIdx 0, 30000 ≤ ahead s.lastPeek n.pkt.countUs := by
  intro n hn
  have hsort := h.sorted
  have hapart := h.apart
  unfold JitQueue.SortedFrom at hsort
  cases hent : s.queue.entries with
  | nil => simp [hent] at hn
  | cons m rest =>
    rw [hent] at hn hsort hapart
    rw [List.eraseIdx_cons_zero] at hn
    -- the clock passes the first node before it comes to this one, 30 ms later
    have hle := (List.pairwise_cons.1 hsort).1 n hn
    have hgap := (List.pairwise_cons.1 hapart).1 n hn
    have hleg := ahead_of_le hle
    omega

theorem DeliveryInv.remove {s : DeliveryState} (h : DeliveryInv s)
    (hpos : 0 < s.queue.numPkt.toNat) {i last : Fin jitQueueMax}
    (hlast : last.val = s.queue.numPkt.toNat - 1) {selected : Option (Fin jitQueueMax)}
    (hsel : selected = s.selected ∨ (s.selected = some i ∧ selected = none)) :
    DeliveryInv { s with queue := jitRemoveAt s.queue i last, selected := selected } := by
  have hsub := jitRemoveAt_subperm h.bounded hpos i last hlast
  constructor
  case bounded => exact jitRemoveAt_bounded h.bounded hpos i last
  case elapsed => exact h.elapsed
  case near => exact fun n hn => h.near n (hsub.subset hn)
  case apart => exact pairwise_of_subperm (fun hab => ⟨hab.2, hab.1⟩) h.apart hsub
  case sorted => exact (jitRemoveAt_sortedFrom h.bounded h.inWindow hpos i last hlast).2
  case due =>
    intro hnone n hn
    show 30000 ≤ ahead s.lastPeek n.pkt.countUs
    rcases hsel with hsel | ⟨hi, -⟩
    · exact h.due (hsel ▸ hnone) n (hsub.subset hn)
    · -- the removed node is the first one, and only that one was due
      have hi0 := h.first i hi
      subst hi0
      have hpos0 : (0 : Fin jitQueueMax).val < s.queue.numPkt.toNat := hpos
      obtain ⟨q0, heq, -, hperm⟩ := jitRemoveAt_spec h.bounded hpos 0 last hlast
      rw [heq, (jitSortQueue_entries_perm q0).mem_iff, hperm.mem_iff, if_pos hpos0] at hn
      exact h.due_of_tail n hn
  case first =>
    intro k hk
    rcases hsel with hsel | ⟨-, hsel⟩
    · exact h.first k (hsel ▸ hk)
    · rw [hsel] at hk
      cases hk

theorem DeliveryInv.dequeue {tgt : Target} {s : DeliveryState} (h : DeliveryInv s)
    {q' : JitQueue} {index : Int} (hstep : JitStep tgt s.queue (.dequeue index) q') :
    DeliveryInv
      { s with
        queue := q'
        selected := s.selected.filter fun k => (k.val : Int) ≠ index } := by
  -- the call of another index leaves the selection, the call of the selected one ends it
  have hsel : s.selected.filter (fun k => (k.val : Int) ≠ index) = s.selected ∨
      ∃ k, s.selected = some k ∧ (k.val : Int) = index ∧
        s.selected.filter (fun k => (k.val : Int) ≠ index) = none := by
    cases hs : s.selected with
    | none => exact Or.inl rfl
    | some k =>
      by_cases hk : (k.val : Int) = index
      · exact Or.inr ⟨k, rfl, hk, by simp [hk]⟩
      · exact Or.inl (by simp [hk])
  rw [JitStep, jitCall] at hstep
  rcases jitDequeue_spec h.bounded index with ⟨⟨e, heq⟩, hempty⟩ | ⟨hpos, i, last, hi, hlast, heq⟩
  · rw [heq] at hstep
    cases hstep
    rcases hsel with hsel | ⟨k, hs, hk, hsel⟩
    · rw [hsel]
      exact h
    · -- the selected node is gone already, and with it all others
      have hk0 := k.isLt
      have hnum := hempty (by omega) (by omega)
      have hent : s.queue.entries = [] := by
        rw [← List.length_eq_zero_iff, entries_length h.bounded]
        exact hnum
      refine ⟨h.bounded, h.elapsed, h.near, h.apart, h.sorted, ?_, ?_⟩
      · intro _ n hn
        change n ∈ s.queue.entries at hn
        simp [hent] at hn
      · rw [hsel]
        simp
  · rw [heq] at hstep
    cases hstep
    refine h.remove hpos hlast ?_
    rcases hsel with hsel | ⟨k, hs, hk, hsel⟩
    · exact Or.inl hsel
    · have hki : k = i := Fin.ext (by omega)
      exact Or.inr ⟨hki ▸ hs, hsel⟩

theorem DeliveryInv.step {tgt : Target} {s s' : DeliveryState} {op : JitOp} (h : DeliveryInv s)
    (hok : Deliverable tgt s op) (hstep : DeliveryStep tgt s op s') : DeliveryInv s' := by
  cases hstep with
  | enqueue ht hcall => exact (h.enqueue ht hok hcall).2
  | peek ht hsel => exact (h.peek ht hsel).2
  | dequeue hcall => exact h.dequeue hcall

theorem reachable_deliveryInv {tgt : Target} {s : DeliveryState}
    (h : Reachable DeliveryState.Initial (Guarded (Deliverable tgt) (DeliveryStep tgt)) s) :
    DeliveryInv s := by
  refine h.invariant ?_ ?_
  · intro s hs
    exact hs.inv
  · rintro s op t hs ⟨hok, hstep⟩
    exact hs.step hok hstep

/-- In every timely run whose accepted packets are deliverable, a call that is no dequeue keeps
every node in use, and a peek leaves the whole queue as it is: packets leave through
`jit_dequeue` only. -/
theorem reachable_keeps (tgt : Target) :
    ∀ s op s', Reachable DeliveryState.Initial (Guarded (Deliverable tgt) (DeliveryStep tgt)) s →
      Deliverable tgt s op → DeliveryStep tgt s op s' →
        ((∀ index, op ≠ .dequeue index) → s.queue.entries.Subperm s'.queue.entries) ∧
          ∀ timeUs, op = .peek timeUs → s'.queue = s.queue := by
  intro s op s' hreach hok hstep
  have hinv := reachable_deliveryInv hreach
  cases hstep with
  | enqueue ht hcall =>
    refine ⟨fun _ => (hinv.enqueue ht hok hcall).1, ?_⟩
    intro timeUs hop
    cases hop
  | peek ht hsel =>
    have hkeep := (hinv.peek ht hsel).1
    refine ⟨fun _ => ?_, fun _ _ => hkeep⟩
    show s.queue.entries.Subperm (jitPeek s.queue _).2.2.entries
    rw [hkeep]
  | dequeue hcall =>
    refine ⟨fun hne => absurd rfl (hne _), ?_⟩
    intro timeUs hop
    cases hop

/-! ## Runs of calls -/

/-- The state after a call. -/
def deliveryAfter (tgt : Target) (s : DeliveryState) : JitOp → DeliveryState
  | .enqueue timeUs packet pktType =>
      { s with queue := jitAfter tgt s.queue [.enqueue timeUs packet pktType], now := timeUs }
  | .peek timeUs =>
      { queue := (jitPeek s.queue timeUs).2.2
        now := timeUs
        lastPeek := timeUs
        selected := (jitPeek s.queue timeUs).2.1 }
  | .dequeue index =>
      { s with
        queue := jitAfter tgt s.queue [.dequeue index]
        selected := s.selected.filter fun k => (k.val : Int) ≠ index }

/-- The call is in time. -/
def InTime (s : DeliveryState) : JitOp → Prop
  | .enqueue timeUs _ _ => s.Admits timeUs
  | .peek timeUs => s.Admits timeUs ∧ s.selected = none
  | .dequeue _ => True

theorem deliveryStep_deliveryAfter (tgt : Target) {s : DeliveryState} (hb : s.queue.Bounded)
    {op : JitOp} (ht : InTime s op) : DeliveryStep tgt s op (deliveryAfter tgt s op) := by
  have hrun := run_jitAfter tgt hb [op]
  cases op with
  | enqueue timeUs packet pktType =>
    cases hrun with
    | cons hstep hnil =>
      cases hnil
      exact DeliveryStep.enqueue ht hstep
  | peek timeUs => exact DeliveryStep.peek ht.1 ht.2
  | dequeue index =>
    cases hrun with
    | cons hstep hnil =>
      cases hnil
      exact DeliveryStep.dequeue hstep

/-- An enqueue of a packet with a time stamp of its own, less than 512 s ahead and at least 30 ms
away from every queued packet. -/
def Stamped (s : DeliveryState) : JitOp → Prop
  | .enqueue timeUs packet pktType =>
      pktType ≠ .downlinkClassC ∧ ahead timeUs packet.countUs < 512000000 ∧
        ∀ n ∈ s.queue.entries, 30000 ≤ ahead packet.countUs n.pkt.countUs ∧
          30000 ≤ ahead n.pkt.countUs packet.countUs
  | _ => True

theorem Stamped.deliverable (tgt : Target) {s : DeliveryState} {op : JitOp} (h : Stamped s op) :
    Deliverable tgt s op := by
  rintro timeUs packet pktType rfl - c hsend -
  obtain ⟨hclass, hnear, hapart⟩ := h
  cases pktType with
  | downlinkClassC => exact absurd rfl hclass
  | _ =>
    cases hsend
    exact ⟨hnear, hapart⟩

/-- Every call of a list is in time, and every packet of it stamped. -/
def CallsOk (tgt : Target) : DeliveryState → List JitOp → Prop
  | _, [] => True
  | s, op :: ops => (InTime s op ∧ Stamped s op) ∧ CallsOk tgt (deliveryAfter tgt s op) ops

instance (s : DeliveryState) : (op : JitOp) → Decidable (InTime s op)
  | .enqueue timeUs _ _ => inferInstanceAs (Decidable (_ ≤ _ ∧ ahead s.lastPeek timeUs ≤ 30000))
  | .peek timeUs =>
      inferInstanceAs (Decidable ((_ ≤ _ ∧ ahead s.lastPeek timeUs ≤ 30000) ∧ s.selected = none))
  | .dequeue _ => inferInstanceAs (Decidable True)

instance (s : DeliveryState) : (op : JitOp) → Decidable (Stamped s op)
  | .enqueue timeUs packet pktType =>
      inferInstanceAs
        (Decidable (pktType ≠ .downlinkClassC ∧ ahead timeUs packet.countUs < 512000000 ∧
        ∀ n ∈ s.queue.entries, 30000 ≤ ahead packet.countUs n.pkt.countUs ∧
          30000 ≤ ahead n.pkt.countUs packet.countUs))
  | .peek _ => inferInstanceAs (Decidable True)
  | .dequeue _ => inferInstanceAs (Decidable True)

instance decidableCallsOk (tgt : Target) :
    (s : DeliveryState) → (ops : List JitOp) → Decidable (CallsOk tgt s ops)
  | _, [] => inferInstanceAs (Decidable True)
  | s, op :: ops =>
      have := decidableCallsOk tgt (deliveryAfter tgt s op) ops
      inferInstanceAs (Decidable ((InTime s op ∧ Stamped s op) ∧ _))

/-- Such calls make up a run. -/
theorem reachable_calls (tgt : Target) (ops : List JitOp) {s : DeliveryState}
    (h : Reachable DeliveryState.Initial (Guarded (Deliverable tgt) (DeliveryStep tgt)) s)
    (hok : CallsOk tgt s ops) :
    Reachable DeliveryState.Initial (Guarded (Deliverable tgt) (DeliveryStep tgt))
      (ops.foldl (deliveryAfter tgt) s) := by
  induction ops generalizing s with
  | nil => exact h
  | cons op ops ih =>
    obtain ⟨⟨htime, hstamped⟩, hrest⟩ := hok
    have hb := (reachable_deliveryInv h).bounded
    exact ih (h.next ⟨hstamped.deliverable tgt, deliveryStep_deliveryAfter tgt hb htime⟩) hrest

/-- The initial queue at time 0. -/
def deliveryStart : DeliveryState := ⟨jitQueueInit, 0#32, 0#32, none⟩

theorem deliveryStart_initial : deliveryStart.Initial := ⟨rfl, rfl, rfl⟩

/-- A packet of 20 bytes that is enqueued at `timeUs` for `countUs`. -/
def enqueueAt (timeUs countUs : BitVec 32) (pktType : JitPktType) : JitOp :=
  .enqueue timeUs (fskPacket 50000#32 5#16 20#16 countUs) pktType

/-- Downlinks for 60 ms, 150 ms and 400 s and a beacon for 100 s are queued; the first one is peeked
and dequeued, another one is queued, and the next one is peeked. -/
def tenCalls : List JitOp :=
  [enqueueAt 0#32 150000#32 .downlinkClassA, enqueueAt 10#32 60000#32 .downlinkClassA,
    enqueueAt 20#32 400000000#32 .downlinkClassB, enqueueAt 30#32 100000000#32 .beacon,
    .peek 20000#32, .peek 40000#32, .dequeue 0, enqueueAt 50000#32 300000#32 .downlinkClassA,
    .peek 65000#32, .peek 90000#32]

theorem reachable_keeps_ten :
    let s := tenCalls.foldl (deliveryAfter fskTarget) deliveryStart
    s.queue.entries.map (fun n => n.pkt.countUs) =
        [150000#32, 300000#32, 100000000#32, 400000000#32] ∧
      (jitPeek s.queue 115000#32).2.2 = s.queue ∧
      s.queue.entries.Subperm (jitPeek s.queue 115000#32).2.2.entries := by
  intro s
  have hreach := reachable_calls fskTarget tenCalls (Reachable.start deliveryStart_initial)
    (by decide +kernel)
  have hpeek : InTime s (.peek 115000#32) := by decide +kernel
  have hkeep := reachable_keeps fskTarget s (.peek 115000#32) _ hreach (by rintro _ _ _ ⟨⟩)
    (deliveryStep_deliveryAfter fskTarget (reachable_deliveryInv hreach).bounded hpeek)
  exact ⟨by decide +kernel, hkeep.2 _ rfl, hkeep.1 (by simp)⟩

/-- A class A packet exactly 512 s ahead is accepted, and the peek at the same time drops it. -/
theorem boundary_packet_lost :
    ¬ ∀ s op s', Reachable DeliveryState.Initial (DeliveryStep fskTarget) s →
      DeliveryStep fskTarget s op s' → (∀ index, op ≠ .dequeue index) →
        s.queue.entries.Subperm s'.queue.entries := by
  intro h
  let op := enqueueAt 0#32 512000000#32 .downlinkClassA
  have htime : InTime deliveryStart op := by decide
  have hreach : Reachable DeliveryState.Initial (DeliveryStep fskTarget)
      (deliveryAfter fskTarget deliveryStart op) :=
    (Reachable.start deliveryStart_initial).next
      (deliveryStep_deliveryAfter fskTarget bounded_jitQueueInit htime)
  have ht : (deliveryAfter fskTarget deliveryStart op).Admits 0#32 := by
    unfold DeliveryState.Admits
    decide
  have hsub := (h _ _ _ hreach (DeliveryStep.peek ht rfl) (by simp)).length_le
  exact absurd hsub (by decide +kernel)

end DraginoFwd.Jit

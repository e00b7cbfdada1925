import DraginoFwd.Jit.Selection

/-!
# The representation of the queue

What a thread that uses the queue alone can rely on after every call. The nodes in use are in the
order of their time stamps from every origin that sees them all in its forward half circle, and
`num_beacon` is the number of beacons among them. A packet that is accepted joins the nodes in use
as one node, a packet that is refused leaves the queue as it is, and a dequeue takes away the node
at its index and nothing else (`Represents`).

The calls are those of one thread in any order and with any arguments, except that an index given
to `jit_dequeue` is below `num_pkt` (`reachable_represents`).
-/

set_option autoImplicit false

namespace DraginoFwd.Jit

open DraginoFwd.Hal
open DraginoFwd.Lib.SerialClock
open DraginoFwd.Lib.Transition

/-- The beacons among the nodes in use. -/
def JitQueue.queuedBeacons (q : JitQueue) : Nat := q.entries.countP fun n => n.pktType == .beacon

/-- `num_beacon` is the number of beacons among the nodes in use. -/
def JitQueue.CountsExactly (q : JitQueue) : Prop := q.numBeacon.toNat = q.queuedBeacons

/-- An index given to `jit_dequeue` is below `num_pkt`. -/
def IndexInUse (q : JitQueue) (op : JitOp) : Prop :=
  ∀ index : Int, op = .dequeue index → index < q.numPkt.toNat

/-- The packet that `jit_enqueue` leaves with its caller and in the queue: the one given, with a
time stamp and its mode when it is to be sent at once. -/
def StampedFrom (packet : LgwPktTx) (pktType : JitPktType) (stamped : LgwPktTx) : Prop :=
  stamped = packet ∨ pktType = .downlinkClassC ∧
    ∃ countUs, stamped = { packet with txMode := timestamped, countUs := countUs }

/-- An enqueue that succeeds adds one node, which holds the packet with the delays and the type of
the call; an enqueue that fails leaves the queue as it is. -/
def EnqueueAdds (tgt : Target) (q : JitQueue) : Prop :=
  ∀ timeUs packet pktType, ∃ code stamped q',
    jitEnqueue tgt q timeUs packet pktType = .ok (code, stamped, q') ∧
    (code ≠ .ok → q' = q) ∧
    (code = .ok → StampedFrom packet pktType stamped ∧
      q'.entries.Perm (⟨stamped, pktType, packetPreDelay pktType,
        packetPostDelay tgt packet pktType⟩ :: q.entries))

/-- A dequeue takes away the node at the index and returns its packet and its type. -/
def DequeueTakes (q : JitQueue) : Prop :=
  ∀ i : Fin jitQueueMax, i.val < q.numPkt.toNat → ∃ q',
    jitDequeue q i.val = .ok (.ok, some ((q.node i).pkt, (q.node i).pktType), q') ∧
    q'.entries.Perm (q.entries.eraseIdx i.val)

/-- What holds of the queue between two calls. -/
structure Represents (tgt : Target) (q : JitQueue) : Prop where
  bounded : q.Bounded
  sorted : ∀ origin, q.InWindow origin → q.SortedFrom origin
  beacons : q.CountsExactly
  enqueue : EnqueueAdds tgt q
  dequeue : DequeueTakes q

/-! ## The number of beacons -/

theorem countsExactly_jitQueueInit : jitQueueInit.CountsExactly := rfl

theorem queuedBeacons_le (q : JitQueue) : q.queuedBeacons ≤ jitQueueMax := by
  apply le_trans List.countP_le_length
  simp only [JitQueue.entries, List.length_take, Vector.length_toList]
  exact Nat.min_le_right _ _

/-- A node that is removed from those in use is the only one that is missing afterwards. -/
theorem jitRemoveAt_perm {q : JitQueue} (hb : q.Bounded) (i last : Fin jitQueueMax)
    (hi : i.val < q.numPkt.toNat) (hlast : last.val = q.numPkt.toNat - 1) :
    (jitRemoveAt q i last).entries.Perm (q.entries.eraseIdx i.val) := by
  have hpos : 0 < q.numPkt.toNat := by omega
  obtain ⟨q0, heq, -, hperm⟩ := jitRemoveAt_spec hb hpos i last hlast
  rw [if_pos hi] at hperm
  rw [heq]
  exact (jitSortQueue_entries_perm q0).trans hperm

/-- The nodes in use are the removed one and those that are left. -/
theorem entries_perm_jitRemoveAt {q : JitQueue} (hb : q.Bounded) (i last : Fin jitQueueMax)
    (hi : i.val < q.numPkt.toNat) (hlast : last.val = q.numPkt.toNat - 1) :
    q.entries.Perm (q.node i :: (jitRemoveAt q i last).entries) := by
  have hlen : i.val < q.entries.length := by rw [entries_length hb]; exact hi
  have hsplit := List.getElem_cons_eraseIdx_perm hlen
  rw [entries_getElem q i hlen] at hsplit
  exact hsplit.symm.trans ((jitRemoveAt_perm hb i last hi hlast).symm.cons _)

theorem jitRemoveAt_countsExactly {q : JitQueue} (hb : q.Bounded) (h : q.CountsExactly)
    (i last : Fin jitQueueMax) (hi : i.val < q.numPkt.toNat)
    (hlast : last.val = q.numPkt.toNat - 1) : (jitRemoveAt q i last).CountsExactly := by
  have hperm := entries_perm_jitRemoveAt hb i last hi hlast
  have hcount := hperm.countP_eq fun n => n.pktType == .beacon
  have hnum : (jitRemoveAt q i last).numBeacon =
      if (q.node i).pktType = .beacon then q.numBeacon - 1#8 else q.numBeacon := by
    simp [jitRemoveAt]
  unfold JitQueue.CountsExactly JitQueue.queuedBeacons at h ⊢
  rw [List.countP_cons] at hcount
  rw [hnum]
  by_cases hbeacon : (q.node i).pktType = .beacon
  · rw [if_pos (beq_iff_eq.2 hbeacon)] at hcount
    rw [if_pos hbeacon, toNat_sub_one (by omega)]
    omega
  · rw [if_neg (by simpa using hbeacon)] at hcount
    rw [if_neg hbeacon]
    omega

theorem jitPeekScan_countsExactly (timeUs : BitVec 32) {q : JitQueue} (hb : q.Bounded)
    (h : q.CountsExactly) (i : Nat) (idx : Option (Fin jitQueueMax)) :
    (jitPeekScan timeUs q i idx).1.CountsExactly := by
  fun_induction jitPeekScan timeUs q i idx with
  | case1 q i idx hi n hout ih =>
    exact ih (jitRemoveAt_bounded hb (by omega) _ _) (jitRemoveAt_countsExactly hb h n _ hi.1 rfl)
  | case2 q i idx hi n hout ih => exact ih hb h
  | case3 => exact h

/-! ## One call -/

/-- An enqueue that succeeds has made the insertion. -/
theorem jitInsert_of_jitEnqueue {tgt : Target} {q q' : JitQueue} {timeUs : BitVec 32}
    {packet stamped : LgwPktTx} {pktType : JitPktType}
    (h : jitEnqueue tgt q timeUs packet pktType = .ok (.ok, stamped, q')) :
    jitInsert q (jitNode tgt q timeUs packet pktType) = .ok q' ∧
      stamped = (jitNode tgt q timeUs packet pktType).pkt := by
  rw [jitEnqueue] at h
  split at h
  · cases h
  · rcases jitEnqueueSection_cases tgt q timeUs packet pktType with ⟨e, he, heq⟩ | ⟨-, heq⟩
    · rw [heq] at h
      cases h
      exact absurd rfl he
    · rw [heq] at h
      cases hins : jitInsert q (jitNode tgt q timeUs packet pktType) with
      | error fault =>
          rw [hins] at h
          cases h
      | ok q1 =>
          rw [hins] at h
          cases h
          exact ⟨rfl, rfl⟩

theorem jitInsert_numBeacon {q q' : JitQueue} {node : JitNode} (h : jitInsert q node = .ok q') :
    q'.numBeacon = if node.pktType = .beacon then q.numBeacon + 1#8 else q.numBeacon := by
  rw [jitInsert] at h
  split at h
  · cases h
    rw [jitSortQueue_numBeacon]
  · cases h

theorem Inserted.countsExactly {q q' : JitQueue} {node : JitNode} (hins : Inserted q node q')
    (h : q.CountsExactly)
    (hnum : q'.numBeacon = if node.pktType = .beacon then q.numBeacon + 1#8 else q.numBeacon) :
    q'.CountsExactly := by
  have hcount := hins.perm.countP_eq fun n => n.pktType == .beacon
  have hle : q.queuedBeacons ≤ 32 := queuedBeacons_le q
  unfold JitQueue.CountsExactly JitQueue.queuedBeacons at *
  rw [List.countP_cons] at hcount
  rw [hnum]
  by_cases hbeacon : node.pktType = .beacon
  · rw [if_pos (beq_iff_eq.2 hbeacon)] at hcount
    rw [if_pos hbeacon]
    bv_omega
  · rw [if_neg (by simpa using hbeacon)] at hcount
    rw [if_neg hbeacon]
    omega

theorem stampPacket_stampedFrom (tgt : Target) (q : JitQueue) (timeUs : BitVec 32)
    (packet : LgwPktTx) (pktType : JitPktType) :
    StampedFrom packet pktType (stampPacket tgt q timeUs packet pktType) := by
  cases pktType with
  | downlinkClassC => exact Or.inr ⟨rfl, _, rfl⟩
  | downlinkClassA => exact Or.inl rfl
  | downlinkClassB => exact Or.inl rfl
  | beacon => exact Or.inl rfl

theorem enqueueAdds (tgt : Target) {q : JitQueue} (hb : q.Bounded) : EnqueueAdds tgt q := by
  intro timeUs packet pktType
  rcases jitEnqueue_spec tgt hb timeUs packet pktType with
    ⟨e, stamped, he, heq⟩ | ⟨-, -, stamped, q', heq, hins⟩
  · exact ⟨e, stamped, q, heq, fun _ => rfl, fun h => absurd h he⟩
  · refine ⟨.ok, stamped, q', heq, fun h => absurd rfl h, fun _ => ?_⟩
    obtain ⟨-, hstamped⟩ := jitInsert_of_jitEnqueue heq
    subst hstamped
    exact ⟨stampPacket_stampedFrom tgt q timeUs packet pktType, hins.perm⟩

theorem dequeueTakes {q : JitQueue} (hb : q.Bounded) : DequeueTakes q := by
  intro i hi
  have hlt : (i.val : Int) < (jitQueueMax : Int) := Int.ofNat_lt.2 i.isLt
  rcases jitDequeue_spec hb i.val with ⟨-, hempty⟩ | ⟨hpos, k, last, hk, hlast, heq⟩
  · -- an index in range is refused by an empty queue only
    have h0 := hempty (Int.natCast_nonneg _) hlt
    omega
  · obtain rfl : k = i := Fin.ext (Int.ofNat_inj.1 hk)
    exact ⟨_, heq, jitRemoveAt_perm hb k last hi hlast⟩

/-- A call keeps the count of the beacons. -/
theorem JitStep.countsExactly {tgt : Target} {q q' : JitQueue} {op : JitOp} (hb : q.Bounded)
    (h : q.CountsExactly) (hok : IndexInUse q op) (hstep : JitStep tgt q op q') :
    q'.CountsExactly := by
  cases op with
  | enqueue timeUs packet pktType =>
      rw [JitStep, jitCall] at hstep
      rcases jitEnqueue_spec tgt hb timeUs packet pktType with
        ⟨e, stamped, -, heq⟩ | ⟨-, -, stamped, q1, heq, hins⟩
      · rw [heq] at hstep
        cases hstep
        exact h
      · obtain ⟨hinsert, -⟩ := jitInsert_of_jitEnqueue heq
        rw [heq] at hstep
        cases hstep
        exact hins.countsExactly h (jitInsert_numBeacon hinsert)
  | peek timeUs =>
      cases hstep
      unfold jitPeek
      split
      · exact h
      · exact jitPeekScan_countsExactly timeUs hb h 0 none
  | dequeue index =>
      rw [JitStep, jitCall] at hstep
      have hlt := hok index rfl
      rcases jitDequeue_spec hb index with ⟨⟨e, heq⟩, -⟩ | ⟨-, i, last, hi, hlast, heq⟩
      · rw [heq] at hstep
        cases hstep
        exact h
      · rw [heq] at hstep
        cases hstep
        exact jitRemoveAt_countsExactly hb h i last (by omega) hlast

/-! ## Every run -/

/-- After every run of calls from the initial queue in which no index given to `jit_dequeue` lies
behind the nodes in use, the queue is ordered from every origin that sees its nodes in its forward
half circle, its beacons are counted, and each next call does to the nodes in use what it
reports. -/
theorem reachable_represents (tgt : Target) :
    ∀ q, Reachable (· = jitQueueInit) (Guarded IndexInUse (JitStep tgt)) q → Represents tgt q := by
  intro q hreach
  have hinv : Arranged q ∧ q.CountsExactly := by
    apply hreach.invariant
    · rintro s rfl
      exact ⟨arranged_jitQueueInit, countsExactly_jitQueueInit⟩
    · rintro s op t ⟨harr, hcount⟩ ⟨hok, hstep⟩
      exact ⟨harr.step hstep, hstep.countsExactly harr.bounded hcount hok⟩
  obtain ⟨harr, hcount⟩ := hinv
  exact ⟨harr.bounded, harr.sorts, hcount, enqueueAdds tgt harr.bounded,
    dequeueTakes harr.bounded⟩

/-- A beacon and, before it, a class A packet, around the wrap of the clock. -/
theorem reachable_represents_wrap :
    let q := jitAfter fskTarget jitQueueInit
      [.enqueue 4290000000#32 (fskPacket 50000#32 5#16 20#16 9000000#32) .beacon,
        .enqueue 4290000000#32 (fskPacket 50000#32 5#16 20#16 4294000000#32) .downlinkClassA]
    q.numPkt = 2#8 ∧ q.numBeacon = 1#8 ∧ q.SortedFrom 4290000000#32 ∧
      Represents fskTarget q := by
  intro q
  have hrun : Run (JitStep fskTarget) jitQueueInit _ q := run_jitAfter _ bounded_jitQueueInit _
  have hok : Run (Guarded IndexInUse (JitStep fskTarget)) jitQueueInit _ q :=
    hrun.guarded IndexInUse (by simp [IndexInUse])
  have hrep := reachable_represents fskTarget q hok.reachable
  have hwin : q.InWindow 4290000000#32 := by
    unfold JitQueue.InWindow
    decide +kernel
  exact ⟨by decide +kernel, by decide +kernel, hrep.sorted _ hwin, hrep⟩

end DraginoFwd.Jit

import DraginoFwd.Jit.Entries

/-!
# The selected packet is the dequeued one

`thread_jit` takes an index from `jit_peek` and gives it to `jit_dequeue` in a later critical
section. In between other threads may enqueue, and each insertion sorts the array again. The
selected packet is the first node, so the index survives as long as no newcomer sorts before it.

The order is that of signed differences of 32-bit counters. A newcomer that comes half a turn or
more after the selected packet counts as one before it; `jit_enqueue` accepts such a beacon
(`far_beacon_dequeued`). Without one the selected packet stays first (`run_dequeues_selected`).
-/

set_option autoImplicit false

namespace DraginoFwd.Jit

open DraginoFwd.Hal
open DraginoFwd.Lib.SerialClock
open DraginoFwd.Lib.Transition

/-- The critical section that enqueues a newcomer, less than `TX_START_DELAY` after the peek at
`peekUs`. -/
def NewcomerStep (tgt : Target) (peekUs : BitVec 32) (q : JitQueue) (e : EnqueueCall)
    (q' : JitQueue) : Prop :=
  ahead peekUs e.timeUs < 1500 ∧
    ∃ code pkt', jitEnqueueSection tgt q e.timeUs e.packet e.pktType = .ok (code, pkt', q')

/-- A newcomer that is accepted is to be sent less than half a turn after the selected packet,
counted from the peek over the call to the send time. -/
def HalfTurn (tgt : Target) (peekUs selectedUs : BitVec 32) (q : JitQueue)
    (e : EnqueueCall) : Prop :=
  ∀ c, SendTime tgt q e.timeUs e.packet e.pktType c →
    Admissible q e.timeUs (nodeAt tgt e.packet e.pktType c) →
      ahead peekUs e.timeUs + ahead e.timeUs c < ahead peekUs selectedUs + 2 ^ 31

/-! ## Reachable queues -/

/-- What the calls keep: the nodes have distinct time stamps, and they are in order from every
origin that sees them all in its forward half circle. -/
structure Arranged (q : JitQueue) : Prop where
  bounded : q.Bounded
  sorts : ∀ origin, q.InWindow origin → q.SortedFrom origin
  distinct : q.entries.Pairwise fun m n => m.pkt.countUs ≠ n.pkt.countUs

theorem arranged_jitQueueInit : Arranged jitQueueInit :=
  ⟨bounded_jitQueueInit, fun _ _ => by simp [JitQueue.SortedFrom], by simp⟩

/-- A packet never passes the overlap test against one with its own time stamp. -/
theorem countUs_ne_of_overlaps {node n : JitNode} (h : overlaps node n = false) :
    node.pkt.countUs ≠ n.pkt.countUs := by
  intro heq
  unfold overlaps jitCollisionTest at h
  rw [heq, BitVec.sub_self, Bool.or_eq_false_iff] at h
  have hle : 0#32 ≤ node.preDelay + n.postDelay + txMarginDelay := Nat.zero_le _
  simp [hle] at h

/-- An insertion sorts from every origin that sees the old nodes and the newcomer. -/
theorem Inserted.arranged {q q' : JitQueue} {node : JitNode} (h : Inserted q node q')
    (hq : Arranged q) (hroom : q.numPkt.toNat < jitQueueMax)
    (hclear : ∀ n ∈ q.entries, overlaps node n = false) : Arranged q' := by
  refine ⟨h.bounded hroom, fun origin hwin => ?_, ?_⟩
  · refine h.sortedFrom hroom (fun n hn => hwin n (h.mem.2 (Or.inr hn))) ?_
    exact hwin node (h.mem.2 (Or.inl rfl))
  · rw [h.perm.pairwise_iff fun {a b} hab => hab.symm, List.pairwise_cons]
    exact ⟨fun n hn => countUs_ne_of_overlaps (hclear n hn), hq.distinct⟩

theorem Arranged.subperm {q q' : JitQueue} (hq : Arranged q) (hb : q'.Bounded)
    (hsorts : ∀ origin, q'.InWindow origin → q'.SortedFrom origin)
    (hsub : q'.entries.Subperm q.entries) : Arranged q' :=
  ⟨hb, hsorts, pairwise_of_subperm (fun hab => hab.symm) hq.distinct hsub⟩

theorem Arranged.remove {q : JitQueue} (hq : Arranged q) (hpos : 0 < q.numPkt.toNat)
    {i last : Fin jitQueueMax} (hlast : last.val = q.numPkt.toNat - 1) :
    Arranged (jitRemoveAt q i last) := by
  refine hq.subperm (jitRemoveAt_bounded hq.bounded hpos i last) ?_
    (jitRemoveAt_subperm hq.bounded hpos i last hlast)
  intro origin hwin
  exact jitRemoveAt_sorts hq.bounded hpos i last hlast hwin

theorem Arranged.scan {timeUs : BitVec 32} {q : JitQueue} (hq : Arranged q) (i : Nat)
    (idx : Option (Fin jitQueueMax)) : Arranged (jitPeekScan timeUs q i idx).1 := by
  fun_induction jitPeekScan timeUs q i idx with
  | case1 q i idx h n hout ih => exact ih (hq.remove (by omega) rfl)
  | case2 q i idx h n hout ih => exact ih hq
  | case3 => exact hq

theorem Arranged.peek {q : JitQueue} (hq : Arranged q) (timeUs : BitVec 32) :
    Arranged (jitPeek q timeUs).2.2 := by
  unfold jitPeek
  split
  · exact hq
  · exact hq.scan 0 none

theorem Arranged.step {tgt : Target} {q q' : JitQueue} {op : JitOp} (hq : Arranged q)
    (h : JitStep tgt q op q') : Arranged q' := by
  cases op with
  | enqueue timeUs packet pktType =>
    rw [JitStep, jitCall] at h
    rcases jitEnqueue_spec tgt hq.bounded timeUs packet pktType with
      ⟨e, pkt', -, heq⟩ | ⟨hroom, hadm, pkt', q1, heq, hins⟩
    · rw [heq] at h
      cases h
      exact hq
    · rw [heq] at h
      cases h
      exact hins.arranged hq hroom hadm.clear
  | peek timeUs =>
    cases h
    exact hq.peek timeUs
  | dequeue index =>
    rw [JitStep, jitCall] at h
    rcases jitDequeue_spec hq.bounded index with ⟨⟨e, heq⟩, -⟩ | ⟨hpos, i, last, -, hlast, heq⟩
    · rw [heq] at h
      cases h
      exact hq
    · rw [heq] at h
      cases h
      exact hq.remove hpos hlast

/-! ## Between the peek and the dequeue -/

/-- The selected node is the first one, and it sees all nodes in its forward half circle. -/
structure SelectedFirst (selected : JitNode) (q : JitQueue) : Prop where
  arranged : Arranged q
  inUse : 0 < q.numPkt.toNat
  first : q.node 0 = selected
  window : q.InWindow selected.pkt.countUs

/-- A member that sees all nodes in its forward half circle is the first node of the queue. -/
theorem first_of_window {q : JitQueue} {selected : JitNode} (hq : Arranged q)
    (hmem : selected ∈ q.entries) (hwin : q.InWindow selected.pkt.countUs) :
    SelectedFirst selected q := by
  have hpos : 0 < q.entries.length := List.length_pos_of_mem hmem
  have hpos' : 0 < q.numPkt.toNat := by rw [← entries_length hq.bounded]; exact hpos
  refine ⟨hq, hpos', ?_, hwin⟩
  have hle := (hq.sorts _ hwin).first_le hmem
  rw [ahead_self, Nat.le_zero, ahead_eq_zero_iff] at hle
  -- the first node has the time stamp of the selected one, and time stamps are distinct
  have hfirst := nodes_mem_entries hq.bounded (0 : Fin jitQueueMax) hpos'
  by_contra hne
  have hsymm : Std.Symm fun m n : JitNode => m.pkt.countUs ≠ n.pkt.countUs :=
    ⟨fun _ _ hab => hab.symm⟩
  exact hq.distinct.forall hfirst hmem hne hle.symm

theorem SelectedFirst.insert {tgt : Target} {peekUs : BitVec 32} {q q' : JitQueue}
    {selected : JitNode} {e : EnqueueCall} (h : SelectedFirst selected q)
    (hsel : ahead peekUs selected.pkt.countUs < 30000)
    (hok : HalfTurn tgt peekUs selected.pkt.countUs q e) (hstep : NewcomerStep tgt peekUs q e q') :
    SelectedFirst selected q' := by
  obtain ⟨hlate, code, pkt', hcall⟩ := hstep
  rcases jitEnqueueSection_cases tgt q e.timeUs e.packet e.pktType with
    ⟨err, -, heq⟩ | ⟨hadm, heq⟩
  · rw [heq] at hcall
    cases hcall
    exact h
  · have hb := h.arranged.bounded
    by_cases hroom : q.numPkt.toNat < jitQueueMax
    · obtain ⟨q0, hinsert, hent, hnum⟩ :=
        jitInsert_spec (jitNode tgt q e.timeUs e.packet e.pktType) hroom
      rw [heq, hinsert] at hcall
      cases hcall
      have hins : Inserted q (jitNode tgt q e.timeUs e.packet e.pktType) (jitSortQueue q0) :=
        ⟨q0, rfl, hent, hnum⟩
      have harr := hins.arranged h.arranged hroom hadm.clear
      have hmem : selected ∈ q.entries := by
        rw [← h.first]
        exact nodes_mem_entries hb 0 h.inUse
      refine first_of_window harr (hins.mem.2 (Or.inr hmem)) fun n hn => ?_
      rcases hins.mem.1 hn with rfl | hn
      · -- the newcomer is later than the selected packet, by less than half a turn
        obtain ⟨c, hsend, hnode, hc⟩ := jitNode_sendTime tgt q e.timeUs e.packet e.pktType
        have hnotLate := hadm.notLate
        rw [hnode] at hadm
        have hnear := hok c hsend hadm
        rw [hc] at hnotLate ⊢
        have hpow : (2 : Nat) ^ 32 = 4294967296 := by norm_num
        have hpow' : (2 : Nat) ^ 31 = 2147483648 := by norm_num
        have hway : ahead peekUs c = ahead peekUs e.timeUs + ahead e.timeUs c :=
          ahead_add_lt (by omega)
        have hleg := ahead_of_le (a := peekUs) (b := selected.pkt.countUs) (c := c) (by omega)
        omega
      · exact h.window n hn
    · rw [heq, jitInsert, dif_neg hroom] at hcall
      cases hcall

/-- An index that a peek returns on a reachable queue is that of its first node. -/
theorem selectedFirst_of_peek {q q1 : JitQueue} {peekUs : BitVec 32} {code : JitError}
    {i : Fin jitQueueMax} (hq : Arranged q) (hwin : q.InWindow peekUs)
    (hpeek : jitPeek q peekUs = (code, some i, q1)) :
    i = 0 ∧ SelectedFirst (q1.node i) q1 ∧ ahead peekUs (q1.node i).pkt.countUs < 30000 := by
  obtain ⟨hwin1, hsort1, hfirst⟩ := jitPeek_sorted hq.bounded hwin (hq.sorts _ hwin)
  have harr := hq.peek peekUs
  rw [hpeek] at hwin1 hsort1 hfirst harr
  obtain ⟨rfl, hpos, hsoon⟩ := hfirst i rfl
  refine ⟨rfl, ⟨harr, hpos, rfl, fun n hn => ?_⟩, hsoon⟩
  have hle := hsort1.first_le hn
  rw [ahead_of_le hle]
  exact lt_of_le_of_lt (Nat.sub_le _ _) (hwin1 n hn)

/-- For every reachable queue whose nodes lie in the half turn ahead of the current time, every
peek that returns an index and every sequence of enqueues that follows within `TX_START_DELAY`, a
dequeue of that index returns the packet the peek selected, provided that each accepted newcomer
is to be sent less than half a turn after the selected packet. -/
theorem run_dequeues_selected (tgt : Target) :
    ∀ q peekUs code i q1 es q2, Reachable (· = jitQueueInit) (JitStep tgt) q →
      q.InWindow peekUs → jitPeek q peekUs = (code, some i, q1) →
      Run (Guarded (HalfTurn tgt peekUs (q1.node i).pkt.countUs) (NewcomerStep tgt peekUs))
        q1 es q2 →
      ∃ q3, jitDequeue q2 (i.val : Int) =
        .ok (.ok, some ((q1.node i).pkt, (q1.node i).pktType), q3) := by
  intro q peekUs code i q1 es q2 hreach hwin hpeek hrun
  have harr : Arranged q := by
    refine hreach.invariant ?_ ?_
    · rintro s rfl
      exact arranged_jitQueueInit
    · intro s op t hs hstep
      exact hs.step hstep
  obtain ⟨rfl, hfirst, hsoon⟩ := selectedFirst_of_peek harr hwin hpeek
  have hend : SelectedFirst (q1.node 0) q2 := by
    refine hrun.invariant ?_ hfirst
    rintro s e t hs ⟨hok, hstep⟩
    exact hs.insert hsoon hok hstep
  rcases jitDequeue_spec hend.arranged.bounded ((0 : Fin jitQueueMax).val : Int) with
    ⟨-, hempty⟩ | ⟨hpos, j, last, hj, -, heq⟩
  · have hzero := hempty (Int.le_refl 0) (by decide)
    have hinUse := hend.inUse
    omega
  · have hj0 : j = 0 := Fin.ext (Int.ofNat_inj.1 hj)
    subst hj0
    rw [heq, hend.first]
    exact ⟨_, rfl⟩

/-- A whole call of `jit_enqueue` on a queue with room is a newcomer's step. -/
theorem JitStep.newcomer {tgt : Target} {q q' : JitQueue} {peekUs timeUs : BitVec 32}
    {packet : LgwPktTx} {pktType : JitPktType} (hroom : jitQueueIsFull q = false)
    (hlate : ahead peekUs timeUs < 1500) (h : JitStep tgt q (.enqueue timeUs packet pktType) q') :
    NewcomerStep tgt peekUs q ⟨timeUs, packet, pktType⟩ q' := by
  refine ⟨hlate, ?_⟩
  rw [JitStep, jitCall, jitEnqueue, hroom] at h
  cases hcall : jitEnqueueSection tgt q timeUs packet pktType with
  | error err =>
    rw [if_neg Bool.false_ne_true, hcall] at h
    cases h
  | ok r =>
    rw [if_neg Bool.false_ne_true, hcall] at h
    cases h
    exact ⟨r.1, r.2.1, rfl⟩

/-- A queue that holds one class A packet for 0.04 s. -/
def oneSelected : JitQueue :=
  jitAfter fskTarget jitQueueInit
    [.enqueue 0#32 (fskPacket 50000#32 5#16 20#16 40000#32) .downlinkClassA]

theorem reachable_oneSelected :
    Reachable (· = jitQueueInit) (JitStep fskTarget) oneSelected :=
  (run_jitAfter fskTarget bounded_jitQueueInit _).reachable

theorem inWindow_oneSelected : oneSelected.InWindow 15000#32 := by
  show ∀ n ∈ oneSelected.entries, ahead 15000#32 n.pkt.countUs < 2 ^ 31
  decide +kernel

theorem jitPeek_oneSelected : jitPeek oneSelected 15000#32 = (.ok, some 0, oneSelected) := by
  have hcode : (jitPeek oneSelected 15000#32).1 = .ok := by decide +kernel
  have hindex : (jitPeek oneSelected 15000#32).2.1 = some 0 := by decide +kernel
  have hfresh : ∀ n ∈ oneSelected.entries, ahead 15000#32 n.pkt.countUs < 512000000 := by
    decide +kernel
  exact Prod.ext hcode (Prod.ext hindex (jitPeek_of_fresh hfresh))

/-- A beacon that is enqueued at the time of the peek for the time `countUs`. -/
def beaconAt (countUs : BitVec 32) : EnqueueCall :=
  ⟨15000#32, fskPacket 50000#32 5#16 20#16 countUs, .beacon⟩

/-- The queue once that beacon is in. -/
def withBeacon (countUs : BitVec 32) : JitQueue :=
  jitAfter fskTarget oneSelected
    [.enqueue 15000#32 (fskPacket 50000#32 5#16 20#16 countUs) .beacon]

theorem newcomerStep_beaconAt (countUs : BitVec 32) :
    NewcomerStep fskTarget 15000#32 oneSelected (beaconAt countUs) (withBeacon countUs) := by
  have hb : oneSelected.Bounded := by show oneSelected.numPkt.toNat ≤ 32; decide +kernel
  have hroom : jitQueueIsFull oneSelected = false := by decide +kernel
  have hrun := run_jitAfter fskTarget hb
    [.enqueue 15000#32 (fskPacket 50000#32 5#16 20#16 countUs) .beacon]
  cases hrun with
  | cons hstep hnil =>
    cases hnil
    exact hstep.newcomer hroom (by decide)

/-- A beacon 100 s after the selected packet does not take its place. -/
theorem run_dequeues_selected_beacon :
    (withBeacon 100000000#32).numPkt = 2#8 ∧
      ∃ q3, jitDequeue (withBeacon 100000000#32) 0 =
        .ok (.ok, some ((oneSelected.node 0).pkt, (oneSelected.node 0).pktType), q3) := by
  refine ⟨by decide +kernel, ?_⟩
  have hstep := newcomerStep_beaconAt 100000000#32
  have hok : HalfTurn fskTarget 15000#32 (oneSelected.node 0).pkt.countUs oneSelected
      (beaconAt 100000000#32) := by
    rintro c rfl -
    decide +kernel
  exact run_dequeues_selected fskTarget oneSelected 15000#32 .ok 0 oneSelected
    [beaconAt 100000000#32] _ reachable_oneSelected inWindow_oneSelected jitPeek_oneSelected
    (Run.cons ⟨hok, hstep⟩ (Run.nil _))

/-- A beacon half a turn and 0.1 s after the peek is accepted, sorts before the selected packet,
and is what the dequeue returns. -/
theorem far_beacon_dequeued :
    ¬ ∀ q peekUs code i q1 es q2, Reachable (· = jitQueueInit) (JitStep fskTarget) q →
      q.InWindow peekUs → jitPeek q peekUs = (code, some i, q1) →
      Run (NewcomerStep fskTarget peekUs) q1 es q2 →
      ∃ q3, jitDequeue q2 (i.val : Int) =
        .ok (.ok, some ((q1.node i).pkt, (q1.node i).pktType), q3) := by
  intro h
  have hstep := newcomerStep_beaconAt 2147598648#32
  obtain ⟨q3, hq3⟩ := h oneSelected 15000#32 .ok 0 oneSelected [beaconAt 2147598648#32] _
    reachable_oneSelected inWindow_oneSelected jitPeek_oneSelected (Run.cons hstep (Run.nil _))
  have hbeacon : (jitDequeue (withBeacon 2147598648#32) 0).toOption.map
      (fun r => r.2.1.map fun out => out.2) = some (some .beacon) := by decide +kernel
  have hclass : (oneSelected.node 0).pktType = .downlinkClassA := by decide +kernel
  have hzero : (((0 : Fin jitQueueMax).val : Nat) : Int) = 0 := rfl
  rw [hzero] at hq3
  rw [hq3] at hbeacon
  have htype : (oneSelected.node 0).pktType = .beacon := by
    simpa [Except.toOption] using hbeacon
  rw [hclass] at htype
  cases htype

end DraginoFwd.Jit

import DraginoFwd.Jit.Queue
import DraginoFwd.Lib.SerialClock
import DraginoFwd.Lib.Transition

/-!
# What the queue operations do to the nodes in use

The array of the queue is hidden behind the list of its nodes in use (`JitQueue.entries`). Sorting
rearranges that list, an accepted packet adds one node to it, a removal drops one, and a scan of
`jit_peek` drops some (`jitSortQueue_entries_perm`, `jitInsert_spec`, `jitRemoveAt_subperm`,
`jitPeekScan_subperm`). `JitStep` collects the calls of one thread, and `JitStep.effect` says once
what a call can do.
-/

set_option autoImplicit false

namespace DraginoFwd.Jit

open DraginoFwd.Hal
open DraginoFwd.Lib.Memory
open DraginoFwd.Lib.GapSort
open DraginoFwd.Lib.SerialClock
open DraginoFwd.Lib.Transition

/-- The counter of nodes in use fits the array. -/
def JitQueue.Bounded (q : JitQueue) : Prop := q.numPkt.toNat ≤ jitQueueMax

/-- The nodes in use stand in the order of their distance ahead of `origin`. -/
def JitQueue.SortedFrom (q : JitQueue) (origin : BitVec 32) : Prop :=
  q.entries.Pairwise fun m n => ahead origin m.pkt.countUs ≤ ahead origin n.pkt.countUs

/-- Every node in use lies in the half circle ahead of `origin`. -/
def JitQueue.InWindow (q : JitQueue) (origin : BitVec 32) : Prop :=
  ∀ n ∈ q.entries, ahead origin n.pkt.countUs < 2 ^ 31

theorem jitQueueIsEmpty_eq_false_iff {q : JitQueue} :
    jitQueueIsEmpty q = false ↔ 0 < q.numPkt.toNat := by
  rw [jitQueueIsEmpty, beq_eq_false_iff_ne, Nat.pos_iff_ne_zero, ne_eq, BitVec.toNat_eq]
  exact Iff.rfl

@[simp] theorem entries_jitQueueInit : jitQueueInit.entries = [] := rfl

theorem bounded_jitQueueInit : jitQueueInit.Bounded := Nat.zero_le _

theorem entries_length {q : JitQueue} (h : q.Bounded) : q.entries.length = q.numPkt.toNat := by
  have hmax : jitQueueMax = 32 := rfl
  unfold JitQueue.Bounded at h
  simp only [JitQueue.entries, List.length_take, Vector.length_toList]
  omega

theorem entries_getElem (q : JitQueue) (k : Fin jitQueueMax) (hk : k.val < q.entries.length) :
    q.entries[k.val] = q.node k := by
  simp [JitQueue.entries]

theorem nodes_mem_entries {q : JitQueue} (hq : q.Bounded) (k : Fin jitQueueMax)
    (hk : k.val < q.numPkt.toNat) : q.node k ∈ q.entries := by
  have hlen : k.val < q.entries.length := by rw [entries_length hq]; exact hk
  rw [← entries_getElem q k hlen]
  exact List.getElem_mem hlen

/-! ## Sorting -/

theorem jitSortQueue_entries_perm (q : JitQueue) : (jitSortQueue q).entries.Perm q.entries := by
  unfold jitSortQueue
  split
  · exact List.Perm.refl _
  · exact gapSort_perm compare q.numPkt.toNat q.nodes

/-- Sorting orders the nodes by their distance ahead of any origin that sees them all in its
forward half circle. -/
theorem jitSortQueue_sortedFrom {q : JitQueue} {origin : BitVec 32} (hb : q.Bounded)
    (hwin : q.InWindow origin) : (jitSortQueue q).SortedFrom origin := by
  unfold JitQueue.SortedFrom jitSortQueue
  split
  · next h0 => simp [JitQueue.entries, h0]
  · refine gapSort_pairwise compare (fun n => ahead origin n.pkt.countUs) hb ?_
    intro m hm n hn
    have hm' := hwin m hm
    have hn' := hwin n hn
    exact toInt_sub_le_zero_iff (by omega) (by omega)

/-! ## Insertion -/

/-- An insertion below the capacity puts the node behind the nodes in use and sorts. -/
theorem jitInsert_spec {q : JitQueue} (node : JitNode) (h : q.numPkt.toNat < jitQueueMax) :
    ∃ q0, jitInsert q node = .ok (jitSortQueue q0) ∧ q0.entries = q.entries ++ [node] ∧
      q0.numPkt.toNat = q.numPkt.toNat + 1 := by
  have h32 : q.numPkt.toNat < 32 := h
  have hnum : (q.numPkt + 1#8).toNat = q.numPkt.toNat + 1 := by bv_omega
  rw [jitInsert, dif_pos h]
  refine ⟨_, rfl, ?_, hnum⟩
  simp only [JitQueue.entries, hnum, Vector.toList_set]
  rw [List.take_add_one, List.take_set_of_le le_rfl]
  simp [h32]

/-! ## Removal -/

theorem toNat_sub_one {n : BitVec 8} (h : 0 < n.toNat) : (n - 1#8).toNat = n.toNat - 1 := by
  bv_omega

/-- A removal keeps the other nodes in use; an index behind them costs the last one. -/
theorem jitRemoveAt_spec {q : JitQueue} (hb : q.Bounded) (hpos : 0 < q.numPkt.toNat)
    (i last : Fin jitQueueMax) (hlast : last.val = q.numPkt.toNat - 1) :
    ∃ q0, jitRemoveAt q i last = jitSortQueue q0 ∧ q0.numPkt.toNat = q.numPkt.toNat - 1 ∧
      q0.entries.Perm
        (if i.val < q.numPkt.toNat then q.entries.eraseIdx i.val else q.entries.dropLast) := by
  have hnum := toNat_sub_one hpos
  have hlen := entries_length hb
  refine ⟨_, rfl, hnum, ?_⟩
  -- the nodes in use are those before the last one, and the last one
  have hsplit : q.entries = q.nodes.toList.take (q.numPkt.toNat - 1) ++ [q.node last] := by
    have hlt : q.numPkt.toNat - 1 < q.nodes.toList.length := by
      rw [Vector.length_toList, ← hlast]
      exact last.isLt
    have htake := List.take_succ_eq_append_getElem hlt
    rw [show q.numPkt.toNat - 1 + 1 = q.numPkt.toNat by omega] at htake
    rw [JitQueue.entries, htake, List.append_cancel_left_eq]
    simp [← hlast]
  have htl : (q.nodes.toList.take (q.numPkt.toNat - 1)).length = q.numPkt.toNat - 1 := by
    have := congrArg List.length hsplit
    simp only [List.length_append, List.length_singleton, hlen] at this
    omega
  simp only [JitQueue.entries, hnum, Vector.toList_set]
  rw [List.take_set_of_le (by omega)]
  split
  · next hi =>
    by_cases hil : i.val < q.numPkt.toNat - 1
    · -- the last node takes the place of node `i`
      rw [← JitQueue.entries, hsplit, List.eraseIdx_append_of_lt_length (by omega),
        List.take_set]
      refine (List.set_perm_cons_eraseIdx (by omega) _).trans ?_
      exact (List.perm_append_singleton _ _).symm
    · -- node `i` is the last one
      have hil' : i.val = q.numPkt.toNat - 1 := by omega
      rw [List.take_set_of_le (by omega), ← JitQueue.entries, hsplit, hil',
        List.eraseIdx_append_of_length_le (by omega), htl]
      simp
  · next hi =>
    rw [List.take_set_of_le (by omega), ← JitQueue.entries, hsplit, List.dropLast_concat]

/-- A removal drops one node in use. -/
theorem jitRemoveAt_subperm {q : JitQueue} (hb : q.Bounded) (hpos : 0 < q.numPkt.toNat)
    (i last : Fin jitQueueMax) (hlast : last.val = q.numPkt.toNat - 1) :
    (jitRemoveAt q i last).entries.Subperm q.entries := by
  obtain ⟨q0, heq, -, hperm⟩ := jitRemoveAt_spec hb hpos i last hlast
  rw [heq]
  refine (jitSortQueue_entries_perm q0).subperm.trans (hperm.subperm.trans ?_)
  split
  · exact (List.eraseIdx_sublist _ _).subperm
  · exact (List.dropLast_sublist _).subperm

/-- A symmetric relation between all packets holds between those that are left of them. -/
theorem pairwise_of_subperm {R : JitNode → JitNode → Prop} (hsymm : ∀ {m n}, R m n → R n m)
    {l l' : List JitNode} (h : l.Pairwise R) (hsub : l'.Subperm l) : l'.Pairwise R := by
  obtain ⟨mid, hperm, hsubl⟩ := hsub
  exact (hperm.pairwise_iff hsymm).1 (h.sublist hsubl)

theorem jitRemoveAt_bounded {q : JitQueue} (hb : q.Bounded) (hpos : 0 < q.numPkt.toNat)
    (i last : Fin jitQueueMax) : (jitRemoveAt q i last).Bounded := by
  unfold JitQueue.Bounded at hb ⊢
  rw [jitRemoveAt_numPkt, toNat_sub_one hpos]
  omega

/-! ## The scan of `jit_peek` -/

/-- The outdated test of `jit_peek` as a forward distance. -/
theorem outdated_iff (timeUs : BitVec 32) (n : JitNode) :
    n.pkt.countUs - timeUs ≥ txMaxAdvanceDelay ↔ 512000000 ≤ ahead timeUs n.pkt.countUs := Iff.rfl

/-- A scan keeps the counter in range and drops nodes only. -/
theorem jitPeekScan_subperm (timeUs : BitVec 32) {q : JitQueue} (hb : q.Bounded) (i : Nat)
    (idx : Option (Fin jitQueueMax)) :
    (jitPeekScan timeUs q i idx).1.Bounded ∧
      (jitPeekScan timeUs q i idx).1.entries.Subperm q.entries := by
  fun_induction jitPeekScan timeUs q i idx with
  | case1 q i idx h n hout ih =>
    obtain ⟨hb', hsub⟩ := ih (jitRemoveAt_bounded hb (by omega) _ _)
    exact ⟨hb', hsub.trans (jitRemoveAt_subperm hb (by omega) _ _ rfl)⟩
  | case2 q i idx h n hout ih => exact ih hb
  | case3 => exact ⟨hb, List.Subperm.refl _⟩

/-- With no outdated node in use a scan removes nothing. -/
theorem jitPeekScan_of_fresh {timeUs : BitVec 32} {q : JitQueue}
    (hfresh : ∀ n ∈ q.entries, ahead timeUs n.pkt.countUs < 512000000) (i : Nat)
    (idx : Option (Fin jitQueueMax)) : (jitPeekScan timeUs q i idx).1 = q := by
  fun_induction jitPeekScan timeUs q i idx with
  | case1 q i idx h n hout ih =>
    have hlt := hfresh _ (nodes_mem_entries h.2 n h.1)
    rw [outdated_iff] at hout
    omega
  | case2 q i idx h n hout ih => exact ih hfresh
  | case3 => rfl

/-- A priority index, once found, is never given up. -/
theorem jitPeekScan_isSome (timeUs : BitVec 32) (q : JitQueue) (i : Nat)
    (idx : Option (Fin jitQueueMax)) (h : idx.isSome) : (jitPeekScan timeUs q i idx).2.isSome := by
  fun_induction jitPeekScan timeUs q i idx with
  | case1 q i idx hi n hout ih => exact ih h
  | case2 q i idx hi n hout ih =>
    refine ih ?_
    unfold priorityIdx
    split
    · rfl
    · split <;> rfl
  | case3 => exact h

/-- The first node in use is as close ahead of the origin of the order as any other. -/
theorem JitQueue.SortedFrom.first_le {q : JitQueue} {origin : BitVec 32}
    (h : q.SortedFrom origin) {n : JitNode} (hn : n ∈ q.entries) :
    ahead origin (q.node 0).pkt.countUs ≤ ahead origin n.pkt.countUs := by
  obtain ⟨k, hk, rfl⟩ := List.getElem_of_mem hn
  have hpos : 0 < q.entries.length := by omega
  have hfirst := entries_getElem q 0 hpos
  rw [← hfirst]
  rcases Nat.eq_zero_or_pos k with h0 | h0
  · subst h0
    rfl
  · exact List.pairwise_iff_getElem.1 h 0 k hpos hk h0

/-- What a scan maintains on a queue that is sorted from the current time: the priority index is
the first node in use or there is none, and there is none only before the first step and when
everything left is outdated. -/
structure ScanState (timeUs : BitVec 32) (q : JitQueue) (i : Nat)
    (idx : Option (Fin jitQueueMax)) : Prop where
  bounded : q.Bounded
  window : q.InWindow timeUs
  sorted : q.SortedFrom timeUs
  none_of : idx = none → i = 0 ∨ ∀ n ∈ q.entries, 512000000 ≤ ahead timeUs n.pkt.countUs
  first_of : ∀ k, idx = some k → k = 0 ∧ 0 < q.numPkt.toNat ∧ 0 < i ∧
    ahead timeUs (q.node 0).pkt.countUs < 512000000

/-- Removing a node sorts the rest from every origin that sees it. -/
theorem jitRemoveAt_sorts {q : JitQueue} {origin : BitVec 32} (hb : q.Bounded)
    (hpos : 0 < q.numPkt.toNat) (i last : Fin jitQueueMax) (hlast : last.val = q.numPkt.toNat - 1)
    (hwin : (jitRemoveAt q i last).InWindow origin) :
    (jitRemoveAt q i last).SortedFrom origin := by
  obtain ⟨q0, heq, hnum, -⟩ := jitRemoveAt_spec hb hpos i last hlast
  rw [heq] at hwin ⊢
  unfold JitQueue.Bounded at hb
  refine jitSortQueue_sortedFrom (by unfold JitQueue.Bounded; omega) fun n hn => ?_
  exact hwin n ((jitSortQueue_entries_perm q0).mem_iff.2 hn)

/-- Removing a node re-sorts the rest, which stays in the window. -/
theorem jitRemoveAt_sortedFrom {q : JitQueue} {origin : BitVec 32} (hb : q.Bounded)
    (hwin : q.InWindow origin) (hpos : 0 < q.numPkt.toNat) (i last : Fin jitQueueMax)
    (hlast : last.val = q.numPkt.toNat - 1) :
    (jitRemoveAt q i last).InWindow origin ∧ (jitRemoveAt q i last).SortedFrom origin := by
  have hwin' : (jitRemoveAt q i last).InWindow origin := fun n hn =>
    hwin n ((jitRemoveAt_subperm hb hpos i last hlast).subset hn)
  exact ⟨hwin', jitRemoveAt_sorts hb hpos i last hlast hwin'⟩

theorem ScanState.remove {timeUs : BitVec 32} {q : JitQueue} {idx : Option (Fin jitQueueMax)}
    {n last : Fin jitQueueMax} (h : ScanState timeUs q n.val idx) (hn : n.val < q.numPkt.toNat)
    (hlast : last.val = q.numPkt.toNat - 1)
    (hout : 512000000 ≤ ahead timeUs (q.node n).pkt.countUs) :
    ScanState timeUs (jitRemoveAt q n last) 1 idx := by
  have hpos : 0 < q.numPkt.toNat := by omega
  have hb' := jitRemoveAt_bounded h.bounded hpos n last
  obtain ⟨hwin', hsort'⟩ := jitRemoveAt_sortedFrom h.bounded h.window hpos n last hlast
  have hsub := jitRemoveAt_subperm h.bounded hpos n last hlast
  refine ⟨hb', hwin', hsort', ?_, ?_⟩
  · intro hnone
    right
    intro m hm
    rcases h.none_of hnone with h0 | hall
    · -- the first node is outdated, and the others lie behind it
      have hn0 : n = 0 := Fin.ext h0
      subst hn0
      exact le_trans hout (h.sorted.first_le (hsub.subset hm))
    · exact hall m (hsub.subset hm)
  · intro k hk
    obtain ⟨hk0, -, hi, hfresh⟩ := h.first_of k hk
    have hnum : (jitRemoveAt q n last).numPkt.toNat = q.numPkt.toNat - 1 := by
      rw [jitRemoveAt_numPkt, toNat_sub_one hpos]
    refine ⟨hk0, by omega, one_pos, lt_of_le_of_lt (hsort'.first_le ?_) hfresh⟩
    -- the first node is not the removed one
    obtain ⟨q0, heq, -, hperm⟩ := jitRemoveAt_spec h.bounded hpos n last hlast
    rw [heq, (jitSortQueue_entries_perm q0).mem_iff, hperm.mem_iff, if_pos hn]
    have hlen : 0 < q.entries.length := by rw [entries_length h.bounded]; exact hpos
    rw [← entries_getElem q 0 hlen, List.mem_eraseIdx_iff_getElem]
    exact ⟨0, by simpa using hlen, by omega, by simp⟩

theorem ScanState.keep {timeUs : BitVec 32} {q : JitQueue} {idx : Option (Fin jitQueueMax)}
    {n : Fin jitQueueMax} (h : ScanState timeUs q n.val idx) (hn : n.val < q.numPkt.toNat)
    (hfresh : ahead timeUs (q.node n).pkt.countUs < 512000000) :
    ScanState timeUs q (n.val + 1) (priorityIdx timeUs q n idx) := by
  have hmem := nodes_mem_entries h.bounded n hn
  refine ⟨h.bounded, h.window, h.sorted, ?_, ?_⟩
  · cases idx with
    | none => simp [priorityIdx]
    | some k =>
      rw [priorityIdx]
      split <;> simp
  · intro k' hk'
    cases idx with
    | none =>
      rcases h.none_of rfl with h0 | hall
      · have hn0 : n = 0 := Fin.ext h0
        subst hn0
        rw [priorityIdx, Option.some.injEq] at hk'
        exact ⟨hk'.symm, by omega, by omega, hfresh⟩
      · have := hall _ hmem
        omega
    | some k =>
      obtain ⟨hk0, hpos, hi, hf⟩ := h.first_of k rfl
      subst hk0
      -- no node comes before the first one
      have hle := h.sorted.first_le hmem
      have hnlt : ¬ (q.node n).pkt.countUs - timeUs <
          (q.node 0).pkt.countUs - timeUs := Nat.not_lt.2 hle
      rw [priorityIdx, if_neg hnlt, Option.some.injEq] at hk'
      exact ⟨hk'.symm, hpos, by omega, hf⟩

/-- On a queue sorted from the current time a scan ends in a sorted queue, with the index of its
first node or with none. -/
theorem jitPeekScan_sorted {timeUs : BitVec 32} {q : JitQueue} {i : Nat}
    {idx : Option (Fin jitQueueMax)} (h : ScanState timeUs q i idx) :
    ∃ j, ScanState timeUs (jitPeekScan timeUs q i idx).1 j (jitPeekScan timeUs q i idx).2 := by
  fun_induction jitPeekScan timeUs q i idx with
  | case1 q i idx hi n hout ih => exact ih (h.remove hi.1 rfl hout)
  | case2 q i idx hi n hout ih =>
    have hfresh : ahead timeUs (q.node n).pkt.countUs < 512000000 := by
      rw [outdated_iff] at hout
      omega
    exact ih (h.keep hi.1 hfresh)
  | case3 q i idx hi => exact ⟨i, h⟩

/-- A peek on a sorted window ends in a sorted window that drops nodes only, and any index it
returns is that of the first node. -/
theorem jitPeek_sorted {q : JitQueue} {timeUs : BitVec 32} (hb : q.Bounded)
    (hwin : q.InWindow timeUs) (hsort : q.SortedFrom timeUs) :
    (jitPeek q timeUs).2.2.InWindow timeUs ∧ (jitPeek q timeUs).2.2.SortedFrom timeUs ∧
      ∀ k, (jitPeek q timeUs).2.1 = some k → k = 0 ∧ 0 < (jitPeek q timeUs).2.2.numPkt.toNat ∧
        ahead timeUs ((jitPeek q timeUs).2.2.node k).pkt.countUs < 30000 := by
  unfold jitPeek
  split
  · exact ⟨hwin, hsort, by simp⟩
  · have hstart : ScanState timeUs q 0 none := ⟨hb, hwin, hsort, by simp, by simp⟩
    obtain ⟨j, hend⟩ := jitPeekScan_sorted hstart
    refine ⟨hend.window, hend.sorted, ?_⟩
    intro k hk
    rw [jitPeekSection, Option.filter_eq_some_iff] at hk
    obtain ⟨hidx, hsoon⟩ := hk
    obtain ⟨hk0, hpos, -, -⟩ := hend.first_of k hidx
    exact ⟨hk0, hpos, of_decide_eq_true hsoon⟩

/-- With no outdated node in use a peek leaves the queue as it is. -/
theorem jitPeek_of_fresh {q : JitQueue} {timeUs : BitVec 32}
    (hfresh : ∀ n ∈ q.entries, ahead timeUs n.pkt.countUs < 512000000) :
    (jitPeek q timeUs).2.2 = q := by
  unfold jitPeek
  split
  · rfl
  · exact jitPeekScan_of_fresh hfresh 0 none

/-- A peek that returns no index on a sorted queue without outdated nodes leaves nothing that is
due. -/
theorem jitPeek_none {q : JitQueue} {timeUs : BitVec 32} (hb : q.Bounded)
    (hfresh : ∀ n ∈ q.entries, ahead timeUs n.pkt.countUs < 512000000)
    (hsort : q.SortedFrom timeUs) (hnone : (jitPeek q timeUs).2.1 = none) :
    ∀ n ∈ q.entries, 30000 ≤ ahead timeUs n.pkt.countUs := by
  intro n hn
  have hpos : 0 < q.numPkt.toNat := by
    rw [← entries_length hb]
    exact List.length_pos_of_mem hn
  have hne : jitQueueIsEmpty q = false := jitQueueIsEmpty_eq_false_iff.2 hpos
  have hwin : q.InWindow timeUs := fun m hm => lt_trans (hfresh m hm) (by norm_num)
  have hstart : ScanState timeUs q 0 none := ⟨hb, hwin, hsort, by simp, by simp⟩
  have hunfold := jitPeekScan_of_fresh hfresh 0 none
  simp only [jitPeek, hne, Bool.false_eq_true, if_false, jitPeekSection] at hnone
  -- the scan of a queue in use finds an index, which is that of the first node
  obtain ⟨j, hend⟩ := jitPeekScan_sorted hstart
  have hsome : (jitPeekScan timeUs q 0 none).2.isSome := by
    rw [jitPeekScan, dif_pos ⟨hpos, hb⟩]
    have hfirst : ¬ (q.node ⟨0, by decide⟩).pkt.countUs - timeUs ≥
        txMaxAdvanceDelay := by
      rw [outdated_iff]
      have := hfresh _ (nodes_mem_entries hb ⟨0, by decide⟩ hpos)
      omega
    rw [if_neg hfirst]
    exact jitPeekScan_isSome timeUs q _ _ rfl
  obtain ⟨k, hk⟩ := Option.isSome_iff_exists.1 hsome
  obtain ⟨rfl, -, -, -⟩ := hend.first_of k hk
  rw [hk, Option.filter_eq_none_iff] at hnone
  have hlate := hnone 0 rfl
  rw [hunfold, decide_eq_true_eq] at hlate
  exact le_trans (Nat.not_lt.1 hlate) (hsort.first_le hn)

/-! ## Admission -/

/-- What the three criteria of `jit_enqueue` ask of a node: not too late, not too much in advance
for class A and B, and no overlap with a node in use. -/
structure Admissible (q : JitQueue) (timeUs : BitVec 32) (node : JitNode) : Prop where
  notLate : 32500 < ahead timeUs node.pkt.countUs
  notEarly : node.pktType = .downlinkClassA ∨ node.pktType = .downlinkClassB →
    ahead timeUs node.pkt.countUs ≤ 512000000
  clear : ∀ n ∈ q.entries, overlaps node n = false

/-- A node joined the nodes in use, which were sorted afterwards. -/
def Inserted (q : JitQueue) (node : JitNode) (q' : JitQueue) : Prop :=
  ∃ q0, q' = jitSortQueue q0 ∧ q0.entries = q.entries ++ [node] ∧
    q0.numPkt.toNat = q.numPkt.toNat + 1

theorem Inserted.perm {q q' : JitQueue} {node : JitNode} (h : Inserted q node q') :
    q'.entries.Perm (node :: q.entries) := by
  obtain ⟨q0, rfl, hent, -⟩ := h
  refine (jitSortQueue_entries_perm q0).trans ?_
  rw [hent]
  exact List.perm_append_singleton node q.entries

theorem Inserted.mem {q q' : JitQueue} {node n : JitNode} (h : Inserted q node q') :
    n ∈ q'.entries ↔ n = node ∨ n ∈ q.entries := by
  rw [h.perm.mem_iff, List.mem_cons]

theorem Inserted.numPkt {q q' : JitQueue} {node : JitNode} (h : Inserted q node q') :
    q'.numPkt.toNat = q.numPkt.toNat + 1 := by
  obtain ⟨q0, rfl, -, hnum⟩ := h
  rw [jitSortQueue_numPkt]
  exact hnum

theorem Inserted.bounded {q q' : JitQueue} {node : JitNode} (h : Inserted q node q')
    (hroom : q.numPkt.toNat < jitQueueMax) : q'.Bounded := by
  unfold JitQueue.Bounded
  rw [h.numPkt]
  omega

theorem Inserted.sortedFrom {q q' : JitQueue} {node : JitNode} {origin : BitVec 32}
    (h : Inserted q node q') (hb : q.numPkt.toNat < jitQueueMax) (hwin : q.InWindow origin)
    (hnode : ahead origin node.pkt.countUs < 2 ^ 31) : q'.SortedFrom origin := by
  obtain ⟨q0, rfl, hent, hnum⟩ := h
  refine jitSortQueue_sortedFrom (by unfold JitQueue.Bounded; omega) ?_
  intro n hn
  rw [hent, List.mem_append, List.mem_singleton] at hn
  rcases hn with hn | rfl
  · exact hwin n hn
  · exact hnode

/-- An overlap is reported as a collision. -/
theorem errCollision_ne (n : JitNode) : errCollision n ≠ .ok ∧ errCollision n ≠ .txPower := by
  rw [errCollision]
  split <;> decide

/-- An admissible node goes to the insertion. -/
theorem jitEnqueueSection_of_admissible {tgt : Target} {q : JitQueue} {timeUs : BitVec 32}
    {packet : LgwPktTx} {pktType : JitPktType}
    (h : Admissible q timeUs (jitNode tgt q timeUs packet pktType)) :
    jitEnqueueSection tgt q timeUs packet pktType =
      (jitInsert q (jitNode tgt q timeUs packet pktType)).map fun q' =>
        (.ok, (jitNode tgt q timeUs packet pktType).pkt, q') := by
  have hlate : ¬ (jitNode tgt q timeUs packet pktType).pkt.countUs - timeUs ≤
      txStartDelay + txMarginDelay + txJitDelay := Nat.not_le.2 h.notLate
  have hearly : ¬ ((pktType = .downlinkClassA ∨ pktType = .downlinkClassB) ∧
      (jitNode tgt q timeUs packet pktType).pkt.countUs - timeUs > txMaxAdvanceDelay) :=
    fun hgt => Nat.not_lt.2 (h.notEarly hgt.1) hgt.2
  have hfind : q.entries.find? (overlaps (jitNode tgt q timeUs packet pktType)) = none := by
    rw [List.find?_eq_none]
    intro n hn
    simp [h.clear n hn]
  rw [jitEnqueueSection, if_neg hlate, if_neg hearly, hfind]

/-- A node that is not admissible is reported with an error, and the queue is left alone. -/
theorem jitEnqueueSection_of_not_admissible {tgt : Target} {q : JitQueue} {timeUs : BitVec 32}
    {packet : LgwPktTx} {pktType : JitPktType}
    (h : ¬ Admissible q timeUs (jitNode tgt q timeUs packet pktType)) :
    ∃ e, e ≠ JitError.ok ∧ e ≠ .txPower ∧ jitEnqueueSection tgt q timeUs packet pktType =
      .ok (e, (jitNode tgt q timeUs packet pktType).pkt, q) := by
  unfold jitEnqueueSection
  generalize hnode : jitNode tgt q timeUs packet pktType = node at h
  have htype : node.pktType = pktType := by rw [← hnode]; rfl
  dsimp only
  split
  · exact ⟨.tooLate, by decide, by decide, rfl⟩
  · next hlate =>
    split
    · exact ⟨.tooEarly, by decide, by decide, rfl⟩
    · next hearly =>
      cases hfind : q.entries.find? (overlaps node) with
      | some n => exact ⟨errCollision n, (errCollision_ne n).1, (errCollision_ne n).2, rfl⟩
      | none =>
        refine absurd ⟨Nat.not_le.1 hlate, ?_, ?_⟩ h
        · intro hAB
          rw [htype] at hAB
          exact Nat.not_lt.1 fun hgt => hearly ⟨hAB, hgt⟩
        · intro n hn
          simpa using List.find?_eq_none.1 hfind n hn

/-- The second critical section of `jit_enqueue` either reports an error and leaves the queue
alone, or the node is admissible and goes to the insertion. -/
theorem jitEnqueueSection_cases (tgt : Target) (q : JitQueue) (timeUs : BitVec 32)
    (packet : LgwPktTx) (pktType : JitPktType) :
    (∃ e, e ≠ JitError.ok ∧ jitEnqueueSection tgt q timeUs packet pktType =
      .ok (e, (jitNode tgt q timeUs packet pktType).pkt, q)) ∨
    (Admissible q timeUs (jitNode tgt q timeUs packet pktType) ∧
      jitEnqueueSection tgt q timeUs packet pktType =
        (jitInsert q (jitNode tgt q timeUs packet pktType)).map fun q' =>
          (.ok, (jitNode tgt q timeUs packet pktType).pkt, q')) := by
  by_cases hadm : Admissible q timeUs (jitNode tgt q timeUs packet pktType)
  · exact Or.inr ⟨hadm, jitEnqueueSection_of_admissible hadm⟩
  · obtain ⟨e, hok, -, heq⟩ := jitEnqueueSection_of_not_admissible hadm
    exact Or.inl ⟨e, hok, heq⟩

/-- With room in the array the section never writes outside it, and the node joins the queue when
it is admissible. -/
theorem jitEnqueueSection_spec (tgt : Target) {q : JitQueue} (timeUs : BitVec 32)
    (packet : LgwPktTx) (pktType : JitPktType) (hroom : q.numPkt.toNat < jitQueueMax) :
    (∃ e pkt', e ≠ JitError.ok ∧
      jitEnqueueSection tgt q timeUs packet pktType = .ok (e, pkt', q)) ∨
    (Admissible q timeUs (jitNode tgt q timeUs packet pktType) ∧ ∃ pkt' q',
      jitEnqueueSection tgt q timeUs packet pktType = .ok (.ok, pkt', q') ∧
        Inserted q (jitNode tgt q timeUs packet pktType) q') := by
  rcases jitEnqueueSection_cases tgt q timeUs packet pktType with ⟨e, he, heq⟩ | ⟨hadm, heq⟩
  · exact Or.inl ⟨e, _, he, heq⟩
  · obtain ⟨q0, hins, hent, hnum⟩ := jitInsert_spec (jitNode tgt q timeUs packet pktType) hroom
    refine Or.inr ⟨hadm, (jitNode tgt q timeUs packet pktType).pkt, jitSortQueue q0, ?_,
      q0, rfl, hent, hnum⟩
    rw [heq, hins]
    rfl

/-! ## The send time of a packet -/

/-- The slot behind the first node of a list whose successor leaves room, or behind its last
node. -/
inductive FirstSlot (preDelay postDelay : BitVec 32) : List JitNode → BitVec 32 → Prop where
  | last (n : JitNode) : FirstSlot preDelay postDelay [n] (slotBehind preDelay n)
  | room {n m : JitNode} {rest : List JitNode} :
      collidesWith (slotBehind preDelay n) preDelay postDelay m = false →
        FirstSlot preDelay postDelay (n :: m :: rest) (slotBehind preDelay n)
  | next {n m : JitNode} {rest : List JitNode} {c : BitVec 32} :
      collidesWith (slotBehind preDelay n) preDelay postDelay m = true →
        FirstSlot preDelay postDelay (m :: rest) c →
          FirstSlot preDelay postDelay (n :: m :: rest) c

theorem bestSlot_firstSlot (preDelay postDelay : BitVec 32) (l : List JitNode) (asap : BitVec 32)
    (hne : l ≠ []) : FirstSlot preDelay postDelay l (bestSlot preDelay postDelay l asap) := by
  induction l generalizing asap with
  | nil => exact absurd rfl hne
  | cons n rest ih =>
    cases rest with
    | nil => exact FirstSlot.last n
    | cons m rest =>
      cases hcol : collidesWith (slotBehind preDelay n) preDelay postDelay m with
      | false =>
        simp only [bestSlot, hcol, Bool.false_eq_true, if_false]
        exact FirstSlot.room hcol
      | true =>
        simp only [bestSlot, hcol, if_true]
        exact FirstSlot.next hcol (ih _ (List.cons_ne_nil _ _))

/-- The send times of a packet: its own time stamp, or for an immediate downlink one second from
now if that is free, else the first slot behind a queued packet. -/
def SendTime (tgt : Target) (q : JitQueue) (timeUs : BitVec 32) (packet : LgwPktTx) :
    JitPktType → BitVec 32 → Prop
  | .downlinkClassC, c =>
      let preDelay := packetPreDelay .downlinkClassC
      let postDelay := packetPostDelay tgt packet .downlinkClassC
      let free := ∀ n ∈ q.entries,
        collidesWith (asapMargin tgt timeUs) preDelay postDelay n = false
      (free ∧ c = asapMargin tgt timeUs) ∨ (¬ free ∧ FirstSlot preDelay postDelay q.entries c)
  | _, c => c = packet.countUs

/-- The node for a packet that is to be sent at `c`. -/
def nodeAt (tgt : Target) (packet : LgwPktTx) (pktType : JitPktType) (c : BitVec 32) : JitNode where
  pkt :=
    match pktType with
    | .downlinkClassC => { packet with txMode := timestamped, countUs := c }
    | _ => packet
  pktType := pktType
  preDelay := packetPreDelay pktType
  postDelay := packetPostDelay tgt packet pktType

/-- `jit_enqueue` builds the node for a send time of the packet. -/
theorem jitNode_sendTime (tgt : Target) (q : JitQueue) (timeUs : BitVec 32) (packet : LgwPktTx)
    (pktType : JitPktType) :
    ∃ c, SendTime tgt q timeUs packet pktType c ∧
      jitNode tgt q timeUs packet pktType = nodeAt tgt packet pktType c ∧
      (jitNode tgt q timeUs packet pktType).pkt.countUs = c := by
  cases pktType with
  | downlinkClassC =>
    refine ⟨_, ?_, rfl, rfl⟩
    simp only [asapCountUs, SendTime]
    split
    · next hcol =>
      obtain ⟨n, hn, hcol⟩ := List.any_eq_true.1 hcol
      refine Or.inr ⟨fun hfree => ?_, bestSlot_firstSlot _ _ _ _ (List.ne_nil_of_mem hn)⟩
      rw [hfree n hn] at hcol
      exact Bool.noConfusion hcol
    · next hfree =>
      refine Or.inl ⟨fun n hn => ?_, rfl⟩
      exact Bool.eq_false_iff.2 fun hcol => hfree (List.any_eq_true.2 ⟨n, hn, hcol⟩)
  | downlinkClassA => exact ⟨packet.countUs, rfl, rfl, rfl⟩
  | downlinkClassB => exact ⟨packet.countUs, rfl, rfl, rfl⟩
  | beacon => exact ⟨packet.countUs, rfl, rfl, rfl⟩

/-! ## Calls -/

/-- The arguments of a call of `jit_enqueue`. -/
structure EnqueueCall where
  timeUs : BitVec 32
  packet : LgwPktTx
  pktType : JitPktType

/-- A call of one of the three operations with its arguments. -/
inductive JitOp where
  | enqueue (timeUs : BitVec 32) (packet : LgwPktTx) (pktType : JitPktType)
  | peek (timeUs : BitVec 32)
  | dequeue (index : Int)

/-- The queue after a call. -/
def jitCall (tgt : Target) (q : JitQueue) : JitOp → Except OutOfBounds JitQueue
  | .enqueue timeUs packet pktType =>
      (jitEnqueue tgt q timeUs packet pktType).map fun r => r.2.2
  | .peek timeUs => .ok (jitPeek q timeUs).2.2
  | .dequeue index => (jitDequeue q index).map fun r => r.2.2

/-- A call that returns. -/
def JitStep (tgt : Target) (q : JitQueue) (op : JitOp) (q' : JitQueue) : Prop :=
  jitCall tgt q op = .ok q'

/-- What an enqueue of one thread can do: leave the queue alone, or insert an admissible node. -/
theorem jitEnqueue_spec (tgt : Target) {q : JitQueue} (hb : q.Bounded) (timeUs : BitVec 32)
    (packet : LgwPktTx) (pktType : JitPktType) :
    (∃ e pkt', e ≠ JitError.ok ∧ jitEnqueue tgt q timeUs packet pktType = .ok (e, pkt', q)) ∨
    (q.numPkt.toNat < jitQueueMax ∧ Admissible q timeUs (jitNode tgt q timeUs packet pktType) ∧
      ∃ pkt' q', jitEnqueue tgt q timeUs packet pktType = .ok (.ok, pkt', q') ∧
        Inserted q (jitNode tgt q timeUs packet pktType) q') := by
  unfold jitEnqueue
  split
  · exact Or.inl ⟨.full, packet, by decide, rfl⟩
  · next hfull =>
    have hroom : q.numPkt.toNat < jitQueueMax := by
      refine lt_of_le_of_ne hb fun h => hfull ?_
      rw [jitQueueIsFull, h]
      rfl
    rcases jitEnqueueSection_spec tgt timeUs packet pktType hroom with h | ⟨hadm, h⟩
    · exact Or.inl h
    · exact Or.inr ⟨hroom, hadm, h⟩

/-- The verdict of an enqueue on any queue: an error that leaves it alone, the packet in the queue,
or a write behind the array of a queue that is longer than it. -/
theorem jitEnqueue_verdict (tgt : Target) (q : JitQueue) (timeUs : BitVec 32) (packet : LgwPktTx)
    (pktType : JitPktType) :
    ((∃ e pkt', e ≠ JitError.ok ∧ e ≠ .txPower ∧
        jitEnqueue tgt q timeUs packet pktType = .ok (e, pkt', q)) ∧
      (q.numPkt.toNat = jitQueueMax ∨
        ¬ Admissible q timeUs (jitNode tgt q timeUs packet pktType))) ∨
    (q.numPkt.toNat < jitQueueMax ∧ Admissible q timeUs (jitNode tgt q timeUs packet pktType) ∧
      ∃ pkt' q', jitEnqueue tgt q timeUs packet pktType = .ok (.ok, pkt', q') ∧
        Inserted q (jitNode tgt q timeUs packet pktType) q') ∨
    (jitQueueMax < q.numPkt.toNat ∧ Admissible q timeUs (jitNode tgt q timeUs packet pktType) ∧
      ∃ fault, jitEnqueue tgt q timeUs packet pktType = .error fault) := by
  by_cases hfull : q.numPkt.toNat = jitQueueMax
  · refine Or.inl ⟨⟨.full, packet, by decide, by decide, ?_⟩, Or.inl hfull⟩
    rw [jitEnqueue, jitQueueIsFull, hfull]
    rfl
  · have hsection : jitEnqueue tgt q timeUs packet pktType =
        jitEnqueueSection tgt q timeUs packet pktType := by
      rw [jitEnqueue, jitQueueIsFull, beq_false_of_ne hfull]
      rfl
    rw [hsection]
    by_cases hadm : Admissible q timeUs (jitNode tgt q timeUs packet pktType)
    · rw [jitEnqueueSection_of_admissible hadm]
      rcases Nat.lt_or_ge q.numPkt.toNat jitQueueMax with hroom | hover
      · obtain ⟨q0, hins, hentries, hnum⟩ :=
          jitInsert_spec (jitNode tgt q timeUs packet pktType) hroom
        rw [hins]
        exact Or.inr (Or.inl ⟨hroom, hadm, _, _, rfl, q0, rfl, hentries, hnum⟩)
      · rw [jitInsert, dif_neg (Nat.not_lt.2 hover)]
        exact Or.inr (Or.inr ⟨Nat.lt_of_le_of_ne hover (Ne.symm hfull), hadm, _, rfl⟩)
    · obtain ⟨e, hok, hpower, heq⟩ := jitEnqueueSection_of_not_admissible hadm
      exact Or.inl ⟨⟨e, _, hok, hpower, heq⟩, Or.inr hadm⟩

/-- What a dequeue can do: leave the queue alone, or remove one node. -/
theorem jitDequeue_spec {q : JitQueue} (hb : q.Bounded) (index : Int) :
    ((∃ e, jitDequeue q index = .ok (e, none, q)) ∧
      (0 ≤ index → index < jitQueueMax → q.numPkt.toNat = 0)) ∨
    (0 < q.numPkt.toNat ∧ ∃ i last : Fin jitQueueMax, (i.val : Int) = index ∧
      last.val = q.numPkt.toNat - 1 ∧ jitDequeue q index =
        .ok (.ok, some ((q.node i).pkt, (q.node i).pktType), jitRemoveAt q i last)) := by
  unfold jitDequeue
  split
  · next hidx =>
    refine Or.inl ⟨⟨.invalid, rfl⟩, fun hlo hhi => ?_⟩
    rcases hidx with hidx | hidx
    · exact absurd hlo (Int.not_le.2 hidx)
    · exact absurd hidx (Int.not_le.2 hhi)
  · next hidx =>
    split
    · next hemp =>
      refine Or.inl ⟨⟨.empty, rfl⟩, fun _ _ => ?_⟩
      rw [beq_iff_eq.1 hemp]
      rfl
    · next hne =>
      have hpos : 0 < q.numPkt.toNat :=
        jitQueueIsEmpty_eq_false_iff.1 (Bool.eq_false_iff.2 hne)
      have hlast := toNat_sub_one hpos
      have hmax : jitQueueMax = 32 := rfl
      have hlt : (q.numPkt - 1#8).toNat < jitQueueMax := by
        unfold JitQueue.Bounded at hb
        omega
      refine Or.inr ⟨hpos, ⟨index.toNat, by omega⟩, ⟨(q.numPkt - 1#8).toNat, hlt⟩, ?_, hlast, ?_⟩
      · exact Int.toNat_of_nonneg (by omega)
      · simp only [jitDequeueSection, dif_pos hlt]
        rfl

/-- What a call can do to a queue whose counter fits the array: an enqueue inserts one admissible
node, and every other effect is the loss of some nodes. -/
theorem JitStep.effect {tgt : Target} {q q' : JitQueue} {op : JitOp} (hb : q.Bounded)
    (h : JitStep tgt q op q') :
    (∃ timeUs packet pktType, op = .enqueue timeUs packet pktType ∧
      q.numPkt.toNat < jitQueueMax ∧ Admissible q timeUs (jitNode tgt q timeUs packet pktType) ∧
      Inserted q (jitNode tgt q timeUs packet pktType) q') ∨
    (q'.Bounded ∧ q'.entries.Subperm q.entries) := by
  have hrefl : q.Bounded ∧ q.entries.Subperm q.entries := ⟨hb, List.Subperm.refl _⟩
  cases op with
  | enqueue timeUs packet pktType =>
    rw [JitStep, jitCall] at h
    rcases jitEnqueue_spec tgt hb timeUs packet pktType with
      ⟨e, pkt', -, heq⟩ | ⟨hroom, hadm, pkt', q1, heq, hins⟩
    · rw [heq] at h
      cases h
      exact Or.inr hrefl
    · rw [heq] at h
      cases h
      exact Or.inl ⟨timeUs, packet, pktType, rfl, hroom, hadm, hins⟩
  | peek timeUs =>
    cases h
    right
    unfold jitPeek
    split
    · exact hrefl
    · exact jitPeekScan_subperm timeUs hb 0 none
  | dequeue index =>
    rw [JitStep, jitCall] at h
    rcases jitDequeue_spec hb index with ⟨⟨e, heq⟩, -⟩ | ⟨hpos, i, last, -, hlast, heq⟩
    · rw [heq] at h
      cases h
      exact Or.inr hrefl
    · rw [heq] at h
      cases h
      exact Or.inr ⟨jitRemoveAt_bounded hb hpos i last, jitRemoveAt_subperm hb hpos i last hlast⟩

theorem JitStep.bounded {tgt : Target} {q q' : JitQueue} {op : JitOp} (hb : q.Bounded)
    (h : JitStep tgt q op q') : q'.Bounded := by
  rcases h.effect hb with ⟨_, _, _, -, hroom, -, hins⟩ | ⟨hb', -⟩
  · exact hins.bounded hroom
  · exact hb'

/-- One thread alone never leaves the array. -/
theorem jitCall_isOk (tgt : Target) {q : JitQueue} (hb : q.Bounded) (op : JitOp) :
    ∃ q', JitStep tgt q op q' := by
  unfold JitStep
  cases op with
  | enqueue timeUs packet pktType =>
    rw [jitCall]
    rcases jitEnqueue_spec tgt hb timeUs packet pktType with
      ⟨e, pkt', -, heq⟩ | ⟨-, -, _, q1, heq, -⟩
    · exact ⟨q, by rw [heq]; rfl⟩
    · exact ⟨q1, by rw [heq]; rfl⟩
  | peek timeUs => exact ⟨_, rfl⟩
  | dequeue index =>
    rw [jitCall]
    rcases jitDequeue_spec hb index with ⟨⟨e, heq⟩, -⟩ | ⟨-, i, last, -, -, heq⟩
    · exact ⟨q, by rw [heq]; rfl⟩
    · exact ⟨_, by rw [heq]; rfl⟩

/-- The queue after the calls `ops` of one thread. -/
def jitAfter (tgt : Target) (q : JitQueue) (ops : List JitOp) : JitQueue :=
  ops.foldl (fun q op => (jitCall tgt q op).toOption.getD q) q

theorem run_jitAfter (tgt : Target) {q : JitQueue} (hb : q.Bounded) (ops : List JitOp) :
    Run (JitStep tgt) q ops (jitAfter tgt q ops) := by
  induction ops generalizing q with
  | nil => exact Run.nil q
  | cons op ops ih =>
    obtain ⟨q', hstep⟩ := jitCall_isOk tgt hb op
    have hnext : jitAfter tgt q (op :: ops) = jitAfter tgt q' ops := by
      rw [jitAfter, List.foldl_cons, show jitCall tgt q op = .ok q' from hstep]
      rfl
    rw [hnext]
    exact Run.cons hstep (ih (hstep.bounded hb))

end DraginoFwd.Jit

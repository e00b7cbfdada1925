import DraginoFwd.Jit.Representation

/-!
# What `jit_peek` returns

`jit_peek` scans the nodes in use, drops those that are outdated and remembers the nearest one. A
drop puts the last node in the place of the dropped one, sorts the array, and goes on with index 1
(`i = 0; continue` in a `for` loop), while the priority index keeps the value that it had in the
old order. Node 0 is not looked at again, so after a drop it must be right already.

`PeeksRight` says what a peek is for. A scan that drops nothing meets it. A scan that drops
something meets it exactly when `SpareDrop` holds, on every queue whose nodes lie in one half circle
(`jitPeek_peeksRight`): the first node of the sorted rest is not outdated, and the index of the
nearest packet is either found before the drop already, or not needed, or not missed.
-/

set_option autoImplicit false

namespace DraginoFwd.Jit

open DraginoFwd.Hal
open DraginoFwd.Lib.SerialClock

/-- A node that `jit_peek` drops: its packet has been missed, or lies `TX_MAX_ADVANCE_DELAY` or
more ahead. -/
def Outdated (timeUs : BitVec 32) (n : JitNode) : Prop := 512000000 ≤ ahead timeUs n.pkt.countUs

instance (timeUs : BitVec 32) (n : JitNode) : Decidable (Outdated timeUs n) :=
  inferInstanceAs (Decidable (_ ≤ _))

/-- The microseconds from now to node `k`. -/
def JitQueue.distance (q : JitQueue) (timeUs : BitVec 32) (k : Fin jitQueueMax) : Nat :=
  ahead timeUs (q.node k).pkt.countUs

/-- The nodes in use that are not outdated. -/
def JitQueue.live (q : JitQueue) (timeUs : BitVec 32) : List JitNode :=
  q.entries.filter fun n => ¬ Outdated timeUs n

/-- The index of the last access of `jit_peek`, to the node with the highest priority. -/
def peekAccess (q : JitQueue) (timeUs : BitVec 32) : Int :=
  match (jitPeekScan timeUs q 0 none).2 with
  | none => -1
  | some k => k.val

/-- What `jit_peek` is for: it drops the outdated nodes and no others, keeps the two counters, and
returns the index of a nearest node when that is due, and no index otherwise. -/
structure PeeksRight (q : JitQueue) (timeUs : BitVec 32) : Prop where
  code : (jitPeek q timeUs).1 = .ok
  kept : (jitPeek q timeUs).2.2.entries.Perm (q.live timeUs)
  numPkt : (jitPeek q timeUs).2.2.numPkt.toNat = (q.live timeUs).length
  numBeacon : q.CountsExactly → (jitPeek q timeUs).2.2.CountsExactly
  due : ∀ k, (jitPeek q timeUs).2.1 = some k →
    k.val < (jitPeek q timeUs).2.2.numPkt.toNat ∧
      (jitPeek q timeUs).2.2.distance timeUs k < 30000 ∧
      ∀ n ∈ (jitPeek q timeUs).2.2.entries,
        (jitPeek q timeUs).2.2.distance timeUs k ≤ ahead timeUs n.pkt.countUs
  none_due : (jitPeek q timeUs).2.1 = none →
    ∀ n ∈ (jitPeek q timeUs).2.2.entries, 30000 ≤ ahead timeUs n.pkt.countUs
  access : 0 ≤ peekAccess q timeUs ∧ peekAccess q timeUs < jitQueueMax

/-- Node `i` is the first outdated one of the array. -/
structure FirstOutdated (timeUs : BitVec 32) (q : JitQueue) (i : Fin jitQueueMax) : Prop where
  inUse : i.val < q.numPkt.toNat
  outdated : Outdated timeUs (q.node i)
  before : ∀ j : Fin jitQueueMax, j < i → ¬ Outdated timeUs (q.node j)

/-- A queue that a drop does no harm to. Node `i` is the first outdated one of the array and `x` a
packet that is not outdated and that no other node left sorts before; and either node 0 is the
nearest of the nodes before `i`, or two nodes are live and the nearest is not due, or two nodes are
nearest. -/
structure SpareDrop (timeUs : BitVec 32) (q : JitQueue) (i : Fin jitQueueMax) (x : JitNode) :
    Prop where
  drop : FirstOutdated timeUs q i
  mem : x ∈ q.entries
  fresh : ¬ Outdated timeUs x
  first : ∀ y ∈ q.entries.eraseIdx i.val, compare x y ≤ 0
  shown : (0 < i ∧ ∀ j, j < i → q.distance timeUs 0 ≤ q.distance timeUs j) ∨
    (30000 ≤ ahead timeUs x.pkt.countUs ∧ 2 ≤ (q.live timeUs).length) ∨
    2 ≤ q.entries.countP fun n => ahead timeUs n.pkt.countUs = ahead timeUs x.pkt.countUs

/-- A peek that drops nothing, or that drops from a half circle without harm. -/
def PeekHolds (q : JitQueue) (timeUs : BitVec 32) : Prop :=
  (∀ n ∈ q.entries, ¬ Outdated timeUs n) ∨
    (∃ origin, q.InWindow origin) ∧ ∃ i x, SpareDrop timeUs q i x

/-! ## Up to the first drop -/

/-- The priority index after a look at the first `i` nodes, with none dropped. -/
structure BeforeDrop (timeUs : BitVec 32) (q : JitQueue) (i : Nat)
    (idx : Option (Fin jitQueueMax)) : Prop where
  none_iff : idx = none ↔ i = 0
  seen : ∀ k, idx = some k → k.val < i
  nearest : ∀ k, idx = some k → ∀ j : Fin jitQueueMax, j.val < i →
    q.distance timeUs k ≤ q.distance timeUs j
  ties : 0 < i → (∀ j : Fin jitQueueMax, j.val < i → q.distance timeUs 0 ≤ q.distance timeUs j) →
    idx = some 0

theorem beforeDrop_zero (timeUs : BitVec 32) (q : JitQueue) : BeforeDrop timeUs q 0 none :=
  ⟨by simp, by simp, by simp, fun h => absurd h (Nat.lt_irrefl 0)⟩

/-- The choice between the old index and the node looked at. -/
theorem priorityIdx_some (timeUs : BitVec 32) (q : JitQueue) (n k : Fin jitQueueMax) :
    priorityIdx timeUs q n (some k) =
      if q.distance timeUs n < q.distance timeUs k then some n else some k := rfl

theorem lt_or_eq_of_lt_succ {j n : Fin jitQueueMax} (h : j.val < n.val + 1) :
    j.val < n.val ∨ j = n := by
  rcases Nat.lt_succ_iff_lt_or_eq.1 h with hlt | heq
  · exact Or.inl hlt
  · exact Or.inr (Fin.ext heq)

theorem BeforeDrop.next {timeUs : BitVec 32} {q : JitQueue} {n : Fin jitQueueMax}
    {idx : Option (Fin jitQueueMax)} (h : BeforeDrop timeUs q n.val idx) :
    BeforeDrop timeUs q (n.val + 1) (priorityIdx timeUs q n idx) := by
  cases idx with
  | none =>
      -- nothing has been looked at, so `n` is node 0
      have h0 : n.val = 0 := h.none_iff.1 rfl
      have hn : n = 0 := Fin.ext h0
      subst hn
      refine ⟨by simp [priorityIdx], ?_, ?_, fun _ _ => rfl⟩
      · rintro k ⟨⟩
        exact Nat.lt_succ_self _
      · rintro k ⟨⟩ j hj
        obtain rfl : j = 0 := Fin.ext (by simpa using hj)
        exact le_rfl
  | some k =>
      rw [priorityIdx_some]
      have hk := h.seen k rfl
      have hnear := h.nearest k rfl
      split
      · next hlt =>
        refine ⟨by simp, ?_, ?_, ?_⟩
        · rintro l ⟨⟩
          exact Nat.lt_succ_self _
        · rintro l ⟨⟩ j hj
          rcases lt_or_eq_of_lt_succ hj with hj | rfl
          · exact le_trans hlt.le (hnear j hj)
          · exact le_rfl
        · intro _ hzero
          -- node 0 was the nearest and is not any more
          have hk0 := h.ties (by omega) fun j hj => hzero j (Nat.lt_succ_of_lt hj)
          cases hk0
          exact absurd (hzero n (Nat.lt_succ_self _)) (Nat.not_le.2 hlt)
      · next hge =>
        refine ⟨by simp, ?_, ?_, ?_⟩
        · rintro l ⟨⟩
          exact Nat.lt_succ_of_lt hk
        · rintro l ⟨⟩ j hj
          rcases lt_or_eq_of_lt_succ hj with hj | rfl
          · exact hnear j hj
          · exact Nat.not_lt.1 hge
        · intro _ hzero
          exact h.ties (by omega) fun j hj => hzero j (Nat.lt_succ_of_lt hj)

/-- A scan ends without a drop, or goes on behind the drop of the first outdated node. -/
theorem jitPeekScan_firstDrop {timeUs : BitVec 32} {q : JitQueue} (hb : q.Bounded) {i : Nat}
    {idx : Option (Fin jitQueueMax)} (h : BeforeDrop timeUs q i idx) (hi : i ≤ q.numPkt.toNat)
    (hfresh : ∀ j : Fin jitQueueMax, j.val < i → ¬ Outdated timeUs (q.node j)) :
    (∃ (n last : Fin jitQueueMax) (idx' : Option (Fin jitQueueMax)), FirstOutdated timeUs q n ∧
      last.val = q.numPkt.toNat - 1 ∧ BeforeDrop timeUs q n.val idx' ∧
      jitPeekScan timeUs q i idx = jitPeekScan timeUs (jitRemoveAt q n last) 1 idx') ∨
    ((∀ j : Fin jitQueueMax, j.val < q.numPkt.toNat → ¬ Outdated timeUs (q.node j)) ∧
      ∃ idx', BeforeDrop timeUs q q.numPkt.toNat idx' ∧
        jitPeekScan timeUs q i idx = (q, idx')) := by
  fun_induction jitPeekScan timeUs q i idx with
  | case1 q i idx hlt n hout _ =>
      exact Or.inl ⟨n, ⟨q.numPkt.toNat - 1, by omega⟩, idx, ⟨hlt.1, hout, hfresh⟩, rfl, h, rfl⟩
  | case2 q i idx hlt n hout ih =>
      have hn : BeforeDrop timeUs q n.val idx := h
      apply ih hb hn.next hlt.1
      intro j hj
      rcases Nat.lt_succ_iff_lt_or_eq.1 hj with hj | hj
      · exact hfresh j hj
      · obtain rfl : j = n := Fin.ext hj
        exact hout
  | case3 q i idx hge =>
      have hlen : i = q.numPkt.toNat := by
        apply le_antisymm hi
        apply Nat.le_of_not_lt
        intro hlt
        exact hge ⟨hlt, hb⟩
      subst hlen
      exact Or.inr ⟨hfresh, idx, h, rfl⟩

/-! ## Behind the first drop -/

/-- Equal distances ahead of one origin belong to one time stamp. -/
theorem countUs_eq_of_ahead {origin a b : BitVec 32} (h : ahead origin a = ahead origin b) :
    a = b := by
  have hsub : a - origin = b - origin := BitVec.eq_of_toNat_eq h
  have hadd := congrArg (· + origin) hsub
  simpa using hadd

/-- With a first node that is not outdated, the order of the half circle is the order of the
distances. -/
theorem sortedFrom_of_first {timeUs origin : BitVec 32} {q : JitQueue} (hwin : q.InWindow origin)
    (hsort : q.SortedFrom origin) (hfresh : ¬ Outdated timeUs (q.node 0)) :
    q.SortedFrom timeUs := by
  -- from now to a node is from now to the first one and on
  have hway : ∀ n ∈ q.entries, ahead timeUs n.pkt.countUs =
      ahead timeUs (q.node 0).pkt.countUs +
        (ahead origin n.pkt.countUs - ahead origin (q.node 0).pkt.countUs) := by
    intro n hn
    have hle := hsort.first_le hn
    have hlt := hwin n hn
    have hleg := ahead_of_le hle
    rw [← hleg]
    apply ahead_add_lt
    unfold Outdated at hfresh
    omega
  apply List.Pairwise.imp_of_mem _ hsort
  intro m n hm hn hmn
  rw [hway m hm, hway n hn]
  omega

/-- The removal of another node leaves the time stamp of the first one. -/
theorem jitRemoveAt_first {origin : BitVec 32} {q : JitQueue} (hb : q.Bounded)
    (hwin : q.InWindow origin) (hsort : q.SortedFrom origin) {n : Fin jitQueueMax}
    (hn : n.val < q.numPkt.toNat) (hpos : 0 < n.val) (last : Fin jitQueueMax)
    (hlast : last.val = q.numPkt.toNat - 1) :
    ((jitRemoveAt q n last).node 0).pkt.countUs = (q.node 0).pkt.countUs := by
  have hnum : (jitRemoveAt q n last).numPkt.toNat = q.numPkt.toNat - 1 := by
    rw [jitRemoveAt_numPkt, toNat_sub_one (by omega)]
  have hb' := jitRemoveAt_bounded hb (by omega) n last
  obtain ⟨-, hsort'⟩ := jitRemoveAt_sortedFrom hb hwin (by omega) n last hlast
  have hperm := jitRemoveAt_perm hb n last hn hlast
  -- the old first node is still there, and the new one was there before
  have hold : q.node 0 ∈ (jitRemoveAt q n last).entries := by
    have hlen : 0 < q.entries.length := by rw [entries_length hb]; omega
    rw [hperm.mem_iff, ← entries_getElem q 0 hlen, List.mem_eraseIdx_iff_getElem]
    exact ⟨0, by simpa using hlen, by omega, by simp⟩
  have hnew : (jitRemoveAt q n last).node 0 ∈ q.entries := by
    have hmem := nodes_mem_entries hb' (0 : Fin jitQueueMax) (by rw [hnum]; show 0 < _; omega)
    exact (List.eraseIdx_sublist _ _).subset (hperm.mem_iff.1 hmem)
  exact countUs_eq_of_ahead (le_antisymm (hsort'.first_le hold) (hsort.first_le hnew))

/-- The live nodes are those of the queue before the removal of an outdated one. -/
theorem jitRemoveAt_live {timeUs : BitVec 32} {q : JitQueue} (hb : q.Bounded)
    {n last : Fin jitQueueMax} (hn : n.val < q.numPkt.toNat)
    (hlast : last.val = q.numPkt.toNat - 1) (hout : Outdated timeUs (q.node n)) :
    ((jitRemoveAt q n last).live timeUs).Perm (q.live timeUs) := by
  have hperm := (entries_perm_jitRemoveAt hb n last hn hlast).filter fun n => ¬ Outdated timeUs n
  rw [List.filter_cons_of_neg (by simpa using hout)] at hperm
  exact hperm.symm

/-- An outdated first node of a sorted half circle stays: the scan starts over behind it. -/
theorem jitPeekScan_keeps_first {timeUs origin : BitVec 32} {q : JitQueue} (hb : q.Bounded)
    (hwin : q.InWindow origin) (hsort : q.SortedFrom origin) (hpos : 0 < q.numPkt.toNat)
    (hout : Outdated timeUs (q.node 0)) (i : Nat) (hi : 0 < i) (idx : Option (Fin jitQueueMax)) :
    ∃ n ∈ (jitPeekScan timeUs q i idx).1.entries, Outdated timeUs n := by
  fun_induction jitPeekScan timeUs q i idx with
  | case1 q i idx hlt n _ ih =>
      have hn : 0 < n.val := hi
      have hfirst := jitRemoveAt_first hb hwin hsort hlt.1 hn ⟨q.numPkt.toNat - 1, by omega⟩ rfl
      obtain ⟨hwin', hsort'⟩ := jitRemoveAt_sortedFrom hb hwin hpos n
        ⟨q.numPkt.toNat - 1, by omega⟩ rfl
      apply ih (jitRemoveAt_bounded hb hpos _ _) hwin' hsort'
      · rw [jitRemoveAt_numPkt, toNat_sub_one hpos]
        omega
      · unfold Outdated at hout ⊢
        rw [hfirst]
        exact hout
      · exact Nat.one_pos
  | case2 q i idx hlt n _ ih => exact ih hb hwin hsort hpos hout (Nat.succ_pos i)
  | case3 q i idx _ => exact ⟨q.node 0, nodes_mem_entries hb 0 hpos, hout⟩

/-- What a scan maintains behind the first drop, where the sorted half circle starts with a node
that is not outdated. `shown` tells whether the priority index was that of node 0 at the start. -/
structure ScanRest (timeUs origin : BitVec 32) (shown : Prop) (q : JitQueue) (i : Nat)
    (idx : Option (Fin jitQueueMax)) : Prop where
  bounded : q.Bounded
  window : q.InWindow origin
  sorted : q.SortedFrom origin
  inUse : 0 < q.numPkt.toNat
  pos : 0 < i
  fresh : ∀ j : Fin jitQueueMax, j.val < i → j.val < q.numPkt.toNat →
    ¬ Outdated timeUs (q.node j)
  none_of : idx = none → i = 1
  index : ∀ k, idx = some k → k.val < (q.live timeUs).length
  nearest : ∀ k, idx = some k → ∀ j : Fin jitQueueMax, 0 < j.val → j.val < i →
    j.val < q.numPkt.toNat → q.distance timeUs k ≤ q.distance timeUs j
  first_iff : idx = some 0 ↔ shown

theorem ScanRest.first_fresh {timeUs origin : BitVec 32} {shown : Prop} {q : JitQueue} {i : Nat}
    {idx : Option (Fin jitQueueMax)} (h : ScanRest timeUs origin shown q i idx) :
    ¬ Outdated timeUs (q.node 0) := h.fresh 0 h.pos h.inUse

/-- The nodes up to a live one of a queue whose first nodes are live are as many live nodes. -/
theorem lt_live_length {timeUs : BitVec 32} {q : JitQueue} (hb : q.Bounded) {n : Fin jitQueueMax}
    (hn : n.val < q.numPkt.toNat)
    (hfresh : ∀ j : Fin jitQueueMax, j.val ≤ n.val → ¬ Outdated timeUs (q.node j)) :
    n.val < (q.live timeUs).length := by
  have hlen := entries_length hb
  have hall : ∀ m ∈ q.entries.take (n.val + 1), ¬ Outdated timeUs m := by
    intro m hm
    obtain ⟨j, hj, rfl⟩ := List.getElem_of_mem hm
    rw [List.length_take] at hj
    have hmax : n.val < 32 := n.isLt
    have hnode := entries_getElem q ⟨j, by show j < 32; omega⟩ (by show j < _; omega)
    rw [List.getElem_take, hnode]
    exact hfresh _ (by show j ≤ _; omega)
  have htake : (q.entries.take (n.val + 1)).filter (fun m => ¬ Outdated timeUs m) =
      q.entries.take (n.val + 1) := by
    apply List.filter_eq_self.2
    simpa using hall
  have hsub :=
    ((List.take_sublist (n.val + 1) q.entries).filter fun m => ¬ Outdated timeUs m).length_le
  rw [htake, List.length_take] at hsub
  unfold JitQueue.live
  omega

theorem ScanRest.remove {timeUs origin : BitVec 32} {shown : Prop} {q : JitQueue}
    {idx : Option (Fin jitQueueMax)} {n last : Fin jitQueueMax}
    (h : ScanRest timeUs origin shown q n.val idx) (hn : n.val < q.numPkt.toNat)
    (hlast : last.val = q.numPkt.toNat - 1) (hout : Outdated timeUs (q.node n)) :
    ScanRest timeUs origin shown (jitRemoveAt q n last) 1 idx := by
  have hpos := h.pos
  have hfirst := jitRemoveAt_first h.bounded h.window h.sorted hn h.pos last hlast
  have hlive := jitRemoveAt_live h.bounded hn hlast hout
  obtain ⟨hwin', hsort'⟩ := jitRemoveAt_sortedFrom h.bounded h.window h.inUse n last hlast
  refine ⟨jitRemoveAt_bounded h.bounded h.inUse n last, hwin', hsort', ?_, Nat.one_pos, ?_,
    fun _ => rfl, ?_, ?_, h.first_iff⟩
  · rw [jitRemoveAt_numPkt, toNat_sub_one h.inUse]
    omega
  · intro j hj _
    obtain rfl : j = 0 := Fin.ext (Nat.lt_one_iff.1 hj)
    have hfresh := h.first_fresh
    unfold Outdated at hfresh ⊢
    rw [hfirst]
    exact hfresh
  · intro k hk
    rw [hlive.length_eq]
    exact h.index k hk
  · intro k _ j hj0 hj1
    omega

theorem ScanRest.keep {timeUs origin : BitVec 32} {shown : Prop} {q : JitQueue}
    {idx : Option (Fin jitQueueMax)} {n : Fin jitQueueMax}
    (h : ScanRest timeUs origin shown q n.val idx) (hn : n.val < q.numPkt.toNat)
    (hfresh : ¬ Outdated timeUs (q.node n)) :
    ScanRest timeUs origin shown q (n.val + 1) (priorityIdx timeUs q n idx) := by
  have hpos := h.pos
  have hfresh' : ∀ j : Fin jitQueueMax, j.val < n.val + 1 → j.val < q.numPkt.toNat →
      ¬ Outdated timeUs (q.node j) := by
    intro j hj hjn
    rcases Nat.lt_succ_iff_lt_or_eq.1 hj with hj | hj
    · exact h.fresh j hj hjn
    · obtain rfl : j = n := Fin.ext hj
      exact hfresh
  have hlive : n.val < (q.live timeUs).length := by
    apply lt_live_length h.bounded hn
    intro j hj
    exact hfresh' j (by omega) (by omega)
  have hle : q.distance timeUs 0 ≤ q.distance timeUs n :=
    (sortedFrom_of_first h.window h.sorted h.first_fresh).first_le
      (nodes_mem_entries h.bounded n hn)
  have hne : ¬ n = 0 := by
    rintro rfl
    exact absurd hpos (Nat.lt_irrefl 0)
  -- the index moves to `n` when there is none yet, or when `n` is nearer
  cases idx with
  | none =>
      have h1 := h.none_of rfl
      refine ⟨h.bounded, h.window, h.sorted, h.inUse, Nat.succ_pos _,
        hfresh', by simp [priorityIdx],
        ?_, ?_, ?_⟩
      · rintro k ⟨⟩
        exact hlive
      · rintro k ⟨⟩ j hj0 hj _
        obtain rfl : j = n := Fin.ext (by omega)
        exact le_rfl
      · rw [← h.first_iff]
        simp [priorityIdx, hne]
  | some k =>
      rw [priorityIdx_some]
      split
      · next hlt =>
        refine ⟨h.bounded, h.window, h.sorted, h.inUse, Nat.succ_pos _, hfresh', by simp,
          ?_, ?_, ?_⟩
        · rintro l ⟨⟩
          exact hlive
        · rintro l ⟨⟩ j hj0 hj hjn
          rcases lt_or_eq_of_lt_succ hj with hj | rfl
          · exact le_trans hlt.le (h.nearest k rfl j hj0 hj hjn)
          · exact le_rfl
        · -- no node is nearer than node 0
          have hk : ¬ k = 0 := by
            rintro rfl
            exact absurd hle (Nat.not_le.2 hlt)
          rw [← h.first_iff]
          simp [hne, hk]
      · next hge =>
        refine ⟨h.bounded, h.window, h.sorted, h.inUse, Nat.succ_pos _, hfresh', by simp, ?_, ?_,
          h.first_iff⟩
        · rintro l ⟨⟩
          exact h.index k rfl
        · rintro l ⟨⟩ j hj0 hj hjn
          rcases lt_or_eq_of_lt_succ hj with hj | rfl
          · exact h.nearest k rfl j hj0 hj hjn
          · exact Nat.not_lt.1 hge

/-- A scan behind the first drop leaves the live nodes. -/
theorem jitPeekScan_rest {timeUs origin : BitVec 32} {shown : Prop} {q : JitQueue} {i : Nat}
    {idx : Option (Fin jitQueueMax)} (h : ScanRest timeUs origin shown q i idx) :
    ∃ j, ScanRest timeUs origin shown (jitPeekScan timeUs q i idx).1 j
        (jitPeekScan timeUs q i idx).2 ∧
      (jitPeekScan timeUs q i idx).1.numPkt.toNat ≤ j ∧
      ((jitPeekScan timeUs q i idx).1.live timeUs).Perm (q.live timeUs) := by
  fun_induction jitPeekScan timeUs q i idx with
  | case1 q i idx hi n hout ih =>
      have hn : ScanRest timeUs origin shown q n.val idx := h
      obtain ⟨j, hend, hj, hperm⟩ := ih (hn.remove hi.1 rfl hout)
      exact ⟨j, hend, hj, hperm.trans (jitRemoveAt_live h.bounded hi.1 rfl hout)⟩
  | case2 q i idx hi n hout ih =>
      have hn : ScanRest timeUs origin shown q n.val idx := h
      exact ih (hn.keep hi.1 hout)
  | case3 q i idx hi =>
      refine ⟨i, h, ?_, List.Perm.refl _⟩
      apply Nat.le_of_not_lt
      intro hlt
      exact hi ⟨hlt, h.bounded⟩

/-! ## What the peek makes of it -/

/-- With a scan that leaves the live nodes, a peek is right when it has an index and either no live
node is nearer or none is due. -/
theorem peeksRight_iff {timeUs : BitVec 32} {q q' : JitQueue} {idx : Option (Fin jitQueueMax)}
    (hb : q.Bounded) (hpos : 0 < q.numPkt.toNat)
    (hscan : jitPeekScan timeUs q 0 none = (q', idx)) (hkept : q'.entries.Perm (q.live timeUs))
    (hidx : ∀ k, idx = some k → k.val < q'.numPkt.toNat) :
    PeeksRight q timeUs ↔ ∃ k, idx = some k ∧
      ((∀ n ∈ q'.entries, q'.distance timeUs k ≤ ahead timeUs n.pkt.countUs) ∨
        ∀ n ∈ q'.entries, 30000 ≤ ahead timeUs n.pkt.countUs) := by
  have hb' : q'.Bounded := by
    have h := (jitPeekScan_subperm timeUs hb 0 none).1
    rw [hscan] at h
    exact h
  have hempty : jitQueueIsEmpty q = false := jitQueueIsEmpty_eq_false_iff.2 hpos
  have hpeek : jitPeek q timeUs =
      (.ok, idx.filter fun k => (q'.node k).pkt.countUs - timeUs < txJitDelay, q') := by
    rw [jitPeek, hempty, if_neg Bool.false_ne_true, jitPeekSection, hscan]
  have hdue : ∀ k, (idx.filter fun k => (q'.node k).pkt.countUs - timeUs < txJitDelay) = some k ↔
      idx = some k ∧ q'.distance timeUs k < 30000 := by
    intro k
    rw [Option.filter_eq_some_iff, decide_eq_true_eq]
    exact Iff.rfl
  constructor
  · intro h
    have haccess := h.access
    rw [peekAccess, hscan] at haccess
    cases idx with
    | none =>
        dsimp only at haccess
        omega
    | some k =>
        refine ⟨k, rfl, ?_⟩
        -- a node that is due is shown, so it is the nearest; else nothing is shown
        by_cases hsoon : q'.distance timeUs k < 30000
        · have hnear := h.due k (by rw [hpeek]; exact (hdue k).2 ⟨rfl, hsoon⟩)
          rw [hpeek] at hnear
          exact Or.inl hnear.2.2
        · have hlate := h.none_due (by
            rw [hpeek]
            apply Option.eq_none_iff_forall_ne_some.2
            intro l hl
            obtain ⟨hkl, hl⟩ := (hdue l).1 hl
            cases hkl
            exact hsoon hl)
          rw [hpeek] at hlate
          exact Or.inr hlate
  · rintro ⟨k, rfl, hnear⟩
    have hk := hidx k rfl
    have hmem := nodes_mem_entries hb' k hk
    refine ⟨by rw [hpeek], by rw [hpeek]; exact hkept, ?_, ?_, ?_, ?_, ?_⟩
    · rw [hpeek, ← hkept.length_eq, entries_length hb']
    · intro hcount
      have h := jitPeekScan_countsExactly timeUs hb hcount 0 none
      rw [hscan] at h
      rw [hpeek]
      exact h
    · intro l hl
      rw [hpeek] at hl ⊢
      obtain ⟨hkl, hsoon⟩ := (hdue l).1 hl
      cases hkl
      refine ⟨hk, hsoon, ?_⟩
      rcases hnear with hnear | hlate
      · exact hnear
      · -- node `k` is due, so not all are late
        have := hlate _ hmem
        unfold JitQueue.distance at hsoon
        omega
    · intro hnone
      rw [hpeek] at hnone ⊢
      rcases hnear with hnear | hlate
      · intro n hn
        have hge : ¬ q'.distance timeUs k < 30000 := by
          intro hsoon
          rw [(hdue k).2 ⟨rfl, hsoon⟩] at hnone
          cases hnone
        exact le_trans (Nat.not_lt.1 hge) (hnear n hn)
      · exact hlate
    · rw [peekAccess, hscan]
      exact ⟨Int.natCast_nonneg _, Int.ofNat_lt.2 k.isLt⟩

/-- A peek that drops nothing is right, in whatever order the nodes stand. -/
theorem peeksRight_of_fresh {timeUs : BitVec 32} {q : JitQueue} (hb : q.Bounded)
    (hpos : 0 < q.numPkt.toNat) (hfresh : ∀ n ∈ q.entries, ¬ Outdated timeUs n) :
    PeeksRight q timeUs := by
  have hlive : q.live timeUs = q.entries := List.filter_eq_self.2 (by simpa using hfresh)
  rcases jitPeekScan_firstDrop hb (beforeDrop_zero timeUs q) (Nat.zero_le _)
      (fun j hj => absurd hj (Nat.not_lt_zero _)) with
    ⟨n, -, -, hdrop, -⟩ | ⟨-, idx, hbefore, hscan⟩
  · exact absurd hdrop.outdated (hfresh _ (nodes_mem_entries hb n hdrop.inUse))
  · apply (peeksRight_iff hb hpos hscan (by rw [hlive]) hbefore.seen).2
    cases hidx : idx with
    | none =>
        have h0 := hbefore.none_iff.1 hidx
        omega
    | some k =>
        refine ⟨k, rfl, Or.inl ?_⟩
        intro m hm
        obtain ⟨j, hj, rfl⟩ := List.getElem_of_mem hm
        have hjn : j < q.numPkt.toNat := by rw [← entries_length hb]; exact hj
        have hnode := entries_getElem q ⟨j, lt_of_lt_of_le hjn hb⟩ hj
        rw [hnode]
        exact hbefore.nearest k hidx _ hjn

/-- The start of the scan behind the first drop, when the first node of the sorted rest is live. -/
theorem scanRest_start {timeUs origin : BitVec 32} {q : JitQueue} (hb : q.Bounded)
    (hwin : q.InWindow origin) {i last : Fin jitQueueMax} {idx : Option (Fin jitQueueMax)}
    (hdrop : FirstOutdated timeUs q i) (hlast : last.val = q.numPkt.toNat - 1)
    (hbefore : BeforeDrop timeUs q i.val idx) (hleft : 1 < q.numPkt.toNat)
    (hfirst : ¬ Outdated timeUs ((jitRemoveAt q i last).node 0)) :
    ScanRest timeUs origin (idx = some 0) (jitRemoveAt q i last) 1 idx := by
  have hpos : 0 < q.numPkt.toNat := by omega
  obtain ⟨hwin', hsort'⟩ := jitRemoveAt_sortedFrom hb hwin hpos i last hlast
  refine ⟨jitRemoveAt_bounded hb hpos i last, hwin', hsort', ?_, Nat.one_pos, ?_, fun _ => rfl, ?_,
    ?_, Iff.rfl⟩
  · rw [jitRemoveAt_numPkt, toNat_sub_one hpos]
    omega
  · intro j hj _
    obtain rfl : j = 0 := Fin.ext (Nat.lt_one_iff.1 hj)
    exact hfirst
  · intro k hk
    have hki := hbefore.seen k hk
    have hin := hdrop.inUse
    rw [(jitRemoveAt_live hb hdrop.inUse hlast hdrop.outdated).length_eq]
    apply lt_live_length hb (by omega)
    intro j hj
    exact hdrop.before j (Fin.lt_def.2 (by omega))
  · intro k _ j hj0 hj1
    omega

/-- The first node of a queue that is sorted from now is as near as that of any other queue with
its live nodes. -/
theorem distance_zero_eq {timeUs : BitVec 32} {q q' : JitQueue} (hb : q.Bounded) (hb' : q'.Bounded)
    (hpos : 0 < q.numPkt.toNat) (hpos' : 0 < q'.numPkt.toNat) (hsort : q.SortedFrom timeUs)
    (hsort' : q'.SortedFrom timeUs) (hfresh : ¬ Outdated timeUs (q.node 0))
    (hfresh' : ¬ Outdated timeUs (q'.node 0))
    (hperm : (q'.live timeUs).Perm (q.live timeUs)) :
    q'.distance timeUs 0 = q.distance timeUs 0 := by
  have hmem : ∀ {r : JitQueue}, r.Bounded → 0 < r.numPkt.toNat → ¬ Outdated timeUs (r.node 0) →
      r.node 0 ∈ r.live timeUs := by
    intro r hr hr0 hrf
    exact List.mem_filter.2 ⟨nodes_mem_entries hr 0 hr0, by simpa using hrf⟩
  have hq := hperm.mem_iff.2 (hmem hb hpos hfresh)
  have hq' := hperm.mem_iff.1 (hmem hb' hpos' hfresh')
  exact le_antisymm (hsort'.first_le (List.mem_filter.1 hq).1)
    (hsort.first_le (List.mem_filter.1 hq').1)

/-- Nodes as near as a live one are live. -/
theorem countP_live {timeUs : BitVec 32} (q : JitQueue) {d : Nat} (hd : d < 512000000) :
    (q.live timeUs).countP (fun n => ahead timeUs n.pkt.countUs = d) =
      q.entries.countP fun n => ahead timeUs n.pkt.countUs = d := by
  rw [JitQueue.live, List.countP_filter]
  apply List.countP_congr
  intro n _
  rw [Bool.and_eq_true, decide_eq_true_eq, decide_eq_true_eq]
  constructor
  · exact fun h => h.1
  · intro h
    refine ⟨h, ?_⟩
    unfold Outdated
    omega

/-- The nodes in use are the first one and the others. -/
theorem entries_cons {q : JitQueue} (hb : q.Bounded) (hpos : 0 < q.numPkt.toNat) :
    q.entries = q.node 0 :: q.entries.tail := by
  have hlen : 0 < q.entries.length := by rw [entries_length hb]; exact hpos
  have hne : q.entries ≠ [] := List.ne_nil_of_length_pos hlen
  have hhead : q.entries.head hne = q.node 0 := by
    rw [List.head_eq_getElem]
    exact entries_getElem q 0 hlen
  rw [← hhead]
  exact (List.cons_head_tail hne).symm

/-- Two nodes are as near as the first one when one of the others is. -/
theorem two_le_countP_iff {timeUs : BitVec 32} {q : JitQueue} (hb : q.Bounded)
    (hpos : 0 < q.numPkt.toNat) :
    (2 ≤ q.entries.countP fun n => ahead timeUs n.pkt.countUs = q.distance timeUs 0) ↔
      ∃ k : Fin jitQueueMax, 0 < k.val ∧ k.val < q.numPkt.toNat ∧
        q.distance timeUs k = q.distance timeUs 0 := by
  have hcons := entries_cons hb hpos
  have hlen := entries_length hb
  have hcount : (q.entries.countP fun n => ahead timeUs n.pkt.countUs = q.distance timeUs 0) =
      (q.entries.tail.countP fun n => ahead timeUs n.pkt.countUs = q.distance timeUs 0) + 1 := by
    conv_lhs => rw [hcons]
    rw [List.countP_cons_of_pos (by simp [JitQueue.distance])]
  -- node 0 counts itself, so the companion is in the tail
  rw [hcount]
  constructor
  · intro h
    obtain ⟨n, hn, hd⟩ := List.countP_pos_iff.1 (Nat.lt_of_succ_le (Nat.le_of_succ_le_succ h))
    obtain ⟨j, hj, rfl⟩ := List.getElem_of_mem hn
    rw [List.length_tail] at hj
    have hj1 : j + 1 < q.entries.length := by omega
    have hnode := entries_getElem q ⟨j + 1, lt_of_lt_of_le (by omega) hb⟩ hj1
    refine ⟨⟨j + 1, lt_of_lt_of_le (by omega) hb⟩, Nat.succ_pos j, by show j + 1 < _; omega, ?_⟩
    rw [List.getElem_tail, decide_eq_true_eq, hnode] at hd
    exact hd
  · rintro ⟨k, hk0, hk, hd⟩
    have hkl : k.val < q.entries.length := by rw [hlen]; exact hk
    have hmem : q.node k ∈ q.entries.tail := by
      have hkt : k.val - 1 < q.entries.tail.length := by rw [List.length_tail]; omega
      have hget := List.getElem_mem hkt
      rw [List.getElem_tail] at hget
      have hsucc : k.val - 1 + 1 = k.val := by omega
      simp only [hsucc] at hget
      rw [entries_getElem q k hkl] at hget
      exact hget
    have hone : 0 < q.entries.tail.countP fun n =>
        ahead timeUs n.pkt.countUs = q.distance timeUs 0 := by
      apply List.countP_pos_iff.2
      exact ⟨q.node k, hmem, decide_eq_true hd⟩
    omega

/-- Behind the first drop a peek is right exactly when the priority index was that of node 0
already, or does not matter, or the nearest node has a companion. -/
theorem peeksRight_iff_of_rest {timeUs origin : BitVec 32} {shown : Prop} {q q1 : JitQueue}
    {idx : Option (Fin jitQueueMax)} (hb : q.Bounded) (hpos : 0 < q.numPkt.toNat)
    (hscan : jitPeekScan timeUs q 0 none = jitPeekScan timeUs q1 1 idx)
    (hrest : ScanRest timeUs origin shown q1 1 idx)
    (hlive : (q1.live timeUs).Perm (q.live timeUs)) :
    PeeksRight q timeUs ↔ shown ∨
      (30000 ≤ q1.distance timeUs 0 ∧ 2 ≤ (q.live timeUs).length) ∨
      2 ≤ q.entries.countP fun n => ahead timeUs n.pkt.countUs = q1.distance timeUs 0 := by
  obtain ⟨j, hend, hj, hperm⟩ := jitPeekScan_rest hrest
  generalize hr : jitPeekScan timeUs q1 1 idx = r at hend hj hperm
  obtain ⟨q', idx'⟩ := r
  dsimp only at hend hj hperm
  have hb' := hend.bounded
  -- the scan has looked at all nodes that are left
  have hall : ∀ n ∈ q'.entries, ¬ Outdated timeUs n := by
    intro n hn
    obtain ⟨l, hl, rfl⟩ := List.getElem_of_mem hn
    rw [entries_length hb'] at hl
    have hnode :=
      entries_getElem q' ⟨l, lt_of_lt_of_le hl hb'⟩ (by rw [entries_length hb']; exact hl)
    rw [hnode]
    exact hend.fresh _ (lt_of_lt_of_le hl hj) hl
  have hentries : q'.live timeUs = q'.entries := List.filter_eq_self.2 (by simpa using hall)
  have hkept : q'.entries.Perm (q.live timeUs) := by
    rw [← hentries]
    exact hperm.trans hlive
  have hnum : q'.numPkt.toNat = (q.live timeUs).length := by
    rw [← hkept.length_eq, entries_length hb']
  have hsort' := sortedFrom_of_first hend.window hend.sorted hend.first_fresh
  have hd0 : q'.distance timeUs 0 = q1.distance timeUs 0 :=
    distance_zero_eq hrest.bounded hb' hrest.inUse hend.inUse
      (sortedFrom_of_first hrest.window hrest.sorted hrest.first_fresh) hsort' hrest.first_fresh
      hend.first_fresh hperm
  have hd : q'.distance timeUs 0 < 512000000 := Nat.lt_of_not_le hend.first_fresh
  have hcount : (q.entries.countP fun n => ahead timeUs n.pkt.countUs = q1.distance timeUs 0) =
      q'.entries.countP fun n => ahead timeUs n.pkt.countUs = q'.distance timeUs 0 := by
    rw [← hd0, ← countP_live q hd]
    exact (hkept.countP_eq _).symm
  have hindex : ∀ k, idx' = some k → k.val < q'.numPkt.toNat := by
    intro k hk
    have h := hend.index k hk
    rw [hperm.length_eq, hlive.length_eq] at *
    omega
  have hfirst : ∀ n ∈ q'.entries, q'.distance timeUs 0 ≤ ahead timeUs n.pkt.countUs :=
    fun n hn => hsort'.first_le hn
  have hzero := nodes_mem_entries hb' (0 : Fin jitQueueMax) hend.inUse
  rw [peeksRight_iff hb hpos (hscan.trans hr) hkept hindex, hcount,
    two_le_countP_iff hb' hend.inUse,
    ← hd0, ← hnum]
  constructor
  · rintro ⟨k, rfl, hnear⟩
    have hk := hindex k rfl
    by_cases hk0 : k = 0
    · exact Or.inl (hend.first_iff.1 (by rw [hk0]))
    · have hkpos : 0 < k.val := Nat.pos_of_ne_zero fun h => hk0 (Fin.ext h)
      rcases hnear with hnear | hlate
      · refine Or.inr (Or.inr ⟨k, hkpos, hk, ?_⟩)
        exact le_antisymm (hnear _ hzero) (hfirst _ (nodes_mem_entries hb' k hk))
      · exact Or.inr (Or.inl ⟨hlate _ hzero, by omega⟩)
  · intro h
    -- with two live nodes the scan has looked at one of them
    have hsome : 2 ≤ q'.numPkt.toNat → ∃ k, idx' = some k := by
      intro htwo
      cases hidx : idx' with
      | none =>
          have h1 := hend.none_of hidx
          omega
      | some k => exact ⟨k, rfl⟩
    rcases h with hshown | ⟨hlate, htwo⟩ | ⟨l, hl0, hl, hdl⟩
    · exact ⟨0, hend.first_iff.2 hshown, Or.inl hfirst⟩
    · obtain ⟨k, hk⟩ := hsome htwo
      exact ⟨k, hk, Or.inr fun n hn => le_trans hlate (hfirst n hn)⟩
    · obtain ⟨k, hk⟩ := hsome (by omega)
      refine ⟨k, hk, Or.inl fun n hn => le_trans ?_ (hfirst n hn)⟩
      have hnear := hend.nearest k hk l hl0 (by omega) hl
      omega

theorem FirstOutdated.unique {timeUs : BitVec 32} {q : JitQueue} {i j : Fin jitQueueMax}
    (hi : FirstOutdated timeUs q i) (hj : FirstOutdated timeUs q j) : i = j := by
  apply le_antisymm
  · exact le_of_not_gt fun hlt => hi.before j hlt hj.outdated
  · exact le_of_not_gt fun hlt => hj.before i hlt hi.outdated

/-- Before the first drop the priority index is that of node 0 when no other node looked at is
nearer. -/
theorem BeforeDrop.zero_iff {timeUs : BitVec 32} {q : JitQueue} {i : Fin jitQueueMax}
    {idx : Option (Fin jitQueueMax)} (h : BeforeDrop timeUs q i.val idx) :
    idx = some 0 ↔ 0 < i ∧ ∀ j, j < i → q.distance timeUs 0 ≤ q.distance timeUs j := by
  constructor
  · intro h0
    exact ⟨Fin.lt_def.2 (h.seen 0 h0), fun j hj => h.nearest 0 h0 j (Fin.lt_def.1 hj)⟩
  · rintro ⟨hpos, hzero⟩
    exact h.ties (Fin.lt_def.1 hpos) fun j hj => hzero j (Fin.lt_def.2 hj)

/-- Of two nodes of a half circle, `compare` puts the one first that is nearer ahead of its
origin. -/
theorem compare_nonpos_iff {origin : BitVec 32} {x y : JitNode}
    (hx : ahead origin x.pkt.countUs < 2 ^ 31) (hy : ahead origin y.pkt.countUs < 2 ^ 31) :
    compare x y ≤ 0 ↔ ahead origin x.pkt.countUs ≤ ahead origin y.pkt.countUs :=
  toInt_sub_le_zero_iff (by omega) (by omega)

/-- In a half circle a peek that drops something is right exactly when the drop does no harm. -/
theorem peeksRight_iff_spareDrop {timeUs origin : BitVec 32} {q : JitQueue} (hb : q.Bounded)
    (hwin : q.InWindow origin) {i last : Fin jitQueueMax} {idx : Option (Fin jitQueueMax)}
    (hdrop : FirstOutdated timeUs q i) (hlast : last.val = q.numPkt.toNat - 1)
    (hbefore : BeforeDrop timeUs q i.val idx)
    (hscan : jitPeekScan timeUs q 0 none = jitPeekScan timeUs (jitRemoveAt q i last) 1 idx) :
    PeeksRight q timeUs ↔ ∃ x, SpareDrop timeUs q i x := by
  have hin := hdrop.inUse
  have hpos : 0 < q.numPkt.toNat := by omega
  have hperm := jitRemoveAt_perm hb i last hin hlast
  have hlive := jitRemoveAt_live hb hin hlast hdrop.outdated
  have hb1 := jitRemoveAt_bounded hb hpos i last
  have hnum1 : (jitRemoveAt q i last).numPkt.toNat = q.numPkt.toNat - 1 := by
    rw [jitRemoveAt_numPkt, toNat_sub_one hpos]
  obtain ⟨hwin1, hsort1⟩ := jitRemoveAt_sortedFrom hb hwin hpos i last hlast
  have hold : ∀ y ∈ q.entries.eraseIdx i.val, y ∈ q.entries :=
    fun y hy => (List.eraseIdx_sublist _ _).subset hy
  constructor
  · intro hright
    by_cases hleft : 1 < q.numPkt.toNat
    · have hmem1 := nodes_mem_entries hb1 (0 : Fin jitQueueMax) (by rw [hnum1]; show 0 < _; omega)
      by_cases hfirst : Outdated timeUs ((jitRemoveAt q i last).node 0)
      · -- node 0 stays in the queue
        obtain ⟨n, hn, hout⟩ := jitPeekScan_keeps_first hb1 hwin1 hsort1 (by omega) hfirst 1
          Nat.one_pos idx
        rw [← hscan] at hn
        have hempty : jitQueueIsEmpty q = false := jitQueueIsEmpty_eq_false_iff.2 hpos
        have hkept := hright.kept
        rw [jitPeek, hempty, if_neg Bool.false_ne_true] at hkept
        have hfresh := (List.mem_filter.1 (hkept.mem_iff.1 hn)).2
        exact absurd hout (of_decide_eq_true hfresh)
      · have hrest := scanRest_start hb hwin hdrop hlast hbefore hleft hfirst
        have hshown := (peeksRight_iff_of_rest hb hpos hscan hrest hlive).1 hright
        rw [hbefore.zero_iff] at hshown
        refine ⟨(jitRemoveAt q i last).node 0, hdrop, hold _ (hperm.mem_iff.1 hmem1), hfirst, ?_,
          hshown⟩
        intro y hy
        apply (compare_nonpos_iff (hwin1 _ hmem1) (hwin y (hold y hy))).2
        exact hsort1.first_le (hperm.mem_iff.2 hy)
    · -- the only node is gone, and the last access is to `nodes[-1]`
      have hi0 : i.val = 0 := by omega
      have hnone := hbefore.none_iff.2 hi0
      have haccess := hright.access.1
      rw [peekAccess, hscan, hnone, jitPeekScan, dif_neg (by omega)] at haccess
      dsimp only at haccess
      omega
  · rintro ⟨x, hspare⟩
    have hx : x ∈ (jitRemoveAt q i last).entries := by
      have hsplit := (entries_perm_jitRemoveAt hb i last hin hlast).mem_iff.1 hspare.mem
      rcases List.mem_cons.1 hsplit with rfl | hx
      · exact absurd hdrop.outdated hspare.fresh
      · exact hx
    have hlen := List.length_pos_of_mem hx
    rw [entries_length hb1, hnum1] at hlen
    have hmem1 := nodes_mem_entries hb1 (0 : Fin jitQueueMax) (by rw [hnum1]; exact hlen)
    -- the first node of the rest has the time stamp of `x`
    have hfirst : ((jitRemoveAt q i last).node 0).pkt.countUs = x.pkt.countUs := by
      apply countUs_eq_of_ahead (le_antisymm (hsort1.first_le hx) _)
      apply (compare_nonpos_iff (hwin x hspare.mem) (hwin1 _ hmem1)).1
      exact hspare.first _ (hperm.mem_iff.1 hmem1)
    have hfresh : ¬ Outdated timeUs ((jitRemoveAt q i last).node 0) := by
      have h := hspare.fresh
      unfold Outdated at h ⊢
      rw [hfirst]
      exact h
    have hrest := scanRest_start hb hwin hdrop hlast hbefore (by omega) hfresh
    have hdist : (jitRemoveAt q i last).distance timeUs 0 = ahead timeUs x.pkt.countUs :=
      congrArg (ahead timeUs) hfirst
    apply (peeksRight_iff_of_rest hb hpos hscan hrest hlive).2
    rw [hbefore.zero_iff, hdist]
    exact hspare.shown

/-- For every queue with packets in it: a peek that drops nothing, or drops without harm, returns
the next due packet; and where the time stamps lie in one half circle no other peek does. -/
theorem jitPeek_peeksRight (q : JitQueue) (timeUs : BitVec 32) (hpos : 1 ≤ q.numPkt.toNat)
    (hmax : q.numPkt.toNat ≤ jitQueueMax) :
    (PeekHolds q timeUs → PeeksRight q timeUs) ∧
      ((∃ origin, q.InWindow origin) → PeeksRight q timeUs → PeekHolds q timeUs) := by
  have hstart := jitPeekScan_firstDrop hmax (beforeDrop_zero timeUs q) (Nat.zero_le _)
    (fun j hj => absurd hj (Nat.not_lt_zero _))
  constructor
  · rintro (hfresh | ⟨⟨origin, hwin⟩, i, x, hspare⟩)
    · exact peeksRight_of_fresh hmax hpos hfresh
    · rcases hstart with ⟨n, last, idx, hdrop, hlast, hbefore, hscan⟩ | ⟨hfresh, -⟩
      · obtain rfl := hspare.drop.unique hdrop
        exact (peeksRight_iff_spareDrop hmax hwin hdrop hlast hbefore hscan).2 ⟨x, hspare⟩
      · exact absurd hspare.drop.outdated (hfresh i hspare.drop.inUse)
  · rintro ⟨origin, hwin⟩ hright
    rcases hstart with ⟨n, last, idx, hdrop, hlast, hbefore, hscan⟩ | ⟨hfresh, -⟩
    · obtain ⟨x, hspare⟩ :=
        (peeksRight_iff_spareDrop hmax hwin hdrop hlast hbefore hscan).1 hright
      exact Or.inr ⟨⟨origin, hwin⟩, n, x, hspare⟩
    · refine Or.inl fun n hn => ?_
      obtain ⟨j, hj, rfl⟩ := List.getElem_of_mem hn
      rw [entries_length hmax] at hj
      have hnode := entries_getElem q ⟨j, lt_of_lt_of_le hj hmax⟩
        (by rw [entries_length hmax]; exact hj)
      rw [hnode]
      exact hfresh _ hj

/-- Two class A packets, due at 0.1 s and at 0.3 s. -/
def twoDownlinks : JitQueue :=
  jitAfter fskTarget jitQueueInit
    [.enqueue 0#32 (fskPacket 50000#32 5#16 20#16 100000#32) .downlinkClassA,
      .enqueue 10#32 (fskPacket 50000#32 5#16 20#16 300000#32) .downlinkClassA]

/-- Peeked in time the queue gives the first packet. -/
theorem jitPeek_peeksRight_inTime :
    PeeksRight twoDownlinks 80000#32 ∧ (jitPeek twoDownlinks 80000#32).2.1 = some 0 := by
  have hfresh : ∀ n ∈ twoDownlinks.entries, ¬ Outdated 80000#32 n := by decide +kernel
  have hpeek := jitPeek_peeksRight twoDownlinks 80000#32 (by decide +kernel) (by decide +kernel)
  exact ⟨hpeek.1 (Or.inl hfresh), by decide +kernel⟩

/-- The first packet has been missed. The peek drops it, and does not see that the second one is
due: it is node 0 now. -/
theorem missed_hides_due :
    ¬ ∀ q : JitQueue, ∀ timeUs : BitVec 32, 1 ≤ q.numPkt.toNat → q.numPkt.toNat ≤ jitQueueMax →
      PeeksRight q timeUs := by
  intro h
  have hright := h twoDownlinks 290000#32 (by decide +kernel) (by decide +kernel)
  have hnone : (jitPeek twoDownlinks 290000#32).2.1 = none := by decide +kernel
  have hdue : ∃ n ∈ (jitPeek twoDownlinks 290000#32).2.2.entries,
      ahead 290000#32 n.pkt.countUs < 30000 := by
    decide +kernel
  obtain ⟨n, hn, hsoon⟩ := hdue
  exact absurd (hright.none_due hnone n hn) (Nat.not_le.2 hsoon)

end DraginoFwd.Jit

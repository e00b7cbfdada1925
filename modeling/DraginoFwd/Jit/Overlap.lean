import DraginoFwd.Jit.Entries

/-!
# Scheduled transmissions do not overlap

The overlap test of `jit_enqueue` is made once, between a newcomer and the nodes already queued.
`separated` is the same test for two queued nodes, with the guard of a beacon taken out when the
other node is a class A or C downlink, and `JitQueue.Separated` asks it of every two nodes in use.

The test made at the insertion gives `separated`, except where a beacon meets a class A or C node
whose time on air is so long that `pre_delay + post_delay + TX_MARGIN_DELAY` wraps in 32 bits
(`separated_of_overlaps`). Runs that avoid it keep all nodes apart (`reachable_separated`), and
then the emission intervals are disjoint on the clock circle (`emission_disjoint`).
-/

set_option autoImplicit false

namespace DraginoFwd.Jit

open DraginoFwd.Hal
open DraginoFwd.Lib.SerialClock
open DraginoFwd.Lib.Transition

/-- The collision test of two queued nodes, a beacon without its guard against class A and C. -/
def separated (m n : JitNode) : Bool :=
  !jitCollisionTest m.pkt.countUs (targetPreDelay n.pktType m) m.postDelay
    n.pkt.countUs (targetPreDelay m.pktType n) n.postDelay

/-- Every two nodes in use pass the collision test, in both argument orders. -/
def JitQueue.Separated (q : JitQueue) : Prop :=
  ∀ i j : Fin jitQueueMax, i.val < q.numPkt.toNat → j.val < q.numPkt.toNat → i ≠ j →
    separated (q.node i) (q.node j) = true

/-- From `TX_START_DELAY` before the time stamp to the end of the time on air. -/
def emission (n : JitNode) : Set (BitVec 32) :=
  arc (n.pkt.countUs - txStartDelay) (1500 + n.postDelay.toNat)

/-- The time on air is below half a turn of the clock. -/
def JitNode.Short (n : JitNode) : Prop := n.postDelay.toNat < 2 ^ 31

/-- A class A or C node that a beacon cannot be tested against: with the guard of the beacon and
the margin its time on air exceeds 32 bits. -/
def JitNode.BlindsBeacon (n : JitNode) : Prop :=
  (n.pktType = .downlinkClassA ∨ n.pktType = .downlinkClassC) ∧
    2 ^ 32 ≤ 3031500 + n.postDelay.toNat + 1000

/-- No beacon is enqueued while such a node is queued. -/
def NoBlindBeacon (q : JitQueue) (op : JitOp) : Prop :=
  ∀ timeUs packet, op = .enqueue timeUs packet .beacon → ∀ n ∈ q.entries, ¬ n.BlindsBeacon

/-! ## The collision test -/

theorem jitCollisionTest_comm (c1 pre1 post1 c2 pre2 post2 : BitVec 32) :
    jitCollisionTest c1 pre1 post1 c2 pre2 post2 =
      jitCollisionTest c2 pre2 post2 c1 pre1 post1 := by
  unfold jitCollisionTest
  exact Bool.or_comm _ _

/-- The test fails exactly when each packet starts beyond the wrapped sum of delays of the other. -/
theorem jitCollisionTest_eq_false_iff (c1 pre1 post1 c2 pre2 post2 : BitVec 32) :
    jitCollisionTest c1 pre1 post1 c2 pre2 post2 = false ↔
      (pre1 + post2 + txMarginDelay).toNat < ahead c2 c1 ∧
        (pre2 + post1 + txMarginDelay).toNat < ahead c1 c2 := by
  unfold jitCollisionTest
  rw [Bool.or_eq_false_iff, decide_eq_false_iff_not, decide_eq_false_iff_not]
  exact and_congr Nat.not_le Nat.not_le

theorem separated_comm (m n : JitNode) : separated m n = separated n m := by
  unfold separated
  rw [jitCollisionTest_comm]

/-- A node that is no beacon keeps its pre-delay against every other one. -/
theorem targetPreDelay_of_ne {n : JitNode} (h : n.pktType ≠ .beacon) (other : JitPktType) :
    targetPreDelay other n = n.preDelay := by
  unfold targetPreDelay
  exact if_neg fun hcase => h hcase.2

/-- A beacon shows class A and C its start delay only, and the others its whole pre-delay. -/
theorem targetPreDelay_beacon {n : JitNode} (h : n.pktType = .beacon) (other : JitPktType) :
    targetPreDelay other n =
      if other = .downlinkClassA ∨ other = .downlinkClassC then txStartDelay else n.preDelay := by
  unfold targetPreDelay
  simp [h]

/-- The node `jit_enqueue` builds carries the pre-delay of its type. -/
def JitNode.Typed (n : JitNode) : Prop := n.preDelay = packetPreDelay n.pktType

theorem jitNode_typed (tgt : Target) (q : JitQueue) (timeUs : BitVec 32) (packet : LgwPktTx)
    (pktType : JitPktType) : (jitNode tgt q timeUs packet pktType).Typed := rfl

theorem JitNode.Typed.targetPreDelay_le {n : JitNode} (h : n.Typed) (other : JitPktType) :
    1500 ≤ (targetPreDelay other n).toNat ∧ (targetPreDelay other n).toNat ≤ 3031500 := by
  unfold targetPreDelay
  rw [h]
  cases n.pktType with
  | beacon => split <;> decide
  | _ => split <;> decide

/-- The test made at the insertion covers the pair later, unless the newcomer is a beacon that
meets a node it cannot be tested against. -/
theorem separated_of_overlaps {node n : JitNode} (htyped : node.Typed)
    (hclear : overlaps node n = false)
    (hseen : node.pktType = .beacon → ¬ n.BlindsBeacon) : separated node n = true := by
  unfold separated
  rw [overlaps] at hclear
  rw [Bool.not_eq_true']
  by_cases hnode : node.pktType = .beacon
  · rw [targetPreDelay_beacon hnode]
    split
    · next hAC =>
      -- the full guard kept the pair further apart than the start delay asks
      have hroom : 3031500 + n.postDelay.toNat + 1000 < 2 ^ 32 :=
        Nat.lt_of_not_le fun h => hseen hnode ⟨hAC, h⟩
      rw [jitCollisionTest_eq_false_iff] at hclear ⊢
      refine ⟨lt_of_le_of_lt ?_ hclear.1, hclear.2⟩
      rw [htyped, hnode]
      have hpre : packetPreDelay .beacon = 3031500#32 := by decide
      have hstart : txStartDelay = 1500#32 := rfl
      have hmargin : txMarginDelay = 1000#32 := rfl
      rw [hpre, hstart, hmargin]
      bv_omega
    · exact hclear
  · rw [targetPreDelay_of_ne hnode]
    exact hclear

/-! ## All nodes in use -/

/-- `Separated` for the list of nodes in use. -/
theorem separated_of_pairwise {q : JitQueue} (hb : q.Bounded)
    (h : q.entries.Pairwise fun m n => separated m n = true) : q.Separated := by
  intro i j hi hj hij
  rw [← entries_length hb] at hi hj
  rw [← entries_getElem q i hi, ← entries_getElem q j hj]
  have hne : i.val ≠ j.val := fun hv => hij (Fin.ext hv)
  rcases Nat.lt_or_gt_of_ne hne with hlt | hgt
  · exact List.pairwise_iff_getElem.1 h i j hi hj hlt
  · rw [separated_comm]
    exact List.pairwise_iff_getElem.1 h j i hj hi hgt

/-- What every state of a run keeps: the counter fits, the nodes carry the pre-delays of their
types, and they are separated. -/
structure OverlapInv (q : JitQueue) : Prop where
  bounded : q.Bounded
  typed : ∀ n ∈ q.entries, n.Typed
  pairwise : q.entries.Pairwise fun m n => separated m n = true

theorem overlapInv_jitQueueInit : OverlapInv jitQueueInit :=
  ⟨bounded_jitQueueInit, by simp, by simp⟩

theorem OverlapInv.subperm {q q' : JitQueue} (h : OverlapInv q) (hb : q'.Bounded)
    (hsub : q'.entries.Subperm q.entries) : OverlapInv q' := by
  refine ⟨hb, fun n hn => h.typed n (hsub.subset hn), pairwise_of_subperm ?_ h.pairwise hsub⟩
  intro m n hmn
  rw [separated_comm]
  exact hmn

/-- A call that enqueues no beacon past a node it cannot be tested against keeps the invariant. -/
theorem OverlapInv.step {tgt : Target} {q q' : JitQueue} {op : JitOp} (h : OverlapInv q)
    (hok : NoBlindBeacon q op) (hstep : JitStep tgt q op q') : OverlapInv q' := by
  have hb' := hstep.bounded h.bounded
  rcases hstep.effect h.bounded with
    ⟨timeUs, packet, pktType, hop, -, hadm, hins⟩ | ⟨-, hsub⟩
  · have htyped := jitNode_typed tgt q timeUs packet pktType
    refine ⟨hb', ?_, ?_⟩
    · intro n hn
      rcases hins.mem.1 hn with rfl | hn
      · exact htyped
      · exact h.typed n hn
    · rw [hins.perm.pairwise_iff fun {a b} hab => by rw [separated_comm]; exact hab,
        List.pairwise_cons]
      refine ⟨fun n hn => ?_, h.pairwise⟩
      refine separated_of_overlaps htyped (hadm.clear n hn) fun hbeacon => ?_
      have htype : pktType = .beacon := hbeacon
      subst htype
      exact hok timeUs packet hop n hn
  · exact h.subperm hb' hsub

/-- Nodes kept apart by the collision test have disjoint emission intervals. -/
theorem emission_disjoint {m n : JitNode} (hm : m.Typed) (hn : n.Typed) (hms : m.Short)
    (hns : n.Short) (h : separated m n = true) : Disjoint (emission m) (emission n) := by
  unfold separated at h
  rw [Bool.not_eq_true', jitCollisionTest_eq_false_iff] at h
  obtain ⟨hnm, hmn⟩ := h
  have hpm := hm.targetPreDelay_le n.pktType
  have hpn := hn.targetPreDelay_le m.pktType
  unfold JitNode.Short at hms hns
  have hmargin : txMarginDelay = 1000#32 := rfl
  rw [hmargin] at hnm hmn
  -- the common start delay cancels in the distance of the two starts
  have hcancel : ∀ a b : BitVec 32,
      ahead (a - txStartDelay) (b - txStartDelay) = ahead a b := by
    intro a b
    unfold ahead
    congr 1
    bv_omega
  refine arc_disjoint ?_ ?_
  · rw [hcancel]
    refine lt_of_le_of_lt ?_ hmn
    generalize targetPreDelay m.pktType n = pre at *
    generalize m.postDelay = post at *
    bv_omega
  · rw [hcancel]
    refine lt_of_le_of_lt ?_ hnm
    generalize targetPreDelay n.pktType m = pre at *
    generalize n.postDelay = post at *
    bv_omega

/-- In every run that starts from the initial queue and never enqueues a beacon while a class A or
C packet is queued that it cannot be tested against, every two nodes in use pass the collision
test, and where their times on air are below half a turn their emission intervals are disjoint. -/
theorem reachable_separated (tgt : Target) :
    ∀ q, Reachable (· = jitQueueInit) (Guarded NoBlindBeacon (JitStep tgt)) q →
      q.Separated ∧
      ∀ i j : Fin jitQueueMax, i.val < q.numPkt.toNat → j.val < q.numPkt.toNat → i ≠ j →
        (q.node i).Short → (q.node j).Short →
          Disjoint (emission (q.node i)) (emission (q.node j)) := by
  intro q hq
  have hinv : OverlapInv q := by
    refine hq.invariant ?_ ?_
    · rintro s rfl
      exact overlapInv_jitQueueInit
    · rintro s op t hs ⟨hok, hstep⟩
      exact hs.step hok hstep
  have hsep := separated_of_pairwise hinv.bounded hinv.pairwise
  refine ⟨hsep, ?_⟩
  intro i j hi hj hij hsi hsj
  have hti := hinv.typed _ (nodes_mem_entries hinv.bounded i hi)
  have htj := hinv.typed _ (nodes_mem_entries hinv.bounded j hj)
  exact emission_disjoint hti htj hsi hsj (hsep i j hi hj hij)

/-- Two class A packets 0.2 s apart. -/
theorem reachable_separated_two :
    let q := jitAfter fskTarget jitQueueInit
      [.enqueue 0#32 (fskPacket 50000#32 5#16 20#16 100000#32) .downlinkClassA,
        .enqueue 10#32 (fskPacket 50000#32 5#16 20#16 300000#32) .downlinkClassA]
    q.numPkt = 2#8 ∧ q.Separated ∧ Disjoint (emission (q.node 0)) (emission (q.node 1)) := by
  intro q
  have hrun : Run (JitStep fskTarget) jitQueueInit _ q := run_jitAfter _ bounded_jitQueueInit _
  have hok : Run (Guarded NoBlindBeacon (JitStep fskTarget)) jitQueueInit _ q :=
    hrun.guarded NoBlindBeacon (by simp [NoBlindBeacon])
  have hnum : q.numPkt = 2#8 := by decide +kernel
  have h0 : (q.node 0).Short := by
    show (q.node 0).postDelay.toNat < 2 ^ 31
    decide +kernel
  have h1 : (q.node 1).Short := by
    show (q.node 1).postDelay.toNat < 2 ^ 31
    decide +kernel
  obtain ⟨hsep, hdisj⟩ := reachable_separated fskTarget q hok.reachable
  exact ⟨hnum, hsep, hdisj 0 1 (by rw [hnum]; decide) (by rw [hnum]; decide) (by decide) h0 h1⟩

/-- A class A packet of 4292 s on air, sent at 0.1 s, and a beacon at 100 s: the sum of the delays
wraps and the beacon is accepted. -/
theorem not_separated_blind_beacon :
    ¬ ∀ q, Reachable (· = jitQueueInit) (JitStep fskTarget) q → q.Separated := by
  intro h
  have hrun := run_jitAfter fskTarget bounded_jitQueueInit
    [.enqueue 0#32 (fskPacket 2#32 1047#16 20#16 100000#32) .downlinkClassA,
      .enqueue 0#32 (fskPacket 50000#32 5#16 20#16 100000000#32) .beacon]
  have hsep := h _ hrun.reachable 0 1 (by decide +kernel) (by decide +kernel) (by decide)
  exact absurd hsep (by decide +kernel)

end DraginoFwd.Jit

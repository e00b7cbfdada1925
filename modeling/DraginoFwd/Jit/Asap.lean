import DraginoFwd.Jit.Overlap
import DraginoFwd.Jit.Representation

/-!
# The slot of an immediate downlink

`jit_enqueue` gives a class C downlink the time one second from now when no queued packet collides
with that, and otherwise the first slot behind a queued packet that its successor leaves room for.
The search tests the successor only, with its full guard, and criterion 3 tests all queued packets
afterwards. It never rejects the slot, because the queue is sorted and its packets are separated
(`FirstSlot.clear`).

The one way to be turned away is the second from now itself: `time_us + 1E6` is a `double`, and
what becomes of it in a `uint32_t` beyond 2^32 is up to the target (`findsSlot_iff`).
-/

set_option autoImplicit false

namespace DraginoFwd.Jit

open DraginoFwd.Hal
open DraginoFwd.Lib.SerialClock
open DraginoFwd.Lib.Transition

/-- The time on air is below 2^24 microseconds. -/
def JitNode.Brief (n : JitNode) : Prop := n.postDelay.toNat < 2 ^ 24

/-- All packets in the queue lie in the future, within 2^30 microseconds, and are brief. -/
def AheadOf (timeUs : BitVec 32) (q : JitQueue) : Prop :=
  ∀ n ∈ q.entries, 0 < ahead timeUs n.pkt.countUs ∧ ahead timeUs n.pkt.countUs ≤ 2 ^ 30 ∧ n.Brief

/-- An immediate downlink is accepted, with a time stamp that leaves the start, the margin and the
program delay, and that collides with no queued packet. -/
def FindsSlot (tgt : Target) (q : JitQueue) (timeUs : BitVec 32) (packet : LgwPktTx) : Prop :=
  ∃ stamped q', jitEnqueue tgt q timeUs packet .downlinkClassC = .ok (.ok, stamped, q') ∧
    (txStartDelay + txMarginDelay + txJitDelay).toNat ≤ ahead timeUs stamped.countUs ∧
    ∀ n ∈ q.entries, overlaps (nodeAt tgt packet .downlinkClassC stamped.countUs) n = false

/-- The second from now is a `uint32_t`, or what the target makes of it is not too soon, or some
queued packet collides with that. -/
def SecondFits (tgt : Target) (q : JitQueue) (timeUs : BitVec 32) (packet : LgwPktTx) : Prop :=
  timeUs.toNat + 1000000 < 2 ^ 32 ∨
    (txStartDelay + txMarginDelay + txJitDelay).toNat < ahead timeUs (asapMargin tgt timeUs) ∨
    ∃ n ∈ q.entries, collidesWith (asapMargin tgt timeUs) (packetPreDelay .downlinkClassC)
      (packetPostDelay tgt packet .downlinkClassC) n = true

/-! ## What the calls keep -/

/-- The nodes are arranged, carry the delays of their types, and are separated unless one of them
is too long for that. -/
structure SlotInv (q : JitQueue) : Prop where
  arranged : Arranged q
  typed : ∀ n ∈ q.entries, n.Typed
  reserved : ∀ n ∈ q.entries, n.pktType = .beacon → n.postDelay = beaconReserved
  apart : q.entries.Pairwise fun m n =>
    ¬ m.BlindsBeacon → ¬ n.BlindsBeacon → separated m n = true

theorem slotInv_jitQueueInit : SlotInv jitQueueInit :=
  ⟨arranged_jitQueueInit, by simp, by simp, by simp⟩

theorem SlotInv.subperm {q q' : JitQueue} (h : SlotInv q) (harr : Arranged q')
    (hsub : q'.entries.Subperm q.entries) : SlotInv q' := by
  refine ⟨harr, fun n hn => h.typed n (hsub.subset hn), fun n hn => h.reserved n (hsub.subset hn),
    pairwise_of_subperm ?_ h.apart hsub⟩
  intro m n hmn hn hm
  rw [separated_comm]
  exact hmn hm hn

theorem SlotInv.step {tgt : Target} {q q' : JitQueue} {op : JitOp} (h : SlotInv q)
    (hstep : JitStep tgt q op q') : SlotInv q' := by
  have harr := h.arranged.step hstep
  rcases hstep.effect h.arranged.bounded with
    ⟨timeUs, packet, pktType, -, -, hadm, hins⟩ | ⟨-, hsub⟩
  · have htyped := jitNode_typed tgt q timeUs packet pktType
    refine ⟨harr, ?_, ?_, ?_⟩
    · intro n hn
      rcases hins.mem.1 hn with rfl | hn
      · exact htyped
      · exact h.typed n hn
    · intro n hn hbeacon
      rcases hins.mem.1 hn with rfl | hn
      · have htype : pktType = .beacon := hbeacon
        subst htype
        rfl
      · exact h.reserved n hn hbeacon
    · rw [hins.perm.pairwise_iff fun {a b} hab hb ha => by
        rw [separated_comm]
        exact hab ha hb]
      apply List.pairwise_cons.2
      refine ⟨fun n hn _ hblind => ?_, h.apart⟩
      exact separated_of_overlaps htyped (hadm.clear n hn) fun _ => hblind
  · exact h.subperm harr hsub

theorem reachable_slotInv {tgt : Target} {q : JitQueue}
    (h : Reachable (· = jitQueueInit) (JitStep tgt) q) : SlotInv q := by
  apply h.invariant
  · rintro s rfl
    exact slotInv_jitQueueInit
  · intro s op t hs hstep
    exact hs.step hstep

theorem JitNode.Brief.not_blindsBeacon {n : JitNode} (h : n.Brief) : ¬ n.BlindsBeacon := by
  rintro ⟨-, hlong⟩
  unfold JitNode.Brief at h
  omega

/-! ## Positions on the line ahead of now -/

/-- The guard that a packet shows to an immediate downlink is at most that of another downlink. -/
theorem targetPreDelay_classC {n : JitNode} (h : n.Typed) :
    1500 ≤ (targetPreDelay .downlinkClassC n).toNat ∧
      (targetPreDelay .downlinkClassC n).toNat ≤ 31500 ∧
      (targetPreDelay .downlinkClassC n).toNat ≤ n.preDelay.toNat := by
  unfold targetPreDelay
  rw [h]
  cases n.pktType with
  | beacon => decide
  | downlinkClassA => decide
  | downlinkClassB => decide
  | downlinkClassC => decide

/-- The delays of a packet as numbers. -/
theorem JitNode.Typed.preDelay_le {n : JitNode} (h : n.Typed) :
    31500 ≤ n.preDelay.toNat ∧ n.preDelay.toNat ≤ 3031500 := by
  rw [h]
  cases n.pktType with
  | beacon => decide
  | downlinkClassA => decide
  | downlinkClassB => decide
  | downlinkClassC => decide

/-- Of two separated packets the second one starts behind the first one's time on air, and at the
distance of its program delay when it is no beacon. -/
theorem gap_of_separated {timeUs : BitVec 32} {m n : JitNode} (hn : n.Typed) (hm : m.Brief)
    (hle : ahead timeUs m.pkt.countUs ≤ ahead timeUs n.pkt.countUs)
    (hsep : separated m n = true) :
    ahead timeUs m.pkt.countUs + m.postDelay.toNat + 2500 < ahead timeUs n.pkt.countUs ∧
      (n.pktType ≠ .beacon →
        ahead timeUs m.pkt.countUs + m.postDelay.toNat + 32500 < ahead timeUs n.pkt.countUs) := by
  unfold separated at hsep
  rw [Bool.not_eq_true', jitCollisionTest_eq_false_iff] at hsep
  have hgap := hsep.2
  rw [ahead_of_le hle] at hgap
  have hpre := hn.targetPreDelay_le m.pktType
  have hfull := hn.preDelay_le
  have hmargin : txMarginDelay = 1000#32 := rfl
  rw [hmargin] at hgap
  unfold JitNode.Brief at hm
  constructor
  · bv_omega
  · intro hne
    rw [targetPreDelay_of_ne hne] at hgap
    bv_omega

/-- Criterion 3 for the node of an immediate downlink at `c`. -/
theorem overlaps_nodeAt_iff (tgt : Target) (packet : LgwPktTx) (c : BitVec 32) {n : JitNode}
    (hn : n.Typed) (hnb : n.Brief)
    (hb : (packetPostDelay tgt packet .downlinkClassC).toNat < 2 ^ 24) :
    overlaps (nodeAt tgt packet .downlinkClassC c) n = false ↔
      n.postDelay.toNat + 32500 < ahead n.pkt.countUs c ∧
        (targetPreDelay .downlinkClassC n).toNat +
          (packetPostDelay tgt packet .downlinkClassC).toNat + 1000 < ahead c n.pkt.countUs := by
  obtain ⟨-, hguard, -⟩ := targetPreDelay_classC hn
  have hpre : packetPreDelay .downlinkClassC = 31500#32 := by decide
  have hmargin : txMarginDelay = 1000#32 := rfl
  unfold JitNode.Brief at hnb
  show jitCollisionTest c (packetPreDelay .downlinkClassC)
    (packetPostDelay tgt packet .downlinkClassC) n.pkt.countUs (targetPreDelay .downlinkClassC n)
    n.postDelay = false ↔ _
  rw [jitCollisionTest_eq_false_iff, hpre, hmargin]
  generalize targetPreDelay .downlinkClassC n = guard at *
  generalize packetPostDelay tgt packet .downlinkClassC = post at *
  have h1 : (31500#32 + n.postDelay + 1000#32).toNat = n.postDelay.toNat + 32500 := by bv_omega
  have h2 : (guard + post + 1000#32).toNat = guard.toNat + post.toNat + 1000 := by bv_omega
  rw [h1, h2]

/-- The full collision test of the search, at `c`. -/
theorem collidesWith_eq_false_iff (tgt : Target) (packet : LgwPktTx) (c : BitVec 32) {n : JitNode}
    (hn : n.Typed) (hnb : n.Brief)
    (hb : (packetPostDelay tgt packet .downlinkClassC).toNat < 2 ^ 24) :
    collidesWith c (packetPreDelay .downlinkClassC) (packetPostDelay tgt packet .downlinkClassC) n =
        false ↔
      n.postDelay.toNat + 32500 < ahead n.pkt.countUs c ∧
        n.preDelay.toNat + (packetPostDelay tgt packet .downlinkClassC).toNat + 1000 <
          ahead c n.pkt.countUs := by
  obtain ⟨-, hguard⟩ := hn.preDelay_le
  have hpre : packetPreDelay .downlinkClassC = 31500#32 := by decide
  have hmargin : txMarginDelay = 1000#32 := rfl
  unfold JitNode.Brief at hnb
  rw [collidesWith, jitCollisionTest_eq_false_iff, hpre, hmargin]
  generalize packetPostDelay tgt packet .downlinkClassC = post at *
  have h1 : (31500#32 + n.postDelay + 1000#32).toNat = n.postDelay.toNat + 32500 := by bv_omega
  have h2 : (n.preDelay + post + 1000#32).toNat = n.preDelay.toNat + post.toNat + 1000 := by
    bv_omega
  rw [h1, h2]

/-- The slot behind a packet starts 62.5 ms behind its time on air. -/
theorem ahead_slotBehind {timeUs : BitVec 32} {n : JitNode}
    (hnear : ahead timeUs n.pkt.countUs ≤ 2 ^ 30) (hb : n.Brief) :
    ahead timeUs (slotBehind (packetPreDelay .downlinkClassC) n) =
      ahead timeUs n.pkt.countUs + n.postDelay.toNat + 62500 := by
  have hpre : packetPreDelay .downlinkClassC = 31500#32 := by decide
  have hmargin : txMarginDelay = 1000#32 := rfl
  have hjit : txJitDelay = 30000#32 := rfl
  unfold JitNode.Brief at hb
  unfold ahead slotBehind at *
  rw [hpre, hmargin, hjit]
  bv_omega

/-! ## The search -/

section Search

variable {tgt : Target} {timeUs : BitVec 32} {packet : LgwPktTx}

/-- A slot that starts 62.5 ms or more behind the time on air of a packet is free of it. -/
theorem clear_of_behind {c : BitVec 32} {n : JitNode} (hn : n.Typed) (hnb : n.Brief)
    (hb : (packetPostDelay tgt packet .downlinkClassC).toNat < 2 ^ 24)
    (hc : ahead timeUs c ≤ 2 ^ 30 + 2 ^ 24 + 62500)
    (hbehind : ahead timeUs n.pkt.countUs + n.postDelay.toNat + 62500 ≤ ahead timeUs c) :
    overlaps (nodeAt tgt packet .downlinkClassC c) n = false := by
  obtain ⟨-, hguard, -⟩ := targetPreDelay_classC hn
  have hleg : ahead n.pkt.countUs c = ahead timeUs c - ahead timeUs n.pkt.countUs :=
    ahead_of_le (by omega)
  have hturn : ahead n.pkt.countUs c + ahead c n.pkt.countUs = 2 ^ 32 := by
    apply ahead_add_ahead_comm
    intro heq
    rw [heq] at hbehind
    omega
  apply (overlaps_nodeAt_iff tgt packet c hn hnb hb).2
  constructor <;> omega

/-- A slot that ends before the guard of a downlink is free of every packet from there on. -/
theorem clear_of_before {c : BitVec 32} {n : JitNode} (hn : n.Typed) (hnb : n.Brief)
    (hb : (packetPostDelay tgt packet .downlinkClassC).toNat < 2 ^ 24)
    (hnear : ahead timeUs n.pkt.countUs ≤ 2 ^ 30)
    (hbefore : ahead timeUs c + (packetPostDelay tgt packet .downlinkClassC).toNat + 32500 <
      ahead timeUs n.pkt.countUs) :
    overlaps (nodeAt tgt packet .downlinkClassC c) n = false := by
  obtain ⟨-, hguard, -⟩ := targetPreDelay_classC hn
  have hleg : ahead c n.pkt.countUs = ahead timeUs n.pkt.countUs - ahead timeUs c :=
    ahead_of_le (by omega)
  have hturn : ahead c n.pkt.countUs + ahead n.pkt.countUs c = 2 ^ 32 := by
    apply ahead_add_ahead_comm
    intro heq
    rw [heq] at hbefore
    omega
  unfold JitNode.Brief at hnb
  apply (overlaps_nodeAt_iff tgt packet c hn hnb hb).2
  constructor <;> omega

/-- The slot behind `n` lies before the guard of the next packet when the search accepts it. -/
theorem before_of_room {n m : JitNode} (hm : m.Typed) (hnb : n.Brief) (hmb : m.Brief)
    (hreserved : m.pktType = .beacon → m.postDelay = beaconReserved)
    (hb : (packetPostDelay tgt packet .downlinkClassC).toNat < 2 ^ 24)
    (hnn : ahead timeUs n.pkt.countUs ≤ 2 ^ 30)
    (hgap : ahead timeUs n.pkt.countUs + n.postDelay.toNat + 2500 < ahead timeUs m.pkt.countUs ∧
      (m.pktType ≠ .beacon → ahead timeUs n.pkt.countUs + n.postDelay.toNat + 32500 <
        ahead timeUs m.pkt.countUs))
    (hroom : collidesWith (slotBehind (packetPreDelay .downlinkClassC) n)
      (packetPreDelay .downlinkClassC) (packetPostDelay tgt packet .downlinkClassC) m = false) :
    ahead timeUs (slotBehind (packetPreDelay .downlinkClassC) n) +
      (packetPostDelay tgt packet .downlinkClassC).toNat + 32500 < ahead timeUs m.pkt.countUs := by
  have hpos := ahead_slotBehind hnn hnb
  have hfull := hm.preDelay_le
  obtain ⟨hpost, hpre⟩ := (collidesWith_eq_false_iff tgt packet _ hm hmb hb).1 hroom
  generalize slotBehind (packetPreDelay .downlinkClassC) n = c at *
  rcases Nat.lt_or_ge (ahead timeUs m.pkt.countUs) (ahead timeUs c) with hlt | hge
  · -- the slot would start within 60 ms behind the start of the next packet
    exfalso
    rw [ahead_of_le hlt.le] at hpost
    by_cases hbeacon : m.pktType = .beacon
    · have hlong : m.postDelay.toNat = 2120000 := by
        rw [hreserved hbeacon]
        decide
      omega
    · have := hgap.2 hbeacon
      omega
  · rw [ahead_of_le hge] at hpre
    omega

/-- A packet that is a candidate for a neighbour of the slot. -/
structure Candidate (timeUs : BitVec 32) (n : JitNode) : Prop where
  typed : n.Typed
  brief : n.Brief
  reserved : n.pktType = .beacon → n.postDelay = beaconReserved
  near : ahead timeUs n.pkt.countUs ≤ 2 ^ 30

/-- Two packets of a sorted queue, the first one with its time on air and a margin before the
second one. -/
def Spaced (timeUs : BitVec 32) (m n : JitNode) : Prop :=
  ahead timeUs m.pkt.countUs + m.postDelay.toNat + 2500 < ahead timeUs n.pkt.countUs ∧
    (n.pktType ≠ .beacon →
      ahead timeUs m.pkt.countUs + m.postDelay.toNat + 32500 < ahead timeUs n.pkt.countUs)

/-- The slot that the search finds is behind a packet of the list and overlaps none. -/
theorem FirstSlot.clear {l : List JitNode} {c : BitVec 32}
    (hslot : FirstSlot (packetPreDelay .downlinkClassC)
      (packetPostDelay tgt packet .downlinkClassC) l c)
    (hb : (packetPostDelay tgt packet .downlinkClassC).toNat < 2 ^ 24)
    (hcand : ∀ n ∈ l, Candidate timeUs n) (hspaced : l.Pairwise (Spaced timeUs)) :
    (∃ i ∈ l, ahead timeUs c = ahead timeUs i.pkt.countUs + i.postDelay.toNat + 62500) ∧
      ∀ n ∈ l, overlaps (nodeAt tgt packet .downlinkClassC c) n = false := by
  have hbound : ∀ {n : JitNode}, Candidate timeUs n → ∀ {c : BitVec 32},
      ahead timeUs c = ahead timeUs n.pkt.countUs + n.postDelay.toNat + 62500 →
        ahead timeUs c ≤ 2 ^ 30 + 2 ^ 24 + 62500 := by
    intro n hn c hc
    have hnear := hn.near
    have hbrief := hn.brief
    unfold JitNode.Brief at hbrief
    omega
  -- on the search: the slot is behind the last node, or in the gap behind `n`, or further on
  induction hslot with
  | last n =>
      have hn := hcand n (List.mem_singleton_self n)
      have hpos := ahead_slotBehind hn.near hn.brief
      refine ⟨⟨n, List.mem_singleton_self n, hpos⟩, ?_⟩
      intro m hm
      obtain rfl := List.mem_singleton.1 hm
      exact clear_of_behind hn.typed hn.brief hb (hbound hn hpos) hpos.ge
  | @room n m rest hroom =>
      have hn := hcand n List.mem_cons_self
      have hm := hcand m (List.mem_cons_of_mem _ List.mem_cons_self)
      have hpos := ahead_slotBehind hn.near hn.brief
      obtain ⟨hfirst, hrest⟩ := List.pairwise_cons.1 hspaced
      have hbefore := before_of_room hm.typed hn.brief hm.brief hm.reserved hb hn.near
        (hfirst m List.mem_cons_self) hroom
      refine ⟨⟨n, List.mem_cons_self, hpos⟩, ?_⟩
      intro r hr
      rcases List.mem_cons.1 hr with rfl | hr
      · exact clear_of_behind hn.typed hn.brief hb (hbound hn hpos) hpos.ge
      · -- the packets from `m` on lie behind the slot
        have hr' := hcand r (List.mem_cons_of_mem _ hr)
        apply clear_of_before hr'.typed hr'.brief hb hr'.near
        rcases List.mem_cons.1 hr with rfl | hr
        · exact hbefore
        · have hlater := ((List.pairwise_cons.1 hrest).1 r hr).1
          omega
  | @next n m rest c _ _ ih =>
      have hn := hcand n List.mem_cons_self
      obtain ⟨hfirst, hrest⟩ := List.pairwise_cons.1 hspaced
      obtain ⟨⟨i, hi, hpos⟩, hclear⟩ := ih (fun r hr => hcand r (List.mem_cons_of_mem _ hr)) hrest
      have hi' := hcand i (List.mem_cons_of_mem _ hi)
      refine ⟨⟨i, List.mem_cons_of_mem _ hi, hpos⟩, ?_⟩
      intro r hr
      rcases List.mem_cons.1 hr with rfl | hr
      · -- the slot is behind node `i`, which is behind this one
        have hearlier := (hfirst i hi).1
        apply clear_of_behind hn.typed hn.brief hb (hbound hi' hpos)
        omega
      · exact hclear r hr

end Search

/-- The packets of a reachable queue that lie ahead of now are spaced. -/
theorem SlotInv.spaced {timeUs : BitVec 32} {q : JitQueue} (h : SlotInv q)
    (hahead : AheadOf timeUs q) :
    (∀ n ∈ q.entries, Candidate timeUs n) ∧ q.entries.Pairwise (Spaced timeUs) := by
  have hwin : q.InWindow timeUs := fun n hn => by
    have hnear := (hahead n hn).2.1
    omega
  refine ⟨fun n hn => ⟨h.typed n hn, (hahead n hn).2.2, h.reserved n hn, (hahead n hn).2.1⟩, ?_⟩
  apply List.Pairwise.imp_of_mem _ ((h.arranged.sorts timeUs hwin).and h.apart)
  intro m n hm hn hmn
  have hmb := (hahead m hm).2.2
  have hnb := (hahead n hn).2.2
  exact gap_of_separated (h.typed n hn) hmb hmn.1
    (hmn.2 hmb.not_blindsBeacon hnb.not_blindsBeacon)

/-- A send time of an immediate downlink overlaps no queued packet, and unless it is the second
from now it leaves the program delay. -/
theorem SendTime.clear {tgt : Target} {q : JitQueue} {timeUs c : BitVec 32} {packet : LgwPktTx}
    (h : SendTime tgt q timeUs packet .downlinkClassC c)
    (hb : (packetPostDelay tgt packet .downlinkClassC).toNat < 2 ^ 24)
    (hcand : ∀ n ∈ q.entries, Candidate timeUs n) (hspaced : q.entries.Pairwise (Spaced timeUs)) :
    (∀ n ∈ q.entries, overlaps (nodeAt tgt packet .downlinkClassC c) n = false) ∧
      (c = asapMargin tgt timeUs ∧ (∀ n ∈ q.entries, collidesWith (asapMargin tgt timeUs)
          (packetPreDelay .downlinkClassC) (packetPostDelay tgt packet .downlinkClassC) n = false) ∨
        32500 < ahead timeUs c ∧ ∃ n ∈ q.entries, collidesWith (asapMargin tgt timeUs)
          (packetPreDelay .downlinkClassC) (packetPostDelay tgt packet .downlinkClassC) n =
            true) := by
  rcases h with ⟨hfree, rfl⟩ | ⟨hbusy, hslot⟩
  · refine ⟨fun n hn => ?_, Or.inl ⟨rfl, hfree⟩⟩
    -- the relaxed guard asks less than the full one
    have hn' := hcand n hn
    obtain ⟨-, -, hguard⟩ := targetPreDelay_classC hn'.typed
    obtain ⟨hpost, hpre⟩ :=
      (collidesWith_eq_false_iff tgt packet _ hn'.typed hn'.brief hb).1 (hfree n hn)
    exact (overlaps_nodeAt_iff tgt packet _ hn'.typed hn'.brief hb).2 ⟨hpost, by omega⟩
  · obtain ⟨⟨i, -, hpos⟩, hclear⟩ := hslot.clear hb hcand hspaced
    refine ⟨hclear, Or.inr ⟨by omega, ?_⟩⟩
    by_contra hnone
    apply hbusy
    intro n hn
    exact Bool.eq_false_iff.2 fun hcol => hnone ⟨n, hn, hcol⟩

/-- On every reachable queue with room whose packets lie ahead of now within 2^30 microseconds, an
immediate downlink finds a slot exactly when the second from now fits. -/
theorem findsSlot_iff (tgt : Target) (q : JitQueue) (timeUs : BitVec 32) (packet : LgwPktTx)
    (hreach : Reachable (· = jitQueueInit) (JitStep tgt) q) (hroom : jitQueueIsFull q = false)
    (hahead : AheadOf timeUs q)
    (hb : (packetPostDelay tgt packet .downlinkClassC).toNat < 2 ^ 24) :
    FindsSlot tgt q timeUs packet ↔ SecondFits tgt q timeUs packet := by
  have hinv := reachable_slotInv hreach
  obtain ⟨hcand, hspaced⟩ := hinv.spaced hahead
  obtain ⟨c, hsend, hnode, hcount⟩ := jitNode_sendTime tgt q timeUs packet .downlinkClassC
  obtain ⟨hclear, hcases⟩ := hsend.clear hb hcand hspaced
  have hlate : (txStartDelay + txMarginDelay + txJitDelay).toNat = 32500 := by decide
  constructor
  · rintro ⟨stamped, q', hcall, -⟩
    rcases hcases with ⟨rfl, -⟩ | ⟨-, hbusy⟩
    · -- the packet goes to the second from now, so that is not too late
      rcases jitEnqueue_spec tgt hinv.arranged.bounded timeUs packet .downlinkClassC with
        ⟨e, pkt', he, heq⟩ | ⟨-, hadm, -⟩
      · rw [heq] at hcall
        cases hcall
        exact absurd rfl he
      · have hnotLate := hadm.notLate
        rw [hcount] at hnotLate
        exact Or.inr (Or.inl (by omega))
    · exact Or.inr (Or.inr hbusy)
  · intro hfits
    -- the time stamp is the second from now, or a slot behind a packet and so late enough
    have hnotLate : 32500 < ahead timeUs c := by
      rcases hcases with ⟨rfl, hfree⟩ | ⟨hgt, -⟩
      · rcases hfits with hsmall | hgt | ⟨n, hn, hcol⟩
        · have hmargin : asapMargin tgt timeUs = timeUs + 1000000#32 := by
            rw [asapMargin, tgt.doubleToU32_of_lt _ hsmall]
            bv_omega
          rw [hmargin, ahead]
          bv_omega
        · omega
        · rw [hfree n hn] at hcol
          cases hcol
      · exact hgt
    have hadm : Admissible q timeUs (jitNode tgt q timeUs packet .downlinkClassC) := by
      refine ⟨by rw [hcount]; exact hnotLate, ?_, by rw [hnode]; exact hclear⟩
      rintro (h | h)
      · cases h
      · cases h
    rcases jitEnqueue_verdict tgt q timeUs packet .downlinkClassC with
      ⟨-, hfull | hnot⟩ | ⟨-, -, stamped, q', heq, hins⟩ | ⟨hover, -⟩
    · rw [jitQueueIsFull, hfull] at hroom
      cases hroom
    · exact absurd hadm hnot
    · obtain ⟨-, rfl⟩ := jitInsert_of_jitEnqueue heq
      refine ⟨_, q', heq, ?_, ?_⟩
      · rw [hcount]
        omega
      · rw [hcount]
        exact hclear
    · exact absurd hinv.arranged.bounded (Nat.not_le.2 hover)

/-- Three downlinks and a beacon: one downlink at the second from now, one 60 ms behind it, and one
240 ms further on. -/
def busyQueue : JitQueue :=
  jitAfter fskTarget jitQueueInit
    [.enqueue 0#32 (fskPacket 50000#32 5#16 20#16 1000030#32) .downlinkClassA,
      .enqueue 10#32 (fskPacket 50000#32 5#16 20#16 1300000#32) .downlinkClassB,
      .enqueue 20#32 (fskPacket 50000#32 5#16 20#16 5000000#32) .beacon,
      .enqueue 20#32 (fskPacket 50000#32 5#16 20#16 1060030#32) .downlinkClassA]

/-- The second from now is taken and the first gap too small, so that the slot is behind the second
packet, 62.5 ms after its time on air of 5 ms. -/
theorem findsSlot_iff_busy :
    FindsSlot fskTarget busyQueue 30#32 (fskPacket 50000#32 5#16 20#16 0#32) ∧
      (jitEnqueue fskTarget busyQueue 30#32 (fskPacket 50000#32 5#16 20#16 0#32)
        .downlinkClassC).toOption.map (fun r => (r.1, r.2.1.countUs)) =
          some (.ok, 1127530#32) := by
  have hreach : Reachable (· = jitQueueInit) (JitStep fskTarget) busyQueue :=
    (run_jitAfter fskTarget bounded_jitQueueInit _).reachable
  have hahead : AheadOf 30#32 busyQueue := by
    unfold AheadOf JitNode.Brief
    decide +kernel
  refine ⟨?_, by decide +kernel⟩
  apply (findsSlot_iff fskTarget busyQueue 30#32 (fskPacket 50000#32 5#16 20#16 0#32) hreach
    (by decide +kernel) hahead (by decide +kernel)).2
  exact Or.inr (Or.inr (by decide +kernel))

/-- A target whose conversions saturate. -/
def saturatingTarget : Target where
  lgwTimeOnAir packet := fskTimeOnAir packet
  doubleToU32 n := BitVec.ofNat 32 (min n (2 ^ 32 - 1))
  doubleToU32_of_lt n hn := by rw [Nat.min_eq_left (by omega)]

/-- In the last second before the wrap of the counter the conversion gives the current time, and
the downlink is too late. -/
theorem not_findsSlot_wrap :
    ¬ ∀ (tgt : Target) (q : JitQueue) (timeUs : BitVec 32) (packet : LgwPktTx),
      Reachable (· = jitQueueInit) (JitStep tgt) q → jitQueueIsFull q = false →
        AheadOf timeUs q → (packetPostDelay tgt packet .downlinkClassC).toNat < 2 ^ 24 →
          FindsSlot tgt q timeUs packet := by
  intro h
  obtain ⟨stamped, q', hcall, -⟩ := h saturatingTarget jitQueueInit 4294967295#32
    (fskPacket 50000#32 5#16 20#16 0#32) (Reachable.start rfl) rfl (by simp [AheadOf])
    (by decide +kernel)
  have hlate : ((jitEnqueue saturatingTarget jitQueueInit 4294967295#32
      (fskPacket 50000#32 5#16 20#16 0#32) .downlinkClassC).map fun r => r.1).toOption =
        some .tooLate := by
    decide +kernel
  rw [hcall] at hlate
  cases hlate

end DraginoFwd.Jit

import DraginoFwd.Hal
import DraginoFwd.Lib.GapSort
import DraginoFwd.Lib.SerialClock

/-!
# Merging the packets that were demodulated twice

With the fine time stamps enabled, two modems demodulate each packet, and `lgw_receive` hands its
array to `merge_packets`: of two packets that are the same one is removed, the search starts anew
behind each removal, and the rest is sorted by the counter.

`mergePackets_merged` says what is left for all arrays: some of the packets, no two of them the
same, and for each packet one that is kept in its place, over a chain of packets that are the same
and never one with a bad CRC for one with a good CRC. They are in the order of time, also over a
wrap of the counter (`mergePackets_sorted`), on a target on which the difference of two `int`s wraps
(`intDifference`).
-/

set_option autoImplicit false

namespace DraginoFwd.Hal

open DraginoFwd.Lib.GapSort
open DraginoFwd.Lib.SerialClock

variable {n : Nat}

/-! ## The code -/

/-- `abs` of an `int`, which leaves the least number as it is -/
def absInt (x : BitVec 32) : BitVec 32 := if x.slt 0#32 then 0#32 - x else x

/-- `is_same_pkt`: at most 24 microseconds apart, on one channel, with one datarate and payload. -/
def isSamePkt (p1 p2 : LgwPktRx) : Bool :=
  (absInt (p1.countUs - p2.countUs)).sle 24#32 && p1.ifChain == p2.ifChain &&
    p1.datarate == p2.datarate && p1.size == p2.size &&
    p1.payload.toList.take p1.size.toNat == p2.payload.toList.take p1.size.toNat

/-- The search for a packet that is the same as packet `j`, from `k` on. -/
def findDuplicate (p : Vector LgwPktRx n) (cpt j k : Nat) : Option Nat :=
  if h : k < cpt ∧ j < n ∧ k < n then
    if isSamePkt p[j] p[k] then some k else findDuplicate p cpt j (k + 1)
  else none
termination_by cpt - k

/-- `pkt_dup_idx`: packet `j` is the one that goes, not packet `k`. -/
def removesFirst (pj pk : LgwPktRx) : Bool :=
  if pj.status = statCrcOk ∧ pk.status = statCrcBad then false
  else if pj.status = statCrcBad ∧ pk.status = statCrcOk then true
  else !pj.ftimeReceived

/-- `remove_pkt`: the last packet takes the place of the removed one. -/
def removePkt (p : Vector LgwPktRx n) (nbPkt pktIndex : Nat) : Vector LgwPktRx n :=
  if h : pktIndex < n ∧ nbPkt - 1 < n then p.set pktIndex p[nbPkt - 1] else p

/-- The `while` loop of `merge_packets`: it starts anew behind each removal. -/
def removeDuplicates (p : Vector LgwPktRx n) (cpt j : Nat) : Vector LgwPktRx n × Nat :=
  if j < cpt then
    match findDuplicate p cpt j (j + 1) with
    | some k =>
        if hj : j < n then
          if hk : k < n then
            let dup := if removesFirst p[j] p[k] then j else k
            removeDuplicates (removePkt p cpt dup) (cpt - 1) 0
          else (p, cpt)
        else (p, cpt)
    | none => removeDuplicates p cpt (j + 1)
  else (p, cpt)
termination_by (cpt, cpt - j)

/-- `compare_pkt_tmst`: the difference of the two counters as `int`s. -/
def comparePktTmst (p q : LgwPktRx) : Int := intDifference p.countUs q.countUs

/-- `merge_packets`: the array, and the number of packets that are left in it. -/
def mergePackets (p : Vector LgwPktRx n) (nbPkt : Nat) : Vector LgwPktRx n × Nat :=
  let (p, cpt) := removeDuplicates p nbPkt 0
  (gapSort comparePktTmst cpt p, cpt)

/-! ## One packet for another -/

/-- The first packets of the array. -/
def packets (p : Vector LgwPktRx n) (nbPkt : Nat) : List LgwPktRx := p.toList.take nbPkt

theorem absInt_sub_comm (x y : BitVec 32) :
    (absInt (x - y)).sle 24#32 = (absInt (y - x)).sle 24#32 := by
  have hneg : y - x = 0#32 - (x - y) := by
    rw [BitVec.zero_sub, BitVec.neg_sub, BitVec.sub_eq_add_neg, BitVec.add_comm]
  rw [hneg]
  generalize x - y = d
  simp only [absInt, BitVec.slt, BitVec.sle, BitVec.zero_sub, BitVec.neg_neg, decide_eq_true_eq,
    decide_eq_decide]
  have hd := d.toInt_lt
  have hd' := d.le_toInt
  have h24 : (24#32).toInt = 24 := rfl
  have h0 : (0#32).toInt = 0 := rfl
  rw [h0, h24]
  by_cases hmin : d = BitVec.intMin 32
  · subst hmin
    decide
  · have hnegInt : (-d).toInt = -d.toInt := BitVec.toInt_neg_of_ne_intMin hmin
    split <;> split <;> omega

theorem isSamePkt_comm (p q : LgwPktRx) : isSamePkt p q = isSamePkt q p := by
  simp only [isSamePkt, absInt_sub_comm p.countUs q.countUs, Bool.beq_comm (a := p.ifChain),
    Bool.beq_comm (a := p.datarate), Bool.beq_comm (a := p.size)]
  cases hsize : q.size == p.size with
  | false => simp
  | true =>
    rw [eq_of_beq hsize, Bool.beq_comm (a := p.payload.toList.take p.size.toNat)]

/-- Of two packets that are the same, `q` stays and `p` goes. -/
structure Replaces (p q : LgwPktRx) : Prop where
  same : isSamePkt p q = true
  crc : ¬(p.status = statCrcOk ∧ q.status = statCrcBad)
  ftime : p.ftimeReceived = true → q.ftimeReceived = true ∨
    p.status = statCrcBad ∧ q.status = statCrcOk

theorem replaces_of_removesFirst {pj pk : LgwPktRx} (hsame : isSamePkt pj pk = true)
    (h : removesFirst pj pk = true) : Replaces pj pk := by
  rw [removesFirst] at h
  split at h
  · cases h
  · next hok =>
    refine ⟨hsame, hok, ?_⟩
    intro hftime
    split at h
    · next hbad => exact .inr hbad
    · rw [hftime] at h
      cases h

theorem replaces_of_not_removesFirst {pj pk : LgwPktRx} (hsame : isSamePkt pj pk = true)
    (h : removesFirst pj pk = false) : Replaces pk pj := by
  rw [isSamePkt_comm] at hsame
  rw [removesFirst] at h
  split at h
  · next hok =>
    refine ⟨hsame, ?_, fun _ => .inr ⟨hok.2, hok.1⟩⟩
    rintro ⟨hpk, -⟩
    exact absurd (hpk.symm.trans hok.2) (by decide)
  · split at h
    · cases h
    · next hbad =>
      refine ⟨hsame, fun hpk => hbad ⟨hpk.2, hpk.1⟩, fun _ => .inl ?_⟩
      rwa [Bool.not_eq_false'] at h

/-! ## One removal -/

theorem findDuplicate_some {p : Vector LgwPktRx n} {cpt j k dup : Nat}
    (h : findDuplicate p cpt j k = some dup) :
    k ≤ dup ∧ dup < cpt ∧ ∃ (hj : j < n) (hdup : dup < n), isSamePkt p[j] p[dup] = true := by
  fun_induction findDuplicate p cpt j k with
  | case1 k hk hsame =>
    cases h
    exact ⟨le_rfl, hk.1, hk.2.1, hk.2.2, hsame⟩
  | case2 k hk hsame ih =>
    obtain ⟨hle, hrest⟩ := ih h
    exact ⟨by omega, hrest⟩
  | case3 => cases h

theorem findDuplicate_none {p : Vector LgwPktRx n} {cpt j k : Nat} (hcpt : cpt ≤ n)
    (h : findDuplicate p cpt j k = none) {i : Nat} (hki : k ≤ i) (hi : i < cpt) (hj : j < n) :
    isSamePkt p[j] p[i] = false := by
  fun_induction findDuplicate p cpt j k with
  | case1 => cases h
  | case2 k hk hsame ih =>
    rcases Nat.eq_or_lt_of_le hki with rfl | hlt
    · exact Bool.eq_false_iff.2 hsame
    · exact ih h hlt
  | case3 k hk => exact absurd ⟨by omega, hj, by omega⟩ hk

@[simp] theorem length_packets {p : Vector LgwPktRx n} {nbPkt : Nat} (h : nbPkt ≤ n) :
    (packets p nbPkt).length = nbPkt := by
  rw [packets, List.length_take, Vector.length_toList, Nat.min_eq_left h]

/-- A removal costs the array one packet, and no other. -/
theorem removePkt_perm (p : Vector LgwPktRx n) {cpt dup : Nat} (hcpt : cpt ≤ n) (hdup : dup < cpt) :
    (p[dup] :: packets (removePkt p cpt dup) (cpt - 1)).Perm (packets p cpt) := by
  have hlast : cpt - 1 < p.toList.length := by
    rw [Vector.length_toList]
    omega
  have hsplit : packets p cpt = p.toList.take (cpt - 1) ++ [p[cpt - 1]] := by
    have htake := List.take_succ_eq_append_getElem hlast
    rw [show cpt - 1 + 1 = cpt by omega] at htake
    rw [packets, htake, Vector.getElem_toList]
  rw [removePkt, dif_pos ⟨by omega, by omega⟩, hsplit, packets, Vector.toList_set]
  by_cases hlt : dup < cpt - 1
  · -- the last packet takes the place of the removed one
    have hlen : dup < (p.toList.take (cpt - 1)).length := by
      rw [List.length_take, Vector.length_toList]
      omega
    have hget : (p.toList.take (cpt - 1))[dup] = p[dup] := by
      rw [List.getElem_take, Vector.getElem_toList]
    have herase := List.getElem_cons_eraseIdx_perm hlen
    rw [hget] at herase
    rw [List.take_set]
    calc p[dup] :: (p.toList.take (cpt - 1)).set dup p[cpt - 1]
      _ |>.Perm (p[dup] :: p[cpt - 1] :: (p.toList.take (cpt - 1)).eraseIdx dup) :=
        (List.set_perm_cons_eraseIdx hlen _).cons _
      _ |>.Perm (p[cpt - 1] :: p[dup] :: (p.toList.take (cpt - 1)).eraseIdx dup) :=
        List.Perm.swap _ _ _
      _ |>.Perm (p[cpt - 1] :: p.toList.take (cpt - 1)) := herase.cons _
      _ |>.Perm (p.toList.take (cpt - 1) ++ [p[cpt - 1]]) :=
        (List.perm_append_singleton _ _).symm
  · -- the removed packet is the last one
    obtain rfl : dup = cpt - 1 := by omega
    rw [List.take_set_of_le le_rfl]
    exact (List.perm_append_singleton _ _).symm

/-! ## The loop -/

/-- One of the packets is replaced by another one of them. -/
def ReplacesIn (all : List LgwPktRx) (p q : LgwPktRx) : Prop := q ∈ all ∧ Replaces p q

/-- What is left of a list of packets: some of them, and for each one that is gone a packet that
stays in its place. -/
structure Covered (kept all : List LgwPktRx) : Prop where
  subperm : kept.Subperm all
  replaced : ∀ p ∈ all, ∃ q ∈ kept, Relation.ReflTransGen (ReplacesIn all) p q

theorem Covered.refl (all : List LgwPktRx) : Covered all all :=
  ⟨List.Subperm.refl all, fun p hp => ⟨p, hp, .refl⟩⟩

theorem Covered.trans {kept middle all : List LgwPktRx} (h : Covered kept middle)
    (h' : Covered middle all) : Covered kept all := by
  refine ⟨h.subperm.trans h'.subperm, ?_⟩
  intro p hp
  obtain ⟨q, hq, hpq⟩ := h'.replaced p hp
  obtain ⟨r, hr, hqr⟩ := h.replaced q hq
  have hall : Relation.ReflTransGen (ReplacesIn all) q r :=
    Relation.ReflTransGen.mono (fun x y hxy => ⟨h'.subperm.subset hxy.1, hxy.2⟩) _ _ hqr
  exact ⟨r, hr, hpq.trans hall⟩

theorem Covered.of_perm {kept all : List LgwPktRx} (h : kept.Perm all) : Covered kept all :=
  ⟨h.subperm, fun p hp => ⟨p, h.mem_iff.2 hp, .refl⟩⟩

/-- One packet less, for one that stays. -/
theorem Covered.of_removal {kept all : List LgwPktRx} {p q : LgwPktRx}
    (hperm : (p :: kept).Perm all) (hq : q ∈ kept) (h : Replaces p q) : Covered kept all := by
  have hsub : kept.Subperm all := (List.sublist_cons_self p kept).subperm.trans hperm.subperm
  refine ⟨hsub, ?_⟩
  intro x hx
  rcases List.mem_cons.1 (hperm.mem_iff.2 hx) with rfl | hkept
  · exact ⟨q, hq, .single ⟨hsub.subset hq, h⟩⟩
  · exact ⟨x, hkept, .refl⟩

/-- A good CRC stays: where the CRC of all packets is known to be good or bad, one with a good CRC
is left in the place of each that has one. -/
theorem Covered.good_of_good {kept all : List LgwPktRx} (h : Covered kept all)
    (hstatus : ∀ p ∈ all, p.status = statCrcOk ∨ p.status = statCrcBad) {p : LgwPktRx}
    (hp : p ∈ all) (hgood : p.status = statCrcOk) :
    ∃ q ∈ kept, Relation.ReflTransGen (ReplacesIn all) p q ∧ q.status = statCrcOk := by
  obtain ⟨q, hq, hpq⟩ := h.replaced p hp
  refine ⟨q, hq, hpq, ?_⟩
  clear hq
  induction hpq with
  | refl => exact hgood
  | tail _ hstep ih => exact (hstatus _ hstep.1).resolve_right fun hbad => hstep.2.crc ⟨ih, hbad⟩

/-- A packet at another place is still there. -/
theorem mem_of_removal {kept all : List LgwPktRx} {i j : Nat} (hi : i < all.length)
    (hj : j < all.length) (hperm : (all[i] :: kept).Perm all) (hne : j ≠ i) : all[j] ∈ kept := by
  have herase : kept.Perm (all.eraseIdx i) :=
    (List.perm_cons all[i]).1 (hperm.trans (List.getElem_cons_eraseIdx_perm hi).symm)
  rw [herase.mem_iff, List.mem_eraseIdx_iff_getElem?]
  exact ⟨j, hne, List.getElem?_eq_getElem hj⟩

theorem getElem_packets {p : Vector LgwPktRx n} {cpt i : Nat} (h : i < (packets p cpt).length)
    (hi : i < n) : (packets p cpt)[i] = p[i] := by
  simp [packets]

/-- What the loop does with two packets that are the same. -/
theorem removePkt_covered {p : Vector LgwPktRx n} {cpt j k : Nat} (hcpt : cpt ≤ n) (hjk : j < k)
    (hk : k < cpt) (hsame : isSamePkt p[j] p[k] = true) :
    Covered (packets (removePkt p cpt (if removesFirst p[j] p[k] then j else k)) (cpt - 1))
      (packets p cpt) := by
  have hlen := length_packets (p := p) hcpt
  have hother {i other : Nat} (hi : i < cpt) (hoth : other < cpt) (hne : other ≠ i) :
      p[other] ∈ packets (removePkt p cpt i) (cpt - 1) := by
    have hi' : i < (packets p cpt).length := by omega
    have hoth' : other < (packets p cpt).length := by omega
    have hperm := removePkt_perm p hcpt hi
    rw [← getElem_packets hi' (by omega)] at hperm
    have hmem := mem_of_removal hi' hoth' hperm hne
    rwa [getElem_packets hoth' (by omega)] at hmem
  cases hfirst : removesFirst p[j] p[k] with
  | true =>
    rw [if_pos rfl]
    exact .of_removal (removePkt_perm p hcpt (by omega)) (hother (by omega) hk (by omega))
      (replaces_of_removesFirst hsame hfirst)
  | false =>
    rw [if_neg Bool.false_ne_true]
    exact .of_removal (removePkt_perm p hcpt hk) (hother hk (by omega) (by omega))
      (replaces_of_not_removesFirst hsame hfirst)

theorem removeDuplicates_covered {p : Vector LgwPktRx n} {cpt : Nat} (j : Nat) (hcpt : cpt ≤ n) :
    (removeDuplicates p cpt j).2 ≤ n ∧
      Covered (packets (removeDuplicates p cpt j).1 (removeDuplicates p cpt j).2)
        (packets p cpt) := by
  fun_induction removeDuplicates p cpt j with
  | case1 p cpt j hj k hfind hjn hkn dup ih =>
    obtain ⟨hlt, hk, _, _, hsame⟩ := findDuplicate_some hfind
    obtain ⟨hle, hcovered⟩ := ih (by omega)
    exact ⟨hle, hcovered.trans (removePkt_covered hcpt hlt hk hsame)⟩
  | case2 => exact ⟨hcpt, .refl _⟩
  | case3 => exact ⟨hcpt, .refl _⟩
  | case4 p cpt j hj hfind ih => exact ih hcpt
  | case5 => exact ⟨hcpt, .refl _⟩

/-- No packet before `j` is the same as a later one. -/
def DistinctTo (p : Vector LgwPktRx n) (cpt j : Nat) : Prop :=
  ∀ i k (hi : i < n) (hk : k < n), i < j → i < k → k < cpt → isSamePkt p[i] p[k] = false

theorem removeDuplicates_distinct {p : Vector LgwPktRx n} {cpt j : Nat} (hcpt : cpt ≤ n)
    (h : DistinctTo p cpt j) :
    DistinctTo (removeDuplicates p cpt j).1 (removeDuplicates p cpt j).2
      (removeDuplicates p cpt j).2 := by
  fun_induction removeDuplicates p cpt j with
  | case1 p cpt j hj k hfind hjn hkn dup ih =>
    apply ih (by omega)
    intro i k hi hk hi0
    exact absurd hi0 (Nat.not_lt_zero i)
  | case2 p cpt j hj k hfind hjn hkn =>
    obtain ⟨-, -, -, hfits, -⟩ := findDuplicate_some hfind
    exact absurd hfits hkn
  | case3 p cpt j hj k hfind hjn =>
    obtain ⟨-, -, hfits, -, -⟩ := findDuplicate_some hfind
    exact absurd hfits hjn
  | case4 p cpt j hj hfind ih =>
    apply ih hcpt
    intro i k hi hk hij hik hkc
    rcases Nat.eq_or_lt_of_le (Nat.le_of_lt_succ hij) with rfl | hlt
    · exact findDuplicate_none hcpt hfind hik hkc hi
    · exact h i k hi hk hlt hik hkc
  | case5 p cpt j hj =>
    intro i k hi hk hic hik hkc
    exact h i k hi hk (by omega) hik hkc

/-- The result of a merge: no two packets are the same, and all are covered. -/
structure Merged (kept all : List LgwPktRx) : Prop extends Covered kept all where
  distinct : kept.Pairwise fun p q => isSamePkt p q = false

/-- **A merge keeps one packet for each**: what it leaves are packets of the array, no two of them
the same, and for each packet there is a chain of the same packets to one that is left, which never
goes from a good CRC to a bad one. -/
theorem mergePackets_merged (p : Vector LgwPktRx n) {nbPkt : Nat} (h : nbPkt ≤ n) :
    Merged (packets (mergePackets p nbPkt).1 (mergePackets p nbPkt).2) (packets p nbPkt) := by
  obtain ⟨hle, hcovered⟩ := removeDuplicates_covered (p := p) 0 h
  have hdistinct : DistinctTo (removeDuplicates p nbPkt 0).1 (removeDuplicates p nbPkt 0).2
      (removeDuplicates p nbPkt 0).2 := by
    apply removeDuplicates_distinct h
    intro i k hi hk hi0
    exact absurd hi0 (Nat.not_lt_zero i)
  have hperm := gapSort_perm comparePktTmst (removeDuplicates p nbPkt 0).2
    (removeDuplicates p nbPkt 0).1
  refine ⟨(Covered.of_perm hperm).trans hcovered, ?_⟩
  refine (hperm.pairwise_iff fun {p q} hpq => ?_).2 ?_
  · rwa [isSamePkt_comm]
  · rw [List.pairwise_iff_getElem]
    intro i k hi hk hik
    rw [List.length_take, Vector.length_toList] at hi hk
    rw [List.getElem_take, List.getElem_take, Vector.getElem_toList, Vector.getElem_toList]
    exact hdistinct i k (by omega) (by omega) (by omega) hik (by omega)

/-- **A merge loses no packet and no good CRC**, where every CRC was found good or bad. -/
theorem mergePackets_keeps (p : Vector LgwPktRx n) {nbPkt : Nat} (h : nbPkt ≤ n)
    (hstatus : ∀ q ∈ packets p nbPkt, q.status = statCrcOk ∨ q.status = statCrcBad) :
    Merged (packets (mergePackets p nbPkt).1 (mergePackets p nbPkt).2) (packets p nbPkt) ∧
      ∀ q ∈ packets p nbPkt, q.status = statCrcOk →
        ∃ r ∈ packets (mergePackets p nbPkt).1 (mergePackets p nbPkt).2,
          Relation.ReflTransGen (ReplacesIn (packets p nbPkt)) q r ∧ r.status = statCrcOk := by
  have hmerged := mergePackets_merged p h
  exact ⟨hmerged, fun q hq hgood => hmerged.toCovered.good_of_good hstatus hq hgood⟩

/-- A packet with a bad CRC in front of the same one with a good CRC. -/
theorem mergePackets_keeps_bad :
    let bad := { LgwPktRx.ofBytes [0x40#8] with status := statCrcBad }
    let good := { LgwPktRx.ofBytes [0x40#8] with status := statCrcOk }
    Merged (packets (mergePackets #v[bad, good] 2).1 (mergePackets #v[bad, good] 2).2) [bad, good] ∧
      ∀ q ∈ [bad, good], q.status = statCrcOk →
        ∃ r ∈ packets (mergePackets #v[bad, good] 2).1 (mergePackets #v[bad, good] 2).2,
          Relation.ReflTransGen (ReplacesIn [bad, good]) q r ∧ r.status = statCrcOk := by
  intro bad good
  apply mergePackets_keeps #v[bad, good] (le_refl 2)
  intro q hq
  have hmem : q = bad ∨ q = good := by simpa [packets] using hq
  rcases hmem with rfl | rfl
  · exact .inr rfl
  · exact .inl rfl

theorem mergePackets_le (p : Vector LgwPktRx n) {nbPkt : Nat} (h : nbPkt ≤ n) :
    (mergePackets p nbPkt).2 ≤ n := (removeDuplicates_covered 0 h).1

/-- **What is left is in the order of time**, from any origin on that lies less than half a turn of
the counter before all packets. -/
theorem mergePackets_sorted (p : Vector LgwPktRx n) {nbPkt : Nat} (h : nbPkt ≤ n)
    (origin : BitVec 32) (hwindow : ∀ q ∈ packets p nbPkt, 2 * ahead origin q.countUs < 2 ^ 32) :
    (packets (mergePackets p nbPkt).1 (mergePackets p nbPkt).2).Pairwise fun q r =>
      ahead origin q.countUs ≤ ahead origin r.countUs := by
  obtain ⟨hle, hcovered⟩ := removeDuplicates_covered (p := p) 0 h
  refine gapSort_pairwise comparePktTmst (fun q => ahead origin q.countUs) hle ?_
  intro q hq r hr
  exact toInt_sub_le_zero_iff (hwindow q (hcovered.subperm.subset hq))
    (hwindow r (hcovered.subperm.subset hr))

/-- The later one of two packets comes first in the array, behind the wrap of the counter. -/
theorem mergePackets_sorted_wrap :
    let first := { LgwPktRx.ofBytes [0x40#8] with countUs := 0xFFFFFFF0#32 }
    let second := { LgwPktRx.ofBytes [0x41#8] with countUs := 0x00000010#32 }
    (packets (mergePackets #v[second, first] 2).1 (mergePackets #v[second, first] 2).2).Pairwise
      fun q r => ahead 0xFFFFFF00#32 q.countUs ≤ ahead 0xFFFFFF00#32 r.countUs := by
  intro first second
  apply mergePackets_sorted #v[second, first] (le_refl 2) 0xFFFFFF00#32
  intro q hq
  have hmem : q = second ∨ q = first := by simpa [packets] using hq
  rcases hmem with rfl | rfl <;> decide

end DraginoFwd.Hal

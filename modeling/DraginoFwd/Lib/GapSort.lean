import Mathlib.Data.Vector.Basic
import Mathlib.Order.Basic
import Mathlib.Tactic

/-!
# Gap insertion sort in place

`gapSort cmp nel a` sorts the first `nel` cells of `a` by insertion passes with the gaps
`…, 13, 4, 1`, each exchange swapping two cells that are one gap apart. Whatever `cmp` answers,
the result is a rearrangement of the sorted prefix and leaves the other cells alone
(`gapSort_perm`, `gapSort_getElem_of_le`). When `cmp` agrees on the cells with the order of a key,
the prefix comes out sorted by that key (`gapSort_sorted`): the last pass has gap one, and a pass
with gap one is plain insertion.
-/

set_option autoImplicit false

namespace DraginoFwd.Lib.GapSort

universe u v

variable {α : Type u} {κ : Type v} {n : Nat}

/-- Move the cell `j` down in strides of `gap` while its predecessor compares greater. -/
def sift (cmp : α → α → Int) (gap : Nat) (a : Vector α n) (j : Nat) : Vector α n :=
  if h : 0 < gap ∧ gap ≤ j ∧ j < n then
    if cmp a[j - gap] a[j] ≤ 0 then a
    else sift cmp gap (a.swap (j - gap) j) (j - gap)
  else a
termination_by j

/-- One pass: sift the cells `i, i + 1, …, nel - 1` in turn. -/
def gapPass (cmp : α → α → Int) (nel gap : Nat) (a : Vector α n) (i : Nat) : Vector α n :=
  if i < nel then gapPass cmp nel gap (sift cmp gap a i) (i + 1) else a
termination_by nel - i

/-- Passes with the gaps `gap, (gap - 1) / 3, …` down to a gap of zero. -/
def gapLoop (cmp : α → α → Int) (nel : Nat) (a : Vector α n) (gap : Nat) : Vector α n :=
  if gap = 0 then a else gapLoop cmp nel (gapPass cmp nel gap a gap) ((gap - 1) / 3)
termination_by gap

/-- The first gap: from `gap` on, the first of `gap, 3 * gap + 1, …` that is not below
`(nel - 1) / 3`. -/
def startGap (nel gap : Nat) : Nat :=
  if gap < (nel - 1) / 3 then startGap nel (3 * gap + 1) else gap
termination_by nel - gap

/-- Sort the first `nel` cells of `a`. -/
def gapSort (cmp : α → α → Int) (nel : Nat) (a : Vector α n) : Vector α n :=
  if 1 < nel then gapLoop cmp nel a (startGap nel 1) else a

/-! ## Rearrangement -/

section Rearrangement

variable (cmp : α → α → Int)

theorem sift_perm (gap : Nat) (a : Vector α n) (j : Nat) : (sift cmp gap a j).Perm a := by
  fun_induction sift cmp gap a j with
  | case1 => exact Vector.Perm.refl _
  | case2 a j h _ ih => exact ih.trans (Vector.swap_perm (by omega) h.2.2)
  | case3 => exact Vector.Perm.refl _

theorem sift_getElem_of_lt (gap : Nat) (a : Vector α n) (j : Nat) {k : Nat} (hjk : j < k)
    (hk : k < n) : (sift cmp gap a j)[k] = a[k] := by
  fun_induction sift cmp gap a j with
  | case1 => rfl
  | case2 a j h _ ih =>
    rw [ih (by omega), Vector.getElem_swap_of_ne (by omega) (by omega)]
  | case3 => rfl

theorem gapPass_perm (nel gap : Nat) (a : Vector α n) (i : Nat) :
    (gapPass cmp nel gap a i).Perm a := by
  fun_induction gapPass cmp nel gap a i with
  | case1 a i _ ih => exact ih.trans (sift_perm cmp gap a i)
  | case2 => exact Vector.Perm.refl _

theorem gapPass_getElem_of_le (nel gap : Nat) (a : Vector α n) (i : Nat) {k : Nat} (hk : k < n)
    (hnel : nel ≤ k) : (gapPass cmp nel gap a i)[k] = a[k] := by
  fun_induction gapPass cmp nel gap a i with
  | case1 a i hi ih => rw [ih, sift_getElem_of_lt cmp gap a i (by omega) hk]
  | case2 => rfl

theorem gapLoop_perm (nel : Nat) (a : Vector α n) (gap : Nat) : (gapLoop cmp nel a gap).Perm a := by
  fun_induction gapLoop cmp nel a gap with
  | case1 => exact Vector.Perm.refl _
  | case2 a gap _ ih => exact ih.trans (gapPass_perm cmp nel gap a gap)

theorem gapLoop_getElem_of_le (nel : Nat) (a : Vector α n) (gap : Nat) {k : Nat} (hk : k < n)
    (hnel : nel ≤ k) : (gapLoop cmp nel a gap)[k] = a[k] := by
  fun_induction gapLoop cmp nel a gap with
  | case1 => rfl
  | case2 a gap _ ih => rw [ih, gapPass_getElem_of_le cmp nel gap a gap hk hnel]

theorem gapSort_vector_perm (nel : Nat) (a : Vector α n) : (gapSort cmp nel a).Perm a := by
  unfold gapSort
  split
  · exact gapLoop_perm cmp nel a _
  · exact Vector.Perm.refl _

/-- The cells behind the sorted prefix keep their contents. -/
theorem gapSort_getElem_of_le (nel : Nat) (a : Vector α n) {k : Nat} (hk : k < n)
    (hnel : nel ≤ k) : (gapSort cmp nel a)[k] = a[k] := by
  unfold gapSort
  split
  · exact gapLoop_getElem_of_le cmp nel a _ hk hnel
  · rfl

theorem gapSort_drop (nel : Nat) (a : Vector α n) :
    (gapSort cmp nel a).toList.drop nel = a.toList.drop nel := by
  apply List.ext_getElem
  · simp
  · intro k h1 h2
    simp only [List.length_drop, Vector.length_toList] at h1
    simp only [List.getElem_drop, Vector.getElem_toList]
    exact gapSort_getElem_of_le cmp nel a (by omega) (by omega)

/-- The sorted prefix is a rearrangement of the prefix. -/
theorem gapSort_perm (nel : Nat) (a : Vector α n) :
    ((gapSort cmp nel a).toList.take nel).Perm (a.toList.take nel) := by
  have hall : (gapSort cmp nel a).toList.Perm a.toList :=
    Vector.perm_iff_toList_perm.1 (gapSort_vector_perm cmp nel a)
  rw [← List.take_append_drop nel (gapSort cmp nel a).toList,
    ← List.take_append_drop nel a.toList, gapSort_drop] at hall
  exact (List.perm_append_right_iff _).1 hall

end Rearrangement

/-! ## Order -/

section Order

variable [LinearOrder κ] (cmp : α → α → Int) (key : α → κ)

/-- The cells `0, …, m - 1` are in order. -/
def SortedTo (a : Vector α n) (m : Nat) : Prop :=
  ∀ p q (hp : p < n) (hq : q < n), p < q → q < m → key a[p] ≤ key a[q]

/-- The cells `0, …, i` are in order but for cell `j`, which is no greater than the cells
behind it. This is what sifting cell `i` preserves. -/
def SortedBut (a : Vector α n) (i j : Nat) : Prop :=
  (∀ p q (hp : p < n) (hq : q < n), p < q → q ≤ i → p ≠ j → q ≠ j → key a[p] ≤ key a[q]) ∧
    ∀ q (hj : j < n) (hq : q < n), j < q → q ≤ i → key a[j] ≤ key a[q]

/-- `cmp` orders the cells below `nel` as `key` does. -/
def AgreesBelow (a : Vector α n) (nel : Nat) : Prop :=
  ∀ p q (hp : p < n) (hq : q < n), p < nel → q < nel →
    (cmp a[p] a[q] ≤ 0 ↔ key a[p] ≤ key a[q])

theorem AgreesBelow.swap {a : Vector α n} {nel i j : Nat} (h : AgreesBelow cmp key a nel)
    (hi : i < n) (hj : j < n) (hil : i < nel) (hjl : j < nel) :
    AgreesBelow cmp key (a.swap i j) nel := by
  intro p q hp hq hpl hql
  -- both cells of the swapped vector are cells below `nel` of the old one
  have hcell : ∀ k (hk : k < n), k < nel → ∃ k', ∃ hk' : k' < n, k' < nel ∧
      (a.swap i j)[k] = a[k'] := by
    intro k hk hkl
    by_cases hki : k = i
    · subst hki
      exact ⟨j, hj, hjl, Vector.getElem_swap_left _ _⟩
    · by_cases hkj : k = j
      · subst hkj
        exact ⟨i, hi, hil, Vector.getElem_swap_right _ _⟩
      · exact ⟨k, hk, hkl, Vector.getElem_swap_of_ne hki hkj⟩
  obtain ⟨p', hp', hpl', ep⟩ := hcell p hp hpl
  obtain ⟨q', hq', hql', eq⟩ := hcell q hq hql
  rw [ep, eq]
  exact h p' q' hp' hq' hpl' hql'

theorem agreesBelow_sift {nel gap : Nat} {a : Vector α n} {j : Nat}
    (h : AgreesBelow cmp key a nel) (hj : j < nel) :
    AgreesBelow cmp key (sift cmp gap a j) nel := by
  fun_induction sift cmp gap a j with
  | case1 => exact h
  | case2 a j hg _ ih => exact ih (h.swap cmp key _ _ (by omega) hj) (by omega)
  | case3 => exact h

theorem agreesBelow_gapPass {nel gap : Nat} {a : Vector α n} {i : Nat}
    (h : AgreesBelow cmp key a nel) : AgreesBelow cmp key (gapPass cmp nel gap a i) nel := by
  fun_induction gapPass cmp nel gap a i with
  | case1 a i hi ih => exact ih (agreesBelow_sift cmp key h hi)
  | case2 => exact h

/-- One exchange of adjacent cells keeps the order of the other cells. -/
theorem SortedBut.swap {a : Vector α n} {i j : Nat} (h : SortedBut key a i j) (hj0 : 0 < j)
    (hji : j ≤ i) (hj : j < n) (hgt : key a[j] ≤ key a[j - 1]) :
    SortedBut key (a.swap (j - 1) j) i (j - 1) := by
  obtain ⟨hrest, hbehind⟩ := h
  constructor
  · intro p q hp hq hpq hqi hpne hqne
    by_cases hqj : q = j
    · subst hqj
      rw [Vector.getElem_swap_right, Vector.getElem_swap_of_ne (by omega) (by omega)]
      exact hrest p (q - 1) hp (by omega) (by omega) (by omega) (by omega) (by omega)
    · rw [Vector.getElem_swap_of_ne hqne hqj]
      by_cases hpj : p = j
      · subst hpj
        rw [Vector.getElem_swap_right]
        exact hrest (p - 1) q (by omega) hq (by omega) hqi (by omega) hqj
      · rw [Vector.getElem_swap_of_ne hpne hpj]
        exact hrest p q hp hq hpq hqi hpj hqj
  · intro q hj' hq hjq hqi
    rw [Vector.getElem_swap_left]
    by_cases hqj : q = j
    · subst hqj
      rw [Vector.getElem_swap_right]
      exact hgt
    · rw [Vector.getElem_swap_of_ne (by omega) hqj]
      exact hbehind q hj hq (by omega) hqi

theorem SortedBut.toSortedTo_of_le {a : Vector α n} {i j : Nat} (h : SortedBut key a i j)
    (hj : j < n) (hpred : 0 < j → key a[j - 1] ≤ key a[j]) : SortedTo key a (i + 1) := by
  obtain ⟨hrest, hbehind⟩ := h
  intro p q hp hq hpq hqi
  by_cases hqj : q = j
  · subst hqj
    by_cases hpj : p = q - 1
    · subst hpj
      exact hpred (by omega)
    · exact le_trans (hrest p (q - 1) hp (by omega) (by omega) (by omega) (by omega) (by omega))
        (hpred (by omega))
  · by_cases hpj : p = j
    · subst hpj
      exact hbehind q hp hq hpq (by omega)
    · exact hrest p q hp hq hpq (by omega) hpj hqj

/-- Sifting with gap one puts the cell in its place among the cells before it. -/
theorem sift_one_sortedTo {nel : Nat} {a : Vector α n} {i j : Nat}
    (hagree : AgreesBelow cmp key a nel) (hi : i < nel) (hin : i < n) (hji : j ≤ i)
    (h : SortedBut key a i j) : SortedTo key (sift cmp 1 a j) (i + 1) := by
  fun_induction sift cmp 1 a j with
  | case1 a j hg hle =>
    refine h.toSortedTo_of_le key hg.2.2 fun _ => ?_
    exact (hagree (j - 1) j (by omega) hg.2.2 (by omega) (by omega)).1 hle
  | case2 a j hg hnle ih =>
    refine ih (hagree.swap cmp key _ _ (by omega) (by omega)) (by omega) ?_
    refine h.swap key (by omega) hji hg.2.2 (le_of_lt (lt_of_not_ge fun hge => hnle ?_))
    exact (hagree (j - 1) j (by omega) hg.2.2 (by omega) (by omega)).2 hge
  | case3 a j hg => exact h.toSortedTo_of_le key (by omega) fun hpos => absurd hpos (by omega)

/-- A pass with gap one extends the sorted cells to the whole prefix. -/
theorem gapPass_one_sortedTo {nel : Nat} (hnel : nel ≤ n) {a : Vector α n} {i : Nat}
    (hagree : AgreesBelow cmp key a nel) (hi : i ≤ nel) (h : SortedTo key a i) :
    SortedTo key (gapPass cmp nel 1 a i) nel := by
  fun_induction gapPass cmp nel 1 a i with
  | case1 a i hlt ih =>
    refine ih (agreesBelow_sift cmp key hagree hlt) (by omega) ?_
    refine sift_one_sortedTo cmp key hagree hlt (by omega) le_rfl ⟨?_, ?_⟩
    · intro p q hp hq hpq hqi _ hqne
      exact h p q hp hq hpq (by omega)
    · intro q _ _ hjq hqi
      omega
  | case2 a i hge =>
    have hin : i = nel := by omega
    subst hin
    exact h

/-- The gaps a sort can start from: the chain `gap, (gap - 1) / 3, …` passes through one. -/
inductive GapChain : Nat → Prop where
  | one : GapChain 1
  | next {gap : Nat} : GapChain gap → GapChain (3 * gap + 1)

theorem gapChain_startGap (nel : Nat) {gap : Nat} (h : GapChain gap) :
    GapChain (startGap nel gap) := by
  fun_induction startGap nel gap with
  | case1 gap _ ih => exact ih h.next
  | case2 => exact h

theorem gapLoop_sortedTo {nel : Nat} (hnel : nel ≤ n) (hpos : 0 < nel) {a : Vector α n}
    {gap : Nat} (hgap : GapChain gap) (hagree : AgreesBelow cmp key a nel) :
    SortedTo key (gapLoop cmp nel a gap) nel := by
  induction hgap generalizing a with
  | one =>
    rw [gapLoop, if_neg one_ne_zero, gapLoop, if_pos rfl]
    refine gapPass_one_sortedTo cmp key hnel hagree (by omega) ?_
    intro p q _ _ hpq hq
    omega
  | @next gap hg ih =>
    rw [gapLoop, if_neg (by omega), show (3 * gap + 1 - 1) / 3 = gap by omega]
    exact ih (agreesBelow_gapPass cmp key hagree)

/-- The prefix comes out sorted when `cmp` agrees with the key on its cells. -/
theorem gapSort_sorted {nel : Nat} (hnel : nel ≤ n) {a : Vector α n}
    (hagree : AgreesBelow cmp key a nel) : SortedTo key (gapSort cmp nel a) nel := by
  unfold gapSort
  split
  · exact gapLoop_sortedTo cmp key hnel (by omega) (gapChain_startGap nel .one) hagree
  · intro p q _ _ hpq hq
    omega

/-- `gapSort_sorted` for the prefix as a list. -/
theorem gapSort_pairwise {nel : Nat} (hnel : nel ≤ n) {a : Vector α n}
    (hagree : ∀ x ∈ a.toList.take nel, ∀ y ∈ a.toList.take nel,
      (cmp x y ≤ 0 ↔ key x ≤ key y)) :
    ((gapSort cmp nel a).toList.take nel).Pairwise fun x y => key x ≤ key y := by
  have hcells : AgreesBelow cmp key a nel := by
    have hmem : ∀ p (hp : p < n), p < nel → a[p] ∈ a.toList.take nel := by
      intro p hp hpl
      rw [List.mem_take_iff_getElem]
      exact ⟨p, by simp; omega, by simp⟩
    intro p q hp hq hpl hql
    exact hagree _ (hmem p hp hpl) _ (hmem q hq hql)
  have hsorted := gapSort_sorted cmp key hnel hcells
  rw [List.pairwise_iff_getElem]
  intro p q hp hq hpq
  simp only [List.length_take, Vector.length_toList] at hp hq
  simp only [List.getElem_take, Vector.getElem_toList]
  exact hsorted p q (by omega) (by omega) hpq (by omega)

end Order

end DraginoFwd.Lib.GapSort

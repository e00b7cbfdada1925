import Mathlib.Data.List.Infix
import Mathlib.Data.List.Count

/-!
# Fields between separators

The fields of a list are the parts between the places where a separator stands. `field sep s k` is
the field number `k`, and the empty list when there are fewer. The lemmas follow the list from its
front, and compare the fields of a list with those of one that was cut off.
-/

set_option autoImplicit false

namespace DraginoFwd.Lib.Fields

universe u

variable {α : Type u} [DecidableEq α]

/-- The field number `k` of a list, counted from zero. -/
def field (sep : α) (s : List α) (k : Nat) : List α := (s.splitOn sep).getD k []

variable {sep c : α} {s t : List α}

@[simp]
theorem field_nil (k : Nat) : field sep [] k = [] := by
  cases k with
  | zero => rfl
  | succ k => rfl

@[simp]
theorem field_sep_zero : field sep (sep :: s) 0 = [] := by
  rw [field, List.splitOn_cons_eq_if_modifyHead, if_pos (beq_self_eq_true sep)]
  rfl

@[simp]
theorem field_sep_succ (k : Nat) : field sep (sep :: s) (k + 1) = field sep s k := by
  rw [field, List.splitOn_cons_eq_if_modifyHead, if_pos (beq_self_eq_true sep)]
  rfl

theorem field_cons_zero (hc : c ≠ sep) : field sep (c :: s) 0 = c :: field sep s 0 := by
  rw [field, field, List.splitOn_cons_eq_if_modifyHead, if_neg (by simpa using hc)]
  cases hsplit : s.splitOn sep with
  | nil => exact absurd hsplit (List.splitOn_ne_nil _ _)
  | cons first rest => rfl

theorem field_cons_succ (hc : c ≠ sep) (k : Nat) :
    field sep (c :: s) (k + 1) = field sep s (k + 1) := by
  rw [field, field, List.splitOn_cons_eq_if_modifyHead, if_neg (by simpa using hc)]
  cases hsplit : s.splitOn sep with
  | nil => rfl
  | cons first rest => rfl

/-- A field is a part of the list. -/
theorem field_sublist (s : List α) (k : Nat) : (field sep s k).Sublist s := by
  induction s generalizing k with
  | nil => rw [field_nil]
  | cons c s ih =>
    by_cases hc : c = sep
    · subst hc
      cases k with
      | zero => rw [field_sep_zero]; exact List.nil_sublist _
      | succ k => rw [field_sep_succ]; exact (ih k).cons c
    · cases k with
      | zero => rw [field_cons_zero hc]; exact (ih 0).cons_cons c
      | succ k => rw [field_cons_succ hc]; exact (ih (k + 1)).cons c

/-- Cutting a list off cuts its fields off. -/
theorem field_cut (h : s <+: t) (k : Nat) : field sep s k <+: field sep t k := by
  induction s generalizing t k with
  | nil => rw [field_nil]; exact List.nil_prefix
  | cons c s ih =>
    obtain ⟨t, rfl, hst⟩ := List.cons_prefix_iff.1 h
    by_cases hc : c = sep
    · subst hc
      cases k with
      | zero => rw [field_sep_zero]; exact List.nil_prefix
      | succ k => rw [field_sep_succ, field_sep_succ]; exact ih hst k
    · cases k with
      | zero =>
          rw [field_cons_zero hc, field_cons_zero hc]
          exact List.prefix_cons_inj c |>.2 (ih hst 0)
      | succ k => rw [field_cons_succ hc, field_cons_succ hc]; exact ih hst (k + 1)

/-- The fields before the last separator of what is left of a list are those of the list. -/
theorem field_eq_of_cut (h : s <+: t) {k : Nat} (hk : k < s.count sep) :
    field sep s k = field sep t k := by
  induction s generalizing t k with
  | nil => exact absurd hk (Nat.not_lt_zero k)
  | cons c s ih =>
    obtain ⟨t, rfl, hst⟩ := List.cons_prefix_iff.1 h
    by_cases hc : c = sep
    · subst hc
      rw [List.count_cons_self] at hk
      cases k with
      | zero => rw [field_sep_zero, field_sep_zero]
      | succ k => rw [field_sep_succ, field_sep_succ, ih hst (Nat.lt_of_succ_lt_succ hk)]
    · rw [List.count_cons_of_ne hc] at hk
      cases k with
      | zero => rw [field_cons_zero hc, field_cons_zero hc, ih hst hk]
      | succ k => rw [field_cons_succ hc, field_cons_succ hc, ih hst hk]

/-! ## The characters at the front -/

omit [DecidableEq α] in
theorem takeWhile_prefix_takeWhile (p : α → Bool) (h : s <+: t) :
    s.takeWhile p <+: t.takeWhile p := by
  obtain ⟨u, rfl⟩ := h
  rw [List.takeWhile_append]
  split
  · next hall =>
    have hfront := List.takeWhile_prefix (l := s) p
    rw [hfront.eq_of_length hall]
    exact List.prefix_append s _
  · exact List.prefix_rfl

omit [DecidableEq α] in
theorem dropWhile_prefix_dropWhile (p : α → Bool) (h : s <+: t) :
    s.dropWhile p <+: t.dropWhile p := by
  obtain ⟨u, rfl⟩ := h
  rw [List.dropWhile_append]
  split
  · next hall =>
    rw [List.isEmpty_iff.1 hall]
    exact List.nil_prefix
  · exact List.prefix_append _ u

end DraginoFwd.Lib.Fields

import Mathlib.Data.List.Infix

/-!
# The operator LIKE

The comparison of a text with a pattern as SQLite makes it for `LIKE` without `ESCAPE`: `%` stands
for any text, `_` for any character, and every other character for itself, where an ASCII letter may
have either case.
-/

set_option autoImplicit false

namespace DraginoFwd.Lib.Like

/-- `text LIKE pattern` -/
def like : List Char → List Char → Bool
  | [], text => text.isEmpty
  | c :: pattern, text =>
      if c = '%' then text.tails.any (like pattern)
      else
        match text with
        | [] => false
        | d :: rest => (c = '_' || c.toLower = d.toLower) && like pattern rest

/-- The rest of the pattern is compared with some end of the text. -/
theorem like_percent {pattern text : List Char} :
    like ('%' :: pattern) text = true ↔ ∃ rest, rest <:+ text ∧ like pattern rest = true := by
  rw [like.eq_def]
  dsimp only
  rw [if_pos rfl, List.any_eq_true]
  simp only [List.mem_tails]

theorem like_cons {c : Char} {pattern text : List Char} (hc : c ≠ '%') :
    like (c :: pattern) text = true ↔
      ∃ d rest, text = d :: rest ∧ (c = '_' ∨ c.toLower = d.toLower) ∧
        like pattern rest = true := by
  rw [like.eq_def]
  dsimp only
  rw [if_neg hc]
  cases text with
  | nil => simp
  | cons d rest =>
    simp only [Bool.and_eq_true, Bool.or_eq_true, decide_eq_true_eq, List.cons.injEq]
    constructor
    · intro h
      exact ⟨d, rest, ⟨rfl, rfl⟩, h⟩
    · rintro ⟨d', rest', ⟨rfl, rfl⟩, h⟩
      exact h

/-- A text is like itself, whatever characters are in it. -/
theorem like_self (text : List Char) : like text text = true := by
  induction text with
  | nil => rfl
  | cons c text ih =>
    by_cases hc : c = '%'
    · subst hc
      exact like_percent.2 ⟨text, List.suffix_cons _ _, ih⟩
    · exact (like_cons hc).2 ⟨c, text, rfl, Or.inr rfl, ih⟩

/-- Without the two wildcards only the case of letters is left open. -/
theorem like_of_no_wildcard {pattern text : List Char} (h : ∀ c ∈ pattern, c ≠ '%' ∧ c ≠ '_') :
    like pattern text = true ↔ text.map Char.toLower = pattern.map Char.toLower := by
  induction pattern generalizing text with
  | nil => simp [like]
  | cons c pattern ih =>
    obtain ⟨hpercent, hunderscore⟩ := h c List.mem_cons_self
    have hrest : ∀ c ∈ pattern, c ≠ '%' ∧ c ≠ '_' := fun c hc => h c (List.mem_cons_of_mem _ hc)
    rw [like_cons hpercent, List.map_cons, List.map_eq_cons_iff]
    simp only [hunderscore, false_or, ih hrest]
    constructor
    · rintro ⟨d, rest, rfl, hd, hrest⟩
      exact ⟨d, rest, rfl, hd.symm, hrest⟩
    · rintro ⟨d, rest, rfl, hd, hrest⟩
      exact ⟨d, rest, rfl, hd.symm, hrest⟩

end DraginoFwd.Lib.Like

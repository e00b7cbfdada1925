import Mathlib

/-!
# Chains of pointers

A memory of elements with one link each: `h a` is the link of the element at `a`, and there is none
where no element is. A link is an address or null (`none`). `Linked h p l q` says that following the
links from `p` visits the addresses of `l` in order and comes to `q`. The lemmas cut a chain into
parts (`linked_append`), keep it under stores to other elements (`Linked.frame`), lead its end
elsewhere (`Linked.relink`) and take an element out of it (`Linked.unlink`).
-/

set_option autoImplicit false

namespace DraginoFwd.Lib.Chain

universe u

variable {α : Type u}

/-- The links of the elements of a memory. -/
abbrev Links (α : Type u) : Type u := α → Option (Option α)

/-- Store a link, where there is an element. -/
def setLink [DecidableEq α] (h : Links α) (a : α) (n : Option α) : Option (Links α) :=
  if (h a).isSome then some (Function.update h a (some n)) else none

/-- Following the links from `p` visits `l` and comes to `q`. -/
def Linked (h : Links α) : Option α → List α → Option α → Prop
  | p, [], q => p = q
  | p, a :: l, q => p = some a ∧ ∃ n, h a = some n ∧ Linked h n l q

theorem setLink_ok [DecidableEq α] {h : Links α} {a : α} {n : Option α} (ha : h a = some n)
    (n' : Option α) : setLink h a n' = some (Function.update h a (some n')) := by
  rw [setLink, ha]
  rfl

theorem linked_append (h : Links α) (p : Option α) (l l' : List α) (q : Option α) :
    Linked h p (l ++ l') q ↔ ∃ m, Linked h p l m ∧ Linked h m l' q := by
  induction l generalizing p with
  | nil =>
    constructor
    · exact fun hl => ⟨p, rfl, hl⟩
    · rintro ⟨m, rfl, hl⟩
      exact hl
  | cons a l ih =>
      constructor
      · rintro ⟨hp, n, hn, hl⟩
        obtain ⟨m, hfront, hback⟩ := (ih n).1 hl
        exact ⟨m, ⟨hp, n, hn, hfront⟩, hback⟩
      · rintro ⟨m, ⟨hp, n, hn, hfront⟩, hback⟩
        exact ⟨hp, n, hn, (ih n).2 ⟨m, hfront, hback⟩⟩

variable {h h' : Links α} {p q : Option α} {l : List α}

theorem Linked.head (hl : Linked h p l none) : p = l.head? := by
  cases l with
  | nil => exact hl
  | cons a l => exact hl.1

/-- Every visited address is one of an element. -/
theorem Linked.mem (hl : Linked h p l q) {a : α} (ha : a ∈ l) : ∃ n, h a = some n := by
  induction l generalizing p with
  | nil => cases ha
  | cons b l ih =>
      obtain ⟨-, n, hn, hrest⟩ := hl
      rcases List.mem_cons.1 ha with rfl | hmem
      · exact ⟨n, hn⟩
      · exact ih hrest hmem

/-- A chain depends on the links of its own elements. -/
theorem Linked.frame (hl : Linked h p l q) (hsame : ∀ a ∈ l, h' a = h a) : Linked h' p l q := by
  induction l generalizing p with
  | nil => exact hl
  | cons a l ih =>
      obtain ⟨hp, n, hn, hrest⟩ := hl
      exact ⟨hp, n, (hsame a List.mem_cons_self).trans hn,
        ih hrest fun b hb => hsame b (List.mem_cons_of_mem a hb)⟩

/-- With another link at its last element, a chain comes to another end. -/
theorem Linked.relink {a : α} {q' : Option α} (hl : Linked h p (l ++ [a]) q)
    (hsame : ∀ b ∈ l, h' b = h b) (hlast : h' a = some q') : Linked h' p (l ++ [a]) q' := by
  obtain ⟨m, hfront, hm, -⟩ := (linked_append h p l [a] q).1 hl
  exact (linked_append h' p l [a] q').2 ⟨m, hfront.frame hsame, hm, q', hlast, rfl⟩

/-- An element is taken out of a chain by giving its link to the element in front of it. -/
theorem Linked.unlink {a b : α} {l' : List α} {n : Option α}
    (hl : Linked h p (l ++ b :: a :: l') q) (ha : h a = some n)
    (hfront : ∀ c ∈ l, h' c = h c) (hb : h' b = some n) (hback : ∀ c ∈ l', h' c = h c) :
    Linked h' p (l ++ b :: l') q := by
  rw [List.append_cons, linked_append] at hl
  obtain ⟨m, hl, hm, n', hn', hrest⟩ := hl
  obtain rfl : n = n' := Option.some.inj (ha.symm.trans hn')
  rw [List.append_cons, linked_append]
  exact ⟨n, hl.relink hfront hb, hrest.frame hback⟩

end DraginoFwd.Lib.Chain

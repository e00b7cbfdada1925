import Mathlib.Data.List.Basic
import Mathlib.Tactic.Common

/-!
# Ring buffers with one empty slot

A ring of `n` slots is used between two positions: the oldest element stands at `fin`, and the next
one goes to `bgn`. The positions are equal when the ring is empty, so that it never holds more than
`n - 1` elements. `Represents` says which list of elements a ring stands for, where `holds i b` is
any statement that slot `i` holds the element `b`. A writer pushes (`Represents.push`) when the full
test allows it (`Represents.full_iff`), and a reader drops some of the elements that it counts
(`Represents.avail`, `Represents.drop`).
-/

set_option autoImplicit false

namespace DraginoFwd.Lib.RingBuffer

universe u

variable {β : Type u} {n : Nat} {holds : Nat → β → Prop} {bgn fin : Nat} {q : List β}

/-- The ring stands for the elements `q`, the oldest first. -/
structure Represents (n : Nat) (holds : Nat → β → Prop) (bgn fin : Nat) (q : List β) : Prop where
  fin_lt : fin < n
  length_lt : q.length < n
  bgn_eq : bgn = (fin + q.length) % n
  slots : ∀ i b, q[i]? = some b → holds ((fin + i) % n) b

/-- Two offsets of less than one turn lead to different slots. -/
theorem slot_ne {i j : Nat} (hij : i < j) (hj : j < n) : (fin + i) % n ≠ (fin + j) % n := by
  intro heq
  have hdvd : n ∣ (fin + j) - (fin + i) :=
    Nat.dvd_of_mod_eq_zero (Nat.sub_mod_eq_zero_of_mod_eq heq.symm)
  have hle := Nat.le_of_dvd (by omega) hdvd
  omega

theorem represents_empty (hn : 0 < n) : Represents n holds 0 0 [] where
  fin_lt := hn
  length_lt := hn
  bgn_eq := by simp
  slots := by simp

namespace Represents

theorem bgn_lt (h : Represents n holds bgn fin q) : bgn < n := by
  rw [h.bgn_eq]
  exact Nat.mod_lt _ (Nat.zero_lt_of_lt h.fin_lt)

/-- The number of elements, from the two positions. -/
theorem avail (h : Represents n holds bgn fin q) : (bgn + n - fin) % n = q.length := by
  have hfin := h.fin_lt
  have hlen := h.length_lt
  rw [h.bgn_eq]
  rcases Nat.lt_or_ge (fin + q.length) n with hlt | hge
  · rw [Nat.mod_eq_of_lt hlt, show fin + q.length + n - fin = q.length + n by omega,
      Nat.add_mod_right, Nat.mod_eq_of_lt hlen]
  · rw [Nat.mod_eq_sub_mod hge, Nat.mod_eq_of_lt (a := fin + q.length - n) (by omega),
      show fin + q.length - n + n - fin = q.length by omega, Nat.mod_eq_of_lt hlen]

/-- The position behind the free slot meets the oldest element when one slot is left. -/
theorem full_iff (h : Represents n holds bgn fin q) : (bgn + 1) % n = fin ↔ q.length + 1 = n := by
  have hfin := h.fin_lt
  have hlen := h.length_lt
  rw [h.bgn_eq, Nat.mod_add_mod]
  constructor
  · intro heq
    by_contra hne
    have hzero : (fin + 0) % n = fin := Nat.mod_eq_of_lt hfin
    have hslot := @slot_ne n fin _ _ (Nat.succ_pos q.length) (by omega)
    rw [hzero] at hslot
    exact hslot heq.symm
  · intro heq
    rw [Nat.add_assoc, heq, Nat.add_mod_right, Nat.mod_eq_of_lt hfin]

/-- No element stands in the free slot. -/
theorem slot_ne_bgn (h : Represents n holds bgn fin q) {i : Nat} (hi : i < q.length) :
    (fin + i) % n ≠ bgn := by
  rw [h.bgn_eq]
  exact slot_ne hi h.length_lt

/-- In a ring that is not full no element stands behind the free slot either. -/
theorem slot_ne_next (h : Represents n holds bgn fin q) (hroom : q.length + 1 < n) {i : Nat}
    (hi : i < q.length) : (fin + i) % n ≠ (bgn + 1) % n := by
  rw [h.bgn_eq, Nat.mod_add_mod, Nat.add_assoc]
  exact slot_ne (by omega) hroom

/-- Changes outside of the elements do not matter. -/
theorem mono {holds' : Nat → β → Prop} (h : Represents n holds bgn fin q)
    (hkeep : ∀ i b, q[i]? = some b → holds ((fin + i) % n) b → holds' ((fin + i) % n) b) :
    Represents n holds' bgn fin q :=
  ⟨h.fin_lt, h.length_lt, h.bgn_eq, fun i b hi => hkeep i b hi (h.slots i b hi)⟩

/-- An element in the free slot is the newest one as soon as the position moves on. -/
theorem push (h : Represents n holds bgn fin q) (hroom : q.length + 1 < n) {b : β}
    (hb : holds bgn b) : Represents n holds ((bgn + 1) % n) fin (q ++ [b]) where
  fin_lt := h.fin_lt
  length_lt := by simpa using hroom
  bgn_eq := by
    rw [h.bgn_eq, Nat.mod_add_mod, List.length_append, List.length_singleton, Nat.add_assoc]
  slots := by
    intro i c hi
    rcases Nat.lt_trichotomy i q.length with hlt | rfl | hgt
    · rw [List.getElem?_append_left hlt] at hi
      exact h.slots i c hi
    · rw [List.getElem?_append_right (Nat.le_refl _), Nat.sub_self] at hi
      cases hi
      rw [← h.bgn_eq]
      exact hb
    · rw [List.getElem?_eq_none (by simp; omega)] at hi
      cases hi

/-- The oldest elements are gone as soon as the position moves past them. -/
theorem drop (h : Represents n holds bgn fin q) {k : Nat} (hk : k ≤ q.length) :
    Represents n holds bgn ((fin + k) % n) (q.drop k) where
  fin_lt := Nat.mod_lt _ (Nat.zero_lt_of_lt h.fin_lt)
  length_lt := by
    rw [List.length_drop]
    exact Nat.lt_of_le_of_lt (Nat.sub_le _ _) h.length_lt
  bgn_eq := by
    rw [h.bgn_eq, Nat.mod_add_mod, List.length_drop, Nat.add_assoc, Nat.add_sub_cancel' hk]
  slots := by
    intro i b hi
    rw [List.getElem?_drop] at hi
    rw [Nat.mod_add_mod, Nat.add_assoc]
    exact h.slots (k + i) b hi

end Represents

end DraginoFwd.Lib.RingBuffer

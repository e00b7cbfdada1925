import Mathlib

/-!
# Wrapping clocks

A counter of `w` bits that wraps names a point on a circle of `2 ^ w` ticks. Unsigned subtraction
is the forward distance on that circle (`ahead`), and comparisons of distances are the only ones
that survive the wrap. This file relates forward distances of three points
(`ahead_add_ahead`), reads the signed difference of two points that lie in one half circle
(`toInt_sub_le_zero_iff`), and gives the arcs of the circle with a test for their disjointness
(`arc_disjoint`).
-/

set_option autoImplicit false

namespace DraginoFwd.Lib.SerialClock

variable {w : Nat}

/-- Ticks from `a` forward to `b` on the circle of `2 ^ w` ticks. -/
def ahead (a b : BitVec w) : Nat := (b - a).toNat

theorem ahead_lt (a b : BitVec w) : ahead a b < 2 ^ w := (b - a).isLt

@[simp] theorem ahead_self (a : BitVec w) : ahead a a = 0 := by simp [ahead]

/-- The forward distance, read off the two counter values. -/
theorem ahead_eq (a b : BitVec w) :
    ahead a b = if a.toNat ≤ b.toNat then b.toNat - a.toNat else 2 ^ w + b.toNat - a.toNat := by
  have ha := a.isLt
  have hb := b.isLt
  rw [ahead, BitVec.toNat_sub]
  split
  · next h =>
    rw [show 2 ^ w - a.toNat + b.toNat = b.toNat - a.toNat + 2 ^ w by omega, Nat.add_mod_right]
    exact Nat.mod_eq_of_lt (by omega)
  · next h =>
    rw [show 2 ^ w - a.toNat + b.toNat = 2 ^ w + b.toNat - a.toNat by omega]
    exact Nat.mod_eq_of_lt (by omega)

/-- Two forward legs make the direct distance, up to one turn of the circle. -/
theorem ahead_add_ahead (a b c : BitVec w) :
    ahead a b + ahead b c = ahead a c ∨ ahead a b + ahead b c = ahead a c + 2 ^ w := by
  have ha := a.isLt
  have hb := b.isLt
  have hc := c.isLt
  rw [ahead_eq a b, ahead_eq b c, ahead_eq a c]
  split <;> split <;> split <;> omega

theorem ahead_eq_zero_iff (a b : BitVec w) : ahead a b = 0 ↔ a = b := by
  constructor
  · intro h
    have ha := a.isLt
    have hb := b.isLt
    rw [ahead_eq] at h
    apply BitVec.eq_of_toNat_eq
    split at h <;> omega
  · rintro rfl
    exact ahead_self a

/-- Distinct points are a whole turn apart when both directions are added. -/
theorem ahead_add_ahead_comm {a b : BitVec w} (h : a ≠ b) : ahead a b + ahead b a = 2 ^ w := by
  have hpos : ahead a b ≠ 0 := fun h0 => h ((ahead_eq_zero_iff a b).1 h0)
  have hturn := ahead_add_ahead a b a
  rw [ahead_self] at hturn
  omega

/-- A point met no later than `c` on the way from `a` splits the way to `c`. -/
theorem ahead_of_le {a b c : BitVec w} (h : ahead a b ≤ ahead a c) :
    ahead b c = ahead a c - ahead a b := by
  have hlt := ahead_lt b c
  rcases ahead_add_ahead a b c with h1 | h1 <;> omega

/-- A clock that has not passed `c` is that much closer to it. -/
theorem ahead_add_lt {a b c : BitVec w} (h : ahead a b + ahead b c < 2 ^ w) :
    ahead a c = ahead a b + ahead b c := by
  rcases ahead_add_ahead a b c with h1 | h1 <;> omega

/-- The signed difference of two points of one half circle is the difference of their distances
from any origin that sees both in its forward half. -/
theorem toInt_sub_eq {o a b : BitVec w} (ha : 2 * ahead o a < 2 ^ w) (hb : 2 * ahead o b < 2 ^ w) :
    (a - b).toInt = (ahead o a : Int) - ahead o b := by
  have hab : (a - b).toNat = ahead b a := rfl
  rw [BitVec.toInt_eq_toNat_cond, hab]
  rcases ahead_add_ahead o b a with h1 | h1
  · rw [if_pos (by omega)]
    omega
  · have hlt := ahead_lt b a
    rw [if_neg (by omega)]
    generalize 2 ^ w = turn at *
    omega

theorem toInt_sub_le_zero_iff {o a b : BitVec w} (ha : 2 * ahead o a < 2 ^ w)
    (hb : 2 * ahead o b < 2 ^ w) : (a - b).toInt ≤ 0 ↔ ahead o a ≤ ahead o b := by
  rw [toInt_sub_eq ha hb]
  omega

/-! ## Arcs -/

/-- The closed arc of `len` ticks that starts at `start`. -/
def arc (start : BitVec w) (len : Nat) : Set (BitVec w) := {x | ahead start x ≤ len}

theorem mem_arc {start x : BitVec w} {len : Nat} : x ∈ arc start len ↔ ahead start x ≤ len :=
  Iff.rfl

/-- Arcs are disjoint when each start lies beyond the end of the other arc. -/
theorem arc_disjoint {s t : BitVec w} {m n : Nat} (hst : m < ahead s t) (hts : n < ahead t s) :
    Disjoint (arc s m) (arc t n) := by
  rw [Set.disjoint_left]
  intro x hxs hxt
  rw [mem_arc] at hxs hxt
  have hne : s ≠ t := by
    rintro rfl
    simp at hst
  have hturn := ahead_add_ahead_comm hne
  have hleg := ahead_of_le (le_trans hxs hst.le)
  have hleg' := ahead_of_le (le_trans hxt hts.le)
  have hxne : x ≠ t := by
    rintro rfl
    omega
  have hx := ahead_add_ahead_comm hxne
  omega

end DraginoFwd.Lib.SerialClock

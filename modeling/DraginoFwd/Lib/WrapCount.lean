import Mathlib.Tactic

/-!
# Counting the wraps of a counter

A counter with the period `n` shows `t % n` at the time `t`. Whoever reads it often enough can count
its wraps: between two readings less than a period apart it has wrapped once if it shows less than
before, and not at all otherwise (`div_of_later`). In the same way a time less than a period ago is
placed by what the counter showed then (`div_of_earlier`).
-/

set_option autoImplicit false

namespace DraginoFwd.Lib.WrapCount

variable {n s t : Nat}

/-- The wraps until a later reading. -/
theorem div_of_later (hn : 0 < n) (hle : s ≤ t) (hlt : t < s + n) :
    t / n = s / n + if t % n < s % n then 1 else 0 := by
  have hs := Nat.div_add_mod s n
  have ht := Nat.div_add_mod t n
  have hsn := Nat.mod_lt s hn
  have htn := Nat.mod_lt t hn
  have hdiv : s / n ≤ t / n := Nat.div_le_div_right hle
  have hdiv' : t / n ≤ s / n + 1 := by
    rw [← Nat.add_div_right s hn]
    exact Nat.div_le_div_right hlt.le
  rcases Nat.eq_or_lt_of_le hdiv with heq | hgt
  · rw [← heq] at ht ⊢
    rw [if_neg (by omega), Nat.add_zero]
  · obtain heq : t / n = s / n + 1 := by omega
    rw [heq, Nat.mul_add_one] at ht
    rw [heq, if_pos (by omega)]

/-- The wraps since an earlier time. -/
theorem div_of_earlier (hn : 0 < n) (hle : s ≤ t) (hlt : t < s + n) :
    s / n + (if s % n ≤ t % n then 0 else 1) = t / n := by
  rw [div_of_later hn hle hlt]
  split
  · next hmod => rw [if_neg (Nat.not_lt.2 hmod)]
  · next hmod => rw [if_pos (Nat.not_le.1 hmod)]

end DraginoFwd.Lib.WrapCount

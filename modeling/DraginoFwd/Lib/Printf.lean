import DraginoFwd.Lib.JsonReader
import Mathlib.Data.Nat.Log

/-!
# Formatted numbers

The conversions of `printf` for integers and for `float` values, as texts. A `float` is given by its
IEEE 754 bits: a finite one has the magnitude `floatSig / 2^149`, so that rounding it to a number
of decimals is integer arithmetic. The texts of integers and of finite floats are JSON numbers;
those of infinities and NaNs cannot stand in JSON (`dead_fmtRoundf`, `dead_fmtF1`).
-/

set_option autoImplicit false

namespace DraginoFwd.Lib.Printf

open DraginoFwd.Lib.JsonReader

/-! ## Integers -/

/-- `%u` -/
def fmtU (n : Nat) : List Char := Nat.toDigits 10 n

/-- A sign before the digits. -/
def signed (negative : Bool) (digits : List Char) : List Char :=
  if negative then '-' :: digits else digits

/-- `%d` -/
def fmtD (n : Int) : List Char := signed (n < 0) (fmtU n.natAbs)

/-- A text filled up on the left to a width. -/
def padLeft (c : Char) (width : Nat) (text : List Char) : List Char :=
  List.replicate (width - text.length) c ++ text

/-- `%0wi`, for a width `w`: the sign counts. -/
def fmtZeroD (width : Nat) (n : Int) : List Char :=
  signed (n < 0) (padLeft '0' (if n < 0 then width - 1 else width) (fmtU n.natAbs))

/-- `%2u` -/
def fmtBlankU (n : Nat) : List Char := padLeft ' ' 2 (fmtU n)

/-- `%08X` of a 32-bit number. -/
def fmtX8 (n : BitVec 32) : List Char :=
  padLeft '0' 8 ((Nat.toDigits 16 n.toNat).map Char.toUpper)

/-- `%.6lf` of the `double` quotient of a 32-bit number by 10^6: the quotient is exact to far more
than six decimals. -/
def fmtMillionth (n : BitVec 32) : List Char :=
  fmtU (n.toNat / 10 ^ 6) ++ '.' :: padLeft '0' 6 (fmtU (n.toNat % 10 ^ 6))

/-! ## Floats -/

/-- The sign of a `float`. -/
def floatNegative (bits : BitVec 32) : Bool := bits.msb

/-- The field of its exponent. -/
def floatExp (bits : BitVec 32) : Nat := ((bits >>> 23) &&& 0xFF#32).toNat

/-- The field of its fraction. -/
def floatMant (bits : BitVec 32) : Nat := (bits &&& 0x7FFFFF#32).toNat

/-- It is a number and no infinity. -/
def floatFinite (bits : BitVec 32) : Bool := floatExp bits ≠ 255

/-- The magnitude of a finite `float`, in units of 2^-149. -/
def floatSig (bits : BitVec 32) : Nat :=
  if floatExp bits = 0 then floatMant bits
  else (2 ^ 23 + floatMant bits) * 2 ^ (floatExp bits - 1)

/-- The text of an infinity or a NaN. -/
def fmtNonFinite (bits : BitVec 32) : List Char :=
  signed (floatNegative bits) (if floatMant bits = 0 then "inf".toList else "nan".toList)

/-- `%.0f` of `roundf`: halves are rounded away from zero. -/
def fmtRoundf (bits : BitVec 32) : List Char :=
  if floatFinite bits then
    signed (floatNegative bits) (fmtU ((2 * floatSig bits + 2 ^ 149) / 2 ^ 150))
  else fmtNonFinite bits

/-- A quotient rounded to the nearest whole number, halves to even. -/
def roundHalfEven (n d : Nat) : Nat :=
  if 2 * (n % d) < d ∨ (2 * (n % d) = d ∧ n / d % 2 = 0) then n / d else n / d + 1

/-- `%.1f` -/
def fmtF1 (bits : BitVec 32) : List Char :=
  if floatFinite bits then
    let tenths := roundHalfEven (10 * floatSig bits) (2 ^ 149)
    signed (floatNegative bits) (fmtU (tenths / 10) ++ '.' :: fmtU (tenths % 10))
  else fmtNonFinite bits

/-- -127.5 and 12.25 -/
example : fmtRoundf 0xC2FF0000#32 = "-128".toList ∧ fmtF1 0x41440000#32 = "12.2".toList := by
  decide +kernel

/-! ## Their characters -/

theorem isDigit_fmtU (n : Nat) : ∀ c ∈ fmtU n, c.isDigit = true := fun _ hc =>
  Nat.isDigit_of_mem_toDigits (by decide) (by decide) hc

theorem fmtU_ne_nil (n : Nat) : fmtU n ≠ [] := Nat.toDigits_ne_nil

theorem isPlain_of_isDigit {c : Char} (hc : c.isDigit = true) : isPlain c = true := by
  have hrange : 48 ≤ c.toNat ∧ c.toNat ≤ 57 := Char.isDigit_iff_toNat.1 hc
  have hquote : c ≠ '"' := ne_of_isDigit hc rfl
  have hbackslash : c ≠ '\\' := ne_of_isDigit hc rfl
  simp only [isPlain, Bool.and_eq_true, decide_eq_true_eq, hquote, hbackslash, ne_eq,
    not_false_eq_true, true_and]
  omega

theorem isPlain_signed {negative : Bool} {digits : List Char}
    (h : ∀ c ∈ digits, isPlain c = true) : ∀ c ∈ signed negative digits, isPlain c = true := by
  intro c hc
  cases negative with
  | false => exact h c hc
  | true =>
    rcases List.mem_cons.1 hc with rfl | hc
    · rfl
    · exact h c hc

theorem isDigit_padLeft_zero (width : Nat) {text : List Char}
    (h : ∀ c ∈ text, c.isDigit = true) : ∀ c ∈ padLeft '0' width text, c.isDigit = true := by
  intro c hc
  rcases List.mem_append.1 hc with hpad | htext
  · rw [List.eq_of_mem_replicate hpad]
    rfl
  · exact h c htext

theorem toUpper_digitChar_mem {n : Nat} (h : n < 16) :
    (Nat.digitChar n).toUpper ∈ "0123456789ABCDEF".toList := by
  interval_cases n <;> decide +kernel

theorem mem_toDigits_toUpper (n : Nat) :
    ∀ c ∈ (Nat.toDigits 16 n).map Char.toUpper, c ∈ "0123456789ABCDEF".toList := by
  induction n using Nat.base_induction 16 (by decide) with
  | single m hm =>
    rw [Nat.toDigits_of_lt_base hm]
    rintro c (_ | ⟨_, hnil⟩)
    · exact toUpper_digitChar_mem hm
    · cases hnil
  | digit m k hk hm ih =>
    rw [← Nat.toDigits_append_toDigits (by decide) hm hk, Nat.toDigits_of_lt_base hk,
      List.map_append]
    intro c hc
    rcases List.mem_append.1 hc with hc | hc
    · exact ih c hc
    · rw [List.mem_singleton.1 hc]
      exact toUpper_digitChar_mem hk

/-- `%08X` writes hexadecimal digits in upper case. -/
theorem mem_fmtX8 (n : BitVec 32) : ∀ c ∈ fmtX8 n, c ∈ "0123456789ABCDEF".toList := by
  intro c hc
  rcases List.mem_append.1 hc with hpad | htext
  · rw [List.eq_of_mem_replicate hpad]
    decide +kernel
  · exact mem_toDigits_toUpper _ c htext

theorem isPlain_fmtZeroD (width : Nat) (n : Int) : ∀ c ∈ fmtZeroD width n, isPlain c = true :=
  isPlain_signed fun _ hc => isPlain_of_isDigit (isDigit_padLeft_zero _ (isDigit_fmtU _) _ hc)

/-! ## Reading back -/

/-- The value of an upper-case hexadecimal digit. -/
def hexValue (c : Char) : Nat := if c.toNat < 58 then c.toNat - 48 else c.toNat - 55

/-- The number of a text of hexadecimal digits. -/
def hexNumber (text : List Char) : Nat := text.foldl (fun n c => 16 * n + hexValue c) 0

theorem hexValue_toUpper_digitChar {n : Nat} (h : n < 16) :
    hexValue (Nat.digitChar n).toUpper = n := by
  interval_cases n <;> rfl

theorem hexNumber_toDigits (n : Nat) : hexNumber ((Nat.toDigits 16 n).map Char.toUpper) = n := by
  induction n using Nat.base_induction 16 (by decide) with
  | single m hm =>
    rw [Nat.toDigits_of_lt_base hm]
    simp [hexNumber, hexValue_toUpper_digitChar hm]
  | digit m k hk hm ih =>
    rw [hexNumber] at ih
    rw [← Nat.toDigits_append_toDigits (by decide) hm hk, Nat.toDigits_of_lt_base hk, hexNumber,
      List.map_append, List.foldl_append, ih]
    simp [hexValue_toUpper_digitChar hk]

theorem hexNumber_padLeft (width : Nat) (text : List Char) :
    hexNumber (padLeft '0' width text) = hexNumber text := by
  rw [hexNumber, padLeft, List.foldl_append]
  congr 1
  -- zeros in front of a number
  generalize width - text.length = k
  induction k with
  | zero => rfl
  | succ k ih =>
    rw [List.replicate_succ, List.foldl_cons]
    exact ih

theorem hexNumber_fmtX8 (n : BitVec 32) : hexNumber (fmtX8 n) = n.toNat := by
  rw [fmtX8, hexNumber_padLeft, hexNumber_toDigits]

theorem fmtX8_injective : Function.Injective fmtX8 := by
  intro a b h
  apply BitVec.eq_of_toNat_eq
  rw [← hexNumber_fmtX8 a, ← hexNumber_fmtX8 b, h]

theorem fmtU_injective : Function.Injective fmtU := by
  intro a b h
  have hback : Nat.ofDigitChars 10 (fmtU a) 0 = Nat.ofDigitChars 10 (fmtU b) 0 := by rw [h]
  rwa [fmtU, fmtU, Nat.ofDigitChars_ten_toDigits, Nat.ofDigitChars_ten_toDigits] at hback

theorem fmtD_injective : Function.Injective fmtD := by
  intro a b h
  -- the sign is not a digit
  have hminus : ∀ n, '-' ∉ fmtU n := by
    intro n hmem
    exact absurd (isDigit_fmtU n _ hmem) (by decide)
  have hdigits : ∀ m n : Nat, '-' :: fmtU m ≠ fmtU n := by
    intro m n heq
    apply hminus n
    rw [← heq]
    exact List.mem_cons_self
  simp only [fmtD, signed, decide_eq_true_eq] at h
  split at h <;> split at h
  · have habs := fmtU_injective (List.cons.inj h).2
    omega
  · exact absurd h (hdigits _ _)
  · exact absurd h.symm (hdigits _ _)
  · have habs := fmtU_injective h
    omega

/-! ## As JSON numbers -/

theorem isNumber_signed_fmtU (negative : Bool) (n : Nat) : IsNumber (signed negative (fmtU n)) := by
  cases negative with
  | false => exact (isNumber_decimal n).1
  | true => exact (isNumber_decimal n).2

theorem reads_fmtU (n : Nat) : Reads (fmtU n) (.num (fmtU n)) :=
  reads_number (isNumber_decimal n).1

theorem reads_fmtD (n : Int) : Reads (fmtD n) (.num (fmtD n)) :=
  reads_number (isNumber_signed_fmtU _ _)

/-- The blank of `%2u` does not belong to the number. -/
theorem reads_fmtBlankU (n : Nat) : Reads (fmtBlankU n) (.num (fmtU n)) := by
  have hlen : 1 ≤ (fmtU n).length := List.length_pos_iff.2 (fmtU_ne_nil n)
  rw [fmtBlankU, padLeft]
  rcases Nat.lt_or_ge (fmtU n).length 2 with hone | htwo
  · have hpad : 2 - (fmtU n).length = 1 := by omega
    rw [hpad]
    exact reads_blank (reads_fmtU n)
  · have hpad : 2 - (fmtU n).length = 0 := by omega
    rw [hpad]
    exact reads_fmtU n

theorem reads_fmtMillionth (n : BitVec 32) : Reads (fmtMillionth n) (.num (fmtMillionth n)) := by
  refine reads_number (isNumber_fraction _ ?_ (isDigit_padLeft_zero _ (isDigit_fmtU _))).1
  exact List.append_ne_nil_of_right_ne_nil _ (fmtU_ne_nil _)

theorem reads_fmtRoundf {bits : BitVec 32} (h : floatFinite bits = true) :
    Reads (fmtRoundf bits) (.num (fmtRoundf bits)) := by
  refine reads_number ?_
  rw [fmtRoundf, if_pos h]
  exact isNumber_signed_fmtU _ _

theorem reads_fmtF1 {bits : BitVec 32} (h : floatFinite bits = true) :
    Reads (fmtF1 bits) (.num (fmtF1 bits)) := by
  refine reads_number ?_
  rw [fmtF1, if_pos h]
  have hfraction := isNumber_fraction (roundHalfEven (10 * floatSig bits) (2 ^ 149) / 10)
    (fmtU_ne_nil (roundHalfEven (10 * floatSig bits) (2 ^ 149) % 10)) (isDigit_fmtU _)
  cases floatNegative bits with
  | false => exact hfraction.1
  | true => exact hfraction.2

theorem dead_fmtNonFinite (bits : BitVec 32) : Dead (fmtNonFinite bits) := by
  intro k rest
  rw [fmtNonFinite]
  cases floatNegative bits <;> split <;> cases k <;> rfl

theorem dead_fmtRoundf {bits : BitVec 32} (h : floatFinite bits = false) :
    Dead (fmtRoundf bits) := by
  rw [fmtRoundf, if_neg (by rw [h]; exact Bool.false_ne_true)]
  exact dead_fmtNonFinite bits

theorem dead_fmtF1 {bits : BitVec 32} (h : floatFinite bits = false) : Dead (fmtF1 bits) := by
  rw [fmtF1, if_neg (by rw [h]; exact Bool.false_ne_true)]
  exact dead_fmtNonFinite bits

/-! ## Their widths -/

/-- The number of decimals of a number. -/
def decimals (n : Nat) : Nat := Nat.log 10 n + 1

/-- The width of `%d`. -/
def widthD (n : Int) : Nat := (decide (n < 0)).toNat + decimals n.natAbs

/-- The width of `%0wi`, for a width `w`. -/
def widthZeroD (width : Nat) (n : Int) : Nat :=
  (decide (n < 0)).toNat + max (width - (decide (n < 0)).toNat) (decimals n.natAbs)

/-- The width of `%.6lf` of a quotient by 10^6. -/
def widthMillionth (n : BitVec 32) : Nat := decimals (n.toNat / 10 ^ 6) + 7

/-- The width of `%.0f` of `roundf`. -/
def widthRoundf (bits : BitVec 32) : Nat :=
  (floatNegative bits).toNat +
    if floatFinite bits then decimals ((2 * floatSig bits + 2 ^ 149) / 2 ^ 150) else 3

/-- The width of `%.1f`. -/
def widthF1 (bits : BitVec 32) : Nat :=
  (floatNegative bits).toNat +
    if floatFinite bits then decimals (roundHalfEven (10 * floatSig bits) (2 ^ 149) / 10) + 2 else 3

/-- A number below `10 ^ k` has at most `k` decimals. -/
theorem decimals_le {n k : Nat} (hk : 0 < k) (h : n < 10 ^ k) : decimals n ≤ k :=
  Nat.succ_le_of_lt (Nat.log_lt_of_lt_pow' hk.ne' h)

theorem length_fmtU (n : Nat) : (fmtU n).length = decimals n := by
  have hle : (fmtU n).length ≤ decimals n :=
    (Nat.length_toDigits_le_iff (by decide) (Nat.succ_pos _)).2
      (Nat.lt_pow_succ_log_self (by decide) n)
  have hpos : 0 < (fmtU n).length := List.length_pos_iff.2 (fmtU_ne_nil n)
  have hlt : n < 10 ^ (fmtU n).length := (Nat.length_toDigits_le_iff (by decide) hpos).1 le_rfl
  exact hle.antisymm (decimals_le hpos hlt)

theorem length_signed (negative : Bool) (digits : List Char) :
    (signed negative digits).length = negative.toNat + digits.length := by
  cases negative with
  | false => exact (Nat.zero_add _).symm
  | true => exact Nat.add_comm _ _

theorem length_padLeft (c : Char) (width : Nat) (text : List Char) :
    (padLeft c width text).length = max width text.length := by
  rw [padLeft, List.length_append, List.length_replicate]
  omega

theorem length_fmtD (n : Int) : (fmtD n).length = widthD n := by
  rw [fmtD, length_signed, length_fmtU, widthD]

theorem length_fmtZeroD (width : Nat) (n : Int) :
    (fmtZeroD width n).length = widthZeroD width n := by
  rw [fmtZeroD, length_signed, length_padLeft, length_fmtU, widthZeroD]
  by_cases hneg : n < 0
  · rw [if_pos hneg, decide_eq_true hneg]
    rfl
  · rw [if_neg hneg, decide_eq_false hneg]
    rfl

theorem length_fmtBlankU (n : Nat) : (fmtBlankU n).length = max 2 (decimals n) := by
  rw [fmtBlankU, length_padLeft, length_fmtU]

theorem length_fmtX8 (n : BitVec 32) : (fmtX8 n).length = 8 := by
  have hlen : (Nat.toDigits 16 n.toNat).length ≤ 8 :=
    (Nat.length_toDigits_le_iff (by decide) (by decide)).2 n.isLt
  rw [fmtX8, length_padLeft, List.length_map]
  omega

theorem length_fmtMillionth (n : BitVec 32) : (fmtMillionth n).length = widthMillionth n := by
  have hfrac : decimals (n.toNat % 10 ^ 6) ≤ 6 :=
    decimals_le (by decide) (Nat.mod_lt _ (by decide))
  rw [fmtMillionth, List.length_append, List.length_cons, length_padLeft, length_fmtU, length_fmtU,
    max_eq_left hfrac, widthMillionth]

theorem length_fmtNonFinite (bits : BitVec 32) :
    (fmtNonFinite bits).length = (floatNegative bits).toNat + 3 := by
  rw [fmtNonFinite, length_signed]
  split <;> rfl

theorem length_fmtRoundf (bits : BitVec 32) : (fmtRoundf bits).length = widthRoundf bits := by
  rw [fmtRoundf, widthRoundf]
  split
  · rw [length_signed, length_fmtU]
  · exact length_fmtNonFinite bits

theorem length_fmtF1 (bits : BitVec 32) : (fmtF1 bits).length = widthF1 bits := by
  rw [fmtF1, widthF1]
  split
  · -- one digit behind the point
    have hlast : ∀ tenths, decimals (tenths % 10) = 1 := fun tenths =>
      le_antisymm (decimals_le (by decide) (Nat.mod_lt _ (by decide))) (Nat.succ_pos _)
    rw [length_signed, List.length_append, List.length_cons, length_fmtU, length_fmtU, hlast]
  · exact length_fmtNonFinite bits

/-! ## How wide they can be -/

theorem widthD_le {n : Int} {k : Nat} (hk : 0 < k) (h : n.natAbs < 10 ^ k) : widthD n ≤ k + 1 := by
  have hsign : (decide (n < 0)).toNat ≤ 1 := Bool.toNat_le _
  have hdigits := decimals_le hk h
  rw [widthD]
  omega

theorem widthZeroD_le {n : Int} {width k : Nat} (hk : 0 < k) (hwidth : width ≤ k)
    (h : n.natAbs < 10 ^ k) : widthZeroD width n ≤ k + 1 := by
  have hsign : (decide (n < 0)).toNat ≤ 1 := Bool.toNat_le _
  have hdigits := decimals_le hk h
  rw [widthZeroD]
  omega

theorem le_widthZeroD (width : Nat) (n : Int) : width ≤ widthZeroD width n := by
  rw [widthZeroD]
  omega

theorem widthMillionth_le (n : BitVec 32) : widthMillionth n ≤ 11 := by
  have hn := n.isLt
  have hwhole : decimals (n.toNat / 10 ^ 6) ≤ 4 := decimals_le (by decide) (by omega)
  rw [widthMillionth]
  omega

/-- A finite `float` is below 2^128. -/
theorem floatSig_lt {bits : BitVec 32} (h : floatFinite bits = true) :
    floatSig bits < 2 ^ 128 * 2 ^ 149 := by
  have hexp : floatExp bits ≤ 254 := by
    have hne : floatExp bits ≠ 255 := of_decide_eq_true h
    have hle : floatExp bits ≤ 255 := by
      rw [floatExp, BitVec.toNat_and]
      exact Nat.and_le_right
    omega
  have hmant : floatMant bits < 2 ^ 23 := by
    rw [floatMant, BitVec.toNat_and]
    exact Nat.lt_succ_of_le Nat.and_le_right
  rw [floatSig]
  split
  · exact hmant.trans (by norm_num)
  · calc (2 ^ 23 + floatMant bits) * 2 ^ (floatExp bits - 1)
        < 2 ^ 24 * 2 ^ (floatExp bits - 1) :=
          Nat.mul_lt_mul_of_pos_right (by omega) (Nat.two_pow_pos _)
      _ ≤ 2 ^ 24 * 2 ^ 253 :=
          Nat.mul_le_mul_left _ (Nat.pow_le_pow_right (by decide) (by omega))
      _ = 2 ^ 128 * 2 ^ 149 := by norm_num

theorem widthRoundf_le (bits : BitVec 32) : widthRoundf bits ≤ 40 := by
  have hsign : (floatNegative bits).toNat ≤ 1 := Bool.toNat_le _
  rw [widthRoundf]
  split
  · next h =>
    have hsig := floatSig_lt h
    have hlt : (2 * floatSig bits + 2 ^ 149) / 2 ^ 150 < 2 ^ 128 + 1 := by
      refine Nat.div_lt_of_lt_mul ?_
      omega
    have hdigits : decimals ((2 * floatSig bits + 2 ^ 149) / 2 ^ 150) ≤ 39 :=
      decimals_le (by decide) (hlt.trans (by norm_num))
    omega
  · omega

theorem roundHalfEven_le (n d : Nat) : roundHalfEven n d ≤ n / d + 1 := by
  rw [roundHalfEven]
  split
  · exact Nat.le_succ _
  · exact Nat.le_refl _

theorem widthF1_le (bits : BitVec 32) : widthF1 bits ≤ 42 := by
  have hsign : (floatNegative bits).toNat ≤ 1 := Bool.toNat_le _
  rw [widthF1]
  split
  · next h =>
    have hsig := floatSig_lt h
    have hround := roundHalfEven_le (10 * floatSig bits) (2 ^ 149)
    have hdiv : 10 * floatSig bits / 2 ^ 149 < 10 * 2 ^ 128 := by
      refine Nat.div_lt_of_lt_mul ?_
      omega
    generalize roundHalfEven (10 * floatSig bits) (2 ^ 149) = tenths at hround ⊢
    have hwhole : decimals (tenths / 10) ≤ 39 := by
      refine decimals_le (by decide) ?_
      have hle : tenths / 10 ≤ 2 ^ 128 := by
        refine Nat.div_le_of_le_mul ?_
        omega
      exact hle.trans_lt (by norm_num)
    omega
  · omega

end DraginoFwd.Lib.Printf

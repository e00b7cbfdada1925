import DraginoFwd.Lib.Printf

/-!
# Formatted doubles and quotients

`%.5f` of a `double`, given by its IEEE 754 bits, `%.1f` of a percentage that is computed as a
quotient of two counters in `float`, and the quotient of two whole numbers in `double`. As for the
conversions of `float` values, rounding is integer arithmetic: a finite `double` has the magnitude
`doubleSig / 2^1074`, and a `float` quotient of two counters is a multiple of 2^-64.
-/

set_option autoImplicit false

namespace DraginoFwd.Lib.Printf

open DraginoFwd.Lib.JsonReader

/-! ## Doubles -/

/-- The sign of a `double`. -/
def doubleNegative (bits : BitVec 64) : Bool := bits.msb

/-- The field of its exponent. -/
def doubleExp (bits : BitVec 64) : Nat := ((bits >>> 52) &&& 0x7FF#64).toNat

/-- The field of its fraction. -/
def doubleMant (bits : BitVec 64) : Nat := (bits &&& 0xFFFFFFFFFFFFF#64).toNat

/-- It is a number and no infinity. -/
def doubleFinite (bits : BitVec 64) : Bool := doubleExp bits ≠ 2047

/-- The magnitude of a finite `double`, in units of 2^-1074. -/
def doubleSig (bits : BitVec 64) : Nat :=
  if doubleExp bits = 0 then doubleMant bits
  else (2 ^ 52 + doubleMant bits) * 2 ^ (doubleExp bits - 1)

/-- The magnitude in units of 10^-5, rounded. -/
def doubleUnits (bits : BitVec 64) : Nat := roundHalfEven (10 ^ 5 * doubleSig bits) (2 ^ 1074)

/-- `%.5f` -/
def fmtF5 (bits : BitVec 64) : List Char :=
  if doubleFinite bits then
    signed (doubleNegative bits)
      (fmtU (doubleUnits bits / 10 ^ 5) ++ '.' :: padLeft '0' 5 (fmtU (doubleUnits bits % 10 ^ 5)))
  else
    signed (doubleNegative bits) (if doubleMant bits = 0 then "inf".toList else "nan".toList)

/-- -33.86 -/
example : fmtF5 0xC040EE147AE147AE#64 = "-33.86000".toList := by
  decide +kernel

theorem reads_fmtF5 {bits : BitVec 64} (h : doubleFinite bits = true) :
    Reads (fmtF5 bits) (.num (fmtF5 bits)) := by
  apply reads_number
  rw [fmtF5, if_pos h]
  have hfraction := isNumber_fraction (doubleUnits bits / 10 ^ 5)
    (List.append_ne_nil_of_right_ne_nil (List.replicate _ '0')
      (fmtU_ne_nil (doubleUnits bits % 10 ^ 5)))
    (isDigit_padLeft_zero 5 (isDigit_fmtU _))
  cases doubleNegative bits with
  | false => exact hfraction.1
  | true => exact hfraction.2

theorem dead_fmtF5 {bits : BitVec 64} (h : doubleFinite bits = false) : Dead (fmtF5 bits) := by
  intro k rest
  rw [fmtF5, if_neg (by rw [h]; exact Bool.false_ne_true)]
  cases doubleNegative bits <;> split <;> cases k <;> rfl

/-- The width of `%.5f`. -/
def widthF5 (bits : BitVec 64) : Nat :=
  (doubleNegative bits).toNat +
    if doubleFinite bits then decimals (doubleUnits bits / 10 ^ 5) + 6 else 3

theorem length_fmtF5 (bits : BitVec 64) : (fmtF5 bits).length = widthF5 bits := by
  rw [fmtF5, widthF5]
  split
  · have hfrac : decimals (doubleUnits bits % 10 ^ 5) ≤ 5 :=
      decimals_le (by decide) (Nat.mod_lt _ (by decide))
    rw [length_signed, List.length_append, List.length_cons, length_padLeft, length_fmtU,
      length_fmtU, max_eq_left hfrac]
  · rw [length_signed]
    split <;> rfl

/-! ## Quotients in double -/

/-- The quotient of two numbers, rounded to 53 binary places: a whole number, and the power of two
that it is to be divided by. For quotients that are not 0 and below 2^52. -/
def doubleQuotient (n d : Nat) : Nat × Nat :=
  let scale := 53 + Nat.log2 d - Nat.log2 n
  let scale := if n * 2 ^ scale / d < 2 ^ 53 then scale else scale - 1
  (roundHalfEven (n * 2 ^ scale) d, scale)

/-! ## Percentages -/

/-- `(float) n`: a number rounded to 24 binary places. -/
def toFloat (n : Nat) : Nat :=
  let shift := Nat.log2 n - 23
  roundHalfEven n (2 ^ shift) * 2 ^ shift

/-- The quotient of two `float` values that are whole numbers, in units of 2^-64. Rounding it to 24
binary places leaves such units where it is 0 or at least 2^-40. -/
def floatQuotient (a b : Nat) : Nat :=
  let shift := Nat.log2 (a * 2 ^ 64 / b) - 23
  roundHalfEven (a * 2 ^ 64) (b * 2 ^ shift) * 2 ^ shift

/-- The tenths of `100.0 * ((float) a / (float) b)`, where the product is exact in `double`. -/
def percentTenths (a b : Nat) : Nat :=
  roundHalfEven (1000 * floatQuotient (toFloat a) (toFloat b)) (2 ^ 64)

/-- `%.1f` of a percentage. -/
def fmtPercent (tenths : Nat) : List Char := fmtU (tenths / 10) ++ '.' :: fmtU (tenths % 10)

/-- Two thirds, and the largest counter. -/
example : fmtPercent (percentTenths 2 3) = "66.7".toList ∧
    fmtPercent (percentTenths 4294967295 1) = "429496729600.0".toList := by
  decide +kernel

theorem reads_fmtPercent (tenths : Nat) : Reads (fmtPercent tenths) (.num (fmtPercent tenths)) :=
  reads_number (isNumber_fraction _ (fmtU_ne_nil _) (isDigit_fmtU _)).1

theorem length_fmtPercent (tenths : Nat) :
    (fmtPercent tenths).length = decimals (tenths / 10) + 2 := by
  have hlast : decimals (tenths % 10) = 1 :=
    le_antisymm (decimals_le (by decide) (Nat.mod_lt _ (by decide))) (Nat.succ_pos _)
  rw [fmtPercent, List.length_append, List.length_cons, length_fmtU, length_fmtU, hlast]

end DraginoFwd.Lib.Printf

import DraginoFwd.Lib.BinaryPoly

/-!
# Cyclic redundancy checks

A message of octets, the first octet and in it the highest bit first, is the polynomial of its
number (`message`). A register of `w` bits that is shifted by eight places modulo `gen p` for each
octet holds a remainder of it: of the message itself where the octet is added behind the shift
(`poly_check`), of the message with `w` zeros behind it where it is added in front at the top
(`poly_checkAugmented`). Two messages whose difference is a burst of at most `w` bits have two
different remainders (`check_ne_of_burst`), and a message with the remainder of the second kind
behind it has the remainder zero of the first (`check_append_augmented`).
-/

set_option autoImplicit false

namespace DraginoFwd.Lib.Crc

open Polynomial
open DraginoFwd.Lib.BinaryPoly

variable {w : Nat}

/-! ## Numbers and messages -/

/-- The polynomial of the binary digits of a number. -/
noncomputable def digits (n : Nat) : (ZMod 2)[X] := poly (BitVec.ofNat n.size n)

@[simp] theorem coeff_digits (n i : Nat) :
    (digits n).coeff i = if n.testBit i then 1 else 0 := by
  rw [digits, coeff_poly, BitVec.getLsbD_ofNat]
  by_cases hi : i < n.size
  · rw [decide_eq_true hi, Bool.true_and]
  · have hlt : n < 2 ^ i :=
      lt_of_lt_of_le (Nat.lt_size_self n) (Nat.pow_le_pow_right (by decide) (Nat.le_of_not_lt hi))
    rw [Nat.testBit_lt_two_pow hlt, Bool.and_false]

theorem digits_toNat (x : BitVec w) : digits x.toNat = poly x := by
  ext i
  rw [coeff_digits, coeff_poly, BitVec.testBit_toNat]

theorem digits_xor (m n : Nat) : digits (m ^^^ n) = digits m + digits n := by
  ext i
  rw [coeff_add, coeff_digits, coeff_digits, coeff_digits, Nat.testBit_xor]
  cases m.testBit i <;> cases n.testBit i <;> decide

theorem digits_shiftLeft (n k : Nat) : digits (n <<< k) = X ^ k * digits n := by
  ext i
  rw [coeff_X_pow_mul', coeff_digits, Nat.testBit_shiftLeft]
  by_cases hi : k ≤ i
  · rw [if_pos hi, coeff_digits, decide_eq_true hi, Bool.true_and]
  · rw [if_neg hi, decide_eq_false hi, Bool.false_and, if_neg Bool.false_ne_true]

/-- The number of the octets, the first of them highest. -/
def number (data : List (BitVec 8)) : Nat := data.foldl (fun n d => n <<< 8 ^^^ d.toNat) 0

/-- The polynomial of a message. -/
noncomputable def message (data : List (BitVec 8)) : (ZMod 2)[X] := digits (number data)

@[simp] theorem message_nil : message [] = 0 := by
  ext i
  simp [message, number]

theorem message_concat (data : List (BitVec 8)) (d : BitVec 8) :
    message (data ++ [d]) = X ^ 8 * message data + poly d := by
  rw [message, number, List.foldl_append, List.foldl_cons, List.foldl_nil, digits_xor,
    digits_shiftLeft, digits_toNat]
  rfl

/-! ## The registers -/

/-- `k` multiplications by `X`. -/
def shifted (p : BitVec w) (k : Nat) (x : BitVec w) : BitVec w := (xtimes p)^[k] x

theorem dvd_shifted (p x : BitVec w) (k : Nat) :
    gen p ∣ X ^ k * poly x - poly (shifted p k x) := by
  induction k with
  | zero => simp [shifted]
  | succ k ih =>
    have hstep := dvd_xtimes p (shifted p k x)
    have hnext : shifted p (k + 1) x = xtimes p (shifted p k x) := Function.iterate_succ_apply' ..
    have hsum : X ^ (k + 1) * poly x - poly (shifted p (k + 1) x) =
        X * (X ^ k * poly x - poly (shifted p k x)) +
          (X * poly (shifted p k x) - poly (xtimes p (shifted p k x))) := by
      rw [hnext]
      ring
    rw [hsum]
    exact dvd_add (ih.mul_left X) hstep

/-- The octet is added behind the shift. -/
def checkByte (p c : BitVec w) (d : BitVec 8) : BitVec w := shifted p 8 c ^^^ d.setWidth w

/-- The remainder of a message. -/
def check (p : BitVec w) (data : List (BitVec 8)) : BitVec w := data.foldl (checkByte p) 0#w

/-- The octet is added at the top, in front of the shift. -/
def checkAugmentedByte (p c : BitVec w) (d : BitVec 8) : BitVec w :=
  shifted p 8 (c ^^^ d.setWidth w <<< (w - 8))

/-- The remainder of a message with zeros behind it. -/
def checkAugmented (p : BitVec w) (data : List (BitVec 8)) : BitVec w :=
  data.foldl (checkAugmentedByte p) 0#w

theorem check_concat (p : BitVec w) (data : List (BitVec 8)) (d : BitVec 8) :
    check p (data ++ [d]) = checkByte p (check p data) d := List.foldl_concat ..

theorem dvd_check (p : BitVec w) (h8 : 8 ≤ w) (data : List (BitVec 8)) :
    gen p ∣ message data - poly (check p data) := by
  induction data using List.reverseRecOn with
  | nil => simp [check]
  | append_singleton data d ih =>
    have hshift := dvd_shifted p (check p data) 8
    have hsum : message (data ++ [d]) - poly (check p (data ++ [d])) =
        X ^ 8 * (message data - poly (check p data)) +
          (X ^ 8 * poly (check p data) - poly (shifted p 8 (check p data))) := by
      rw [message_concat, check_concat, checkByte, poly_xor, poly_setWidth h8]
      ring
    rw [hsum]
    exact dvd_add (ih.mul_left _) hshift

/-- **The register is the remainder** of the message. -/
theorem poly_check (p : BitVec w) (h8 : 8 ≤ w) (data : List (BitVec 8)) :
    poly (check p data) = message data %ₘ gen p := poly_eq_modByMonic (dvd_check p h8 data)

/-- An octet that is moved to the top of the register. -/
theorem poly_top (h8 : 8 ≤ w) (d : BitVec 8) :
    poly (d.setWidth w <<< (w - 8)) = X ^ (w - 8) * poly d := by
  ext i
  rw [coeff_X_pow_mul', coeff_poly, BitVec.getLsbD_shiftLeft, BitVec.getLsbD_setWidth]
  by_cases hlow : w - 8 ≤ i
  · rw [if_pos hlow, coeff_poly]
    by_cases hi : i < w
    · have hin : i - (w - 8) < w := by omega
      simp [hi, hin, Nat.not_lt.2 hlow]
    · rw [BitVec.getLsbD_of_ge d (i - (w - 8)) (by omega)]
      simp
  · rw [if_neg hlow]
    simp [Nat.lt_of_not_le hlow]

theorem dvd_checkAugmented (p : BitVec w) (h8 : 8 ≤ w) (data : List (BitVec 8)) :
    gen p ∣ X ^ w * message data - poly (checkAugmented p data) := by
  induction data using List.reverseRecOn with
  | nil => simp [checkAugmented]
  | append_singleton data d ih =>
    have hstep : checkAugmented p (data ++ [d]) =
        shifted p 8 (checkAugmented p data ^^^ d.setWidth w <<< (w - 8)) := List.foldl_concat ..
    have hshift := dvd_shifted p (checkAugmented p data ^^^ d.setWidth w <<< (w - 8)) 8
    have hpow : (X : (ZMod 2)[X]) ^ w = X ^ 8 * X ^ (w - 8) := by
      rw [← pow_add, Nat.add_sub_cancel' h8]
    have hsum : X ^ w * message (data ++ [d]) - poly (checkAugmented p (data ++ [d])) =
        X ^ 8 * (X ^ w * message data - poly (checkAugmented p data)) +
          (X ^ 8 * poly (checkAugmented p data ^^^ d.setWidth w <<< (w - 8)) -
            poly (checkAugmented p (data ++ [d]))) := by
      rw [message_concat, poly_xor, poly_top h8, mul_add (X ^ w), hpow]
      ring
    rw [hsum, hstep]
    exact dvd_add (ih.mul_left _) hshift

/-- **The register is the remainder** of the message with `w` zeros behind it. -/
theorem poly_checkAugmented (p : BitVec w) (h8 : 8 ≤ w) (data : List (BitVec 8)) :
    poly (checkAugmented p data) = (X ^ w * message data) %ₘ gen p :=
  poly_eq_modByMonic (dvd_checkAugmented p h8 data)

/-! ## What a register detects -/

/-- Two messages with the same remainder differ by a multiple of the generator. -/
theorem dvd_of_check_eq {p : BitVec w} (h8 : 8 ≤ w) {data data' : List (BitVec 8)}
    (h : check p data = check p data') : gen p ∣ message data + message data' := by
  have hsum := dvd_sub (dvd_check p h8 data) (dvd_check p h8 data')
  rw [h, sub_sub_sub_cancel_right, CharTwo.sub_eq_add] at hsum
  exact hsum

/-- **A burst of errors changes the remainder**: what two messages differ in lies within `w`
consecutive bits. -/
theorem check_ne_of_burst {p : BitVec w} (h8 : 8 ≤ w) (hp : p.getLsbD 0 = true)
    {data data' : List (BitVec 8)} {burst : BitVec w} (hburst : burst ≠ 0#w) {k : Nat}
    (hdiff : number data ^^^ number data' = burst.toNat <<< k) :
    check p data ≠ check p data' := by
  intro h
  have hdvd := dvd_of_check_eq h8 h
  rw [message, message, ← digits_xor, hdiff, digits_shiftLeft, digits_toNat] at hdvd
  have hburstDvd := (isCoprime_X_pow (by omega) hp k).dvd_of_dvd_mul_left hdvd
  have hne : poly burst ≠ 0 := by
    intro hzero
    exact hburst (poly_injective (hzero.trans poly_zero.symm))
  have hdeg := degree_le_of_dvd hburstDvd hne
  rw [degree_gen] at hdeg
  exact absurd hdeg (not_le.2 (degree_poly_lt burst))

/-- A remainder of 16 bits as the two octets that follow a message. -/
theorem message_append_two (data : List (BitVec 8)) (c : BitVec 16) :
    message (data ++ [(c >>> 8).setWidth 8, c.setWidth 8]) = X ^ 16 * message data + poly c := by
  have hsplit : poly c = X ^ 8 * poly ((c >>> 8).setWidth 8) + poly (c.setWidth 8) := by
    ext i
    rw [coeff_add, coeff_X_pow_mul', coeff_poly, coeff_poly, coeff_poly, BitVec.getLsbD_setWidth,
      BitVec.getLsbD_setWidth, BitVec.getLsbD_ushiftRight]
    by_cases hlow : i < 8
    · simp [hlow, Nat.not_le.2 hlow]
    · by_cases hi : i < 16
      · have hin : i - 8 < 8 := by omega
        simp [hlow, hin, Nat.le_of_not_lt hlow, Nat.add_sub_cancel' (Nat.le_of_not_lt hlow)]
      · have hout : ¬i - 8 < 8 := by omega
        rw [BitVec.getLsbD_of_ge c i (by omega)]
        simp [hlow, hout]
  rw [List.append_cons, message_concat, message_concat, hsplit]
  ring

/-- **A message with its check behind it has the remainder zero.** -/
theorem check_append_augmented (p : BitVec 16) (data : List (BitVec 8)) :
    check p (data ++ [(checkAugmented p data >>> 8).setWidth 8,
      (checkAugmented p data).setWidth 8]) = 0#16 := by
  apply poly_injective
  rw [poly_check p (by decide), message_append_two, poly_zero, modByMonic_eq_zero_iff_dvd
    (monic_gen p), ← CharTwo.sub_eq_add]
  exact dvd_checkAugmented p (by decide) data

end DraginoFwd.Lib.Crc

import Mathlib

/-!
# Bit vectors as polynomials over the field with two elements

Bit `i` of a vector is the coefficient of `X ^ i` (`poly`). Addition is the bitwise exclusive or,
and multiplication by `X` is a shift with the top bit in front (`X_mul_poly`). A vector of `w` bits
is what is left modulo `gen p`, the polynomial of degree `w` whose lower coefficients are `p`:
`xtimes p` multiplies by `X` there (`dvd_xtimes`), and a vector is the remainder of every polynomial
that it is congruent to (`poly_eq_modByMonic`). The vectors are the ring of the residues, which
`residue` embeds them in with `mulMod p` for the product.
-/

set_option autoImplicit false

namespace DraginoFwd.Lib.BinaryPoly

open Polynomial

variable {w : Nat}

/-- The polynomial of a bit vector. -/
noncomputable def poly (x : BitVec w) : (ZMod 2)[X] :=
  ∑ i ∈ Finset.range w, if x.getLsbD i then X ^ i else 0

@[simp] theorem coeff_poly (x : BitVec w) (i : Nat) :
    (poly x).coeff i = if x.getLsbD i then 1 else 0 := by
  rw [poly, finsetSum_coeff]
  by_cases hi : i < w
  · rw [Finset.sum_eq_single i]
    · split <;> simp
    · intro j _ hne
      split
      · rw [coeff_X_pow, if_neg (Ne.symm hne)]
      · rfl
    · intro hmem
      exact absurd (Finset.mem_range.2 hi) hmem
  · rw [BitVec.getLsbD_of_ge x i (Nat.le_of_not_lt hi), if_neg Bool.false_ne_true]
    apply Finset.sum_eq_zero
    intro j hj
    have hne : i ≠ j := fun heq => hi (heq ▸ Finset.mem_range.1 hj)
    split
    · rw [coeff_X_pow, if_neg hne]
    · rfl

theorem poly_injective : Function.Injective (poly (w := w)) := by
  intro x y h
  apply BitVec.eq_of_getLsbD_eq
  intro i _
  have hcoeff := congrArg (fun p => p.coeff i) h
  simp only [coeff_poly] at hcoeff
  cases hx : x.getLsbD i <;> cases hy : y.getLsbD i <;> simp_all

@[simp] theorem poly_zero : poly (0#w) = 0 := by
  ext i
  simp

@[simp] theorem poly_xor (x y : BitVec w) : poly (x ^^^ y) = poly x + poly y := by
  ext i
  rw [coeff_add, coeff_poly, coeff_poly, coeff_poly, BitVec.getLsbD_xor]
  cases x.getLsbD i <;> cases y.getLsbD i <;> decide

theorem poly_setWidth {v : Nat} (h : w ≤ v) (x : BitVec w) : poly (x.setWidth v) = poly x := by
  ext i
  rw [coeff_poly, coeff_poly, BitVec.getLsbD_setWidth]
  by_cases hi : i < v
  · rw [decide_eq_true hi, Bool.true_and]
  · rw [BitVec.getLsbD_of_ge x i (by omega), Bool.and_false]

theorem degree_poly_lt (x : BitVec w) : (poly x).degree < w := by
  rw [degree_lt_iff_coeff_zero]
  intro i hi
  rw [coeff_poly, BitVec.getLsbD_of_ge x i hi]
  rfl

/-- The bit that a shift pushes out comes in front. -/
theorem X_mul_poly (x : BitVec w) :
    X * poly x = poly (x <<< 1) + if x.msb then X ^ w else 0 := by
  have hmsb : x.msb = x.getLsbD (w - 1) := BitVec.msb_eq_getLsbD_last x
  have hbeyond := BitVec.getLsbD_of_ge x
  ext i
  cases i with
  | zero =>
    rw [coeff_X_mul_zero, coeff_add, coeff_poly, BitVec.getLsbD_shiftLeft]
    cases w with
    | zero => simp [BitVec.of_length_zero]
    | succ w => cases x.msb <;> simp [coeff_X_pow]
  | succ i =>
    rw [coeff_X_mul, coeff_add, coeff_poly, coeff_poly, BitVec.getLsbD_shiftLeft, hmsb]
    rcases Nat.lt_trichotomy (i + 1) w with hlt | heq | hgt
    · have hcoeff : (if x.getLsbD (w - 1) then (X ^ w : (ZMod 2)[X]) else 0).coeff (i + 1) = 0 := by
        split
        · rw [coeff_X_pow, if_neg (Nat.ne_of_lt hlt)]
        · rfl
      simp [hcoeff, hlt]
    · have hlast : w - 1 = i := by omega
      rw [decide_eq_false (by omega), Bool.false_and, Bool.false_and, if_neg Bool.false_ne_true,
        zero_add, hlast, heq]
      cases x.getLsbD i <;> simp
    · have hcoeff : (if x.getLsbD (w - 1) then (X ^ w : (ZMod 2)[X]) else 0).coeff (i + 1) = 0 := by
        split
        · rw [coeff_X_pow, if_neg (Nat.ne_of_gt hgt)]
        · rfl
      rw [hcoeff, hbeyond i (by omega), decide_eq_false (by omega)]
      rfl

/-! ## Modulo a polynomial -/

/-- The polynomial of degree `w` with the lower coefficients `p`. -/
noncomputable def gen (p : BitVec w) : (ZMod 2)[X] := X ^ w + poly p

theorem monic_gen (p : BitVec w) : (gen p).Monic := monic_X_pow_add (degree_poly_lt p)

theorem degree_gen (p : BitVec w) : (gen p).degree = w := by
  have hlt : (poly p).degree < (X ^ w : (ZMod 2)[X]).degree := by
    rw [degree_X_pow]
    exact degree_poly_lt p
  rw [gen, degree_add_eq_left_of_degree_lt hlt, degree_X_pow]

/-- Multiplication by `X`: a shift, with `p` added when a bit is pushed out. -/
def xtimes (p x : BitVec w) : BitVec w := if x.msb then (x <<< 1) ^^^ p else x <<< 1

theorem dvd_xtimes (p x : BitVec w) : gen p ∣ X * poly x - poly (xtimes p x) := by
  rw [X_mul_poly, xtimes]
  split
  · rw [poly_xor, add_sub_add_left_eq_sub, CharTwo.sub_eq_add, gen]
  · rw [add_zero, sub_self]
    exact dvd_zero _

/-- A vector is the remainder of what it is congruent to. -/
theorem poly_eq_modByMonic {p x : BitVec w} {q : (ZMod 2)[X]} (h : gen p ∣ q - poly x) :
    poly x = q %ₘ gen p := by
  have hself : poly x %ₘ gen p = poly x :=
    (modByMonic_eq_self_iff (monic_gen p)).2 (degree_gen p ▸ degree_poly_lt x)
  have hmod : (q - poly x) %ₘ gen p = 0 := (modByMonic_eq_zero_iff_dvd (monic_gen p)).2 h
  rw [sub_modByMonic, hself] at hmod
  exact (sub_eq_zero.1 hmod).symm

/-- A polynomial with a constant coefficient has no factor `X`. -/
theorem isCoprime_X_pow {p : BitVec w} (hw : 0 < w) (hp : p.getLsbD 0 = true) (k : Nat) :
    IsCoprime (gen p) (X ^ k) := by
  apply IsCoprime.pow_right
  refine (Irreducible.coprime_iff_not_dvd irreducible_X).2 ?_ |>.symm
  rw [X_dvd_iff, gen, coeff_add, coeff_X_pow, if_neg (Nat.ne_of_lt hw), coeff_poly, hp]
  decide

/-! ## The ring of residues -/

/-- The sum over the bits of `y` from bit `i` on of the multiples of `x`. -/
def mulFrom (p y : BitVec w) : Nat → Nat → BitVec w → BitVec w
  | 0, _, _ => 0#w
  | k + 1, i, x => (if y.getLsbD i then x else 0#w) ^^^ mulFrom p y k (i + 1) (xtimes p x)

/-- The product modulo `gen p`. -/
def mulMod (p x y : BitVec w) : BitVec w := mulFrom p y w 0 x

/-- A vector as a residue. -/
noncomputable def residue (p x : BitVec w) : AdjoinRoot (gen p) := AdjoinRoot.mk (gen p) (poly x)

theorem residue_injective (p : BitVec w) : Function.Injective (residue p) := by
  intro x y h
  rw [residue, residue, AdjoinRoot.mk_eq_mk, CharTwo.sub_eq_add, ← poly_xor] at h
  have hzero : poly (x ^^^ y) = 0 := by
    by_contra hne
    have hdeg := degree_le_of_dvd h hne
    rw [degree_gen] at hdeg
    exact absurd hdeg (not_le.2 (degree_poly_lt _))
  have hxor : x ^^^ y = 0#w := poly_injective (hzero.trans poly_zero.symm)
  exact BitVec.xor_eq_zero_iff.1 hxor

@[simp] theorem residue_zero (p : BitVec w) : residue p 0#w = 0 := by
  rw [residue, poly_zero, map_zero]

@[simp] theorem residue_xor (p x y : BitVec w) :
    residue p (x ^^^ y) = residue p x + residue p y := by
  rw [residue, poly_xor, map_add]
  rfl

theorem residue_xtimes (p x : BitVec w) :
    residue p (xtimes p x) = AdjoinRoot.root (gen p) * residue p x := by
  have hmul := AdjoinRoot.mk_eq_mk.2 (dvd_xtimes p x)
  rw [map_mul, AdjoinRoot.mk_X] at hmul
  exact hmul.symm

theorem residue_mulFrom (p y : BitVec w) (k i : Nat) (x : BitVec w) :
    residue p (mulFrom p y k i x) =
      residue p x * ∑ j ∈ Finset.range k,
        if y.getLsbD (i + j) then AdjoinRoot.root (gen p) ^ j else 0 := by
  induction k generalizing i x with
  | zero => rw [mulFrom, residue_zero, Finset.sum_range_zero, mul_zero]
  | succ k ih =>
    rw [mulFrom, residue_xor, ih, residue_xtimes, Finset.sum_range_succ', Nat.add_zero]
    have hshift : ∀ j, (if y.getLsbD (i + (j + 1)) then AdjoinRoot.root (gen p) ^ (j + 1) else 0) =
        AdjoinRoot.root (gen p) *
          if y.getLsbD (i + 1 + j) then AdjoinRoot.root (gen p) ^ j else 0 := by
      intro j
      rw [show i + (j + 1) = i + 1 + j by omega]
      split
      · rw [pow_succ']
      · rw [mul_zero]
    simp only [hshift]
    rw [← Finset.mul_sum]
    cases y.getLsbD i
    · rw [if_neg Bool.false_ne_true, if_neg Bool.false_ne_true, residue_zero]
      ring
    · rw [if_pos rfl, if_pos rfl]
      ring

/-- **The product of vectors is the product of the residues.** -/
@[simp] theorem residue_mulMod (p x y : BitVec w) :
    residue p (mulMod p x y) = residue p x * residue p y := by
  have hy : residue p y =
      ∑ j ∈ Finset.range w, if y.getLsbD j then AdjoinRoot.root (gen p) ^ j else 0 := by
    rw [residue, poly, map_sum]
    refine Finset.sum_congr rfl fun j _ => ?_
    split
    · rw [map_pow, AdjoinRoot.mk_X]
    · rw [map_zero]
  rw [mulMod, residue_mulFrom, hy]
  simp only [Nat.zero_add]

theorem two_eq_zero (p : BitVec w) : (2 : AdjoinRoot (gen p)) = 0 := by
  have h := map_ofNat (algebraMap (ZMod 2) (AdjoinRoot (gen p))) 2
  rw [← h, show (OfNat.ofNat 2 : ZMod 2) = 0 from rfl, map_zero]

end DraginoFwd.Lib.BinaryPoly

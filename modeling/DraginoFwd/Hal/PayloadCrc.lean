import DraginoFwd.Lib.Crc

/-!
# The CRC of a payload

`sx1302_lora_payload_crc` computes the CRC that a modem computed over the air once more. Its step is
written gate by gate (`loraCrc16`): it is the shift of the register by one octet modulo
`x^16 + x^12 + x^5 + 1`, with the octet added behind it (`loraCrc16_eq`).
-/

set_option autoImplicit false

namespace DraginoFwd.Hal

open DraginoFwd.Lib.BinaryPoly
open DraginoFwd.Lib.Crc

/-! ## The code -/

/-- What `next` is the sum of: `((data>>i)&1) ^ ((*crc>>j)&1) ^ ..`, from `<<0` on. -/
def loraGates (data : BitVec 8) (crc : BitVec 32) : List Bool :=
  let d := data.getLsbD
  let c := crc.getLsbD
  [d 0 ^^ c 12 ^^ c 8,
    d 1 ^^ c 13 ^^ c 9,
    d 2 ^^ c 14 ^^ c 10,
    d 3 ^^ c 15 ^^ c 11,
    d 4 ^^ c 12,
    d 5 ^^ c 13 ^^ c 12 ^^ c 8,
    d 6 ^^ c 14 ^^ c 13 ^^ c 9,
    d 7 ^^ c 15 ^^ c 14 ^^ c 10,
    c 0 ^^ c 15 ^^ c 11,
    c 1 ^^ c 12,
    c 2 ^^ c 13,
    c 3 ^^ c 14,
    c 4 ^^ c 15 ^^ c 12 ^^ c 8,
    c 5 ^^ c 13 ^^ c 9,
    c 6 ^^ c 14 ^^ c 10,
    c 7 ^^ c 15 ^^ c 11]

/-- `next += gate << k`, for one gate after the other -/
def sumGates : List Bool → Nat → BitVec 32 → BitVec 32
  | [], _, next => next
  | gate :: gates, k, next =>
    sumGates gates (k + 1) (next + (BitVec.ofBool gate).setWidth 32 <<< k)

/-- `lora_crc16`, with the `int` that `crc` points at -/
def loraCrc16 (data : BitVec 8) (crc : BitVec 32) : BitVec 32 :=
  sumGates (loraGates data crc) 0 0#32

/-- `sx1302_lora_payload_crc`, for the `size` octets of `data` -/
def sx1302LoraPayloadCrc (data : List (BitVec 8)) : BitVec 16 :=
  (data.foldl (fun crc d => loraCrc16 d crc) 0#32).setWidth 16

/-! ## The gates -/

/-- The sum is a number with one bit for each gate. -/
theorem getLsbD_sumGates (gates : List Bool) (k : Nat) (next : BitVec 32)
    (hnext : next.toNat < 2 ^ k) (hlen : k + gates.length ≤ 32) (i : Nat) :
    (sumGates gates k next).getLsbD i =
      if i < k then next.getLsbD i else gates[i - k]?.getD false := by
  induction gates generalizing k next with
  | nil =>
    rw [sumGates]
    split
    · rfl
    · rename_i hi
      rw [List.getElem?_nil, Option.getD_none, BitVec.getLsbD]
      exact Nat.testBit_lt_two_pow
        (lt_of_lt_of_le hnext (Nat.pow_le_pow_right (by decide) (Nat.le_of_not_lt hi)))
  | cons gate gates ih =>
    rw [List.length_cons] at hlen
    have hpow : 2 ^ (k + 1) ≤ 2 ^ 32 := Nat.pow_le_pow_right (by decide) (by omega)
    have hdouble : 2 ^ (k + 1) = 2 ^ k + 2 ^ k := by ring
    have hgate : ((BitVec.ofBool gate).setWidth 32 <<< k).toNat = gate.toNat * 2 ^ k := by
      rw [BitVec.toNat_shiftLeft, BitVec.toNat_setWidth, BitVec.toNat_ofBool, Nat.shiftLeft_eq]
      cases gate <;> simp; omega
    have hle : gate.toNat * 2 ^ k ≤ 2 ^ k := by cases gate <;> simp
    have hsum : (next + (BitVec.ofBool gate).setWidth 32 <<< k).toNat =
        2 ^ k * gate.toNat + next.toNat := by
      rw [BitVec.toNat_add, hgate, Nat.mod_eq_of_lt (by omega), Nat.mul_comm, Nat.add_comm]
    have hbits (j : Nat) : (next + (BitVec.ofBool gate).setWidth 32 <<< k).getLsbD j =
        if j < k then next.getLsbD j else gate.toNat.testBit (j - k) := by
      rw [BitVec.getLsbD, hsum, Nat.testBit_two_pow_mul_add _ hnext]
      rfl
    rw [sumGates, ih (k + 1) _ (by rw [hsum, Nat.mul_comm]; omega) (by omega)]
    rcases Nat.lt_trichotomy i k with hlt | rfl | hgt
    · rw [if_pos (by omega), if_pos hlt, hbits, if_pos hlt]
    · rw [if_pos (by omega), if_neg (Nat.lt_irrefl _), hbits, if_neg (Nat.lt_irrefl _),
        Nat.sub_self, List.getElem?_cons_zero]
      cases gate <;> rfl
    · rw [if_neg (by omega), if_neg (by omega),
        show i - k = (i - (k + 1)) + 1 by omega, List.getElem?_cons_succ]

/-- The generator without its highest term. -/
abbrev crcPoly : BitVec 16 := 0x1021#16

/-- One multiplication by `x`, bit by bit. -/
theorem getLsbD_xtimes (x : BitVec 16) (i : Nat) :
    (xtimes crcPoly x).getLsbD i =
      if i = 0 then x.getLsbD 15
      else if i = 5 then x.getLsbD 4 ^^ x.getLsbD 15
      else if i = 12 then x.getLsbD 11 ^^ x.getLsbD 15
      else if i < 16 then x.getLsbD (i - 1)
      else false := by
  by_cases hi : i < 16
  · rw [xtimes, BitVec.msb_eq_getLsbD_last]
    cases h15 : x.getLsbD 15 <;> interval_cases i <;> simp [crcPoly]
  · rw [BitVec.getLsbD_of_ge _ i (Nat.le_of_not_lt hi), if_neg (by omega), if_neg (by omega),
      if_neg (by omega), if_neg hi]

/-- Each of the gates is a bit of the register that is shifted by one octet, with the octet added
behind it. -/
theorem getElem?_loraGates (data : BitVec 8) (crc : BitVec 16) (i : Nat) :
    (loraGates data (crc.setWidth 32))[i]?.getD false = (checkByte crcPoly crc data).getLsbD i := by
  by_cases hi : i < 16
  · have hwide : ∀ j ≤ 15, (crc.setWidth 32).getLsbD j = crc.getLsbD j := by
      intro j hj
      rw [BitVec.getLsbD_setWidth, decide_eq_true (by omega), Bool.true_and]
    have hbeyond : ∀ j ≥ 8, data.getLsbD j = false := fun j hj => BitVec.getLsbD_of_ge data j hj
    rw [checkByte, BitVec.getLsbD_xor, BitVec.getLsbD_setWidth, decide_eq_true hi, Bool.true_and,
      shifted]
    interval_cases i <;>
      simp only [loraGates, List.getElem?_cons_succ, List.getElem?_cons_zero, Option.getD_some,
        hwide, hbeyond, Function.iterate_succ_apply', Function.iterate_zero, id, getLsbD_xtimes,
        Nat.reduceSub, Nat.reduceEqDiff, Nat.reduceLT, Nat.reduceLeDiff, ge_iff_le, reduceIte,
        Bool.false_xor, OfNat.ofNat_ne_zero, Nat.one_ne_zero,
        Bool.xor_comm, Bool.xor_left_comm, Bool.xor_assoc]
  · rw [BitVec.getLsbD_of_ge _ i (Nat.le_of_not_lt hi), List.getElem?_eq_none]
    · rfl
    · exact Nat.le_of_not_lt hi

/-- **A step of the gates** is the shift by one octet. -/
theorem loraCrc16_eq (data : BitVec 8) (crc : BitVec 16) :
    loraCrc16 data (crc.setWidth 32) = (checkByte crcPoly crc data).setWidth 32 := by
  apply BitVec.eq_of_getLsbD_eq
  intro i hi
  rw [loraCrc16, getLsbD_sumGates _ 0 0#32 (by decide) (by simp [loraGates]),
    if_neg (Nat.not_lt_zero _), Nat.sub_zero, BitVec.getLsbD_setWidth, decide_eq_true hi,
    Bool.true_and, getElem?_loraGates]

/-! ## The remainder -/

theorem foldl_loraCrc16 (data : List (BitVec 8)) (crc : BitVec 16) :
    data.foldl (fun crc d => loraCrc16 d crc) (crc.setWidth 32) =
      (data.foldl (checkByte crcPoly) crc).setWidth 32 := by
  induction data generalizing crc with
  | nil => rfl
  | cons d data ih => rw [List.foldl_cons, List.foldl_cons, loraCrc16_eq, ih]

theorem sx1302LoraPayloadCrc_eq (data : List (BitVec 8)) :
    sx1302LoraPayloadCrc data = check crcPoly data := by
  have hfold := foldl_loraCrc16 data 0#16
  rw [BitVec.setWidth_zero] at hfold
  rw [sx1302LoraPayloadCrc, hfold, BitVec.setWidth_setWidth_of_le _ (by decide), check,
    BitVec.setWidth_eq]

/-- **The CRC of a payload is its remainder** modulo `x^16 + x^12 + x^5 + 1`. -/
theorem sx1302LoraPayloadCrc_remainder (data : List (BitVec 8)) :
    poly (sx1302LoraPayloadCrc data) = message data %ₘ gen crcPoly := by
  rw [sx1302LoraPayloadCrc_eq, poly_check crcPoly (by decide)]

/-- **Two payloads that differ in a burst have two CRCs**: all bits they differ in lie within 16
consecutive ones. -/
theorem sx1302LoraPayloadCrc_ne_of_burst {data data' : List (BitVec 8)} (burst : BitVec 16)
    (hburst : burst ≠ 0#16) {k : Nat}
    (hdiff : number data ^^^ number data' = burst.toNat <<< k) :
    sx1302LoraPayloadCrc data ≠ sx1302LoraPayloadCrc data' := by
  rw [sx1302LoraPayloadCrc_eq, sx1302LoraPayloadCrc_eq]
  exact check_ne_of_burst (by decide) (by decide) hburst hdiff

/-- A burst over the border of two octets. -/
theorem sx1302LoraPayloadCrc_ne_of_burst_three :
    sx1302LoraPayloadCrc [0x40#8, 0x11#8, 0x22#8] ≠
      sx1302LoraPayloadCrc [0x41#8, 0x91#8, 0x22#8] :=
  sx1302LoraPayloadCrc_ne_of_burst 0x0180#16 (by decide) (k := 8) (by decide)

end DraginoFwd.Hal

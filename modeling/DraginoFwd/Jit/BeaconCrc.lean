import DraginoFwd.Hal.PayloadCrc
import DraginoFwd.Jit.BeaconFrame

/-!
# The CRC of a beacon

`crc16` of the service goes through the bits of an octet, `lora_crc16` of the concentrator's library
is a network of gates for a whole octet, and the one adds the octet in front of the shift and the
other behind it. They are two remainders by the same polynomial, of the octets with 16 zeros behind
them (`crc16_remainder`) and of the octets themselves.
-/

set_option autoImplicit false

namespace DraginoFwd.Jit

open Polynomial
open DraginoFwd.Hal
open DraginoFwd.Lib.BinaryPoly
open DraginoFwd.Lib.Crc

theorem crcShift_eq (x : BitVec 16) : crcShift x = xtimes crcPoly x := by
  have hbit : (x &&& 0x8000#16 ≠ 0#16) ↔ x.msb = true := by
    rw [BitVec.msb_eq_getLsbD_last]
    constructor
    · intro hne
      by_contra hclear
      apply hne
      apply BitVec.eq_of_getLsbD_eq
      intro i hi
      interval_cases i <;> simp_all
    · intro hset hzero
      have h15 := congrArg (fun y => y.getLsbD 15) hzero
      simp only [BitVec.getLsbD_and, BitVec.getLsbD_zero, Bool.and_eq_false_imp] at h15
      exact absurd (h15 hset) (by decide)
  rw [crcShift, xtimes]
  exact if_congr hbit rfl rfl

theorem crc16_eq (data : List (BitVec 8)) : crc16 data = checkAugmented crcPoly data := by
  have hshift : crcShift = xtimes crcPoly := funext crcShift_eq
  rw [crc16, checkAugmented]
  congr 1
  funext x d
  rw [crcByte, checkAugmentedByte, hshift]
  rfl

/-- **The CRC of a beacon is the remainder** of its octets with 16 zeros behind them. -/
theorem crc16_remainder (data : List (BitVec 8)) :
    poly (crc16 data) = (X ^ 16 * message data) %ₘ gen crcPoly := by
  rw [crc16_eq, poly_checkAugmented crcPoly (by decide)]

/-- **The two computations agree**: octets with their `crc16` behind them, the high octet first,
have the payload CRC zero. -/
theorem sx1302LoraPayloadCrc_append_crc16 (data : List (BitVec 8)) :
    sx1302LoraPayloadCrc (data ++ [(crc16 data >>> 8).setWidth 8, (crc16 data).setWidth 8]) =
      0#16 := by
  rw [sx1302LoraPayloadCrc_eq, crc16_eq]
  exact check_append_augmented crcPoly data

end DraginoFwd.Jit

import DraginoFwd.Lib.Doubles
import DraginoFwd.Lib.Memory

/-!
# What the forwarder takes from the concentrator HAL

The packet types of `loragw_hal.h`, the constants that the forwarder compares them with, and the
two things the transmit queue depends on but does not compute itself: the time on air of a packet
and the conversion of a `double` to a `uint32_t` (`Target`).
-/

set_option autoImplicit false

namespace DraginoFwd.Hal

/-- `MOD_LORA` -/
def modLora : BitVec 8 := 0x10#8
/-- `MOD_FSK` -/
def modFsk : BitVec 8 := 0x20#8

/-- `TIMESTAMPED`, a value of `tx_mode` -/
def timestamped : BitVec 8 := 1#8
/-- `ON_GPS`, a value of `tx_mode` -/
def onGps : BitVec 8 := 2#8

/-- `struct lgw_pkt_tx_s`: a packet to send. The signed fields `rfPower` and `freqOffset` are kept
as their two's complement bytes. -/
structure LgwPktTx where
  freqHz : BitVec 32
  txMode : BitVec 8
  countUs : BitVec 32
  rfChain : BitVec 8
  rfPower : BitVec 8
  modulation : BitVec 8
  freqOffset : BitVec 8
  bandwidth : BitVec 8
  datarate : BitVec 32
  coderate : BitVec 8
  invertPol : Bool
  fDev : BitVec 8
  preamble : BitVec 16
  noCrc : Bool
  noHeader : Bool
  size : BitVec 16
  payload : Vector (BitVec 8) 256
  deriving DecidableEq

/-- A packet cleared by `memset`. -/
def LgwPktTx.zero : LgwPktTx where
  freqHz := 0#32
  txMode := 0#8
  countUs := 0#32
  rfChain := 0#8
  rfPower := 0#8
  modulation := 0#8
  freqOffset := 0#8
  bandwidth := 0#8
  datarate := 0#32
  coderate := 0#8
  invertPol := false
  fDev := 0#8
  preamble := 0#16
  noCrc := false
  noHeader := false
  size := 0#16
  payload := Vector.replicate 256 0#8

/-- `STAT_NO_CRC`, a value of `status` -/
def statNoCrc : BitVec 8 := 0x01#8
/-- `STAT_CRC_BAD` -/
def statCrcBad : BitVec 8 := 0x11#8
/-- `STAT_CRC_OK` -/
def statCrcOk : BitVec 8 := 0x10#8

/-- `struct lgw_pkt_rx_s`: a received packet. The `float` fields are kept as their IEEE 754 bits. -/
structure LgwPktRx where
  freqHz : BitVec 32
  freqOffset : BitVec 32
  ifChain : BitVec 8
  status : BitVec 8
  countUs : BitVec 32
  rfChain : BitVec 8
  modemId : BitVec 8
  modulation : BitVec 8
  bandwidth : BitVec 8
  datarate : BitVec 32
  coderate : BitVec 8
  rssic : BitVec 32
  rssis : BitVec 32
  snr : BitVec 32
  snrMin : BitVec 32
  snrMax : BitVec 32
  crc : BitVec 16
  size : BitVec 16
  payload : Vector (BitVec 8) 256
  ftimeReceived : Bool
  ftime : BitVec 32

/-- A received packet with the given bytes, all other fields zero. -/
def LgwPktRx.ofBytes (bytes : List (BitVec 8)) : LgwPktRx where
  freqHz := 0#32
  freqOffset := 0#32
  ifChain := 0#8
  status := statCrcOk
  countUs := 0#32
  rfChain := 0#8
  modemId := 0#8
  modulation := modLora
  bandwidth := 0#8
  datarate := 0#32
  coderate := 0#8
  rssic := 0#32
  rssis := 0#32
  snr := 0#32
  snrMin := 0#32
  snrMax := 0#32
  crc := 0#16
  size := BitVec.ofNat 16 bytes.length
  payload := Vector.ofFn fun i => bytes.getD i 0#8
  ftimeReceived := false
  ftime := 0#32

/-- The HAL and compiler behaviour below the transmit queue. `lgwTimeOnAir` is `lgw_time_on_air`,
in milliseconds. `doubleToU32 n` is the conversion of a `double` of integral value `n`; C leaves
it open when `n` does not fit, so only the values in range are fixed. -/
structure Target where
  lgwTimeOnAir : LgwPktTx → BitVec 32
  doubleToU32 : Nat → BitVec 32
  doubleToU32_of_lt : ∀ n < 2 ^ 32, doubleToU32 n = BitVec.ofNat 32 n

/-- The difference of two `int`s. C gives it no value where an `int` cannot hold it; that it wraps
there, as the subtraction of two registers does, is an assumption on the target, on which the two
sorts by the 32-bit counter rest. -/
def intDifference (x y : BitVec 32) : Int := (x - y).toInt

/-- `lgw_time_on_air` for FSK, with the default sync word of three bytes: preamble, sync word,
length, payload and CRC, eight bits a byte, in milliseconds, cut to an integer, plus one. The
quotient and its thousandfold are each rounded to a `double`. -/
def fskTimeOnAir (packet : LgwPktTx) : BitVec 32 :=
  let crc := if packet.noCrc then 0 else 2
  let bytes := packet.preamble.toNat + 3 + 1 + packet.size.toNat + crc
  let seconds := Lib.Printf.doubleQuotient (8 * bytes) packet.datarate.toNat
  let tFsk := Lib.Printf.doubleQuotient (seconds.1 * 1000) (2 ^ seconds.2)
  BitVec.ofNat 32 (tFsk.1 / 2 ^ tFsk.2 + 1)

-- 1001 bytes take 16016 ms, which the two roundings put just below: plus one it is 16016, not 16017
example : fskTimeOnAir { LgwPktTx.zero with
    preamble := 742#16, size := 253#16, datarate := 500#32 } = 16016#32 := by decide +kernel

/-- A target whose conversions wrap and whose packets are FSK packets. -/
def fskTarget : Target where
  lgwTimeOnAir packet := fskTimeOnAir packet
  doubleToU32 n := BitVec.ofNat 32 n
  doubleToU32_of_lt _ _ := rfl

/-- An FSK packet with a time stamp. -/
def fskPacket (datarate : BitVec 32) (preamble size : BitVec 16) (countUs : BitVec 32) : LgwPktTx :=
  { LgwPktTx.zero with
    txMode := timestamped
    countUs := countUs
    modulation := modFsk
    datarate := datarate
    preamble := preamble
    size := size }

end DraginoFwd.Hal

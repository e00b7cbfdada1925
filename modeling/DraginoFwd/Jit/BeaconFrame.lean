import DraginoFwd.Jit.Beacons

/-!
# The frame of a beacon

`semtech_pull_down` builds the packet of the beacons before its loop (`beaconSetup`) and writes the
time and the first CRC of each beacon into it in the loop (`fillTime`), with a running index over
the payload. A service of `Jit.Beacons` is run here with its packet, in any queue, time reference
and order of steps, and every packet that is passed to `jit_enqueue` is kept.

`reachable_beaconFrames` says of all of them that they carry the frame of their own GPS time:
nothing of it is left from the packet before, and the fields decode to what they stand for.
-/

set_option autoImplicit false

namespace DraginoFwd.Jit

open DraginoFwd.Hal
open DraginoFwd.Lib.Memory
open DraginoFwd.Lib.Transition

/-! ## The parameters -/

/-- `beacon_datarate`, as far as the `switch` supports it. -/
inductive BeaconDatarate where
  | sf8
  | sf9
  | sf10
  | sf12
  deriving DecidableEq, Repr

/-- `DR_LORA_SF8` and so on -/
def BeaconDatarate.datarate : BeaconDatarate → BitVec 32
  | .sf8 => 8#32
  | .sf9 => 9#32
  | .sf10 => 10#32
  | .sf12 => 12#32

/-- `beacon_RFU1_size` -/
def BeaconDatarate.rfu1Size : BeaconDatarate → Nat
  | .sf8 => 1
  | .sf9 => 2
  | .sf10 => 3
  | .sf12 => 5

/-- `beacon_RFU2_size` -/
def BeaconDatarate.rfu2Size : BeaconDatarate → Nat
  | .sf8 => 3
  | .sf9 => 0
  | .sf10 => 1
  | .sf12 => 3

/-- `beacon_bw_hz`, where it is one of the two that the `switch` knows, with `BW_125KHZ` and
`BW_500KHZ`. -/
def beaconBandwidth (beaconBwHz : BitVec 32) : Option (BitVec 8) :=
  if beaconBwHz = 125000#32 then some 4#8
  else if beaconBwHz = 500000#32 then some 6#8
  else none

/-- What the setup reads: the rest of `GW.beacon`, and the two coordinates of the reference as they
are after the conversion to `int32_t`. -/
structure BeaconParams where
  datarate : BeaconDatarate
  beaconBwHz : BitVec 32
  beaconPower : BitVec 8
  beaconInfodesc : BitVec 8
  latitude : BitVec 32
  longitude : BitVec 32

/-! ## The code -/

/-- One bit of `crc16`. -/
def crcShift (x : BitVec 16) : BitVec 16 :=
  if x &&& 0x8000#16 ≠ 0#16 then (x <<< 1) ^^^ 0x1021#16 else x <<< 1

/-- One byte of `crc16`. -/
def crcByte (x : BitVec 16) (data : BitVec 8) : BitVec 16 :=
  Nat.iterate crcShift 8 (x ^^^ (data.setWidth 16 <<< 8))

/-- `crc16` -/
def crc16 (data : List (BitVec 8)) : BitVec 16 := data.foldl crcByte 0#16

example : crc16 [0x31#8, 0x32#8, 0x33#8, 0x34#8, 0x35#8, 0x36#8, 0x37#8, 0x38#8, 0x39#8] =
    0x31C3#16 := by
  decide +kernel

/-- `field_latitude` and `field_longitude` behind the comparisons with the bounds of 24 bits -/
def clampField (field : BitVec 32) : BitVec 32 :=
  if (0x007FFFFF#32).slt field then 0x007FFFFF#32
  else if field.slt 0xFF800000#32 then 0xFF800000#32
  else field

/-- `0xFF & (field >> shift)` of a signed field -/
def fieldByte {w : Nat} (field : BitVec w) (shift : Nat) : BitVec 8 :=
  (field.sshiftRight shift).setWidth 8

/-- The two bytes of a CRC. -/
def crcBytes (crc : BitVec 16) : List (BitVec 8) := [crc.setWidth 8, (crc >>> 8).setWidth 8]

/-- The payload with `beacon_pyld_idx`. -/
structure BeaconPayload where
  payload : Vector (BitVec 8) 256
  idx : BitVec 8

/-- `payload[beacon_pyld_idx++] = byte`, for one byte after the other -/
def BeaconPayload.store (s : BeaconPayload) (bytes : List (BitVec 8)) :
    Except OutOfBounds BeaconPayload :=
  (copy s.payload s.idx.toNat bytes).map fun payload =>
    ⟨payload, s.idx + BitVec.ofNat 8 bytes.length⟩

/-- `beacon_pyld_idx += n` -/
def BeaconPayload.skip (s : BeaconPayload) (n : Nat) : BeaconPayload :=
  { s with idx := s.idx + BitVec.ofNat 8 n }

/-- The gateway specific fields: the descriptor and the coordinates. -/
def gatewayFields (params : BeaconParams) : List (BitVec 8) :=
  let latitude := clampField params.latitude
  let longitude := clampField params.longitude
  [params.beaconInfodesc, fieldByte latitude 0, fieldByte latitude 8, fieldByte latitude 16,
    fieldByte longitude 0, fieldByte longitude 8, fieldByte longitude 16]

/-- The beacon packet before the loop, out of a packet with anything in it. -/
def beaconSetup (params : BeaconParams) (packet : LgwPktTx) : Except OutOfBounds LgwPktTx := do
  let rfu1 := params.datarate.rfu1Size
  let rfu2 := params.datarate.rfu2Size
  let s : BeaconPayload := ⟨packet.payload, 0#8⟩
  let s ← s.store (List.replicate rfu1 0#8)
  -- the time and the first CRC are filled later
  let s := (s.skip 4).skip 2
  let s ← s.store (gatewayFields params)
  let s ← s.store (List.replicate rfu2 0#8)
  let part ← slice s.payload (6 + rfu1) ((7 + rfu2 : Nat) : Int)
  let s ← s.store (crcBytes (crc16 part))
  .ok { packet with
    txMode := onGps
    rfChain := 0#8
    rfPower := params.beaconPower
    modulation := modLora
    bandwidth := (beaconBandwidth params.beaconBwHz).getD packet.bandwidth
    datarate := params.datarate.datarate
    size := BitVec.ofNat 16 (rfu1 + 4 + 2 + 7 + rfu2 + 2)
    coderate := 1#8
    invertPol := false
    preamble := 10#16
    noCrc := true
    noHeader := true
    payload := s.payload }

/-- The four bytes of `next_beacon_gps_time.tv_sec`. -/
def timeBytes (sec : Int) : List (BitVec 8) :=
  let tvSec := BitVec.ofInt 64 sec
  [fieldByte tvSec 0, fieldByte tvSec 8, fieldByte tvSec 16, fieldByte tvSec 24]

/-- The time and the first CRC of a beacon. -/
def fillTime (datarate : BeaconDatarate) (sec : Int) (packet : LgwPktTx) :
    Except OutOfBounds LgwPktTx := do
  let rfu1 := datarate.rfu1Size
  let s : BeaconPayload := ⟨packet.payload, BitVec.ofNat 8 rfu1⟩
  let s ← s.store (timeBytes sec)
  let common ← slice s.payload 0 ((4 + rfu1 : Nat) : Int)
  let s ← s.store (crcBytes (crc16 common))
  .ok { packet with payload := s.payload }

/-! ## The frame -/

/-- The network common part: RFU and the time. -/
def commonPart (params : BeaconParams) (sec : Int) : List (BitVec 8) :=
  List.replicate params.datarate.rfu1Size 0#8 ++ timeBytes sec

/-- The gateway specific part: the fields and RFU. -/
def gatewayPart (params : BeaconParams) : List (BitVec 8) :=
  gatewayFields params ++ List.replicate params.datarate.rfu2Size 0#8

/-- Both parts, each with its CRC. -/
def beaconFrame (params : BeaconParams) (sec : Int) : List (BitVec 8) :=
  commonPart params sec ++ crcBytes (crc16 (commonPart params sec)) ++
    (gatewayPart params ++ crcBytes (crc16 (gatewayPart params)))

theorem rfu1Size_le (datarate : BeaconDatarate) : datarate.rfu1Size ≤ 5 := by
  cases datarate <;> decide

theorem rfu2Size_le (datarate : BeaconDatarate) : datarate.rfu2Size ≤ 3 := by
  cases datarate <;> decide

@[simp] theorem length_timeBytes (sec : Int) : (timeBytes sec).length = 4 := rfl

@[simp] theorem length_crcBytes (crc : BitVec 16) : (crcBytes crc).length = 2 := rfl

@[simp] theorem length_gatewayFields (params : BeaconParams) :
    (gatewayFields params).length = 7 := rfl

theorem length_commonPart (params : BeaconParams) (sec : Int) :
    (commonPart params sec).length = params.datarate.rfu1Size + 4 := by
  simp [commonPart]

theorem length_gatewayPart (params : BeaconParams) :
    (gatewayPart params).length = 7 + params.datarate.rfu2Size := by
  simp [gatewayPart]

theorem length_beaconFrame (params : BeaconParams) (sec : Int) :
    (beaconFrame params sec).length =
      params.datarate.rfu1Size + 4 + 2 + 7 + params.datarate.rfu2Size + 2 := by
  simp only [beaconFrame, List.length_append, length_commonPart, length_gatewayPart,
    length_crcBytes]
  omega

/-- What a packet has of the frame before the time is filled in. -/
structure Prepared (params : BeaconParams) (packet : LgwPktTx) : Prop where
  size : packet.size.toNat =
    params.datarate.rfu1Size + 4 + 2 + 7 + params.datarate.rfu2Size + 2
  rfu1 : HoldsAt packet.payload 0 (List.replicate params.datarate.rfu1Size 0#8)
  gateway : HoldsAt packet.payload (params.datarate.rfu1Size + 6)
    (gatewayPart params ++ crcBytes (crc16 (gatewayPart params)))

/-- Bytes are stored at the index, which moves behind them. -/
theorem store_spec (s : BeaconPayload) (bytes : List (BitVec 8))
    (hfit : s.idx.toNat + bytes.length < 256) :
    ∃ s', s.store bytes = .ok s' ∧ s'.idx.toNat = s.idx.toNat + bytes.length ∧
      HoldsAt s'.payload s.idx.toNat bytes ∧
      ∀ k other, HoldsAt s.payload k other →
        k + other.length ≤ s.idx.toNat ∨ s.idx.toNat + bytes.length ≤ k →
          HoldsAt s'.payload k other := by
  obtain ⟨payload, hcopy, hself, hothers⟩ := copy_holdsAt s.payload (Nat.le_of_lt hfit)
  refine ⟨⟨payload, s.idx + BitVec.ofNat 8 bytes.length⟩, ?_, ?_, hself, hothers⟩
  · rw [BeaconPayload.store, hcopy]
    rfl
  · rw [BitVec.toNat_add, BitVec.toNat_ofNat, Nat.add_mod_mod, Nat.mod_eq_of_lt hfit]

theorem skip_idx (s : BeaconPayload) {n : Nat} (hfit : s.idx.toNat + n < 256) :
    (s.skip n).idx.toNat = s.idx.toNat + n := by
  rw [BeaconPayload.skip, BitVec.toNat_add, BitVec.toNat_ofNat, Nat.add_mod_mod,
    Nat.mod_eq_of_lt hfit]

/-- The setup stays in the payload and leaves a prepared packet. -/
theorem beaconSetup_spec (params : BeaconParams) (packet : LgwPktTx) :
    ∃ packet', beaconSetup params packet = .ok packet' ∧ Prepared params packet' := by
  have hrfu1 := rfu1Size_le params.datarate
  have hrfu2 := rfu2Size_le params.datarate
  -- RFU, then the index behind the time and the first CRC
  obtain ⟨s1, hstore1, hidx1, hzeros1, -⟩ := store_spec ⟨packet.payload, 0#8⟩
    (List.replicate params.datarate.rfu1Size 0#8) (by simp; omega)
  have hidx1 : s1.idx.toNat = params.datarate.rfu1Size := by simpa using hidx1
  have hskip : ((s1.skip 4).skip 2).idx.toNat = params.datarate.rfu1Size + 6 := by
    rw [skip_idx _ (by rw [skip_idx _ (by omega)]; omega), skip_idx _ (by omega), hidx1]
  -- the gateway specific part: fields and RFU
  obtain ⟨s2, hstore2, hidx2, hfields, hkeep2⟩ :=
    store_spec ((s1.skip 4).skip 2) (gatewayFields params) (by simp; omega)
  rw [hskip, length_gatewayFields] at hidx2 hkeep2
  rw [hskip] at hfields
  obtain ⟨s3, hstore3, hidx3, hrfu, hkeep3⟩ :=
    store_spec s2 (List.replicate params.datarate.rfu2Size 0#8) (by simp; omega)
  rw [hidx2, List.length_replicate] at hidx3
  rw [hidx2] at hrfu hkeep3
  have hpart : HoldsAt s3.payload (params.datarate.rfu1Size + 6) (gatewayPart params) :=
    (hkeep3 _ _ hfields (by simp)).append hrfu
  have hslice : slice s3.payload (6 + params.datarate.rfu1Size)
      ((7 + params.datarate.rfu2Size : Nat) : Int) = .ok (gatewayPart params) := by
    rw [Nat.add_comm 6, ← length_gatewayPart]
    apply hpart.slice
    rw [length_gatewayPart]
    omega
  -- its CRC
  obtain ⟨s4, hstore4, -, hcrc, hkeep4⟩ :=
    store_spec s3 (crcBytes (crc16 (gatewayPart params))) (by rw [length_crcBytes]; omega)
  rw [hidx3] at hcrc hkeep4
  have hzeros : HoldsAt s4.payload 0 (List.replicate params.datarate.rfu1Size 0#8) := by
    refine hkeep4 _ _ (hkeep3 _ _ (hkeep2 _ _ hzeros1 ?_) ?_) ?_ <;>
    · left
      rw [List.length_replicate]
      omega
  have hgateway : HoldsAt s4.payload (params.datarate.rfu1Size + 6)
      (gatewayPart params ++ crcBytes (crc16 (gatewayPart params))) := by
    have hlen := length_gatewayPart params
    apply (hkeep4 _ _ hpart (by omega)).append
    rwa [hlen, ← Nat.add_assoc]
  obtain ⟨packet', hok, hpayload, hsize⟩ : ∃ packet', beaconSetup params packet = .ok packet' ∧
      packet'.payload = s4.payload ∧ packet'.size = BitVec.ofNat 16
        (params.datarate.rfu1Size + 4 + 2 + 7 + params.datarate.rfu2Size + 2) := by
    simp only [beaconSetup, hstore1, hstore2, hstore3, hslice, hstore4, ok_bind]
    exact ⟨_, rfl, rfl, rfl⟩
  refine ⟨packet', hok, ?_, hpayload ▸ hzeros, hpayload ▸ hgateway⟩
  rw [hsize, BitVec.toNat_ofNat, Nat.mod_eq_of_lt (by omega)]

/-- The time and its CRC complete the frame, whatever time was there before. -/
theorem fillTime_spec {params : BeaconParams} {packet : LgwPktTx} (h : Prepared params packet)
    (sec : Int) :
    ∃ payload, fillTime params.datarate sec packet = .ok { packet with payload := payload } ∧
      Prepared params { packet with payload := payload } ∧
      HoldsAt payload 0 (beaconFrame params sec) := by
  have hrfu1 := rfu1Size_le params.datarate
  have hrfu2 := rfu2Size_le params.datarate
  have hlenCommon := length_commonPart params sec
  have hidx0 : (BitVec.ofNat 8 params.datarate.rfu1Size).toNat = params.datarate.rfu1Size := by
    rw [BitVec.toNat_ofNat, Nat.mod_eq_of_lt (by omega)]
  -- the time
  obtain ⟨s1, hstore1, hidx1, htime, hkeep1⟩ := store_spec
    ⟨packet.payload, BitVec.ofNat 8 params.datarate.rfu1Size⟩ (timeBytes sec)
    (by rw [hidx0, length_timeBytes]; omega)
  rw [hidx0, length_timeBytes] at hidx1 hkeep1
  rw [hidx0] at htime
  have hzeros1 := hkeep1 _ _ h.rfu1 (by simp)
  have hcommon1 : HoldsAt s1.payload 0 (commonPart params sec) := by
    apply hzeros1.append
    rwa [List.length_replicate, Nat.zero_add]
  have hslice : slice s1.payload 0 ((4 + params.datarate.rfu1Size : Nat) : Int) =
      .ok (commonPart params sec) := by
    rw [Nat.add_comm 4, ← length_commonPart params sec]
    apply hcommon1.slice
    omega
  -- its CRC
  obtain ⟨s2, hstore2, -, hcrc, hkeep2⟩ :=
    store_spec s1 (crcBytes (crc16 (commonPart params sec))) (by rw [length_crcBytes]; omega)
  rw [hidx1, length_crcBytes] at hkeep2
  rw [hidx1] at hcrc
  have hcommon := hkeep2 _ _ hcommon1 (by omega)
  have hzeros := hkeep2 _ _ hzeros1 (by rw [List.length_replicate]; omega)
  have hgateway := hkeep2 _ _ (hkeep1 _ _ h.gateway (by omega)) (by omega)
  refine ⟨s2.payload, ?_, ⟨h.size, hzeros, hgateway⟩, ?_⟩
  · simp only [fillTime, hstore1, hslice, hstore2, ok_bind]
  · apply HoldsAt.append
    · apply hcommon.append
      rwa [hlenCommon, Nat.zero_add]
    · rwa [List.length_append, hlenCommon, length_crcBytes, Nat.zero_add]

/-! ## What a packet says -/

/-- Byte `i` of the payload. -/
def payloadByte (p : LgwPktTx) (i : Nat) : BitVec 8 := p.payload.toList.getD i 0#8

/-- The `len` bytes of the payload from `i` on. -/
def payloadBytes (p : LgwPktTx) (i len : Nat) : List (BitVec 8) :=
  (p.payload.toList.drop i).take len

/-- The number that three bytes stand for in two's complement, the lowest byte first. -/
def signed24 (b0 b1 b2 : BitVec 8) : Int :=
  (b0.setWidth 24 ||| b1.setWidth 24 <<< 8 ||| b2.setWidth 24 <<< 16).toInt

/-- The closest number of 24 bits. -/
def clamp24 (x : Int) : Int := max (-2 ^ 23) (min (2 ^ 23 - 1) x)

/-- The channel of a GPS second, the first one where no number of channels is configured. -/
def beaconChannel (cfg : BeaconCfg) (sec : Int) : Nat :=
  if cfg.beaconFreqNb = 0#8 then 0
  else sec.toNat / cfg.beaconPeriod.toNat % cfg.beaconFreqNb.toNat

/-- The packet is the beacon of the GPS second: all bytes up to its size are those of the frame, its
fields decode to what they stand for, and its frequency is the one of its channel. -/
structure BeaconDecodes (cfg : BeaconCfg) (params : BeaconParams) (sec : Int) (p : LgwPktTx) :
    Prop where
  size : p.size.toNat = params.datarate.rfu1Size + 4 + 2 + 7 + params.datarate.rfu2Size + 2
  defined : payloadBytes p 0 p.size.toNat = beaconFrame params sec
  time : le32 (payloadByte p params.datarate.rfu1Size)
    (payloadByte p (params.datarate.rfu1Size + 1)) (payloadByte p (params.datarate.rfu1Size + 2))
    (payloadByte p (params.datarate.rfu1Size + 3)) = BitVec.ofInt 32 sec
  crc1 : le16 (payloadByte p (params.datarate.rfu1Size + 4))
    (payloadByte p (params.datarate.rfu1Size + 5)) =
      crc16 (payloadBytes p 0 (params.datarate.rfu1Size + 4))
  infodesc : payloadByte p (params.datarate.rfu1Size + 6) = params.beaconInfodesc
  latitude : signed24 (payloadByte p (params.datarate.rfu1Size + 7))
    (payloadByte p (params.datarate.rfu1Size + 8)) (payloadByte p (params.datarate.rfu1Size + 9)) =
      clamp24 params.latitude.toInt
  longitude : signed24 (payloadByte p (params.datarate.rfu1Size + 10))
    (payloadByte p (params.datarate.rfu1Size + 11))
    (payloadByte p (params.datarate.rfu1Size + 12)) = clamp24 params.longitude.toInt
  crc2 : le16 (payloadByte p (params.datarate.rfu1Size + 13 + params.datarate.rfu2Size))
    (payloadByte p (params.datarate.rfu1Size + 14 + params.datarate.rfu2Size)) =
      crc16 (payloadBytes p (params.datarate.rfu1Size + 6) (7 + params.datarate.rfu2Size))
  freq : 0 ≤ sec → p.freqHz =
    cfg.beaconFreqHz + BitVec.ofNat 32 (beaconChannel cfg sec) * cfg.beaconFreqStep

theorem payloadByte_eq {p : LgwPktTx} {i k : Nat} {l : List (BitVec 8)} {b : BitVec 8}
    (h : HoldsAt p.payload i l) (hb : l[k]? = some b) : payloadByte p (i + k) = b := by
  have hk := (List.getElem?_eq_some_iff.1 hb).1
  rw [payloadByte, List.getD_eq_getElem?_getD, h.getElem? hk, hb]
  rfl

theorem le16_crcBytes (crc : BitVec 16) : le16 (crc.setWidth 8) ((crc >>> 8).setWidth 8) = crc := by
  apply BitVec.eq_of_getLsbD_eq
  intro i hi
  interval_cases i <;> simp [le16]

/-- A byte of a field does not depend on its sign. -/
theorem fieldByte_eq {w : Nat} (field : BitVec w) {shift : Nat} (h : shift + 8 ≤ w) :
    fieldByte field shift = (field >>> shift).setWidth 8 := by
  apply BitVec.eq_of_getLsbD_eq
  intro i hi
  rw [fieldByte, BitVec.getLsbD_setWidth, BitVec.getLsbD_setWidth, BitVec.getLsbD_sshiftRight,
    BitVec.getLsbD_ushiftRight, if_pos (by omega)]
  have hwidth : ¬ w ≤ i := by omega
  rw [decide_eq_false hwidth, Bool.not_false, Bool.true_and]

/-- The four bytes of the time are its low 32 bits. -/
theorem le32_timeBytes (tvSec : BitVec 64) :
    le32 (fieldByte tvSec 0) (fieldByte tvSec 8) (fieldByte tvSec 16) (fieldByte tvSec 24) =
      tvSec.setWidth 32 := by
  rw [fieldByte_eq _ (by decide), fieldByte_eq _ (by decide), fieldByte_eq _ (by decide),
    fieldByte_eq _ (by decide)]
  apply BitVec.eq_of_getLsbD_eq
  intro i hi
  interval_cases i <;> simp [le32]

theorem or_fieldByte (x : BitVec 32) :
    (fieldByte x 0).setWidth 24 ||| (fieldByte x 8).setWidth 24 <<< 8 |||
      (fieldByte x 16).setWidth 24 <<< 16 = x.setWidth 24 := by
  rw [fieldByte_eq _ (by decide), fieldByte_eq _ (by decide), fieldByte_eq _ (by decide)]
  apply BitVec.eq_of_getLsbD_eq
  intro i hi
  interval_cases i <;> simp

/-- The comparisons with the bounds give the closest number of 24 bits. -/
theorem toInt_clampField (field : BitVec 32) : (clampField field).toInt = clamp24 field.toInt := by
  have hmax : (0x007FFFFF#32).toInt = 2 ^ 23 - 1 := by decide
  have hmin : (0xFF800000#32).toInt = -2 ^ 23 := by decide
  rw [clampField, clamp24]
  simp only [BitVec.slt_eq_decide, hmax, hmin, decide_eq_true_eq]
  split
  · next hgt =>
    rw [hmax]
    omega
  · split
    · next hlt =>
      rw [hmin]
      omega
    · omega

/-- Three bytes are enough for a coordinate. -/
theorem signed24_fieldByte (field : BitVec 32) :
    signed24 (fieldByte (clampField field) 0) (fieldByte (clampField field) 8)
      (fieldByte (clampField field) 16) = clamp24 field.toInt := by
  rw [signed24, or_fieldByte, ← toInt_clampField, BitVec.toInt_setWidth]
  have hrange : -2 ^ 23 ≤ (clampField field).toInt ∧ (clampField field).toInt < 2 ^ 23 := by
    rw [toInt_clampField, clamp24]
    omega
  have hbmod : Int.bmod (clampField field).toNat (2 ^ 24) =
      Int.bmod (clampField field).toInt (2 ^ 24) := by
    rw [BitVec.toInt_eq_toNat_bmod, Int.bmod_bmod_of_dvd (by decide)]
  rw [hbmod, Int.bmod_eq_of_le (by omega) (by omega)]

/-- A packet with the frame decodes to what the frame stands for. -/
theorem beaconDecodes_of_holdsAt {cfg : BeaconCfg} {params : BeaconParams} {sec : Int}
    {p : LgwPktTx}
    (hsize : p.size.toNat = params.datarate.rfu1Size + 4 + 2 + 7 + params.datarate.rfu2Size + 2)
    (hframe : HoldsAt p.payload 0 (beaconFrame params sec))
    (hfreq : 0 ≤ sec → p.freqHz =
      cfg.beaconFreqHz + BitVec.ofNat 32 (beaconChannel cfg sec) * cfg.beaconFreqStep) :
    BeaconDecodes cfg params sec p := by
  have hlenCommon := length_commonPart params sec
  have hlenGateway := length_gatewayPart params
  have hlenFrame := length_beaconFrame params sec
  -- where the parts stand
  have hcommon : HoldsAt p.payload 0 (commonPart params sec) := hframe.left.left
  have htime := hcommon.right
  have hcrc1 := hframe.left.right
  have hgateway := hframe.right.left
  have hfields := hgateway.left
  have hcrc2 := hframe.right.right
  rw [List.length_replicate, Nat.zero_add] at htime
  rw [hlenCommon, Nat.zero_add] at hcrc1
  rw [List.length_append, hlenCommon, length_crcBytes, Nat.zero_add] at hgateway hfields hcrc2
  rw [hlenGateway, show params.datarate.rfu1Size + 4 + 2 + (7 + params.datarate.rfu2Size) =
    params.datarate.rfu1Size + 13 + params.datarate.rfu2Size by omega] at hcrc2
  have hlast : params.datarate.rfu1Size + 14 + params.datarate.rfu2Size =
      params.datarate.rfu1Size + 13 + params.datarate.rfu2Size + 1 := by omega
  refine ⟨hsize, ?_, ?_, ?_, ?_, ?_, ?_, ?_, hfreq⟩
  · rw [hsize, ← hlenFrame]
    exact hframe
  · have htime0 : payloadByte p params.datarate.rfu1Size = _ := payloadByte_eq (k := 0) htime rfl
    rw [htime0, payloadByte_eq (k := 1) htime rfl, payloadByte_eq (k := 2) htime rfl,
      payloadByte_eq (k := 3) htime rfl, le32_timeBytes]
    apply BitVec.eq_of_toNat_eq
    rw [BitVec.toNat_setWidth, BitVec.toNat_ofInt, BitVec.toNat_ofInt]
    omega
  · have hfirst : payloadByte p (params.datarate.rfu1Size + 4) = _ :=
      payloadByte_eq (k := 0) hcrc1 rfl
    have hsecond : payloadByte p (params.datarate.rfu1Size + 5) = _ :=
      payloadByte_eq (k := 1) hcrc1 rfl
    rw [hfirst, hsecond, le16_crcBytes, ← hlenCommon]
    exact congrArg crc16 hcommon.symm
  · exact payloadByte_eq (k := 0) hfields rfl
  · have h7 : payloadByte p (params.datarate.rfu1Size + 7) = _ :=
      payloadByte_eq (k := 1) hfields rfl
    have h8 : payloadByte p (params.datarate.rfu1Size + 8) = _ :=
      payloadByte_eq (k := 2) hfields rfl
    have h9 : payloadByte p (params.datarate.rfu1Size + 9) = _ :=
      payloadByte_eq (k := 3) hfields rfl
    rw [h7, h8, h9, signed24_fieldByte]
  · have h10 : payloadByte p (params.datarate.rfu1Size + 10) = _ :=
      payloadByte_eq (k := 4) hfields rfl
    have h11 : payloadByte p (params.datarate.rfu1Size + 11) = _ :=
      payloadByte_eq (k := 5) hfields rfl
    have h12 : payloadByte p (params.datarate.rfu1Size + 12) = _ :=
      payloadByte_eq (k := 6) hfields rfl
    rw [h10, h11, h12, signed24_fieldByte]
  · have hfirst : payloadByte p (params.datarate.rfu1Size + 13 + params.datarate.rfu2Size) = _ :=
      payloadByte_eq (k := 0) hcrc2 rfl
    rw [hlast, hfirst, payloadByte_eq (k := 1) hcrc2 rfl, le16_crcBytes, ← hlenGateway]
    exact congrArg crc16 hgateway.symm

/-! ## The service -/

/-- The variables of a service, and the packets that `jit_enqueue` was called with, each with its
`next_beacon_gps_time`. -/
structure FrameState where
  serv : BeaconServ
  passed : List (Int × LgwPktTx)

/-- The steps of the service, each in the queue and with the time reference that it finds. -/
inductive FrameEvent where
  | readNumBeacon (q : JitQueue)
  | attempt (q : JitQueue) (gps : GpsRef) (timeUs : BitVec 32)
  | insert (q : JitQueue)

/-- An iteration of the loop up to the full test of `jit_enqueue`, with the frame, and the call. -/
def attemptFrame (cfg : BeaconCfg) (params : BeaconParams) (q : JitQueue) (gps : GpsRef)
    (timeUs : BitVec 32) (serv : BeaconServ) :
    Except OutOfBounds (BeaconServ × Option (Int × LgwPktTx)) :=
  let next := nextBeaconSec cfg gps serv
  let after := attemptBeacon cfg q gps timeUs serv
  match after.phase with
  | .outside => .ok (after, none)
  | _ => do
      let packet ← fillTime params.datarate next after.beaconPkt
      .ok ({ after with beaconPkt := packet }, some (next, packet))

/-- One step of a service, where it can happen and stays inside the arrays. -/
def frameStep (tgt : Target) (cfg : BeaconCfg) (params : BeaconParams) (s : FrameState) :
    FrameEvent → Option FrameState
  | .readNumBeacon q =>
      if s.serv.phase = .outside then some { s with serv := readNumBeacon q s.serv } else none
  | .attempt q gps timeUs =>
      if s.serv.phase = .looping then
        match attemptFrame cfg params q gps timeUs s.serv with
        | .ok (serv, call) => some ⟨serv, s.passed ++ call.toList⟩
        | .error _ => none
      else none
  | .insert q =>
      match s.serv.phase with
      | .inserting nextSec timeUs =>
          match jitEnqueueSection tgt q timeUs s.serv.beaconPkt .beacon with
          | .ok (code, packet, _) =>
              some { s with serv := beaconQueued nextSec code { s.serv with beaconPkt := packet } }
          | .error _ => none
      | _ => none

/-- A service behind its setup, which starts from a packet with anything in it. -/
def FrameStart (params : BeaconParams) (s : FrameState) : Prop :=
  ∃ packet packet', beaconSetup params packet = .ok packet' ∧ s = ⟨.init packet', []⟩

/-- Every packet that was passed to `jit_enqueue` is the beacon of its GPS second, and no iteration
leaves the payload. -/
structure BeaconFrames (tgt : Target) (cfg : BeaconCfg) (params : BeaconParams) (s : FrameState) :
    Prop where
  decodes : ∀ sec p, (sec, p) ∈ s.passed → BeaconDecodes cfg params sec p
  inside : s.serv.phase = .looping → ∀ q gps timeUs,
    (frameStep tgt cfg params s (.attempt q gps timeUs)).isSome

/-! ## The invariant -/

/-- The packet is prepared, and the packets so far are right. -/
structure FrameInv (cfg : BeaconCfg) (params : BeaconParams) (s : FrameState) : Prop where
  prepared : Prepared params s.serv.beaconPkt
  passed : ∀ sec p, (sec, p) ∈ s.passed → BeaconDecodes cfg params sec p

/-- The channel of a time that is not negative is its division by the period, modulo the number of
channels. -/
theorem beaconChan_eq (cfg : BeaconCfg) {sec : Int} (hsec : 0 ≤ sec) :
    (beaconChan cfg sec).setWidth 32 = BitVec.ofNat 32 (beaconChannel cfg sec) := by
  obtain ⟨n, rfl⟩ := Int.eq_ofNat_of_zero_le hsec
  have hlt := cfg.beaconFreqNb.isLt
  rw [beaconChan, beaconChannel, Int.toNat_natCast]
  by_cases hmany : 1 < cfg.beaconFreqNb.toNat
  · have hne : cfg.beaconFreqNb ≠ 0#8 := by
      rintro h0
      simp [h0] at hmany
    have hmod := Nat.mod_lt (n / cfg.beaconPeriod.toNat) (Nat.lt_of_succ_lt hmany)
    rw [if_pos hmany, if_neg hne, ← Int.ofNat_tdiv, ← Int.ofNat_tmod, BitVec.ofInt_natCast]
    apply BitVec.eq_of_toNat_eq
    rw [BitVec.toNat_setWidth, BitVec.toNat_ofNat, BitVec.toNat_ofNat,
      Nat.mod_eq_of_lt (b := 2 ^ 8) (by omega)]
  · rw [if_neg hmany]
    split
    · rfl
    · next hne =>
      have hone : cfg.beaconFreqNb.toNat = 1 := by
        have hpos : cfg.beaconFreqNb.toNat ≠ 0 := fun h0 => hne (BitVec.eq_of_toNat_eq h0)
        omega
      rw [hone, Nat.mod_one]
      rfl

/-- The section of the queue leaves a beacon alone. -/
theorem jitEnqueueSection_beacon {tgt : Target} {q q' : JitQueue} {timeUs : BitVec 32}
    {packet packet' : LgwPktTx} {code : JitError}
    (h : jitEnqueueSection tgt q timeUs packet .beacon = .ok (code, packet', q')) :
    packet' = packet := by
  have hnode : (jitNode tgt q timeUs packet .beacon).pkt = packet := rfl
  rcases jitEnqueueSection_cases tgt q timeUs packet .beacon with ⟨err, -, heq⟩ | ⟨-, heq⟩
  · rw [heq, hnode] at h
    cases h
    rfl
  · cases hins : jitInsert q (jitNode tgt q timeUs packet .beacon) with
    | error fault =>
      rw [heq, hins] at h
      cases h
    | ok queue =>
      rw [heq, hins, hnode] at h
      cases h
      rfl

/-- An iteration leaves the loop with the packet as it was, or loads it for its GPS second. -/
theorem attemptBeacon_cases (cfg : BeaconCfg) (q : JitQueue) (gps : GpsRef) (timeUs : BitVec 32)
    {serv : BeaconServ} (hphase : serv.phase = .looping) :
    attemptBeacon cfg q gps timeUs serv = { serv with phase := .outside } ∨
    (attemptBeacon cfg q gps timeUs serv).phase ≠ .outside ∧
      (attemptBeacon cfg q gps timeUs serv).beaconPkt =
        loadBeacon cfg gps (nextBeaconSec cfg gps serv) serv.beaconPkt := by
  rw [attemptBeacon]
  split
  · exact Or.inl rfl
  · split
    · right
      dsimp only
      split
      · exact ⟨by simp [hphase], rfl⟩
      · exact ⟨by simp, rfl⟩
    · exact Or.inl rfl

/-- Counter and frequency are no part of the frame. -/
theorem Prepared.loadBeacon {params : BeaconParams} {packet : LgwPktTx} (h : Prepared params packet)
    (cfg : BeaconCfg) (gps : GpsRef) (sec : Int) :
    Prepared params (loadBeacon cfg gps sec packet) :=
  ⟨h.size, h.rfu1, h.gateway⟩

/-- An iteration stays in the payload, and the packet that it passes is the beacon of its GPS
second. -/
theorem attemptFrame_spec (cfg : BeaconCfg) {params : BeaconParams} {serv : BeaconServ}
    (hprepared : Prepared params serv.beaconPkt) (hphase : serv.phase = .looping) (q : JitQueue)
    (gps : GpsRef) (timeUs : BitVec 32) :
    ∃ serv' call, attemptFrame cfg params q gps timeUs serv = .ok (serv', call) ∧
      Prepared params serv'.beaconPkt ∧
      ∀ sec p, call = some (sec, p) → BeaconDecodes cfg params sec p := by
  rcases attemptBeacon_cases cfg q gps timeUs hphase with hout | ⟨hin, hpkt⟩
  · refine ⟨{ serv with phase := .outside }, none, ?_, hprepared, ?_⟩
    · rw [attemptFrame, hout]
    · intro sec p hcall
      cases hcall
  · -- the time goes into the loaded packet
    have hloaded := hprepared.loadBeacon cfg gps (nextBeaconSec cfg gps serv)
    rw [← hpkt] at hloaded
    generalize hafter : attemptBeacon cfg q gps timeUs serv = after at hin hpkt hloaded
    obtain ⟨payload, hfill, hkept, hframe⟩ := fillTime_spec hloaded (nextBeaconSec cfg gps serv)
    refine ⟨{ after with beaconPkt := { after.beaconPkt with payload := payload } },
      some (nextBeaconSec cfg gps serv, { after.beaconPkt with payload := payload }), ?_, hkept, ?_⟩
    · rw [attemptFrame, hafter]
      dsimp only
      rw [hfill]
      split
      · next hphase' => exact absurd hphase' hin
      · rfl
    · rintro sec p hcall
      cases hcall
      refine beaconDecodes_of_holdsAt hkept.size hframe ?_
      intro hsec
      rw [← beaconChan_eq cfg hsec]
      exact congrArg LgwPktTx.freqHz hpkt

theorem frameInv_frameStart (cfg : BeaconCfg) {params : BeaconParams} {s : FrameState}
    (h : FrameStart params s) : FrameInv cfg params s := by
  obtain ⟨packet, packet', hsetup, rfl⟩ := h
  obtain ⟨packet'', hsetup', hprepared⟩ := beaconSetup_spec params packet
  rw [hsetup] at hsetup'
  cases Except.ok.inj hsetup'
  exact ⟨hprepared, by simp⟩

theorem FrameInv.step {tgt : Target} {cfg : BeaconCfg} {params : BeaconParams} {s t : FrameState}
    {e : FrameEvent} (h : FrameInv cfg params s) (hstep : frameStep tgt cfg params s e = some t) :
    FrameInv cfg params t := by
  cases e with
  | readNumBeacon q =>
      rw [frameStep] at hstep
      split at hstep
      · cases hstep
        exact ⟨h.prepared, h.passed⟩
      · cases hstep
  | attempt q gps timeUs =>
      rw [frameStep] at hstep
      split at hstep
      · next hphase =>
        obtain ⟨serv', call, hattempt, hprepared, hcall⟩ :=
          attemptFrame_spec cfg h.prepared hphase q gps timeUs
        rw [hattempt] at hstep
        cases hstep
        refine ⟨hprepared, ?_⟩
        intro sec p hmem
        rcases List.mem_append.1 hmem with hmem | hmem
        · exact h.passed sec p hmem
        · exact hcall sec p (Option.mem_toList.1 hmem)
      · cases hstep
  | insert q =>
      rw [frameStep] at hstep
      split at hstep
      · next nextSec timeUs hphase =>
        split at hstep
        · next code packet queue hsection =>
          cases hstep
          have hsame := jitEnqueueSection_beacon hsection
          subst hsame
          refine ⟨?_, h.passed⟩
          cases code <;> exact h.prepared
        · cases hstep
      · cases hstep

/-- For every supported datarate, every descriptor and every coordinates, and for every run of the
loop in any queues and with any time references, each packet that is passed to `jit_enqueue` is the
beacon of its own GPS second. -/
theorem reachable_beaconFrames (tgt : Target) (cfg : BeaconCfg) (params : BeaconParams) :
    ∀ s, Reachable (FrameStart params) (Steps (frameStep tgt cfg params)) s →
      BeaconFrames tgt cfg params s := by
  intro s hreach
  have hinv : FrameInv cfg params s := by
    apply hreach.invariant
    · intro s hstart
      exact frameInv_frameStart cfg hstart
    · intro s e t hs hstep
      exact hs.step hstep
  refine ⟨hinv.passed, ?_⟩
  intro hphase q gps timeUs
  obtain ⟨serv', call, hattempt, -, -⟩ :=
    attemptFrame_spec cfg hinv.prepared hphase q gps timeUs
  rw [frameStep, if_pos hphase, hattempt]
  rfl

/-- Beacons with SF9 in Europe, from a gateway at the north pole. -/
def sf9Params : BeaconParams := ⟨.sf9, 125000#32, 14#8, 0#8, 0x00800000#32, 0#32⟩

/-- A beacon is queued, and another one is passed behind it. -/
def twoBeacons : List FrameEvent :=
  [.readNumBeacon jitQueueInit, .attempt jitQueueInit (lockedGps 1000) 0#32, .insert jitQueueInit,
    .attempt jitQueueInit (lockedGps 1001) 0#32]

theorem reachable_beaconFrames_two :
    ∃ packet s, beaconSetup sf9Params .zero = .ok packet ∧
      exec (frameStep fskTarget beaconCfg sf9Params) ⟨.init packet, []⟩ twoBeacons = some s ∧
      s.passed.map Prod.fst = [1024, 1152] ∧
      BeaconFrames fskTarget beaconCfg sf9Params s := by
  obtain ⟨packet, hsetup, -⟩ := beaconSetup_spec sf9Params .zero
  have htimes : (beaconSetup sf9Params .zero).toOption.bind (fun packet =>
      (exec (frameStep fskTarget beaconCfg sf9Params) ⟨.init packet, []⟩ twoBeacons).map
        fun s => s.passed.map Prod.fst) = some [1024, 1152] := by
    decide +kernel
  rw [hsetup, Except.toOption, Option.bind_some] at htimes
  obtain ⟨s, hs, hpassed⟩ := Option.map_eq_some_iff.1 htimes
  have hstart : FrameStart sf9Params ⟨.init packet, []⟩ := ⟨_, _, hsetup, rfl⟩
  have hreach := (Reachable.start hstart).run (Run.of_exec hs)
  refine ⟨packet, s, hsetup, hs, hpassed, ?_⟩
  exact reachable_beaconFrames fskTarget beaconCfg sf9Params s hreach

end DraginoFwd.Jit

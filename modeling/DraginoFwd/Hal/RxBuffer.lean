import DraginoFwd.Lib.Memory

/-!
# The receive buffer of the concentrator

Model of `loragw_sx1302_rx.c`. The concentrator writes each packet as a record into a FIFO:
a sync word, nine bytes of header, the payload, fourteen bytes behind it with the metrics of the
fine time stamp among them, and a sum. `rx_buffer_fetch` reads the FIFO into a buffer of 4096
bytes, looks for the first sync word and counts the records; `rx_buffer_pop` takes one record out.

A `Record` is what the concentrator knows of a packet and `Record.bytes` what it writes, with a sum
that need not be right. What is fetched comes out again, packet by packet (`rxBufferFetch_records`,
`rxBufferPop_record`).
-/

set_option autoImplicit false

namespace DraginoFwd.Hal

open DraginoFwd.Lib.Memory

/-! ## The buffer -/

/-- `LGW_REG_SUCCESS`, `LGW_REG_ERROR` and `LGW_REG_WARNING` -/
inductive RegStatus where
  | success
  | error
  | warning
  deriving DecidableEq

/-- The size of the buffer. -/
abbrev rxBufferCap : Nat := 4096

/-- `rx_buffer_t` -/
structure RxBuffer where
  buffer : Vector (BitVec 8) rxBufferCap
  bufferSize : BitVec 16
  bufferIndex : Nat
  bufferPktNb : BitVec 8

/-- `rx_buffer_new` -/
def RxBuffer.new : RxBuffer := ⟨Vector.replicate rxBufferCap 0#8, 0#16, 0, 0#8⟩

/-- `rx_buffer_del`: the bytes stay. -/
def RxBuffer.del (self : RxBuffer) : RxBuffer :=
  { self with bufferSize := 0#16, bufferIndex := 0, bufferPktNb := 0#8 }

/-- `SX1302_PKT_SYNCWORD_BYTE_0` -/
def syncwordByte0 : BitVec 8 := 0xA5#8
/-- `SX1302_PKT_SYNCWORD_BYTE_1` -/
def syncwordByte1 : BitVec 8 := 0xC0#8

/-- `SX1302_PKT_HEAD_METADATA` -/
abbrev headMetadata : Nat := 9
/-- `SX1302_PKT_TAIL_METADATA` -/
abbrev tailMetadata : Nat := 14

/-- `TAKE_N_BITS_FROM` -/
def takeNBitsFrom (b : BitVec 8) (p n : Nat) : BitVec 8 := (b >>> p) &&& BitVec.ofNat 8 (2 ^ n - 1)

/-- The two bytes at `idx` are the sync word. The second one is read behind a right first one
only. -/
def isSyncword (buffer : Vector (BitVec 8) rxBufferCap) (idx : Nat) : Except OutOfBounds Bool := do
  let b0 ← read buffer idx
  if b0 = syncwordByte0 then
    let b1 ← read buffer ((idx + 1 : Nat) : Int)
    return decide (b1 = syncwordByte1)
  else return false

/-- The bytes of the record at `idx`, from its payload length and its number of metrics. -/
def recordSize (payloadLen numTsMetrics : BitVec 8) : Nat :=
  headMetadata + payloadLen.toNat + tailMetadata + 2 * numTsMetrics.toNat

/-- What a fetch finds: the number of bytes, read twice, the bytes of the FIFO, and whether the
burst read succeeds. -/
structure FifoRead where
  nbBytes1 : BitVec 16
  nbBytes2 : BitVec 16
  bytes : Nat → BitVec 8
  memOk : Bool

/-- The greater number of bytes. -/
def FifoRead.nbBytes (fifo : FifoRead) : BitVec 16 :=
  if fifo.nbBytes1 < fifo.nbBytes2 then fifo.nbBytes2 else fifo.nbBytes1

/-- The search for the first sync word from `idx` on, among `size` bytes. -/
def findSyncword (buffer : Vector (BitVec 8) rxBufferCap) (size idx : Nat) :
    Except OutOfBounds (Option Nat) := do
  if idx + 2 ≤ size then
    if (← isSyncword buffer idx) then return some idx
    else findSyncword buffer size (idx + 1)
  else return none
termination_by size - idx

/-- The loop that counts the records from `idx` on. It gives up where a sync word is missing. -/
def countRecords (buffer : Vector (BitVec 8) rxBufferCap) (size idx : Nat) (pktNb : BitVec 8) :
    Except OutOfBounds (Option (BitVec 8)) := do
  if idx < size then
    if (← isSyncword buffer idx) then
      let payloadLen ← read buffer ((idx + 2 : Nat) : Int)
      let numTsMetrics ← read buffer ((idx + payloadLen.toNat + 21 : Nat) : Int)
      countRecords buffer size (idx + recordSize payloadLen numTsMetrics) (pktNb + 1#8)
    else return none
  else return some pktNb
termination_by size - idx
decreasing_by
  simp only [recordSize, headMetadata, tailMetadata]
  omega

/-- `rx_buffer_fetch` -/
def rxBufferFetch (self : RxBuffer) (fifo : FifoRead) :
    Except OutOfBounds (RegStatus × RxBuffer) := do
  let size := fifo.nbBytes.toNat
  let self := { self with bufferSize := fifo.nbBytes }
  if 0 < size then
    let buffer ← copy (Vector.replicate rxBufferCap 0#8) 0 ((List.range size).map fifo.bytes)
    let self := { self with buffer := buffer }
    if fifo.memOk then
      if size < headMetadata + tailMetadata then return (.success, self.del)
      else
        match (← findSyncword buffer size 0) with
        | none => return (.success, self.del)
        | some idx =>
            -- `memmove` to the front, nothing for `idx = 0`
            let moved ← slice buffer idx ((size - idx : Nat) : Int)
            let buffer ← copy buffer 0 moved
            let self := { self with
              buffer := buffer
              bufferSize := self.bufferSize - BitVec.ofNat 16 idx }
            match (← countRecords buffer (size - idx) 0 self.bufferPktNb) with
            | none => return (.success, self.del)
            | some pktNb => return (.success, { self with bufferPktNb := pktNb, bufferIndex := 0 })
    else return (.error, self)
  else return (.success, { self with bufferIndex := 0 })

/-! ## A packet -/

/-- `rx_packet_t`: the fields that `rx_buffer_pop` sets. The payload and the metrics are the cells
that it fills. -/
structure RxPacket where
  payload : List (BitVec 8)
  rxChannelIn : BitVec 8
  crcEn : Bool
  codingRate : BitVec 8
  rxRateSf : BitVec 8
  modemId : BitVec 8
  frequencyOffsetError : BitVec 32
  payloadCrcError : Bool
  syncError : Bool
  headerError : Bool
  timingSet : Bool
  snrAverage : BitVec 8
  rssiChanAvg : BitVec 8
  rssiSignalAvg : BitVec 8
  timestampCnt : BitVec 32
  rxCrc16Value : BitVec 16
  timestampAvg : List (BitVec 8)
  deriving DecidableEq

/-- The sign of a number of 20 bits. -/
def signed20 (x : BitVec 32) : BitVec 32 := if 2 ^ 19 ≤ x.toInt then x - 0x100000#32 else x

/-- The cells of `timestamp_avg`. -/
abbrev timestampAvgCap : Nat := 255

/-- The metadata of the record at `idx`, behind its length and its number of metrics. -/
def readMetadata (buffer : Vector (BitVec 8) rxBufferCap) (idx payloadLen numTsMetrics : Nat) :
    Except OutOfBounds RxPacket := do
  let head (k : Nat) := read buffer ((idx + k : Nat) : Int)
  let tail (k : Nat) := read buffer ((idx + payloadLen + k : Nat) : Int)
  let modemId ← head 5
  let channel ← head 3
  let b4 ← head 4
  let b9 ← tail 9
  let rssiChan ← tail 11
  let rssiSig ← tail 12
  let crc0 ← tail 19
  let crc1 ← tail 20
  let snr ← tail 10
  let f2 ← head 8
  let f1 ← head 7
  let f0 ← head 6
  let t0 ← tail 15
  let t1 ← tail 16
  let t2 ← tail 17
  let t3 ← tail 18
  let metrics ← slice buffer (idx + payloadLen + 22) ((2 * numTsMetrics : Nat) : Int)
  let _ ← copy (Vector.replicate timestampAvgCap 0#8) 0 metrics
  let payload ← slice buffer (idx + headMetadata) (payloadLen : Int)
  return {
    payload := payload
    rxChannelIn := channel
    crcEn := takeNBitsFrom b4 0 1 != 0#8
    codingRate := takeNBitsFrom b4 1 3
    rxRateSf := takeNBitsFrom b4 4 4
    modemId := modemId
    frequencyOffsetError := signed20 (f0.setWidth 32 ||| f1.setWidth 32 <<< 8 |||
      (takeNBitsFrom f2 0 4).setWidth 32 <<< 16)
    payloadCrcError := takeNBitsFrom b9 0 1 != 0#8
    syncError := takeNBitsFrom b9 2 1 != 0#8
    headerError := takeNBitsFrom b9 3 1 != 0#8
    timingSet := takeNBitsFrom b9 4 1 != 0#8
    snrAverage := snr
    rssiChanAvg := rssiChan
    rssiSignalAvg := rssiSig
    timestampCnt := le32 t0 t1 t2 t3
    rxCrc16Value := le16 crc0 crc1
    timestampAvg := metrics }

/-- `SX1302_LORA_STD_MODEM_ID` -/
def loraStdModemId : BitVec 8 := 16#8
/-- `SX1302_FSK_MODEM_ID` -/
def fskModemId : BitVec 8 := 17#8

/-- The range checks on the metadata. -/
def RxPacket.inRange (pkt : RxPacket) : Bool :=
  if fskModemId < pkt.modemId then false
  else if pkt.modemId ≤ loraStdModemId then
    !(9#8 < pkt.rxChannelIn) && !(pkt.rxRateSf < 5#8 || 12#8 < pkt.rxRateSf)
  else true

/-- The sum over a record in front of its last byte. -/
def checksum (bytes : List (BitVec 8)) : BitVec 8 := bytes.foldl (fun sum b => sum + b) 0#8

/-- `rx_buffer_pop`: the packet, or the status without one. -/
def rxBufferPop (self : RxBuffer) :
    Except OutOfBounds (RegStatus × RxBuffer × Option RxPacket) := do
  let idx := self.bufferIndex
  if self.bufferSize.toNat ≤ idx then return (.error, self, none)
  else if !(← isSyncword self.buffer idx) then return (.error, self, none)
  else
    let payloadLen ← read self.buffer ((idx + 2 : Nat) : Int)
    let numTsMetrics ← read self.buffer ((idx + payloadLen.toNat + 21 : Nat) : Int)
    let pktNumBytes := recordSize payloadLen numTsMetrics
    if self.bufferSize.toNat < idx + pktNumBytes then return (.warning, self, none)
    else
      let checksumRcv ← read self.buffer ((idx + (pktNumBytes - 1) : Nat) : Int)
      let summed ← slice self.buffer idx ((pktNumBytes - 1 : Nat) : Int)
      if checksumRcv ≠ checksum summed then return (.warning, self, none)
      else
        let pkt ← readMetadata self.buffer idx payloadLen.toNat numTsMetrics.toNat
        if !pkt.inRange then return (.error, self, none)
        else
          return (.success, { self with
            bufferIndex := idx + pktNumBytes
            bufferPktNb := self.bufferPktNb - 1#8 }, some pkt)

/-! ## Records -/

/-- A packet as the concentrator knows it. Its metrics are those of the fine time stamp, two bytes
each. The bits of the spare fields are not read. The sum is the one that is written. -/
structure Record where
  payload : List (BitVec 8)
  channel : BitVec 8
  crcEn : Bool
  codingRate : BitVec 3
  datarate : BitVec 4
  modemId : BitVec 8
  freqOffset : BitVec 20
  crcError : Bool
  syncError : Bool
  headerError : Bool
  timingSet : Bool
  snr : BitVec 8
  rssiChan : BitVec 8
  rssiSig : BitVec 8
  deltas : BitVec 16
  timestamp : BitVec 32
  crc16 : BitVec 16
  metrics : List (BitVec 8 × BitVec 8)
  spare8 : BitVec 4
  spare9 : BitVec 1
  spareTop9 : BitVec 3
  sum : BitVec 8
  payload_le : payload.length ≤ 255
  metrics_le : metrics.length ≤ 127

namespace Record

variable (r : Record)

/-- The nine bytes in front of the payload. -/
def head : List (BitVec 8) :=
  [syncwordByte0, syncwordByte1, BitVec.ofNat 8 r.payload.length, r.channel,
    r.datarate ++ r.codingRate ++ BitVec.ofBool r.crcEn, r.modemId,
    r.freqOffset.extractLsb' 0 8, r.freqOffset.extractLsb' 8 8,
    r.spare8 ++ r.freqOffset.extractLsb' 16 4]

/-- The bytes between the payload and the metrics. -/
def tail : List (BitVec 8) :=
  [r.spareTop9 ++ BitVec.ofBool r.timingSet ++ BitVec.ofBool r.headerError ++
      BitVec.ofBool r.syncError ++ r.spare9 ++ BitVec.ofBool r.crcError,
    r.snr, r.rssiChan, r.rssiSig, r.deltas.extractLsb' 0 8, r.deltas.extractLsb' 8 8,
    byteOf r.timestamp 0, byteOf r.timestamp 1, byteOf r.timestamp 2, byteOf r.timestamp 3,
    r.crc16.extractLsb' 0 8, r.crc16.extractLsb' 8 8, BitVec.ofNat 8 r.metrics.length]

/-- The bytes of the metrics. -/
def metricBytes : List (BitVec 8) := r.metrics.flatMap fun m => [m.1, m.2]

/-- A record without its sum. -/
def summed : List (BitVec 8) := r.head ++ (r.payload ++ (r.tail ++ r.metricBytes))

/-- What the concentrator writes. -/
def bytes : List (BitVec 8) := r.summed ++ [r.sum]

/-- The sum is right. -/
def intact : Bool := r.sum = checksum r.summed

/-- What is to come out. -/
def packet : RxPacket where
  payload := r.payload
  rxChannelIn := r.channel
  crcEn := r.crcEn
  codingRate := r.codingRate.setWidth 8
  rxRateSf := r.datarate.setWidth 8
  modemId := r.modemId
  frequencyOffsetError := r.freqOffset.signExtend 32
  payloadCrcError := r.crcError
  syncError := r.syncError
  headerError := r.headerError
  timingSet := r.timingSet
  snrAverage := r.snr
  rssiChanAvg := r.rssiChan
  rssiSignalAvg := r.rssiSig
  timestampCnt := r.timestamp
  rxCrc16Value := r.crc16
  timestampAvg := r.metricBytes

@[simp] theorem length_head : r.head.length = headMetadata := rfl

@[simp] theorem length_tail : r.tail.length = 13 := rfl

@[simp] theorem length_metricBytes : r.metricBytes.length = 2 * r.metrics.length := by
  rw [metricBytes, List.length_flatMap]
  simp [Nat.mul_comm]

theorem length_summed :
    r.summed.length = 22 + r.payload.length + 2 * r.metrics.length := by
  simp only [summed, List.length_append, length_head, length_tail, length_metricBytes, headMetadata]
  omega

theorem length_bytes : r.bytes.length = 23 + r.payload.length + 2 * r.metrics.length := by
  rw [bytes, List.length_append, length_summed, List.length_singleton]
  omega

theorem toNat_payloadLen : (BitVec.ofNat 8 r.payload.length).toNat = r.payload.length :=
  Nat.mod_eq_of_lt (Nat.lt_succ_of_le r.payload_le)

theorem toNat_metricsLen : (BitVec.ofNat 8 r.metrics.length).toNat = r.metrics.length :=
  Nat.mod_eq_of_lt (Nat.lt_of_le_of_lt r.metrics_le (by decide))

theorem recordSize_eq :
    recordSize (BitVec.ofNat 8 r.payload.length) (BitVec.ofNat 8 r.metrics.length) =
      r.bytes.length := by
  rw [recordSize, toNat_payloadLen, toNat_metricsLen, length_bytes, headMetadata, tailMetadata]
  omega

/-! ### The bits of a record -/

theorem byte4_bits (datarate : BitVec 4) (codingRate : BitVec 3) (crcEn : Bool) :
    let b : BitVec 8 := datarate ++ codingRate ++ BitVec.ofBool crcEn
    (takeNBitsFrom b 0 1 != 0#8) = crcEn ∧ takeNBitsFrom b 1 3 = codingRate.setWidth 8 ∧
      takeNBitsFrom b 4 4 = datarate.setWidth 8 := by
  revert datarate codingRate crcEn
  decide +kernel

theorem byte9_bits (spareTop : BitVec 3) (timingSet headerError syncError : Bool) (spare : BitVec 1)
    (crcError : Bool) :
    let b : BitVec 8 := spareTop ++ BitVec.ofBool timingSet ++ BitVec.ofBool headerError ++
      BitVec.ofBool syncError ++ spare ++ BitVec.ofBool crcError
    (takeNBitsFrom b 0 1 != 0#8) = crcError ∧ (takeNBitsFrom b 2 1 != 0#8) = syncError ∧
      (takeNBitsFrom b 3 1 != 0#8) = headerError ∧ (takeNBitsFrom b 4 1 != 0#8) = timingSet := by
  revert spareTop timingSet headerError syncError spare crcError
  decide +kernel

theorem low4_bits (spare x : BitVec 4) : takeNBitsFrom (spare ++ x) 0 4 = x.setWidth 8 := by
  revert spare x
  decide +kernel

/-- Twenty bits in three bytes. -/
theorem word20 (x : BitVec 20) (spare : BitVec 4) :
    (x.extractLsb' 0 8).setWidth 32 ||| (x.extractLsb' 8 8).setWidth 32 <<< 8 |||
      (takeNBitsFrom (spare ++ x.extractLsb' 16 4) 0 4).setWidth 32 <<< 16 = x.setWidth 32 := by
  rw [low4_bits]
  apply BitVec.eq_of_getLsbD_eq
  intro i hi
  interval_cases i <;> simp

theorem signed20_setWidth (x : BitVec 20) : signed20 (x.setWidth 32) = x.signExtend 32 := by
  have hx := x.isLt
  have hnat : (x.setWidth 32).toNat = x.toNat := by
    rw [BitVec.toNat_setWidth]
    omega
  have hint : (x.setWidth 32).toInt = x.toNat := by
    rw [BitVec.toInt_eq_toNat_cond, hnat, if_pos (by omega)]
  have hsign := BitVec.toInt_eq_toNat_cond x
  apply BitVec.eq_of_toInt_eq
  rw [BitVec.toInt_signExtend_of_le (by decide), hsign, signed20, hint]
  split
  · have hspan : (0x100000#32).toInt = 2 ^ 20 := by decide
    rw [BitVec.toInt_sub, hint, hspan, if_neg (by omega)]
    exact Int.bmod_eq_of_le_mul_two (by omega) (by omega)
  · rw [hint, if_pos (by omega)]

theorem le16_extract (x : BitVec 16) : le16 (x.extractLsb' 0 8) (x.extractLsb' 8 8) = x := by
  apply BitVec.eq_of_getLsbD_eq
  intro i hi
  interval_cases i <;> simp [le16]

end Record

/-! ## One record out of the buffer -/

section Pop

variable {buffer : Vector (BitVec 8) rxBufferCap} {idx : Nat} {r : Record}

theorem isSyncword_record (h : HoldsAt buffer idx r.bytes) : isSyncword buffer idx = .ok true := by
  have hread0 : read buffer (idx : Int) = .ok syncwordByte0 := h.read (k := 0) rfl
  have hread1 : read buffer ((idx + 1 : Nat) : Int) = .ok syncwordByte1 := h.read rfl
  rw [isSyncword, hread0]
  simp only [ok_bind, if_pos, hread1]
  rfl

theorem read_payloadLen (h : HoldsAt buffer idx r.bytes) :
    read buffer ((idx + 2 : Nat) : Int) = .ok (BitVec.ofNat 8 r.payload.length) := h.read rfl

/-- The parts of a record, each at its place. -/
theorem holdsAt_parts (h : HoldsAt buffer idx r.bytes) :
    HoldsAt buffer idx r.head ∧ HoldsAt buffer (idx + headMetadata) r.payload ∧
      HoldsAt buffer (idx + headMetadata + r.payload.length) r.tail ∧
        HoldsAt buffer (idx + headMetadata + r.payload.length + 13) r.metricBytes :=
  ⟨h.left.left, h.left.right.left, h.left.right.right.left, h.left.right.right.right⟩

theorem read_tail (h : HoldsAt buffer idx r.bytes) {k : Nat} {v : BitVec 8}
    (hk : r.tail[k]? = some v) :
    read buffer ((idx + r.payload.length + (9 + k) : Nat) : Int) = .ok v := by
  obtain ⟨-, -, htail, -⟩ := holdsAt_parts h
  have hread := htail.read hk
  rwa [show idx + headMetadata + r.payload.length + k = idx + r.payload.length + (9 + k) by
    rw [headMetadata]; omega] at hread

theorem readMetadata_record (h : HoldsAt buffer idx r.bytes)
    (hfit : idx + r.bytes.length ≤ rxBufferCap) :
    readMetadata buffer idx r.payload.length r.metrics.length = .ok r.packet := by
  obtain ⟨hhead, hpayload, -, hmetrics⟩ := holdsAt_parts h
  rw [Record.length_bytes] at hfit
  have hhead3 : read buffer ((idx + 3 : Nat) : Int) = .ok r.channel := hhead.read rfl
  have hhead4 : read buffer ((idx + 4 : Nat) : Int) = .ok _ := hhead.read rfl
  have hhead5 : read buffer ((idx + 5 : Nat) : Int) = .ok r.modemId := hhead.read rfl
  have hhead6 : read buffer ((idx + 6 : Nat) : Int) = .ok _ := hhead.read rfl
  have hhead7 : read buffer ((idx + 7 : Nat) : Int) = .ok _ := hhead.read rfl
  have hhead8 : read buffer ((idx + 8 : Nat) : Int) = .ok _ := hhead.read rfl
  have htail9 : read buffer ((idx + r.payload.length + 9 : Nat) : Int) = .ok _ :=
    read_tail h (k := 0) rfl
  have htail10 : read buffer ((idx + r.payload.length + 10 : Nat) : Int) = .ok r.snr :=
    read_tail h (k := 1) rfl
  have htail11 : read buffer ((idx + r.payload.length + 11 : Nat) : Int) = .ok r.rssiChan :=
    read_tail h (k := 2) rfl
  have htail12 : read buffer ((idx + r.payload.length + 12 : Nat) : Int) = .ok r.rssiSig :=
    read_tail h (k := 3) rfl
  have htail15 : read buffer ((idx + r.payload.length + 15 : Nat) : Int) = .ok _ :=
    read_tail h (k := 6) rfl
  have htail16 : read buffer ((idx + r.payload.length + 16 : Nat) : Int) = .ok _ :=
    read_tail h (k := 7) rfl
  have htail17 : read buffer ((idx + r.payload.length + 17 : Nat) : Int) = .ok _ :=
    read_tail h (k := 8) rfl
  have htail18 : read buffer ((idx + r.payload.length + 18 : Nat) : Int) = .ok _ :=
    read_tail h (k := 9) rfl
  have htail19 : read buffer ((idx + r.payload.length + 19 : Nat) : Int) = .ok _ :=
    read_tail h (k := 10) rfl
  have htail20 : read buffer ((idx + r.payload.length + 20 : Nat) : Int) = .ok _ :=
    read_tail h (k := 11) rfl
  have hmetricSlice : slice buffer (idx + r.payload.length + 22)
      ((2 * r.metrics.length : Nat) : Int) = .ok r.metricBytes := by
    rw [show idx + headMetadata + r.payload.length + 13 = idx + r.payload.length + 22 by
      rw [headMetadata]; omega] at hmetrics
    rw [← Record.length_metricBytes]
    exact hmetrics.slice (by rw [Record.length_metricBytes]; omega)
  have hpayloadSlice : slice buffer (idx + headMetadata) (r.payload.length : Int) = .ok r.payload :=
    hpayload.slice (by rw [headMetadata]; omega)
  obtain ⟨cells, hcells, -⟩ := copy_spec (Vector.replicate timestampAvgCap 0#8) 0 r.metricBytes
    (by have hle := r.metrics_le; rw [Record.length_metricBytes, timestampAvgCap]; omega)
  obtain ⟨hcrcEn, hcodingRate, hdatarate⟩ := Record.byte4_bits r.datarate r.codingRate r.crcEn
  obtain ⟨hcrcError, hsyncError, hheaderError, htimingSet⟩ := Record.byte9_bits r.spareTop9
    r.timingSet r.headerError r.syncError r.spare9 r.crcError
  simp only [readMetadata, hhead3, hhead4, hhead5, hhead6, hhead7, hhead8, htail9, htail10, htail11,
    htail12, htail15, htail16, htail17, htail18, htail19, htail20, hmetricSlice, hpayloadSlice,
    hcells, ok_bind, hcrcEn, hcodingRate, hdatarate, hcrcError, hsyncError, hheaderError,
      htimingSet,
    Record.word20, Record.signed20_setWidth, le32_byteOf, Record.le16_extract]
  rfl

/-- A record is popped as its packet, or refused for its sum or its metadata. -/
theorem rxBufferPop_record {self : RxBuffer}
    (h : HoldsAt self.buffer self.bufferIndex r.bytes)
    (hfit : self.bufferIndex + r.bytes.length ≤ self.bufferSize.toNat)
    (hcap : self.bufferSize.toNat ≤ rxBufferCap) :
    rxBufferPop self =
      if !r.intact then .ok (.warning, self, none)
      else if !r.packet.inRange then .ok (.error, self, none)
      else
        .ok (.success, { self with
          bufferIndex := self.bufferIndex + r.bytes.length
          bufferPktNb := self.bufferPktNb - 1#8 }, some r.packet) := by
  have hsize := r.recordSize_eq
  have hlen : r.bytes.length - 1 = r.summed.length := by
    rw [r.length_bytes, r.length_summed]
    omega
  have hpos : 0 < r.bytes.length := by
    rw [r.length_bytes]
    omega
  have hmetricsLen : read self.buffer ((self.bufferIndex + r.payload.length + 21 : Nat) : Int) =
      .ok (BitVec.ofNat 8 r.metrics.length) := read_tail h (k := 12) rfl
  have hsum : read self.buffer ((self.bufferIndex + r.summed.length : Nat) : Int) = .ok r.sum := by
    have hread := h.right.read (k := 0) rfl
    rwa [Nat.add_zero] at hread
  have hsummed : slice self.buffer self.bufferIndex ((r.summed.length : Nat) : Int) =
      .ok r.summed := h.left.slice (by omega)
  rw [rxBufferPop]
  simp -implicitDefEqProofs only [
    if_neg (show ¬self.bufferSize.toNat ≤ self.bufferIndex by omega), isSyncword_record h,
    read_payloadLen h, r.toNat_payloadLen, r.toNat_metricsLen, hmetricsLen, hsize, hlen,
      hsum, hsummed,
    if_neg (Nat.not_lt.2 hfit), readMetadata_record h (hfit.trans hcap), ok_bind, Bool.not_true,
    Bool.false_eq_true, if_false]
  by_cases hintact : r.sum = checksum r.summed
  · rw [if_neg (not_not.2 hintact), Record.intact, decide_eq_true hintact]
    cases r.packet.inRange <;> rfl
  · rw [if_pos hintact, Record.intact, decide_eq_false hintact]
    rfl

end Pop

/-! ## Fetching -/

/-- What a list of packets makes the concentrator write. -/
def stream (rs : List Record) : List (BitVec 8) := rs.flatMap Record.bytes

@[simp] theorem stream_nil : stream [] = [] := rfl

theorem stream_cons (r : Record) (rs : List Record) : stream (r :: rs) = r.bytes ++ stream rs :=
  List.flatMap_cons

/-- A record has at least 23 bytes. -/
theorem length_le_stream (rs : List Record) : 23 * rs.length ≤ (stream rs).length := by
  induction rs with
  | nil => exact Nat.le_refl 0
  | cons r rs ih =>
    rw [stream_cons, List.length_append, r.length_bytes, List.length_cons]
    omega

/-- A stream of packets begins with a sync word. -/
theorem stream_starts {rs : List Record} (hne : rs ≠ []) :
    ∃ rest, stream rs = syncwordByte0 :: syncwordByte1 :: rest := by
  cases rs with
  | nil => exact absurd rfl hne
  | cons r rs => exact ⟨_, rfl⟩

theorem countRecords_stream {buffer : Vector (BitVec 8) rxBufferCap} {size : Nat}
    (rs : List Record) {idx : Nat} (pktNb : BitVec 8) (h : HoldsAt buffer idx (stream rs))
    (hsize : idx + (stream rs).length = size) :
    countRecords buffer size idx pktNb = .ok (some (pktNb + BitVec.ofNat 8 rs.length)) := by
  induction rs generalizing idx pktNb with
  | nil =>
    rw [countRecords, if_neg (by rw [← hsize]; exact Nat.lt_irrefl _), List.length_nil,
      BitVec.add_zero]
    rfl
  | cons r rs ih =>
    rw [stream_cons] at h hsize
    rw [List.length_append] at hsize
    have hpos : 0 < r.bytes.length := by
      rw [r.length_bytes]
      omega
    have hmetricsLen : read buffer ((idx + r.payload.length + 21 : Nat) : Int) =
        .ok (BitVec.ofNat 8 r.metrics.length) := read_tail h.left (k := 12) rfl
    have hrest := ih (pktNb + 1#8) h.right (by omega)
    rw [countRecords, if_pos (by omega), isSyncword_record h.left]
    simp -implicitDefEqProofs only [ok_bind, if_true, read_payloadLen h.left, r.toNat_payloadLen,
      hmetricsLen, r.recordSize_eq]
    rw [hrest, BitVec.add_assoc, List.length_cons, Nat.add_comm rs.length 1, BitVec.ofNat_add]

/-- No sync word begins among the first bytes. -/
def SyncFree (junk rest : List (BitVec 8)) : Prop :=
  ∀ i < junk.length, ¬((junk ++ rest)[i]? = some syncwordByte0 ∧
    (junk ++ rest)[i + 1]? = some syncwordByte1)

theorem isSyncword_eq {buffer : Vector (BitVec 8) rxBufferCap} {idx : Nat}
    (h : idx + 1 < rxBufferCap) :
    isSyncword buffer idx = .ok (decide (buffer.toList[idx]? = some syncwordByte0 ∧
      buffer.toList[idx + 1]? = some syncwordByte1)) := by
  have hlen : buffer.toList.length = rxBufferCap := Vector.length_toList
  have h0 := List.getElem?_eq_getElem (l := buffer.toList) (i := idx) (by omega)
  have h1 := List.getElem?_eq_getElem (l := buffer.toList) (i := idx + 1) (by omega)
  rw [isSyncword, read_ok rfl h0, ok_bind]
  split
  · next heq =>
    rw [read_ok rfl h1, ok_bind, h0, h1, heq]
    refine congrArg Except.ok (decide_eq_decide.2 ?_)
    rw [Option.some_inj, Option.some_inj, and_iff_right rfl]
  · next hne =>
    have hfalse : ¬(buffer.toList[idx]? = some syncwordByte0 ∧
        buffer.toList[idx + 1]? = some syncwordByte1) := by
      rintro ⟨hfirst, -⟩
      exact hne (Option.some_inj.1 (h0.symm.trans hfirst))
    rw [decide_eq_false hfalse]
    rfl

theorem findSyncword_junk {buffer : Vector (BitVec 8) rxBufferCap} {junk : List (BitVec 8)}
    {rs : List Record} (hne : rs ≠ []) (h : HoldsAt buffer 0 (junk ++ stream rs))
    (hfit : junk.length + (stream rs).length ≤ rxBufferCap) (hfree : SyncFree junk (stream rs))
    {idx : Nat} (hidx : idx ≤ junk.length) :
    findSyncword buffer (junk.length + (stream rs).length) idx = .ok (some junk.length) := by
  obtain ⟨rest, hrest⟩ := stream_starts hne
  have hlen : (stream rs).length = rest.length + 2 := by rw [hrest]; rfl
  have hcell : ∀ k < junk.length + (stream rs).length,
      buffer.toList[k]? = (junk ++ stream rs)[k]? := by
    intro k hk
    have hget := h.getElem? (k := k) (by rw [List.length_append]; exact hk)
    rwa [Nat.zero_add] at hget
  induction hn : junk.length - idx generalizing idx with
  | zero =>
    obtain rfl : idx = junk.length := by omega
    rw [findSyncword, if_pos (by omega), isSyncword_eq (by omega), hcell _ (by omega),
      hcell _ (by omega), List.getElem?_append_right (Nat.le_refl _),
      List.getElem?_append_right (Nat.le_succ _), hrest]
    simp
    rfl
  | succ k ih =>
    have hno := hfree idx (by omega)
    rw [← hcell idx (by omega), ← hcell (idx + 1) (by omega)] at hno
    rw [findSyncword, if_pos (by omega), isSyncword_eq (by omega), decide_eq_false hno, ok_bind,
      if_neg Bool.false_ne_true]
    exact ih (by omega) (by omega)

/-- The packets that are still in the buffer, the next one first. -/
structure Pending (rx : RxBuffer) (rs : List Record) : Prop where
  holds : HoldsAt rx.buffer rx.bufferIndex (stream rs)
  size : rx.bufferIndex + (stream rs).length = rx.bufferSize.toNat
  cap : rx.bufferSize.toNat ≤ rxBufferCap
  pktNb : rx.bufferPktNb = BitVec.ofNat 8 rs.length

theorem Pending.length_lt {rx : RxBuffer} {rs : List Record} (h : Pending rx rs) :
    rs.length < 256 := by
  have hle := length_le_stream rs
  have hsize := h.size
  have hcap := h.cap
  rw [rxBufferCap] at hcap
  omega

theorem Pending.toNat_pktNb {rx : RxBuffer} {rs : List Record} (h : Pending rx rs) :
    rx.bufferPktNb.toNat = rs.length := by
  rw [h.pktNb]
  exact Nat.mod_eq_of_lt h.length_lt

theorem Pending.pktNb_eq_zero_iff {rx : RxBuffer} {rs : List Record} (h : Pending rx rs) :
    rx.bufferPktNb = 0#8 ↔ rs = [] := by
  rw [← List.length_eq_zero_iff, ← h.toNat_pktNb]
  exact ⟨fun h0 => by rw [h0]; rfl, fun h0 => BitVec.eq_of_toNat_eq h0⟩

/-- An empty buffer. -/
theorem pending_nil {rx : RxBuffer} (hcap : rx.bufferSize.toNat ≤ rxBufferCap)
    (hsize : rx.bufferIndex = rx.bufferSize.toNat) (hnb : rx.bufferPktNb = 0#8) :
    Pending rx [] :=
  ⟨by rw [HoldsAt]; rfl, hsize, hcap, hnb⟩

/-- The FIFO holds the given bytes, and they are read without an error. The first of the two counts
may be too low. -/
structure FifoRead.Holds (fifo : FifoRead) (l : List (BitVec 8)) : Prop where
  nbBytes : fifo.nbBytes.toNat = l.length
  bytes : (List.range l.length).map fifo.bytes = l
  memOk : fifo.memOk = true

/-- A FIFO with the given bytes. -/
def FifoRead.ofBytes (l : List (BitVec 8)) : FifoRead where
  nbBytes1 := BitVec.ofNat 16 l.length
  nbBytes2 := BitVec.ofNat 16 l.length
  bytes k := l.getD k 0#8
  memOk := true

theorem FifoRead.holds_ofBytes {l : List (BitVec 8)} (h : l.length < 2 ^ 16) :
    (FifoRead.ofBytes l).Holds l := by
  refine ⟨?_, ?_, rfl⟩
  · rw [FifoRead.nbBytes, if_neg (by exact BitVec.lt_irrefl _)]
    exact Nat.mod_eq_of_lt h
  · apply List.ext_getElem
    · rw [List.length_map, List.length_range]
    · intro k hk hk'
      rw [List.getElem_map, List.getElem_range]
      exact List.getD_eq_getElem l 0#8 hk'

/-- An empty FIFO. -/
theorem rxBufferFetch_empty {fifo : FifoRead} (h : fifo.Holds []) :
    ∃ rx, rxBufferFetch RxBuffer.new fifo = .ok (.success, rx) ∧ Pending rx [] := by
  have hnb := h.nbBytes
  rw [List.length_nil] at hnb
  refine ⟨{ RxBuffer.new with bufferSize := fifo.nbBytes, bufferIndex := 0 }, ?_, ?_⟩
  · rw [rxBufferFetch, hnb]
    rfl
  · exact pending_nil (hnb.le.trans (Nat.zero_le _)) hnb.symm rfl

/-- A FIFO with some packets, behind bytes that hold no sync word, is fetched as these packets. -/
theorem rxBufferFetch_records {fifo : FifoRead} {junk : List (BitVec 8)} {rs : List Record}
    (hne : rs ≠ []) (h : fifo.Holds (junk ++ stream rs)) (hfree : SyncFree junk (stream rs))
    (hcap : (junk ++ stream rs).length ≤ rxBufferCap) :
    ∃ rx, rxBufferFetch RxBuffer.new fifo = .ok (.success, rx) ∧ Pending rx rs := by
  have hlen : (junk ++ stream rs).length = junk.length + (stream rs).length := List.length_append
  have hrecord : 23 ≤ (stream rs).length := by
    have hle := length_le_stream rs
    have hpos := List.length_pos_iff.2 hne
    omega
  have hnb := h.nbBytes
  rw [hlen] at hnb hcap
  obtain ⟨fetched, hcopy, hfetched, -⟩ := copy_holdsAt (Vector.replicate rxBufferCap 0#8) (i := 0)
    (l := junk ++ stream rs) (by rw [hlen, Nat.zero_add]; exact hcap)
  have hstream : HoldsAt fetched junk.length (stream rs) := by
    have hright := hfetched.right
    rwa [Nat.zero_add] at hright
  obtain ⟨moved, hmove, hmoved, -⟩ := copy_holdsAt fetched (i := 0) (l := stream rs) (by omega)
  have hsub : junk.length + (stream rs).length - junk.length = (stream rs).length := by omega
  have hslice : slice fetched junk.length ((stream rs).length : Int) = .ok (stream rs) :=
    hstream.slice (by omega)
  have hcount := countRecords_stream rs 0#8 hmoved (Nat.zero_add _)
  have hfind := findSyncword_junk hne hfetched hcap hfree (Nat.zero_le _)
  have hbytes := h.bytes
  rw [hlen] at hbytes
  refine ⟨⟨moved, fifo.nbBytes - BitVec.ofNat 16 junk.length, 0, BitVec.ofNat 8 rs.length⟩, ?_, ?_⟩
  · rw [rxBufferFetch, hnb]
    simp -implicitDefEqProofs only [if_pos (show 0 < junk.length + (stream rs).length by omega),
      hbytes, hcopy, ok_bind, h.memOk, if_true,
      if_neg (show ¬junk.length + (stream rs).length < headMetadata + tailMetadata by
        rw [headMetadata, tailMetadata]; omega), hfind, hsub, hslice, hmove]
    rw [show RxBuffer.new.bufferPktNb = 0#8 from rfl, hcount, BitVec.zero_add]
    rfl
  · have hsize : (fifo.nbBytes - BitVec.ofNat 16 junk.length).toNat = (stream rs).length := by
      rw [rxBufferCap] at hcap
      have hjunk : (BitVec.ofNat 16 junk.length).toNat = junk.length :=
        Nat.mod_eq_of_lt (by omega)
      rw [BitVec.toNat_sub_of_le (by rw [BitVec.le_def, hjunk, hnb]; omega), hnb, hjunk, hsub]
    exact ⟨hmoved, (Nat.zero_add _).trans hsize.symm, by rw [hsize]; omega, rfl⟩

/-- What a pop does with the next packet. -/
theorem Pending.pop_cons {rx : RxBuffer} {r : Record} {rs : List Record}
    (h : Pending rx (r :: rs)) :
    (r.intact = false ∧ rxBufferPop rx = .ok (.warning, rx, none)) ∨
    (r.intact = true ∧ r.packet.inRange = false ∧ rxBufferPop rx = .ok (.error, rx, none)) ∨
    (r.intact = true ∧ r.packet.inRange = true ∧
      ∃ rx', rxBufferPop rx = .ok (.success, rx', some r.packet) ∧ Pending rx' rs) := by
  obtain ⟨hholds, hsize, hcap, hnb⟩ := h
  rw [stream_cons] at hholds hsize
  rw [List.length_append] at hsize
  rw [rxBufferPop_record hholds.left (by omega) hcap]
  cases r.intact with
  | false => exact .inl ⟨rfl, rfl⟩
  | true =>
    cases r.packet.inRange with
    | false => exact .inr (.inl ⟨rfl, rfl, rfl⟩)
    | true =>
      refine .inr (.inr ⟨rfl, rfl, _, rfl, hholds.right, by rw [← hsize, Nat.add_assoc], hcap, ?_⟩)
      show rx.bufferPktNb - 1#8 = _
      rw [hnb, List.length_cons, BitVec.ofNat_add]
      exact BitVec.add_sub_cancel _ _

end DraginoFwd.Hal

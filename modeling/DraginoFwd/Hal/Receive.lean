import DraginoFwd.Hal.Merge
import DraginoFwd.Hal.PayloadCrc
import DraginoFwd.Hal.RxBuffer
import DraginoFwd.Hal.Timestamp

/-!
# Receiving from the concentrator

Model of `lgw_receive` with `sx1302_fetch`, `sx1302_update` and `sx1302_parse` below it. A call
reads the FIFO when no packet is left in the receive buffer, updates the counter, and parses up to
`max_pkt` packets into the array of its caller.
-/

set_option autoImplicit false

namespace DraginoFwd.Hal

open DraginoFwd.Lib.Memory

/-! ## The configuration -/

/-- `if_chain_cfg`, for one of the chains; `lgw_rxif_setconf` takes the two radio chains only. -/
structure IfChainConf where
  rfChain : Fin 2
  freqHz : BitVec 32

/-- `lora_service_cfg`, as far as `sx1302_parse` reads it. -/
structure LoraServiceConf where
  implicitHdr : Bool
  implicitCrcEn : Bool
  implicitCoderate : BitVec 8
  bandwidth : BitVec 8

/-- `lgw_context_t`, as far as the receive path reads it. -/
structure RxContext where
  rfChainFreqHz : Vector (BitVec 32) 2
  ifChainCfg : Vector IfChainConf 10
  loraServiceCfg : LoraServiceConf
  fskBandwidth : BitVec 8
  fskDatarate : BitVec 32
  ftimeEnable : Bool

/-- What the receive path computes in floating point: the conversions of the levels, the frequency
offset of a packet in Hz, the polynomial of the FSK level, what the board and its temperature add to
the levels of a radio chain, and `precise_timestamp_calculate`, which tells whether it succeeds and
what it leaves in `ftime`. -/
structure RxFloats where
  ofByte : BitVec 8 → BitVec 32
  quarter : BitVec 8 → BitVec 32
  freqOffset : BitVec 8 → BitVec 32 → BitVec 32
  fskRssi : BitVec 32 → BitVec 32
  addRssiOffset : BitVec 8 → BitVec 32 → BitVec 32 → BitVec 32
  preciseTimestamp : RxPacket → BitVec 32 → BitVec 32 → BitVec 32 → Bool × BitVec 32

/-- `-128.0` in single precision -/
def minus128 : BitVec 32 := 0xC3000000#32

/-- `IF_LORA_MULTI`, `IF_LORA_STD` and `IF_FSK_STD` -/
inductive Ifmod where
  | loraMulti
  | loraStd
  | fskStd
  deriving DecidableEq

/-- `LGW_IF_CHAIN_NB` -/
abbrev lgwIfChainNb : Nat := 10

/-- `ifmod_config` -/
def ifmodConfig : Vector Ifmod lgwIfChainNb :=
  #v[.loraMulti, .loraMulti, .loraMulti, .loraMulti, .loraMulti, .loraMulti, .loraMulti, .loraMulti,
    .loraStd, .fskStd]

/-! ## `sx1302_parse` -/

/-- The datarate of a packet: `DR_LORA_SF5` and so on have the value of the factor. -/
def loraDatarate (rxRateSf : BitVec 8) : BitVec 32 :=
  if 5#8 ≤ rxRateSf ∧ rxRateSf ≤ 12#8 then rxRateSf.setWidth 32 else 0#32

/-- `CR_LORA_4_5` and so on have the value that the modem gives. -/
def loraCoderate (cr : BitVec 8) : BitVec 8 := if 1#8 ≤ cr ∧ cr ≤ 4#8 then cr else 0#8

/-- The error that the register of the intermediate frequency makes, `if_freq_error`. -/
def ifFreqError (ifFreqHz : BitVec 32) : BitVec 32 :=
  ifFreqHz - ((ifFreqHz * 32#32).sdiv 15625#32 * 15625#32).sdiv 32#32

/-- `crc_en`, or the configuration of the service modem. -/
def crcEnabled (ctx : RxContext) (ifmod : Ifmod) (pkt : RxPacket) : Bool :=
  pkt.crcEn || (ifmod == .loraStd && ctx.loraServiceCfg.implicitCrcEn)

/-- The status of a packet from its CRC. -/
def crcStatus (enabled : Bool) (pkt : RxPacket) : BitVec 8 :=
  if enabled then if pkt.payloadCrcError then statCrcBad else statCrcOk else statNoCrc

/-- The CRC is computed once more over a payload with a good CRC. -/
def failsCrcCheck (ctx : RxContext) (ifmod : Ifmod) (pkt : RxPacket) : Bool :=
  crcStatus (crcEnabled ctx ifmod pkt) pkt == statCrcOk && 0 < pkt.payload.length &&
    sx1302LoraPayloadCrc pkt.payload != pkt.rxCrc16Value

/-- The bandwidth of the chains with all factors is fixed. -/
def loraBandwidth (ctx : RxContext) (ifmod : Ifmod) : BitVec 8 :=
  if ifmod = .loraMulti then bw125khz else ctx.loraServiceCfg.bandwidth

/-- The coding rate of the packet, or the configured one where there is no header. -/
def loraCr (ctx : RxContext) (ifmod : Ifmod) (pkt : RxPacket) : BitVec 8 :=
  if ifmod = .loraMulti ∨ ctx.loraServiceCfg.implicitHdr = false then pkt.codingRate
  else ctx.loraServiceCfg.implicitCoderate

/-- `timestamp_correction` -/
def timestampCorrection (ctx : RxContext) (ifmod : Ifmod) (pkt : RxPacket) : BitVec 32 :=
  if ifmod = .fskStd then 680000#32 / ctx.fskDatarate - 20#32
  else
    timestampCounterCorrection ctx.ftimeEnable (loraBandwidth ctx ifmod) (loraDatarate pkt.rxRateSf)
      (loraCoderate (loraCr ctx ifmod pkt)) pkt.crcEn (BitVec.ofNat 8 pkt.payload.length) true

/-- The part for a packet of a LoRa modem. -/
def parseLora (ctx : RxContext) (floats : RxFloats) (ifmod : Ifmod) (chain : IfChainConf)
    (pkt : RxPacket) (p : LgwPktRx) : LgwPktRx :=
  let status := crcStatus (crcEnabled ctx ifmod pkt) pkt
  let bandwidth := loraBandwidth ctx ifmod
  let freqOffset :=
    if (bwPow bandwidth).isSome then floats.freqOffset bandwidth pkt.frequencyOffsetError else 0#32
  let freqOffset := freqOffset + ifFreqError chain.freqHz
  let ftime :=
    if 0 < pkt.timestampAvg.length ∧ pkt.timingSet = true ∧ status = statCrcOk then
      floats.preciseTimestamp pkt chain.freqHz p.freqHz freqOffset
    else (false, 0#32)
  { p with
    modulation := modLora
    status := status
    snr := floats.quarter pkt.snrAverage
    bandwidth := bandwidth
    datarate := loraDatarate pkt.rxRateSf
    coderate := loraCoderate (loraCr ctx ifmod pkt)
    freqOffset := freqOffset
    ftimeReceived := ftime.1
    ftime := ftime.2 }

/-- The part for a packet of the FSK modem. It leaves the fine time stamp of the entry as it is. -/
def parseFsk (ctx : RxContext) (floats : RxFloats) (pkt : RxPacket) (p : LgwPktRx) : LgwPktRx :=
  { p with
    modulation := modFsk
    status := crcStatus pkt.crcEn pkt
    bandwidth := ctx.fskBandwidth
    datarate := ctx.fskDatarate
    rssic := floats.fskRssi p.rssic
    coderate := 0#8
    snr := minus128
    rssis := minus128 }

/-- `sx1302_parse` behind the pop -/
def parsePacket (ctx : RxContext) (floats : RxFloats) (counter : TimestampCounter) (pkt : RxPacket)
    (p : LgwPktRx) : Except OutOfBounds (RegStatus × LgwPktRx) := do
  let payload ← copy p.payload 0 pkt.payload
  let p := { p with
    payload := payload
    size := BitVec.ofNat 16 pkt.payload.length
    modemId := pkt.modemId
    ifChain := pkt.rxChannelIn }
  if h : pkt.rxChannelIn.toNat < lgwIfChainNb then
    let ifmod := ifmodConfig[pkt.rxChannelIn.toNat]
    let chain := ctx.ifChainCfg[pkt.rxChannelIn.toNat]
    let p := { p with
      rfChain := BitVec.ofNat 8 chain.rfChain.val
      freqHz := ctx.rfChainFreqHz[chain.rfChain] + chain.freqHz
      rssic := floats.ofByte pkt.rssiChanAvg
      rssis := floats.ofByte pkt.rssiSignalAvg }
    if ifmod ≠ .fskStd ∧ failsCrcCheck ctx ifmod pkt = true then
      return (.error, { p with modulation := modLora, status := statCrcOk })
    else
      let p :=
        if ifmod = .fskStd then parseFsk ctx floats pkt p
        else parseLora ctx floats ifmod chain pkt p
      return (.success, { p with
        countUs := timestampPktExpand counter (pkt.timestampCnt / 32#32) +
          timestampCorrection ctx ifmod pkt
        crc := pkt.rxCrc16Value })
  else return (.error, p)

/-- `sx1302_parse`: the buffer is emptied by a warning. -/
def sx1302Parse (ctx : RxContext) (floats : RxFloats) (counter : TimestampCounter) (rx : RxBuffer)
    (p : LgwPktRx) : Except OutOfBounds (RegStatus × RxBuffer × LgwPktRx) := do
  match (← rxBufferPop rx) with
  | (.success, rx, some pkt) =>
      let (status, p) ← parsePacket ctx floats counter pkt p
      return (status, rx, p)
  | (.warning, rx, _) => return (.warning, rx.del, p)
  | (_, rx, _) => return (.error, rx, p)

/-! ## `lgw_receive` -/

/-- `rx_buffer` and `counter_us` -/
structure RxState where
  rx : RxBuffer
  counter : TimestampCounter

/-- `sx1302_fetch`: the FIFO is read when no packet is left. -/
def sx1302Fetch (rx : RxBuffer) (fifo : FifoRead) : Except OutOfBounds (RegStatus × RxBuffer) :=
  if rx.bufferPktNb = 0#8 then rxBufferFetch RxBuffer.new fifo else .ok (.success, rx)

/-- `sx1302_update`, which goes on with the old counter when the registers cannot be read -/
def sx1302Update (counter : TimestampCounter) (reads : CounterReads) : TimestampCounter :=
  match timestampCounterGet counter reads with
  | some (_, _, counter) => counter
  | none => counter

/-- What a call of `lgw_receive` reads from the concentrator: the FIFO, the counter, and the
temperature. -/
structure ReceiveInput where
  fifo : FifoRead
  reads : CounterReads
  temperature : Option (BitVec 32)

/-- What it returns: `LGW_HAL_ERROR`, or the number of packets in the array. -/
inductive Received where
  | error
  | found (nbPkt : Nat)
  deriving DecidableEq

/-- The levels of a packet with the offset of its radio chain. -/
def addRssiOffset (floats : RxFloats) (temperature : BitVec 32) (p : LgwPktRx) : LgwPktRx :=
  { p with
    rssic := floats.addRssiOffset p.rfChain temperature p.rssic
    rssis := floats.addRssiOffset p.rfChain temperature p.rssis }

variable {n : Nat}

/-- The loop of `lgw_receive` over the next `left` packets. -/
def receiveLoop (ctx : RxContext) (floats : RxFloats) (counter : TimestampCounter)
    (temperature : BitVec 32) :
    Nat → Nat → RxBuffer → Vector LgwPktRx n →
      Except OutOfBounds (RegStatus × RxBuffer × Vector LgwPktRx n)
  | 0, _, rx, pktData => .ok (.success, rx, pktData)
  | left + 1, nbPktFound, rx, pktData => do
    let p ← read pktData (nbPktFound : Int)
    let (status, rx, p) ← sx1302Parse ctx floats counter rx p
    if status = .success then
      let pktData ← write pktData nbPktFound (addRssiOffset floats temperature p)
      receiveLoop ctx floats counter temperature left (nbPktFound + 1) rx pktData
    else
      let pktData ← write pktData nbPktFound p
      return (status, rx, pktData)

/-- `lgw_receive` -/
def lgwReceive (ctx : RxContext) (floats : RxFloats) (s : RxState) (input : ReceiveInput)
    (maxPkt : BitVec 8) (pktData : Vector LgwPktRx n) :
    Except OutOfBounds (Received × RxState × Vector LgwPktRx n) := do
  let (status, rx) ← sx1302Fetch s.rx input.fifo
  if status ≠ .success then return (.error, { s with rx := rx }, pktData)
  else
    let counter := sx1302Update s.counter input.reads
    let nbPktFetched := rx.bufferPktNb
    if nbPktFetched = 0#8 then return (.found 0, ⟨rx, counter⟩, pktData)
    else
      match input.temperature with
      | none => return (.error, ⟨rx, counter⟩, pktData)
      | some temperature =>
          let nbPktFound := (if nbPktFetched ≤ maxPkt then nbPktFetched else maxPkt).toNat
          match (← receiveLoop ctx floats counter temperature nbPktFound 0 rx pktData) with
          | (.warning, rx, pktData) => return (.found 0, ⟨rx, counter⟩, pktData)
          | (.error, rx, pktData) => return (.error, ⟨rx, counter⟩, pktData)
          | (.success, rx, pktData) =>
              if 0 < nbPktFound ∧ ctx.ftimeEnable = true then
                let (pktData, nbPktFound) := mergePackets pktData nbPktFound
                return (.found nbPktFound, ⟨rx, counter⟩, pktData)
              else return (.found nbPktFound, ⟨rx, counter⟩, pktData)

end DraginoFwd.Hal

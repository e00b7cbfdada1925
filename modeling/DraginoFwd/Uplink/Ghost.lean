import DraginoFwd.Hal
import DraginoFwd.Lib.RingBuffer
import DraginoFwd.Lib.Transition

/-!
# The ghost stream

`thread_ghost` stores the datagrams of a node server in a ring of `ghstNmRcv` slots, and `thread_up`
takes them out with `ghost_get`. The lock protects the two positions only: the copy into a slot and
the decoding of a slot run beside each other. One step of either side is one step here, and an
access outside of an array is an `OutOfBounds`.

What has been returned and what is still in the buffer make up the accepted datagrams, in order
(`reachable_ghostFifo`), as long as no datagram claims more payload than `payload` of
`struct lgw_pkt_rx_s` takes, and none fills the last slot to its end, where the terminator falls off
the buffer. The other datagrams are well formed too, and overflow an array
(`long_payload_overflows`).
-/

set_option autoImplicit false

namespace DraginoFwd.Uplink

open DraginoFwd.Hal
open DraginoFwd.Lib.Memory
open DraginoFwd.Lib.RingBuffer
open DraginoFwd.Lib.Transition

/-- `GHST_MIN_PACKETSIZE` -/
abbrev ghstMinPacketsize : Nat := 38
/-- `GHST_RX_BUFFSIZE` -/
abbrev ghstRxBuffsize : Nat := 320
/-- `GHST_NM_RCV` -/
abbrev ghstNmRcv : Nat := 12
/-- `PROTOCOL_VERSION` -/
def ghostVersion : BitVec 8 := 2#8
/-- `GHOST_DATA` -/
def ghostData : BitVec 8 := 11#8

/-! ## Records -/

/-- `u8`: a byte of a record. -/
def u8 (p : List (BitVec 8)) (i : Nat) : BitVec 8 := p.getD i 0#8
/-- `u16`: two bytes of a record, the higher one first. -/
def u16 (p : List (BitVec 8)) (i : Nat) : BitVec 16 :=
  (u8 p (i + 1)).setWidth 16 + (u8 p i).setWidth 16 <<< 8
/-- `u32`: four bytes of a record, the highest one first. -/
def u32 (p : List (BitVec 8)) (i : Nat) : BitVec 32 :=
  (u8 p (i + 3)).setWidth 32 + (u8 p (i + 2)).setWidth 32 <<< 8 +
    (u8 p (i + 1)).setWidth 32 <<< 16 + (u8 p i).setWidth 32 <<< 24

/-- The `size` field of a record. -/
def sizeField (record : List (BitVec 8)) : Nat := (u16 record 36).toNat

/-- The ring of slots, `buffRX`. -/
abbrev BuffRx := Vector (BitVec 8) (ghstRxBuffsize * ghstNmRcv)

/-- The fields that `readRX` sets, from the record `b`. The others keep what the caller's packet has
in them. -/
def setRX (p : LgwPktRx) (b : List (BitVec 8)) (payload : Vector (BitVec 8) 256) : LgwPktRx :=
  { p with
    freqHz := u32 b 0
    ifChain := u8 b 4
    status := u8 b 5
    countUs := u32 b 6
    rfChain := u8 b 10
    modulation := u8 b 11
    bandwidth := u8 b 12
    datarate := u32 b 13
    coderate := u8 b 17
    rssis := u32 b 18
    snr := u32 b 22
    snrMin := u32 b 26
    snrMax := u32 b 30
    crc := u16 b 34
    size := u16 b 36
    payload := payload }

/-- `readRX` of the record at `b` in the ring: the fixed fields, and the payload of the size that is
among them. -/
def readRX (p : LgwPktRx) (buffRx : BuffRx) (b : Nat) : Except OutOfBounds LgwPktRx :=
  (slice buffRx b ghstMinPacketsize).bind fun head =>
    (slice buffRx (b + 38) (sizeField head)).bind fun bytes =>
      (copy p.payload 0 bytes).map fun payload => setRX p head payload

/-- What a record says about a packet, the payload as long as its size. -/
structure GhostPacket where
  freqHz : BitVec 32
  ifChain : BitVec 8
  status : BitVec 8
  countUs : BitVec 32
  rfChain : BitVec 8
  modulation : BitVec 8
  bandwidth : BitVec 8
  datarate : BitVec 32
  coderate : BitVec 8
  rssis : BitVec 32
  snr : BitVec 32
  snrMin : BitVec 32
  snrMax : BitVec 32
  crc : BitVec 16
  size : BitVec 16
  payload : List (BitVec 8)
  deriving DecidableEq

/-- The packet that a record stands for. -/
def parseRecord (b : List (BitVec 8)) : GhostPacket where
  freqHz := u32 b 0
  ifChain := u8 b 4
  status := u8 b 5
  countUs := u32 b 6
  rfChain := u8 b 10
  modulation := u8 b 11
  bandwidth := u8 b 12
  datarate := u32 b 13
  coderate := u8 b 17
  rssis := u32 b 18
  snr := u32 b 22
  snrMin := u32 b 26
  snrMax := u32 b 30
  crc := u16 b 34
  size := u16 b 36
  payload := (b.drop 38).take (sizeField b)

/-- The packet in a `struct lgw_pkt_rx_s`. -/
def ghostPacket (p : LgwPktRx) : GhostPacket where
  freqHz := p.freqHz
  ifChain := p.ifChain
  status := p.status
  countUs := p.countUs
  rfChain := p.rfChain
  modulation := p.modulation
  bandwidth := p.bandwidth
  datarate := p.datarate
  coderate := p.coderate
  rssis := p.rssis
  snr := p.snr
  snrMin := p.snrMin
  snrMax := p.snrMax
  crc := p.crc
  size := p.size
  payload := p.payload.toList.take p.size.toNat

/-! ## The two sides -/

/-- Where `thread_ghost` is: waiting for a datagram, behind the full test, or behind the copy. -/
inductive GhostProducer where
  | idle
  | tested (record : List (BitVec 8)) (next : Nat)
  | copied (record : List (BitVec 8)) (next : Nat)

/-- Where the reader is: outside of `ghost_get`, or in its loop with the number of packets to get
and those that it has got. -/
inductive GhostReader where
  | idle
  | reading (maxPkt getPkt : Nat) (got : List LgwPktRx)

/-- The ring, its two positions and the two sides. The records that were published and the packets
that the calls returned are kept for the statement of the property. -/
structure GhostState where
  buffRx : BuffRx
  ghstBgn : BitVec 8
  ghstEnd : BitVec 8
  producer : GhostProducer
  reader : GhostReader
  accepted : List (List (BitVec 8))
  returned : List LgwPktRx

/-- The steps of `thread_ghost` (a datagram with the full test, the copy, the new position) and of
`ghost_get` (the number of packets, a packet with the old contents of the caller's, the new
position). -/
inductive GhostEvent where
  | recv (buffDown : List (BitVec 8))
  | copy
  | publish
  | count (maxPkt : Nat)
  | decode (old : LgwPktRx)
  | finish

/-- The test of a datagram. -/
def isGhostData (buffDown : List (BitVec 8)) : Bool :=
  4 + ghstMinPacketsize ≤ buffDown.length && buffDown.length ≤ 4 + ghstRxBuffsize &&
    u8 buffDown 0 == ghostVersion && u8 buffDown 3 == ghostData

/-- The position behind the free slot. -/
def nextBgn (ghstBgn : BitVec 8) : Nat := (ghstBgn.toNat + 1) % ghstNmRcv

/-- The record that a datagram brings into the ring: it respects the protocol, and the ring is not
full. -/
def GhostState.accepts (s : GhostState) (buffDown : List (BitVec 8)) : Option (List (BitVec 8)) :=
  if isGhostData buffDown && !(nextBgn s.ghstBgn == s.ghstEnd.toNat) then some (buffDown.drop 4)
  else none

/-- `avail` of `ghost_get`. -/
def GhostState.avail (s : GhostState) : Nat :=
  (s.ghstBgn.toNat + ghstNmRcv - s.ghstEnd.toNat) % ghstNmRcv

/-- One step, where it can happen. -/
def ghostStep (s : GhostState) : GhostEvent → Option (Except OutOfBounds GhostState)
  | .recv buffDown =>
      match s.producer with
      | .idle =>
          match s.accepts buffDown with
          | some record => some (.ok { s with producer := .tested record (nextBgn s.ghstBgn) })
          | none => some (.ok s)
      | _ => none
  | .copy =>
      match s.producer with
      | .tested record next =>
          -- `msg_len - 3` bytes from the fourth one on: the record and the terminator behind it
          some ((copy s.buffRx (s.ghstBgn.toNat * ghstRxBuffsize) (record ++ [0#8])).map
            fun buffRx => { s with buffRx := buffRx, producer := .copied record next })
      | _ => none
  | .publish =>
      match s.producer with
      | .copied record next =>
          some (.ok { s with
            ghstBgn := BitVec.ofNat 8 next
            producer := .idle
            accepted := s.accepted ++ [record] })
      | _ => none
  | .count maxPkt =>
      match s.reader with
      | .idle =>
          let getPkt := if s.avail < maxPkt then s.avail else maxPkt
          some (.ok { s with reader := .reading maxPkt getPkt [] })
      | _ => none
  | .decode old =>
      match s.reader with
      | .reading maxPkt getPkt got =>
          if got.length < getPkt then
            let ind := (s.ghstEnd.toNat + got.length) % ghstNmRcv
            some ((readRX old s.buffRx (ind * ghstRxBuffsize)).map fun p =>
              { s with reader := .reading maxPkt getPkt (got ++ [p]) })
          else none
      | _ => none
  | .finish =>
      match s.reader with
      | .reading _ getPkt got =>
          if got.length < getPkt then none
          else some (.ok { s with
            ghstEnd := BitVec.ofNat 8 ((s.ghstEnd.toNat + getPkt) % ghstNmRcv)
            reader := .idle
            returned := s.returned ++ got })
      | _ => none

/-- A step that stays inside the arrays. -/
def ghostNext (s : GhostState) (e : GhostEvent) : Option GhostState :=
  (ghostStep s e).bind Except.toOption

/-- An empty ring. -/
def ghostStart : GhostState :=
  ⟨Vector.replicate _ 0#8, 0#8, 0#8, .idle, .idle, [], []⟩

/-! ## The condition and the property -/

/-- A datagram that respects the protocol has a size field that covers no more bytes than it
holds. -/
def WellFormed (_ : GhostState) (e : GhostEvent) : Prop :=
  ∀ buffDown, e = .recv buffDown → isGhostData buffDown →
    ghstMinPacketsize + sizeField (buffDown.drop 4) ≤ (buffDown.drop 4).length

/-- A record that comes into the ring has no more payload than `payload` takes, and leaves room for
the terminator in the last slot. -/
def FitsArrays (s : GhostState) (e : GhostEvent) : Prop :=
  ∀ buffDown, e = .recv buffDown → ∀ record ∈ s.accepts buffDown,
    sizeField record ≤ 256 ∧ (record.length = ghstRxBuffsize → s.ghstBgn.toNat + 1 ≠ ghstNmRcv)

/-- The bytes of a slot. -/
def slotBytes (buffRx : BuffRx) (i : Nat) : List (BitVec 8) :=
  (buffRx.toList.drop (i * ghstRxBuffsize)).take ghstRxBuffsize

/-- The packets in the ring, the oldest first. -/
def GhostState.buffered (s : GhostState) : List GhostPacket :=
  (List.range s.avail).map fun i =>
    parseRecord (slotBytes s.buffRx ((s.ghstEnd.toNat + i) % ghstNmRcv))

/-- The ring is a bounded queue that loses nothing: the packets returned and those in the ring are
the accepted ones in order; no call gets more than it asks for; the ring has at most one slot less
than its size in use; the positions stay in it; and no step leaves an array. -/
structure GhostFifo (s : GhostState) : Prop where
  lossless : s.returned.map ghostPacket ++ s.buffered = s.accepted.map parseRecord
  perCall : ∀ maxPkt getPkt got, s.reader = .reading maxPkt getPkt got →
    getPkt ≤ maxPkt ∧ got.length ≤ getPkt
  bounded : s.buffered.length ≤ ghstNmRcv - 1
  positions : s.ghstBgn.toNat < ghstNmRcv ∧ s.ghstEnd.toNat < ghstNmRcv
  inside : ∀ e r, ghostStep s e = some r → ∃ t, r = .ok t

/-! ## Records and slots -/

/-- What `thread_ghost` and the datagram promise of a record: it has all fixed fields and the
payload that it claims, and fits a slot. -/
structure RecordOk (record : List (BitVec 8)) : Prop where
  complete : ghstMinPacketsize + sizeField record ≤ record.length
  fits : record.length ≤ ghstRxBuffsize

/-- Slot `i` begins with the record. -/
def SlotHolds (buffRx : BuffRx) (i : Nat) (record : List (BitVec 8)) : Prop :=
  (buffRx.toList.drop (i * ghstRxBuffsize)).take record.length = record

theorem u8_take {b : List (BitVec 8)} {n i : Nat} (h : i < n) : u8 (b.take n) i = u8 b i := by
  rw [u8, u8, List.getD_eq_getElem?_getD, List.getD_eq_getElem?_getD, List.getElem?_take,
    if_pos h]

theorem u16_take {b : List (BitVec 8)} {n i : Nat} (h : i + 1 < n) :
    u16 (b.take n) i = u16 b i := by
  rw [u16, u16, u8_take h, u8_take (by omega)]

theorem u32_take {b : List (BitVec 8)} {n i : Nat} (h : i + 3 < n) :
    u32 (b.take n) i = u32 b i := by
  rw [u32, u32, u8_take h, u8_take (by omega), u8_take (by omega), u8_take (by omega)]

/-- A packet depends on the bytes that its record claims, and on no byte behind them. -/
theorem parseRecord_take {b : List (BitVec 8)} {n : Nat}
    (h : ghstMinPacketsize + sizeField b ≤ n) : parseRecord (b.take n) = parseRecord b := by
  have hmin : ghstMinPacketsize = 38 := rfl
  have hsize : sizeField (b.take n) = sizeField b := by
    rw [sizeField, sizeField, u16_take (by omega)]
  have hpayload : ((b.take n).drop 38).take (sizeField b) = (b.drop 38).take (sizeField b) := by
    rw [List.drop_take, List.take_take, Nat.min_eq_left (by omega)]
  simp (disch := omega) only [parseRecord, u8_take, u16_take, u32_take, hsize, hpayload]

/-- The packet of a slot is the packet of the record that it holds. -/
theorem parseRecord_slotBytes {buffRx : BuffRx} {i : Nat} {record : List (BitVec 8)}
    (hslot : SlotHolds buffRx i record) (hok : RecordOk record) :
    parseRecord (slotBytes buffRx i) = parseRecord record := by
  have hprefix : (slotBytes buffRx i).take record.length = record := by
    rw [slotBytes, List.take_take, Nat.min_eq_left hok.fits]
    exact hslot
  have hmin : ghstMinPacketsize = 38 := rfl
  have hcomplete := hok.complete
  have hsize : sizeField (slotBytes buffRx i) = sizeField record := by
    rw [← hprefix, sizeField, sizeField, u16_take (by omega)]
  have hclaim : ghstMinPacketsize + sizeField (slotBytes buffRx i) ≤ record.length := by
    rw [hsize]
    exact hcomplete
  rw [← parseRecord_take hclaim, hprefix]

/-- A slot lies in the ring. -/
theorem slot_fits {i k : Nat} (hi : i < ghstNmRcv) (hk : k ≤ ghstRxBuffsize) :
    i * ghstRxBuffsize + k ≤ ghstRxBuffsize * ghstNmRcv := by
  simp only [ghstRxBuffsize, ghstNmRcv] at *
  omega

/-- A position is a number of one byte. -/
theorem slot_mod_eq (i : Nat) : i % ghstNmRcv % 2 ^ 8 = i % ghstNmRcv := by
  have hlt : i % ghstNmRcv < ghstNmRcv := Nat.mod_lt _ (by decide)
  simp only [ghstNmRcv] at *
  omega

theorem setRX_take (p : LgwPktRx) {b : List (BitVec 8)} (payload : Vector (BitVec 8) 256) :
    setRX p (b.take ghstMinPacketsize) payload = setRX p b payload := by
  have hmin : ghstMinPacketsize = 38 := rfl
  simp (disch := omega) only [setRX, u8_take, u16_take, u32_take]

theorem RecordOk.payload_length {record : List (BitVec 8)} (h : RecordOk record) :
    ((record.drop 38).take (sizeField record)).length = sizeField record := by
  have hmin : ghstMinPacketsize = 38 := rfl
  have hcomplete := h.complete
  rw [List.length_take, List.length_drop]
  omega

/-- `readRX` in terms of the bytes that it reads. -/
theorem readRX_eq (p : LgwPktRx) {buffRx : BuffRx} {b : Nat} {head bytes : List (BitVec 8)}
    (hhead : slice buffRx b ghstMinPacketsize = .ok head)
    (hbytes : slice buffRx (b + 38) (sizeField head) = .ok bytes) :
    readRX p buffRx b = (copy p.payload 0 bytes).map fun payload => setRX p head payload := by
  rw [readRX, hhead, Except.bind, hbytes]
  rfl

/-- `readRX` of a slot takes the payload out of the record that the slot holds. -/
theorem readRX_slot {buffRx : BuffRx} {i : Nat} {record : List (BitVec 8)} (hi : i < ghstNmRcv)
    (hslot : SlotHolds buffRx i record) (hok : RecordOk record) (p : LgwPktRx) :
    readRX p buffRx (i * ghstRxBuffsize) =
      (copy p.payload 0 ((record.drop 38).take (sizeField record))).map fun payload =>
        setRX p record payload := by
  have hmin : ghstMinPacketsize = 38 := rfl
  have hcomplete := hok.complete
  have hfits := hok.fits
  have hhead : slice buffRx (i * ghstRxBuffsize) ghstMinPacketsize =
      .ok (record.take ghstMinPacketsize) := by
    have hin := slot_fits hi (k := ghstMinPacketsize) (by omega)
    have htake := congrArg (List.take ghstMinPacketsize) hslot
    rw [List.take_take, Nat.min_eq_left (by omega)] at htake
    rw [slice_ok _ _ _ hin, htake]
  have hsize : sizeField (record.take ghstMinPacketsize) = sizeField record := by
    rw [sizeField, sizeField, u16_take (by omega)]
  have hpayload : slice buffRx (i * ghstRxBuffsize + 38) (sizeField record) =
      .ok ((record.drop 38).take (sizeField record)) := by
    have hin := slot_fits hi (k := 38 + sizeField record) (by omega)
    rw [← Nat.add_assoc] at hin
    have htake := congrArg (fun l => (l.drop 38).take (sizeField record)) hslot
    rw [List.drop_take, List.take_take, Nat.min_eq_left (by omega), List.drop_drop] at htake
    rw [slice_ok _ _ _ hin, htake]
  rw [← hsize] at hpayload
  rw [readRX_eq p hhead hpayload, hsize]
  simp only [setRX_take]

/-- A packet whose payload fits is decoded to the packet that the record stands for. -/
theorem readRX_ok {buffRx : BuffRx} {i : Nat} {record : List (BitVec 8)} (hi : i < ghstNmRcv)
    (hslot : SlotHolds buffRx i record) (hok : RecordOk record) (hsize : sizeField record ≤ 256)
    (p : LgwPktRx) : ∃ p', readRX p buffRx (i * ghstRxBuffsize) = .ok p' ∧
      ghostPacket p' = parseRecord record := by
  have hlen := hok.payload_length
  obtain ⟨payload, hcopy, hlist⟩ := copy_spec p.payload 0 ((record.drop 38).take (sizeField record))
    (by omega)
  refine ⟨setRX p record payload, ?_, ?_⟩
  · rw [readRX_slot hi hslot hok, hcopy]
    rfl
  · have hpayload : payload.toList.take (sizeField record) =
        (record.drop 38).take (sizeField record) := by
      rw [hlist, List.take_zero, List.nil_append, List.take_left' hlen]
    simp only [ghostPacket, setRX, parseRecord]
    rw [← hpayload]
    rfl

/-- A packet whose payload does not fit is written behind the payload array. -/
theorem readRX_overflow {buffRx : BuffRx} {i : Nat} {record : List (BitVec 8)} (hi : i < ghstNmRcv)
    (hslot : SlotHolds buffRx i record) (hok : RecordOk record) (hsize : 256 < sizeField record)
    (p : LgwPktRx) : ∃ fault, readRX p buffRx (i * ghstRxBuffsize) = .error fault := by
  have hlen := hok.payload_length
  obtain ⟨fault, hcopy⟩ := copy_error p.payload 0 ((record.drop 38).take (sizeField record))
    (List.ne_nil_of_length_pos (by omega)) (by omega)
  refine ⟨fault, ?_⟩
  rw [readRX_slot hi hslot hok, hcopy]
  rfl

/-- The copy of a record with its terminator fills the free slot and spares every slot but the next
one. -/
theorem copy_record (buffRx : BuffRx) {j : Nat} {record : List (BitVec 8)} (hj : j < ghstNmRcv)
    (hfits : record.length ≤ ghstRxBuffsize)
    (hlast : record.length = ghstRxBuffsize → j + 1 ≠ ghstNmRcv) :
    ∃ buffRx', copy buffRx (j * ghstRxBuffsize) (record ++ [0#8]) = .ok buffRx' ∧
      SlotHolds buffRx' j record ∧
      ∀ i other, i ≠ j → i ≠ (j + 1) % ghstNmRcv → other.length ≤ ghstRxBuffsize →
        SlotHolds buffRx i other → SlotHolds buffRx' i other := by
  have hlen : (record ++ [0#8]).length = record.length + 1 := by simp
  have hfit : j * ghstRxBuffsize + (record ++ [0#8]).length ≤ ghstRxBuffsize * ghstNmRcv := by
    rw [hlen]
    simp only [ghstRxBuffsize, ghstNmRcv] at *
    omega
  obtain ⟨buffRx', hcopy, -⟩ := copy_spec buffRx (j * ghstRxBuffsize) (record ++ [0#8]) hfit
  refine ⟨buffRx', hcopy, ?_, ?_⟩
  · have hself := congrArg (List.take record.length) (copy_self hcopy hfit)
    rw [List.take_take, Nat.min_eq_left (by omega), List.take_left' rfl] at hself
    exact hself
  · intro i other hne hnext hother hslot
    have hout : i * ghstRxBuffsize + other.length ≤ j * ghstRxBuffsize ∨
        j * ghstRxBuffsize + (record ++ [0#8]).length ≤ i * ghstRxBuffsize := by
      rw [hlen]
      simp only [ghstRxBuffsize, ghstNmRcv] at *
      -- the terminator reaches the first byte of the next slot at most
      omega
    unfold SlotHolds at hslot ⊢
    rw [copy_window hcopy hfit hout]
    exact hslot

/-! ## The invariant -/

/-- What the producer knows between its steps: there is room for its record, and the record is in
the free slot once it has been copied. -/
def ProducerOk (s : GhostState) (q : List (List (BitVec 8))) : GhostProducer → Prop
  | .idle => True
  | .tested record next =>
      next = nextBgn s.ghstBgn ∧ q.length + 1 < ghstNmRcv ∧
        (RecordOk record ∧ sizeField record ≤ 256) ∧
        (record.length = ghstRxBuffsize → s.ghstBgn.toNat + 1 ≠ ghstNmRcv)
  | .copied record next =>
      next = nextBgn s.ghstBgn ∧ q.length + 1 < ghstNmRcv ∧
        (RecordOk record ∧ sizeField record ≤ 256) ∧
        SlotHolds s.buffRx s.ghstBgn.toNat record

/-- What the reader knows in its loop: it gets no more than it asked for and than there are, and has
got the oldest ones. -/
def ReaderOk (q : List (List (BitVec 8))) : GhostReader → Prop
  | .idle => True
  | .reading maxPkt getPkt got =>
      getPkt ≤ maxPkt ∧ getPkt ≤ q.length ∧ got.length ≤ getPkt ∧
        got.map ghostPacket = (q.take got.length).map parseRecord

/-- The ring stands for the records `q`. -/
structure GhostInv (s : GhostState) (q : List (List (BitVec 8))) : Prop where
  ring : Represents ghstNmRcv (SlotHolds s.buffRx) s.ghstBgn.toNat s.ghstEnd.toNat q
  records : ∀ record ∈ q, RecordOk record ∧ sizeField record ≤ 256
  lossless : s.returned.map ghostPacket ++ q.map parseRecord = s.accepted.map parseRecord
  producer : ProducerOk s q s.producer
  reader : ReaderOk q s.reader

theorem ghostInv_ghostStart : GhostInv ghostStart [] where
  ring := represents_empty (by decide)
  records := by simp
  lossless := rfl
  producer := trivial
  reader := trivial

theorem GhostInv.avail {s : GhostState} {q : List (List (BitVec 8))} (h : GhostInv s q) :
    s.avail = q.length := h.ring.avail

/-- The slots between the positions hold the packets of the records. -/
theorem GhostInv.buffered {s : GhostState} {q : List (List (BitVec 8))} (h : GhostInv s q) :
    s.buffered = q.map parseRecord := by
  apply List.ext_getElem?
  intro i
  rw [GhostState.buffered, h.avail, List.getElem?_map, List.getElem?_map]
  rcases Nat.lt_or_ge i q.length with hi | hi
  · rw [List.getElem?_range hi, List.getElem?_eq_getElem hi]
    have hslot := h.ring.slots i q[i] (List.getElem?_eq_getElem hi)
    have hok := (h.records q[i] (List.getElem_mem hi)).1
    exact congrArg some (parseRecord_slotBytes hslot hok)
  · rw [List.getElem?_eq_none (by simpa using hi), List.getElem?_eq_none hi]
    rfl

/-! ## The steps of the producer -/

/-- A datagram that is accepted brings a record that fits, into a ring with room. -/
theorem GhostInv.recv {s : GhostState} {q : List (List (BitVec 8))} (h : GhostInv s q)
    {buffDown record : List (BitVec 8)} (haccepts : s.accepts buffDown = some record)
    (hwell : WellFormed s (.recv buffDown)) (hfits : FitsArrays s (.recv buffDown)) :
    GhostInv { s with producer := .tested record (nextBgn s.ghstBgn) } q := by
  obtain ⟨hsize, hlast⟩ := hfits buffDown rfl record haccepts
  rw [GhostState.accepts] at haccepts
  split at haccepts
  · next htest =>
    cases haccepts
    rw [Bool.and_eq_true, Bool.not_eq_true'] at htest
    obtain ⟨hdata, hroom⟩ := htest
    have hnotfull : ¬ (s.ghstBgn.toNat + 1) % ghstNmRcv = s.ghstEnd.toNat := by
      simpa [nextBgn] using hroom
    rw [h.ring.full_iff] at hnotfull
    have hlen := h.ring.length_lt
    -- the size test of the datagram leaves one slot for its record
    have hbytes : buffDown.length ≤ 4 + ghstRxBuffsize := by
      simp only [isGhostData, Bool.and_eq_true, decide_eq_true_eq] at hdata
      exact hdata.1.1.2
    have hok : RecordOk (buffDown.drop 4) := by
      refine ⟨hwell buffDown rfl hdata, ?_⟩
      rw [List.length_drop]
      omega
    exact ⟨h.ring, h.records, h.lossless, ⟨rfl, by omega, ⟨hok, hsize⟩, hlast⟩, h.reader⟩
  · cases haccepts

/-- The copy fills the free slot and leaves the others alone. -/
theorem GhostInv.copy {s : GhostState} {q : List (List (BitVec 8))} (h : GhostInv s q)
    {record : List (BitVec 8)} {next : Nat} (hproducer : s.producer = .tested record next) :
    ∃ buffRx, Lib.Memory.copy s.buffRx (s.ghstBgn.toNat * ghstRxBuffsize) (record ++ [0#8]) =
        .ok buffRx ∧
      GhostInv { s with buffRx := buffRx, producer := .copied record next } q := by
  have hp := h.producer
  rw [hproducer] at hp
  obtain ⟨hnext, hroom, hrecord, hlast⟩ := hp
  obtain ⟨buffRx, hcopy, hself, hothers⟩ :=
    copy_record s.buffRx h.ring.bgn_lt hrecord.1.fits hlast
  refine ⟨buffRx, hcopy, ?_, h.records, h.lossless, ⟨hnext, hroom, hrecord, hself⟩, h.reader⟩
  -- the terminator reaches into the next slot, which is free as well
  apply h.ring.mono
  intro i other hi hslot
  have hlt := (List.getElem?_eq_some_iff.1 hi).1
  have hfits := (h.records other (List.mem_of_getElem? hi)).1.fits
  exact hothers _ other (h.ring.slot_ne_bgn hlt) (h.ring.slot_ne_next hroom hlt) hfits hslot

/-- The new position makes the copied record the newest one of the ring. -/
theorem GhostInv.publish {s : GhostState} {q : List (List (BitVec 8))} (h : GhostInv s q)
    {record : List (BitVec 8)} {next : Nat} (hproducer : s.producer = .copied record next) :
    GhostInv { s with
      ghstBgn := BitVec.ofNat 8 next
      producer := .idle
      accepted := s.accepted ++ [record] } (q ++ [record]) := by
  have hp := h.producer
  rw [hproducer] at hp
  obtain ⟨hnext, hroom, hrecord, hslot⟩ := hp
  have hpos : (BitVec.ofNat 8 next).toNat = (s.ghstBgn.toNat + 1) % ghstNmRcv := by
    rw [hnext, nextBgn, BitVec.toNat_ofNat]
    exact slot_mod_eq _
  constructor
  · show Represents _ _ (BitVec.ofNat 8 next).toNat _ _
    rw [hpos]
    exact h.ring.push hroom hslot
  · intro r hr
    rcases List.mem_append.1 hr with hold | hnew
    · exact h.records r hold
    · rw [List.mem_singleton.1 hnew]
      exact hrecord
  · show _ = (s.accepted ++ [record]).map parseRecord
    rw [List.map_append, List.map_append, ← List.append_assoc, h.lossless]
  · trivial
  -- a record at the end of the ring changes nothing for a reader at its front
  · have hr := h.reader
    show ReaderOk (q ++ [record]) s.reader
    cases hreader : s.reader with
    | idle => trivial
    | reading maxPkt getPkt got =>
      rw [hreader] at hr
      obtain ⟨hmax, hget, hgot, hmap⟩ := hr
      refine ⟨hmax, ?_, hgot, ?_⟩
      · rw [List.length_append]
        omega
      · rw [List.take_append_of_le_length (by omega)]
        exact hmap

/-! ## The steps of the reader -/

/-- The loop starts with the smaller one of the two numbers. -/
theorem GhostInv.count {s : GhostState} {q : List (List (BitVec 8))} (h : GhostInv s q)
    (maxPkt : Nat) :
    GhostInv { s with
      reader := .reading maxPkt (if s.avail < maxPkt then s.avail else maxPkt) [] } q := by
  refine ⟨h.ring, h.records, h.lossless, h.producer, ?_⟩
  have havail := h.avail
  refine ⟨?_, ?_, Nat.zero_le _, rfl⟩
  · split <;> omega
  · split <;> omega

/-- An iteration decodes the oldest record that has not been decoded yet. -/
theorem GhostInv.decode {s : GhostState} {q : List (List (BitVec 8))} (h : GhostInv s q)
    {maxPkt getPkt : Nat} {got : List LgwPktRx}
    (hreader : s.reader = .reading maxPkt getPkt got) (hlt : got.length < getPkt)
    (old : LgwPktRx) :
    ∃ p, readRX old s.buffRx
        ((s.ghstEnd.toNat + got.length) % ghstNmRcv * ghstRxBuffsize) = .ok p ∧
      GhostInv { s with reader := .reading maxPkt getPkt (got ++ [p]) } q := by
  have hr := h.reader
  rw [hreader] at hr
  obtain ⟨hmax, hget, -, hmap⟩ := hr
  -- as many are buffered as were counted, for the producer only adds
  have hidx : got.length < q.length := by omega
  have hat := List.getElem?_eq_getElem hidx
  obtain ⟨hok, hsize⟩ := h.records q[got.length] (List.getElem_mem hidx)
  have hslot := h.ring.slots got.length q[got.length] hat
  have hind : (s.ghstEnd.toNat + got.length) % ghstNmRcv < ghstNmRcv :=
    Nat.mod_lt _ (by decide)
  obtain ⟨p, hread, hpacket⟩ := readRX_ok hind hslot hok hsize old
  refine ⟨p, hread, h.ring, h.records, h.lossless, h.producer, hmax, hget, ?_, ?_⟩
  · rw [List.length_append]
    exact hlt
  · rw [List.map_append, hmap, List.length_append, List.length_singleton, List.take_add_one, hat,
      List.map_append]
    simp [hpacket]

/-- The new position drops what has been decoded. -/
theorem GhostInv.finish {s : GhostState} {q : List (List (BitVec 8))} (h : GhostInv s q)
    {maxPkt getPkt : Nat} {got : List LgwPktRx}
    (hreader : s.reader = .reading maxPkt getPkt got) (hdone : ¬ got.length < getPkt) :
    GhostInv { s with
      ghstEnd := BitVec.ofNat 8 ((s.ghstEnd.toNat + getPkt) % ghstNmRcv)
      reader := .idle
      returned := s.returned ++ got } (q.drop getPkt) := by
  have hr := h.reader
  rw [hreader] at hr
  obtain ⟨-, hget, hgot, hmap⟩ := hr
  -- the loop has ended: `get_pkt` packets have been decoded, the oldest ones
  have hall : got.length = getPkt := by omega
  have hpos : (BitVec.ofNat 8 ((s.ghstEnd.toNat + getPkt) % ghstNmRcv)).toNat =
      (s.ghstEnd.toNat + getPkt) % ghstNmRcv := by
    rw [BitVec.toNat_ofNat]
    exact slot_mod_eq _
  constructor
  · show Represents _ _ _ (BitVec.ofNat 8 _).toNat _
    rw [hpos]
    exact h.ring.drop hget
  · intro record hrecord
    exact h.records record (List.mem_of_mem_drop hrecord)
  · show (s.returned ++ got).map ghostPacket ++ _ = _
    rw [List.map_append, hmap, hall, List.append_assoc, ← List.map_append, List.take_append_drop]
    exact h.lossless
  · -- the producer has more room than before
    have hlen : (q.drop getPkt).length ≤ q.length := by
      rw [List.length_drop]
      exact Nat.sub_le _ _
    have hp := h.producer
    show ProducerOk _ (q.drop getPkt) s.producer
    cases hproducer : s.producer with
    | idle => trivial
    | tested record next =>
      rw [hproducer] at hp
      exact ⟨hp.1, Nat.lt_of_le_of_lt (Nat.succ_le_succ hlen) hp.2.1, hp.2.2⟩
    | copied record next =>
      rw [hproducer] at hp
      exact ⟨hp.1, Nat.lt_of_le_of_lt (Nat.succ_le_succ hlen) hp.2.1, hp.2.2⟩
  · trivial

/-! ## Runs -/

/-- No step of a ring that stands for its records leaves an array, and the ring stands for its
records again when the datagrams fit. -/
theorem GhostInv.step {s : GhostState} {q : List (List (BitVec 8))} (h : GhostInv s q)
    {e : GhostEvent} {r : Except OutOfBounds GhostState} (hstep : ghostStep s e = some r) :
    ∃ t, r = .ok t ∧ (WellFormed s e → FitsArrays s e → ∃ q', GhostInv t q') := by
  cases e with
  | recv buffDown =>
    rw [ghostStep] at hstep
    split at hstep
    · split at hstep
      · next record haccepts =>
        cases hstep
        exact ⟨_, rfl, fun hwell hfits => ⟨q, h.recv haccepts hwell hfits⟩⟩
      · cases hstep
        exact ⟨s, rfl, fun _ _ => ⟨q, h⟩⟩
    · cases hstep
  | copy =>
    rw [ghostStep] at hstep
    split at hstep
    · next record next hproducer =>
      obtain ⟨buffRx, hcopy, hinv⟩ := h.copy hproducer
      rw [hcopy] at hstep
      cases hstep
      exact ⟨_, rfl, fun _ _ => ⟨q, hinv⟩⟩
    · cases hstep
  | publish =>
    rw [ghostStep] at hstep
    split at hstep
    · next record next hproducer =>
      cases hstep
      exact ⟨_, rfl, fun _ _ => ⟨_, h.publish hproducer⟩⟩
    · cases hstep
  | count maxPkt =>
    rw [ghostStep] at hstep
    split at hstep
    · cases hstep
      exact ⟨_, rfl, fun _ _ => ⟨q, h.count maxPkt⟩⟩
    · cases hstep
  | decode old =>
    rw [ghostStep] at hstep
    split at hstep
    · next maxPkt getPkt got hreader =>
      split at hstep
      · next hlt =>
        obtain ⟨p, hread, hinv⟩ := h.decode hreader hlt old
        dsimp only at hstep
        rw [hread] at hstep
        cases hstep
        exact ⟨_, rfl, fun _ _ => ⟨q, hinv⟩⟩
      · cases hstep
    · cases hstep
  | finish =>
    rw [ghostStep] at hstep
    split at hstep
    · next maxPkt getPkt got hreader =>
      split at hstep
      · cases hstep
      · next hdone =>
        cases hstep
        exact ⟨_, rfl, fun _ _ => ⟨_, h.finish hreader hdone⟩⟩
    · cases hstep

theorem GhostInv.next {s t : GhostState} {q : List (List (BitVec 8))} (h : GhostInv s q)
    {e : GhostEvent} (hnext : ghostNext s e = some t) (hwell : WellFormed s e)
    (hfits : FitsArrays s e) : ∃ q', GhostInv t q' := by
  rw [ghostNext, Option.bind_eq_some_iff] at hnext
  obtain ⟨r, hstep, hr⟩ := hnext
  obtain ⟨t', rfl, hinv⟩ := h.step hstep
  cases hr
  exact hinv hwell hfits

/-- A ring that stands for its records is the queue of the datagrams. -/
theorem GhostInv.fifo {s : GhostState} {q : List (List (BitVec 8))} (h : GhostInv s q) :
    GhostFifo s where
  lossless := by
    rw [h.buffered]
    exact h.lossless
  perCall := by
    intro maxPkt getPkt got hreader
    have hr := h.reader
    rw [hreader] at hr
    exact ⟨hr.1, hr.2.2.1⟩
  bounded := by
    rw [h.buffered, List.length_map]
    exact Nat.le_sub_one_of_lt h.ring.length_lt
  positions := ⟨h.ring.bgn_lt, h.ring.fin_lt⟩
  inside := by
    intro e r hstep
    obtain ⟨t, hr, -⟩ := h.step hstep
    exact ⟨t, hr⟩

/-- In every run in which the datagrams are well formed and fit the arrays the ring stands for some
records. -/
theorem reachable_ghostInv {s : GhostState}
    (h : Reachable (fun s => s = ghostStart)
      (Guarded (fun s e => WellFormed s e ∧ FitsArrays s e) (Steps ghostNext)) s) :
    ∃ q, GhostInv s q := by
  refine Reachable.invariant (P := fun s => ∃ q, GhostInv s q) ?_ ?_ h
  · intro s hs
    subst hs
    exact ⟨[], ghostInv_ghostStart⟩
  · intro s e t hs hst
    obtain ⟨q, hq⟩ := hs
    obtain ⟨⟨hwell, hfits⟩, hnext⟩ := hst
    exact hq.next hnext hwell hfits

/-- In every run in which the datagrams are well formed and fit the arrays the ghost stream is a
bounded queue that loses nothing. -/
theorem reachable_ghostFifo {s : GhostState}
    (h : Reachable (fun s => s = ghostStart)
      (Guarded (fun s e => WellFormed s e ∧ FitsArrays s e) (Steps ghostNext)) s) :
    GhostFifo s := by
  obtain ⟨q, hq⟩ := reachable_ghostInv h
  exact hq.fifo

/-! ## Reaching a state -/

/-- A datagram that is accepted passes its tests. -/
theorem ghostNext_recv {s : GhostState} {buffDown record : List (BitVec 8)}
    (hidle : s.producer = .idle) (haccepts : s.accepts buffDown = some record) :
    ghostNext s (.recv buffDown) =
      some { s with producer := .tested record (nextBgn s.ghstBgn) } := by
  have hstep : ghostStep s (.recv buffDown) =
      some (.ok { s with producer := .tested record (nextBgn s.ghstBgn) }) := by
    rw [ghostStep, hidle]
    dsimp only
    rw [haccepts]
  rw [ghostNext, hstep]
  rfl

section Reaching

variable (ok : GhostState → GhostEvent → Prop) {s : GhostState}

/-- A datagram that is accepted reaches the free slot, whatever the reader does. -/
theorem reachable_accept
    (hreach : Reachable (fun s => s = ghostStart) (Guarded ok (Steps ghostNext)) s)
    (hidle : s.producer = .idle) (hbgn : s.ghstBgn.toNat < ghstNmRcv)
    {buffDown record : List (BitVec 8)} (haccepts : s.accepts buffDown = some record)
    (hfits : record.length ≤ ghstRxBuffsize)
    (hlast : record.length = ghstRxBuffsize → s.ghstBgn.toNat + 1 ≠ ghstNmRcv)
    (hrecv : ok s (.recv buffDown)) (hothers : ∀ s e, (∀ buffDown, e ≠ .recv buffDown) → ok s e) :
    ∃ buffRx, SlotHolds buffRx s.ghstBgn.toNat record ∧
      Reachable (fun s => s = ghostStart) (Guarded ok (Steps ghostNext))
        { s with
          buffRx := buffRx
          ghstBgn := BitVec.ofNat 8 (nextBgn s.ghstBgn)
          producer := .idle
          accepted := s.accepted ++ [record] } := by
  obtain ⟨buffRx, hcopy, hslot, -⟩ := copy_record s.buffRx hbgn hfits hlast
  refine ⟨buffRx, hslot, ?_⟩
  let tested : GhostState := { s with producer := .tested record (nextBgn s.ghstBgn) }
  let copied : GhostState :=
    { s with buffRx := buffRx, producer := .copied record (nextBgn s.ghstBgn) }
  have hcopied : ghostNext tested .copy = some copied := by
    have hstep : ghostStep tested .copy = some (.ok copied) := by
      show some ((Lib.Memory.copy s.buffRx (s.ghstBgn.toNat * ghstRxBuffsize)
        (record ++ [0#8])).map _) = _
      rw [hcopy]
      rfl
    rw [ghostNext, hstep]
    rfl
  apply Reachable.next (e := .publish) _ ⟨hothers copied _ (by simp), rfl⟩
  apply Reachable.next (e := .copy) _ ⟨hothers tested _ (by simp), hcopied⟩
  exact hreach.next (e := .recv buffDown) ⟨hrecv, ghostNext_recv hidle haccepts⟩

end Reaching

/-- The record of a datagram that respects the protocol. -/
theorem length_of_isGhostData {buffDown : List (BitVec 8)} (hdata : isGhostData buffDown = true) :
    ghstMinPacketsize ≤ (buffDown.drop 4).length ∧ (buffDown.drop 4).length ≤ ghstRxBuffsize := by
  simp only [isGhostData, Bool.and_eq_true, decide_eq_true_eq] at hdata
  rw [List.length_drop]
  omega

/-- The state in which the first datagram has passed its tests. -/
def ghostTested (record : List (BitVec 8)) : GhostState :=
  { ghostStart with producer := .tested record 1 }

/-- The state in which the first record is in the ring and the reader is idle. -/
def ghostFirst (buffRx : BuffRx) (record : List (BitVec 8)) : GhostState :=
  ⟨buffRx, 1#8, 0#8, .idle, .idle, [record], []⟩

theorem accepts_ghostStart {buffDown : List (BitVec 8)} (hdata : isGhostData buffDown = true) :
    ghostStart.accepts buffDown = some (buffDown.drop 4) := by
  rw [GhostState.accepts, hdata]
  rfl

/-- The first datagram that respects the protocol passes its tests. -/
theorem ghostNext_first {buffDown : List (BitVec 8)} (hdata : isGhostData buffDown = true) :
    ghostNext ghostStart (.recv buffDown) = some (ghostTested (buffDown.drop 4)) :=
  ghostNext_recv rfl (accepts_ghostStart hdata)

/-- The first datagram that respects the protocol reaches the first slot. -/
theorem reachable_first_data (ok : GhostState → GhostEvent → Prop) {buffDown : List (BitVec 8)}
    (hdata : isGhostData buffDown = true) (hrecv : ok ghostStart (.recv buffDown))
    (hothers : ∀ s e, (∀ buffDown, e ≠ .recv buffDown) → ok s e) :
    ∃ buffRx, SlotHolds buffRx 0 (buffDown.drop 4) ∧
      Reachable (fun s => s = ghostStart) (Guarded ok (Steps ghostNext))
        (ghostFirst buffRx (buffDown.drop 4)) :=
  reachable_accept ok (Reachable.start rfl) rfl (by decide) (accepts_ghostStart hdata)
    (length_of_isGhostData hdata).2 (fun _ => by decide) hrecv hothers

/-- A datagram with the record. -/
def ghostDatagram (record : List (BitVec 8)) : List (BitVec 8) :=
  [ghostVersion, 0#8, 0#8, ghostData] ++ record

theorem isGhostData_ghostDatagram {record : List (BitVec 8)}
    (hmin : ghstMinPacketsize ≤ record.length) (hmax : record.length ≤ ghstRxBuffsize) :
    isGhostData (ghostDatagram record) = true := by
  have hlen : (ghostDatagram record).length = 4 + record.length := by
    rw [ghostDatagram, List.length_append]
    rfl
  rw [isGhostData, hlen]
  simp [ghostDatagram, u8, hmin, hmax]

/-- The first datagram with a record of the right size reaches the first slot. -/
theorem reachable_first (ok : GhostState → GhostEvent → Prop) {record : List (BitVec 8)}
    (hmin : ghstMinPacketsize ≤ record.length) (hmax : record.length ≤ ghstRxBuffsize)
    (hrecv : ok ghostStart (.recv (ghostDatagram record)))
    (hothers : ∀ s e, (∀ buffDown, e ≠ .recv buffDown) → ok s e) :
    ∃ buffRx, SlotHolds buffRx 0 record ∧
      Reachable (fun s => s = ghostStart) (Guarded ok (Steps ghostNext))
        (ghostFirst buffRx record) :=
  reachable_first_data ok (isGhostData_ghostDatagram hmin hmax) hrecv hothers

/-- The state in which the reader is about to decode the first record. -/
def ghostCounted (buffRx : BuffRx) (record : List (BitVec 8)) : GhostState :=
  ⟨buffRx, 1#8, 0#8, .idle, .reading 1 1 [], [record], []⟩

theorem ghostNext_count (buffRx : BuffRx) (record : List (BitVec 8)) :
    ghostNext (ghostFirst buffRx record) (.count 1) = some (ghostCounted buffRx record) := by
  simp [ghostNext, ghostStep, GhostState.avail, Except.toOption, ghostCounted, ghostFirst]

section Fitting

/-- Steps whose datagrams are well formed and fit the arrays. -/
abbrev Fitting (s : GhostState) : Prop :=
  Reachable (fun s => s = ghostStart)
    (Guarded (fun s e => WellFormed s e ∧ FitsArrays s e) (Steps ghostNext)) s

variable {s : GhostState}

/-- Records that fit the arrays with room to spare are taken into a ring that has room for them,
whatever the reader does. -/
theorem fitting_accepts (records : List (List (BitVec 8))) (bgn fin : Nat)
    (hrecords : ∀ record ∈ records, RecordOk record ∧ sizeField record ≤ 256 ∧
      record.length < ghstRxBuffsize)
    (hreach : Fitting s) (hidle : s.producer = .idle)
    (hbgn : s.ghstBgn.toNat = bgn) (hfin : s.ghstEnd.toNat = fin) (hbgnlt : bgn < 12)
    (hfinlt : fin < 12) (hroom : (bgn + 12 - fin) % 12 + records.length < 12) :
    ∃ buffRx, Fitting { s with
      buffRx := buffRx
      ghstBgn := BitVec.ofNat 8 ((bgn + records.length) % 12)
      producer := .idle
      accepted := s.accepted ++ records } := by
  induction records generalizing s bgn with
  | nil =>
    refine ⟨s.buffRx, ?_⟩
    have hsame : BitVec.ofNat 8 ((bgn + 0) % 12) = s.ghstBgn := by
      rw [Nat.add_zero, Nat.mod_eq_of_lt hbgnlt, ← hbgn, BitVec.ofNat_toNat, BitVec.setWidth_eq]
    rw [List.append_nil, List.length_nil, hsame, ← hidle]
    exact hreach
  | cons record records ih =>
    obtain ⟨hok, hsize, hshort⟩ := hrecords record List.mem_cons_self
    have hrest := fun other h => hrecords other (List.mem_cons_of_mem record h)
    rw [List.length_cons] at hroom
    have hmin : ghstMinPacketsize ≤ record.length := Nat.le_of_add_right_le hok.complete
    -- the ring has room for one more, so the datagram is accepted, copied and published
    have hnotfull : (nextBgn s.ghstBgn == s.ghstEnd.toNat) = false := by
      rw [beq_eq_false_iff_ne, nextBgn, hbgn, hfin]
      show (bgn + 1) % 12 ≠ fin
      omega
    have haccepts : s.accepts (ghostDatagram record) = some record := by
      rw [GhostState.accepts, isGhostData_ghostDatagram hmin hok.fits, hnotfull]
      rfl
    have hwell : WellFormed s (.recv (ghostDatagram record)) := by
      rintro buffDown heq -
      cases heq
      exact hok.complete
    have hfits : FitsArrays s (.recv (ghostDatagram record)) := by
      intro buffDown heq other hother
      cases heq
      rw [haccepts] at hother
      cases hother
      exact ⟨hsize, fun hfull => absurd hfull hshort.ne⟩
    obtain ⟨buffRx, -, hnext⟩ := reachable_accept _ hreach hidle (by rw [hbgn]; exact hbgnlt)
      haccepts hok.fits (fun hfull => absurd hfull hshort.ne) ⟨hwell, hfits⟩
      (fun s e he => ⟨fun _ heq => absurd heq (he _), fun _ heq => absurd heq (he _)⟩)
    have hpos : (BitVec.ofNat 8 (nextBgn s.ghstBgn)).toNat = (bgn + 1) % 12 := by
      rw [nextBgn, hbgn, BitVec.toNat_ofNat]
      exact slot_mod_eq _
    obtain ⟨buffRx', hall⟩ :=
      ih ((bgn + 1) % 12) hrest hnext rfl hpos hfin (Nat.mod_lt _ (by decide)) (by omega)
    refine ⟨buffRx', ?_⟩
    have hbgn' : ((bgn + 1) % 12 + records.length) % 12 = (bgn + (records.length + 1)) % 12 := by
      omega
    have haccepted : s.accepted ++ record :: records = s.accepted ++ [record] ++ records := by
      rw [List.append_assoc, List.singleton_append]
    rw [List.length_cons, haccepted, ← hbgn']
    exact hall

/-- A reader counts what there is. -/
theorem fitting_count (bgn fin maxPkt getPkt : Nat) (hreach : Fitting s)
    (hidle : s.reader = .idle) (hbgn : s.ghstBgn.toNat = bgn) (hfin : s.ghstEnd.toNat = fin)
    (hget : min ((bgn + 12 - fin) % 12) maxPkt = getPkt) :
    Fitting { s with reader := .reading maxPkt getPkt [] } := by
  have havail : s.avail = (bgn + 12 - fin) % 12 := by rw [GhostState.avail, hbgn, hfin]
  have hmin : (if s.avail < maxPkt then s.avail else maxPkt) = min s.avail maxPkt := by
    split
    · next hlt => exact (Nat.min_eq_left hlt.le).symm
    · next hge => exact (Nat.min_eq_right (Nat.le_of_not_lt hge)).symm
  refine hreach.next (e := .count maxPkt) ⟨⟨fun _ h => (nomatch h), fun _ h => (nomatch h)⟩, ?_⟩
  rw [Steps, ghostNext, ghostStep, hidle]
  dsimp only
  rw [hmin, havail, hget]
  rfl

/-- It decodes so many packets. -/
theorem fitting_decodes (count : Nat) (hreach : Fitting s) {maxPkt getPkt : Nat}
    {got : List LgwPktRx} (hreader : s.reader = .reading maxPkt getPkt got)
    (hcount : got.length + count ≤ getPkt) :
    ∃ more, more.length = count ∧
      Fitting { s with reader := .reading maxPkt getPkt (got ++ more) } := by
  induction count generalizing s got with
  | zero =>
    refine ⟨[], rfl, ?_⟩
    rw [List.append_nil, ← hreader]
    exact hreach
  | succ count ih =>
    obtain ⟨q, hq⟩ := reachable_ghostInv hreach
    obtain ⟨p, hread, -⟩ := hq.decode hreader (by omega) (.ofBytes [])
    have hnext : Fitting { s with reader := .reading maxPkt getPkt (got ++ [p]) } := by
      refine hreach.next (e := .decode (.ofBytes []))
        ⟨⟨fun _ h => (nomatch h), fun _ h => (nomatch h)⟩, ?_⟩
      rw [Steps, ghostNext, ghostStep, hreader]
      dsimp only
      rw [if_pos (by omega), hread]
      rfl
    obtain ⟨more, hlen, hall⟩ :=
      ih hnext rfl (by rw [List.length_append, List.length_singleton]; omega)
    refine ⟨p :: more, by rw [List.length_cons, hlen], ?_⟩
    have hgot : got ++ p :: more = got ++ [p] ++ more := by
      rw [List.append_assoc, List.singleton_append]
    rw [hgot]
    exact hall

/-- With all of them it returns. -/
theorem fitting_finish (fin : Nat) (hreach : Fitting s) {maxPkt getPkt : Nat}
    {got : List LgwPktRx} (hreader : s.reader = .reading maxPkt getPkt got)
    (hdone : getPkt ≤ got.length) (hfin : s.ghstEnd.toNat = fin) :
    Fitting { s with
      ghstEnd := BitVec.ofNat 8 ((fin + getPkt) % 12)
      reader := .idle
      returned := s.returned ++ got } := by
  refine hreach.next (e := .finish) ⟨⟨fun _ h => (nomatch h), fun _ h => (nomatch h)⟩, ?_⟩
  rw [Steps, ghostNext, ghostStep, hreader]
  dsimp only
  rw [if_neg (Nat.not_lt.mpr hdone), hfin]
  rfl

end Fitting

/-- A record with a payload of two bytes, and a number in front. -/
def shortRecord (i : Nat) : List (BitVec 8) :=
  BitVec.ofNat 8 i :: List.replicate 35 0#8 ++ [0#8, 2#8, 0xAA#8, BitVec.ofNat 8 i]

/-- The records with the numbers from `i` on. -/
def shortRecords (i count : Nat) : List (List (BitVec 8)) :=
  (List.range count).map fun k => shortRecord (i + k)

theorem shortRecords_fit (i count : Nat) : ∀ record ∈ shortRecords i count,
    RecordOk record ∧ sizeField record ≤ 256 ∧ record.length < ghstRxBuffsize := by
  intro record hrecord
  obtain ⟨k, -, rfl⟩ := List.mem_map.1 hrecord
  have hsize : sizeField (shortRecord (i + k)) = 2 := rfl
  have hlen : (shortRecord (i + k)).length = 40 := rfl
  refine ⟨⟨?_, ?_⟩, ?_, ?_⟩
  · rw [hsize, hlen]
  · rw [hlen]
    decide
  · rw [hsize]
    decide
  · rw [hlen]
    decide

/-- Fifteen records go through the ring of twelve slots: a call for three of them while four are
there and one more arrives, a call for ten when the ring is full, and both positions past the
end. -/
theorem reachable_ghostFifo_wraps :
    ∃ s, s.accepted = shortRecords 0 15 ∧
      s.returned.map ghostPacket = (shortRecords 0 13).map parseRecord ∧
      s.buffered = (shortRecords 13 2).map parseRecord ∧
      s.ghstBgn = 3#8 ∧ s.ghstEnd = 1#8 ∧ GhostFifo s := by
  -- of four records a call for three decodes one before a fifth arrives, and then the others
  obtain ⟨_, hfour⟩ := fitting_accepts _ 0 0 (shortRecords_fit 0 4) (Reachable.start rfl) rfl
    rfl rfl (by decide) (by decide) (by decide)
  have hcounted := fitting_count 4 0 3 3 hfour rfl rfl rfl (by decide)
  obtain ⟨first, hfirst, hone⟩ := fitting_decodes 1 hcounted rfl (by decide)
  obtain ⟨_, hfive⟩ := fitting_accepts _ 4 0 (shortRecords_fit 4 1) hone rfl
    rfl rfl (by decide) (by decide) (by decide)
  obtain ⟨more, hmore, hthree⟩ := fitting_decodes 2 hfive rfl (by simp [hfirst])
  have hpart := fitting_finish 0 hthree rfl (by simp [hfirst, hmore]) rfl
  -- nine more fill the ring over its end, and one call takes ten
  obtain ⟨_, hfull⟩ := fitting_accepts _ 5 3 (shortRecords_fit 5 9) hpart rfl
    rfl rfl (by decide) (by decide) (by decide)
  have hcounted' := fitting_count 2 3 10 10 hfull rfl rfl rfl (by decide)
  obtain ⟨rest, hrest, hten⟩ := fitting_decodes 10 hcounted' rfl (by decide)
  have hdone := fitting_finish 3 hten rfl (by simp [hrest]) rfl
  -- both positions are past the end when the last record arrives
  obtain ⟨_, hlast⟩ := fitting_accepts _ 2 1 (shortRecords_fit 14 1) hdone rfl
    rfl rfl (by decide) (by decide) (by decide)
  have hfifo := reachable_ghostFifo hlast
  -- what was returned is the front of what was accepted
  have haccepted : (shortRecords 0 15).map parseRecord =
      (shortRecords 0 13).map parseRecord ++ (shortRecords 13 2).map parseRecord := rfl
  have hsplit := hfifo.lossless.trans haccepted
  obtain ⟨hreturned, hbuffered⟩ := List.append_inj hsplit (by
    simp only [List.length_map, List.length_append, hfirst, hmore, hrest]
    rfl)
  exact ⟨_, rfl, hreturned, hbuffered, rfl, rfl, hfifo⟩

/-- A slot whose record claims more than `payload` takes cannot be decoded. -/
theorem ghostStep_decode_overflow {s : GhostState} {maxPkt getPkt : Nat} {record : List (BitVec 8)}
    (hreader : s.reader = .reading maxPkt getPkt []) (hget : 0 < getPkt)
    (hend : s.ghstEnd.toNat < ghstNmRcv) (hslot : SlotHolds s.buffRx s.ghstEnd.toNat record)
    (hok : RecordOk record) (hsize : 256 < sizeField record) (old : LgwPktRx) :
    ∃ fault, ghostStep s (.decode old) = some (.error fault) := by
  obtain ⟨fault, hread⟩ := readRX_overflow hend hslot hok hsize old
  refine ⟨fault, ?_⟩
  rw [ghostStep, hreader]
  show (if 0 < getPkt then _ else none) = _
  rw [if_pos hget]
  show some ((readRX old s.buffRx
    ((s.ghstEnd.toNat + 0) % ghstNmRcv * ghstRxBuffsize)).map _) = _
  rw [Nat.add_zero, Nat.mod_eq_of_lt hend, hread]
  rfl

/-- A record with a payload of 257 bytes. -/
def longRecord : List (BitVec 8) := List.replicate 36 0#8 ++ [1#8, 1#8] ++ List.replicate 257 0#8

theorem length_longRecord : longRecord.length = 295 := by
  rw [longRecord, List.length_append, List.length_append, List.length_replicate,
    List.length_replicate]
  rfl

theorem sizeField_longRecord : sizeField longRecord = 257 := rfl

theorem recordOk_longRecord : RecordOk longRecord where
  complete := by
    rw [length_longRecord, sizeField_longRecord]
  fits := by
    rw [length_longRecord]
    decide

/-- A well-formed datagram of 257 payload bytes is accepted, and `readRX` writes its last byte
behind the payload array of the packet. -/
theorem long_payload_overflows :
    ¬ ∀ s, Reachable (fun s => s = ghostStart) (Guarded WellFormed (Steps ghostNext)) s →
      GhostFifo s := by
  intro hall
  obtain ⟨buffRx, hslot, hreach⟩ :=
    reachable_first WellFormed (Nat.le_of_add_right_le recordOk_longRecord.complete)
      recordOk_longRecord.fits
      (by rintro buffDown heq -; cases heq; exact recordOk_longRecord.complete)
      (fun s e he buffDown heq => absurd heq (he buffDown))
  have hcounted := hreach.next (e := .count 1)
    ⟨fun _ heq => (nomatch heq), ghostNext_count buffRx longRecord⟩
  obtain ⟨fault, hdecode⟩ := ghostStep_decode_overflow (s := ghostCounted buffRx longRecord) rfl
    Nat.one_pos (by show (0#8).toNat < _; decide) hslot recordOk_longRecord
    (by rw [sizeField_longRecord]; decide) (.ofBytes [])
  obtain ⟨t, ht⟩ := (hall _ hcounted).inside _ _ hdecode
  cases ht

end DraginoFwd.Uplink

import DraginoFwd.Lib.Memory

/-!
# LoRaWAN data frames and their parser

`loRaMacParserData` is `LoRaMacParserData` of `mac-header-decode.c`: it reads a buffer of which the
first `bufSize` bytes are a frame, and a read outside the buffer is an error. `DataFrame` is what a
data frame means, with an options field whose length is the one its control byte gives. The parser
gives back every data frame of at most 255 bytes from its bytes (`loRaMacParserData_bytes`).
-/

set_option autoImplicit false

namespace DraginoFwd.Mac

open DraginoFwd.Lib.Memory

/-- `LORAMAC_MIC_FIELD_SIZE` -/
def loramacMicFieldSize : Nat := 4

/-- `FRAME_TYPE_JOIN_REQ` -/
def frameTypeJoinReq : BitVec 8 := 0#8
/-- `FRAME_TYPE_JOIN_ACCEPT` -/
def frameTypeJoinAccept : BitVec 8 := 1#8
/-- `FRAME_TYPE_DATA_UNCONFIRMED_UP` -/
def frameTypeDataUnconfirmedUp : BitVec 8 := 2#8
/-- `FRAME_TYPE_DATA_UNCONFIRMED_DOWN` -/
def frameTypeDataUnconfirmedDown : BitVec 8 := 3#8
/-- `FRAME_TYPE_DATA_CONFIRMED_UP` -/
def frameTypeDataConfirmedUp : BitVec 8 := 4#8
/-- `FRAME_TYPE_DATA_CONFIRMED_DOWN` -/
def frameTypeDataConfirmedDown : BitVec 8 := 5#8

/-- `MHDR.Bits.MType` -/
def mType (mhdr : BitVec 8) : BitVec 8 := mhdr >>> 5

/-- `FCtrl.Bits.FOptsLen` -/
def fOptsLen (fctrl : BitVec 8) : BitVec 8 := fctrl &&& 0x0F#8

/-- `LoRaMacParserStatus_t`, without the code for a null pointer. -/
inductive LoRaMacParserStatus where
  | success
  | fail
  deriving DecidableEq, Repr

/-- The fields of `LoRaMacMessageData_t` that the parser sets. `frmPayload` is the offset of the
payload in the buffer. -/
structure LoRaMacMessageData where
  mhdr : BitVec 8
  devAddr : BitVec 32
  fctrl : BitVec 8
  fcnt : BitVec 16
  fopts : List (BitVec 8)
  fport : BitVec 8
  frmPayload : Nat
  frmPayloadSize : BitVec 8
  mic : BitVec 32
  deriving DecidableEq, Repr

/-- A message cleared by `memset`. -/
def LoRaMacMessageData.zero : LoRaMacMessageData := ⟨0#8, 0#32, 0#8, 0#16, [], 0#8, 0, 0#8, 0#32⟩

/-- The port and the payload of a frame, which the header ends at `bufItr`: the port, the offset
and the size of the payload. -/
def parsePayload {n : Nat} (buffer : Vector (BitVec 8) n) (bufSize : BitVec 8) (bufItr : Nat) :
    Except OutOfBounds (BitVec 8 × Nat × BitVec 8) :=
  if (bufSize.toNat : Int) - bufItr - loramacMicFieldSize > 0 then do
    let fport ← read buffer bufItr
    .ok (fport, bufItr + 1,
      BitVec.ofInt 8 ((bufSize.toNat : Int) - (bufItr + 1 : Nat) - loramacMicFieldSize))
  else .ok (0#8, 0, 0#8)

/-- The MIC of a frame, its last four bytes. -/
def parseMic {n : Nat} (buffer : Vector (BitVec 8) n) (bufSize : BitVec 8) :
    Except OutOfBounds (BitVec 32) := do
  let m0 ← read buffer ((bufSize.toNat : Int) - loramacMicFieldSize)
  let m1 ← read buffer ((bufSize.toNat : Int) - loramacMicFieldSize + 1)
  let m2 ← read buffer ((bufSize.toNat : Int) - loramacMicFieldSize + 2)
  let m3 ← read buffer ((bufSize.toNat : Int) - loramacMicFieldSize + 3)
  .ok (le32 m0 m1 m2 m3)

/-- `LoRaMacParserData` on a message that was cleared before. -/
def loRaMacParserData {n : Nat} (buffer : Vector (BitVec 8) n) (bufSize : BitVec 8) :
    Except OutOfBounds (LoRaMacParserStatus × LoRaMacMessageData) := do
  let mhdr ← read buffer 0
  if mType mhdr = frameTypeJoinAccept ∨ mType mhdr = frameTypeJoinReq then
    .ok (.success, { LoRaMacMessageData.zero with mhdr := mhdr })
  else
    let a0 ← read buffer 1
    let a1 ← read buffer 2
    let a2 ← read buffer 3
    let a3 ← read buffer 4
    let fctrl ← read buffer 5
    let c0 ← read buffer 6
    let c1 ← read buffer 7
    if (fOptsLen fctrl).toNat ≤ 15 then
      let fopts ← slice buffer 8 (fOptsLen fctrl).toNat
      let (fport, frmPayload, frmPayloadSize) ←
        parsePayload buffer bufSize (8 + (fOptsLen fctrl).toNat)
      let mic ← parseMic buffer bufSize
      .ok (.success, ⟨mhdr, le32 a0 a1 a2 a3, fctrl, le16 c0 c1, fopts, fport, frmPayload,
        frmPayloadSize, mic⟩)
    else
      .ok (.fail, ⟨mhdr, le32 a0 a1 a2 a3, fctrl, le16 c0 c1, [], 0#8, 0, 0#8, 0#32⟩)

/-! ## Data frames -/

/-- A data frame: its header with the full counter, the options, the port with the payload, and the
MIC. -/
structure DataFrame where
  mhdr : BitVec 8
  devAddr : BitVec 32
  fctrl : BitVec 8
  counter : BitVec 32
  fopts : List (BitVec 8)
  body : Option (BitVec 8 × List (BitVec 8))
  mic : BitVec 32
  isData : mType mhdr ≠ frameTypeJoinAccept ∧ mType mhdr ≠ frameTypeJoinReq
  foptsLength : fopts.length = (fOptsLen fctrl).toNat

/-- The port and the payload as they stand in the frame. -/
def DataFrame.bodyBytes (f : DataFrame) : List (BitVec 8) :=
  match f.body with
  | none => []
  | some (fport, payload) => fport :: payload

/-- The eight bytes before the options. Of the counter the frame carries the low half. -/
def DataFrame.header (f : DataFrame) : List (BitVec 8) :=
  [f.mhdr, byteOf f.devAddr 0, byteOf f.devAddr 1, byteOf f.devAddr 2, byteOf f.devAddr 3,
    f.fctrl, byteOf f.counter 0, byteOf f.counter 1]

/-- The frame without its MIC. -/
def DataFrame.message (f : DataFrame) : List (BitVec 8) := f.header ++ f.fopts ++ f.bodyBytes

/-- The four bytes of a MIC. -/
def micBytes (mic : BitVec 32) : List (BitVec 8) :=
  [byteOf mic 0, byteOf mic 1, byteOf mic 2, byteOf mic 3]

/-- The frame as it is sent. -/
def DataFrame.bytes (f : DataFrame) : List (BitVec 8) := f.message ++ micBytes f.mic

/-- What the parser makes of the frame. -/
def DataFrame.parsed (f : DataFrame) : LoRaMacMessageData where
  mhdr := f.mhdr
  devAddr := f.devAddr
  fctrl := f.fctrl
  fcnt := f.counter.setWidth 16
  fopts := f.fopts
  fport := match f.body with
    | none => 0#8
    | some (fport, _) => fport
  frmPayload := match f.body with
    | none => 0
    | some _ => 9 + f.fopts.length
  frmPayloadSize := match f.body with
    | none => 0#8
    | some (_, payload) => BitVec.ofNat 8 payload.length
  mic := f.mic

theorem DataFrame.length_message (f : DataFrame) :
    f.message.length = 8 + f.fopts.length + f.bodyBytes.length := by
  simp only [DataFrame.message, DataFrame.header, List.length_append, List.length_cons,
    List.length_nil]

theorem DataFrame.length_bodyBytes (f : DataFrame) {fport : BitVec 8} {payload : List (BitVec 8)}
    (h : f.body = some (fport, payload)) : f.bodyBytes.length = payload.length + 1 := by
  rw [DataFrame.bodyBytes, h, List.length_cons]

theorem DataFrame.length_bytes (f : DataFrame) : f.bytes.length = f.message.length + 4 := by
  simp [DataFrame.bytes, micBytes]

/-- The options field is at most 15 bytes long. -/
theorem fOptsLen_le (fctrl : BitVec 8) : (fOptsLen fctrl).toNat ≤ 15 := by
  rw [fOptsLen, BitVec.toNat_and]
  exact Nat.and_le_right

/-- What the parser has read when it returns: the first byte, and of a data frame also the byte that
tells the length of the options, and the payload. -/
theorem parser_cases {n : Nat} {buffer : Vector (BitVec 8) n} {bufSize : BitVec 8}
    {status : LoRaMacParserStatus} {macmsg : LoRaMacMessageData}
    (h : loRaMacParserData buffer bufSize = .ok (status, macmsg)) :
    status = .success ∧ read buffer 0 = .ok macmsg.mhdr ∧
      ((mType macmsg.mhdr = frameTypeJoinAccept ∨ mType macmsg.mhdr = frameTypeJoinReq) ∧
          macmsg.frmPayload = 0 ∧ macmsg.frmPayloadSize = 0#8 ∨
        ¬ (mType macmsg.mhdr = frameTypeJoinAccept ∨ mType macmsg.mhdr = frameTypeJoinReq) ∧
          read buffer 5 = .ok macmsg.fctrl ∧
          parsePayload buffer bufSize (8 + (fOptsLen macmsg.fctrl).toNat) =
            .ok (macmsg.fport, macmsg.frmPayload, macmsg.frmPayloadSize)) := by
  rw [loRaMacParserData] at h
  obtain ⟨mhdr, hmhdr, h⟩ := bind_eq_ok.1 h
  split at h
  · next hjoin =>
    cases h
    exact ⟨rfl, hmhdr, Or.inl ⟨hjoin, rfl, rfl⟩⟩
  · next hdata =>
    obtain ⟨a0, -, h⟩ := bind_eq_ok.1 h
    obtain ⟨a1, -, h⟩ := bind_eq_ok.1 h
    obtain ⟨a2, -, h⟩ := bind_eq_ok.1 h
    obtain ⟨a3, -, h⟩ := bind_eq_ok.1 h
    obtain ⟨fctrl, hfctrl, h⟩ := bind_eq_ok.1 h
    obtain ⟨c0, -, h⟩ := bind_eq_ok.1 h
    obtain ⟨c1, -, h⟩ := bind_eq_ok.1 h
    -- the options are never too long
    rw [if_pos (fOptsLen_le fctrl)] at h
    obtain ⟨fopts, -, h⟩ := bind_eq_ok.1 h
    obtain ⟨body, hbody, h⟩ := bind_eq_ok.1 h
    obtain ⟨mic, -, h⟩ := bind_eq_ok.1 h
    cases h
    exact ⟨rfl, hmhdr, Or.inr ⟨hdata, hfctrl, hbody⟩⟩

/-- The parser never gives up on a frame. -/
theorem parser_success {n : Nat} {buffer : Vector (BitVec 8) n} {bufSize : BitVec 8}
    {status : LoRaMacParserStatus} {macmsg : LoRaMacMessageData}
    (h : loRaMacParserData buffer bufSize = .ok (status, macmsg)) : status = .success :=
  (parser_cases h).1

section Parser

variable {n : Nat} {buffer : Vector (BitVec 8) n} {rest : List (BitVec 8)} (f : DataFrame)
  (hbuf : buffer.toList = f.bytes ++ rest)

include hbuf

theorem slice_fopts : slice buffer 8 (f.fopts.length : Int) = .ok f.fopts := by
  have hn : n = (f.bytes ++ rest).length := by rw [← hbuf, Vector.length_toList]
  have hfit : 8 + f.fopts.length ≤ n := by
    rw [hn, List.length_append, f.length_bytes, f.length_message]
    omega
  rw [slice_ok _ _ _ hfit, hbuf]
  simp [DataFrame.bytes, DataFrame.message, DataFrame.header]

theorem parsePayload_bytes (hlen : f.bytes.length ≤ 255) :
    parsePayload buffer (BitVec.ofNat 8 f.bytes.length) (8 + f.fopts.length) =
      .ok (f.parsed.fport, f.parsed.frmPayload, f.parsed.frmPayloadSize) := by
  have hsize : (BitVec.ofNat 8 f.bytes.length).toNat = f.bytes.length := by
    rw [BitVec.toNat_ofNat, Nat.mod_eq_of_lt (by omega)]
  have hbytes := f.length_bytes
  have hmsg := f.length_message
  have hmic : loramacMicFieldSize = 4 := rfl
  unfold parsePayload
  rw [hsize, hmic]
  cases hbody : f.body with
  | none =>
    have hbodyLen : f.bodyBytes.length = 0 := by rw [DataFrame.bodyBytes, hbody]; rfl
    rw [if_neg (by omega)]
    simp [DataFrame.parsed, hbody]
  | some p =>
    obtain ⟨fport, payload⟩ := p
    have hbodyEq : f.bodyBytes = fport :: payload := by rw [DataFrame.bodyBytes, hbody]
    have hbodyLen := f.length_bodyBytes hbody
    have hread : read buffer ((8 + f.fopts.length : Nat) : Int) = .ok fport := by
      refine read_ok hbuf ?_
      have hpre : (f.header ++ f.fopts).length = 8 + f.fopts.length := by
        rw [List.length_append]
        rfl
      rw [DataFrame.bytes, DataFrame.message, hbodyEq, ← hpre]
      simp
    rw [if_pos (by omega), hread]
    have hpayload : ((f.bytes.length : Int) - (8 + f.fopts.length + 1 : Nat) - (4 : Nat)) =
        (payload.length : Int) := by omega
    show Except.ok (fport, 8 + f.fopts.length + 1, BitVec.ofInt 8 _) = _
    rw [hpayload, BitVec.ofInt_natCast]
    simp only [DataFrame.parsed, hbody]
    congr 3
    omega

theorem parseMic_bytes (hlen : f.bytes.length ≤ 255) :
    parseMic buffer (BitVec.ofNat 8 f.bytes.length) = .ok f.mic := by
  have hsize : (BitVec.ofNat 8 f.bytes.length).toNat = f.bytes.length := by
    rw [BitVec.toNat_ofNat, Nat.mod_eq_of_lt (by omega)]
  have hstart : ((f.bytes.length : Nat) : Int) - (loramacMicFieldSize : Nat) =
      (f.message.length : Int) := by
    have hbytes := f.length_bytes
    have hmic : loramacMicFieldSize = 4 := rfl
    omega
  have hread : ∀ k v, (micBytes f.mic)[k]? = some v →
      read buffer ((f.message.length + k : Nat) : Int) = .ok v := by
    intro k v hk
    refine read_ok hbuf ?_
    obtain ⟨hlt, -⟩ := List.getElem?_eq_some_iff.1 hk
    rw [DataFrame.bytes, List.append_assoc, List.getElem?_append_right (Nat.le_add_right _ _),
      Nat.add_sub_cancel_left, List.getElem?_append_left hlt]
    exact hk
  have h0 := hread 0 _ rfl
  have h1 := hread 1 _ rfl
  have h2 := hread 2 _ rfl
  have h3 := hread 3 _ rfl
  unfold parseMic
  rw [hsize, hstart]
  push_cast at h0 h1 h2 h3
  rw [Int.add_zero] at h0
  rw [h0, h1, h2, h3]
  simp only [ok_bind, le32_byteOf]

/-- The parser gives back every data frame of at most 255 bytes. -/
theorem loRaMacParserData_bytes (hlen : f.bytes.length ≤ 255) :
    loRaMacParserData buffer (BitVec.ofNat 8 f.bytes.length) = .ok (.success, f.parsed) := by
  have hread : ∀ (k : Nat) v, f.header[k]? = some v → read buffer (k : Int) = .ok v := by
    intro k v hk
    refine read_ok hbuf ?_
    obtain ⟨hlt, -⟩ := List.getElem?_eq_some_iff.1 hk
    rw [DataFrame.bytes, DataFrame.message, List.append_assoc, List.append_assoc,
      List.append_assoc, List.getElem?_append_left hlt]
    exact hk
  have h0 := hread 0 _ rfl
  have h1 := hread 1 _ rfl
  have h2 := hread 2 _ rfl
  have h3 := hread 3 _ rfl
  have h4 := hread 4 _ rfl
  have h5 := hread 5 _ rfl
  have h6 := hread 6 _ rfl
  have h7 := hread 7 _ rfl
  push_cast at h0 h1 h2 h3 h4 h5 h6 h7
  have hdata : ¬ (mType f.mhdr = frameTypeJoinAccept ∨ mType f.mhdr = frameTypeJoinReq) :=
    not_or.2 f.isData
  have hfopts := slice_fopts f hbuf
  have hpayload := parsePayload_bytes f hbuf hlen
  have hmic := parseMic_bytes f hbuf hlen
  rw [f.foptsLength] at hfopts hpayload
  rw [loRaMacParserData, h0]
  simp only [ok_bind, if_neg hdata, h1, h2, h3, h4, h5, h6, h7, if_pos (fOptsLen_le f.fctrl),
    hfopts, hpayload, hmic, le32_byteOf, le16_byteOf]
  rfl

end Parser

end DraginoFwd.Mac

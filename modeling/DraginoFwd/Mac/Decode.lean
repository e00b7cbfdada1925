import DraginoFwd.Lib.Printf
import DraginoFwd.Mac.JoinAccept
import DraginoFwd.Mac.Uplink

/-!
# The texts of a decoded frame

`decodeMacPktUpRow` and `decodeMacPktDown` are `decode_mac_pkt_up` and `decode_mac_pkt_down` of
`mac-header-decode.c`: they put a row of texts into the database, and build the texts in arrays of
fixed sizes with `strcat`, which does not look at the size.

`Reports` says that no text leaves its array and that the row shows what has been parsed. Three
things stand in the way (`reports_iff`): the text of the data rate is one character too long for the
slow rates without coding, the payload in hexadecimal has room for 239 bytes, and the list of
channel frequencies is looked for at a size at which the parser never finds one.

The text `content` is written by `snprintf` and cut off at its array. It is left out.
-/

set_option autoImplicit false

namespace DraginoFwd.Mac

open DraginoFwd.Hal
open DraginoFwd.Lib.Memory
open DraginoFwd.Lib.Printf

/-! ## Texts in arrays -/

/-- `strcat` of `src` to the text in an array of `cap` characters. -/
def strcat (cap : Nat) (dst src : List Char) : Except OutOfBounds (List Char) :=
  if dst.length + src.length < cap then .ok (dst ++ src)
  else .error ⟨(dst.length + src.length : Nat), cap⟩

/-- `%02X` -/
def fmtX2 (byte : BitVec 8) : List Char :=
  padLeft '0' 2 ((Nat.toDigits 16 byte.toNat).map Char.toUpper)

/-- Bytes in hexadecimal. -/
def hexText (bytes : List (BitVec 8)) : List Char := bytes.flatMap fmtX2

/-- The loops of `sprintf(cat, "%02X", ..)` and `strcat`. -/
def strcatHex (cap : Nat) (dst : List Char) : List (BitVec 8) → Except OutOfBounds (List Char)
  | [] => .ok dst
  | byte :: bytes => do
      let dst ← strcat cap dst (fmtX2 byte)
      strcatHex cap dst bytes

/-! ## The rows -/

/-- The text of a data rate. -/
def sfName (datarate : BitVec 32) : String :=
  match datarate.toNat with
  | 5 => "SF5 "
  | 6 => "SF6 "
  | 7 => "SF7 "
  | 8 => "SF8 "
  | 9 => "SF9 "
  | 10 => "SF10 "
  | 11 => "SF11 "
  | 12 => "SF12 "
  | _ => ""

/-- The text of a bandwidth. -/
def bwName (bandwidth : BitVec 8) : String :=
  match bandwidth.toNat with
  | 4 => "BW125KHz "
  | 5 => "BW250KHz "
  | 6 => "BW500KHz "
  | _ => ""

/-- The text of a coding rate. -/
def crName (coderate : BitVec 8) : String :=
  match coderate.toNat with
  | 1 => "CR4/5"
  | 2 => "CR4/6"
  | 3 => "CR4/7"
  | 4 => "CR4/8"
  | 0 => "CR off"
  | _ => ""

/-- The size of `dr`. -/
abbrev drSize : Nat := 20
/-- The size of `payloadhex`. -/
abbrev payloadhexSize : Nat := 480
/-- The size of `appeui`, `deveui` and `pdtype`. -/
abbrev euiSize : Nat := 17

/-- What `lgw_db_putpkt` gets, and the two identifiers of a join request. -/
structure DbRow where
  pdtype : List Char
  dr : List Char
  fcnt : BitVec 16
  appeui : List Char
  deveui : List Char
  payloadhex : List Char
  deriving DecidableEq, Repr

/-- The text `dr`. -/
def decodeDr (datarate : BitVec 32) (bandwidth coderate : BitVec 8) :
    Except OutOfBounds (List Char) := do
  let dr ← strcat drSize [] (sfName datarate).toList
  let dr ← strcat drSize dr (bwName bandwidth).toList
  strcat drSize dr (crName coderate).toList

/-- The text `payloadhex` of the payload of a frame. -/
def decodePayload (payload : Vector (BitVec 8) 256) (macMsg : LoRaMacMessageData) :
    Except OutOfBounds (List Char) := do
  let frmPayload ← slice payload macMsg.frmPayload macMsg.frmPayloadSize.toNat
  strcatHex payloadhexSize [] frmPayload

/-- An identifier of a join request, which is sent with its lowest byte first. -/
def decodeEui (payload : Vector (BitVec 8) 256) (start : Nat) : Except OutOfBounds (List Char) := do
  let bytes ← slice payload start 8
  strcatHex euiSize [] bytes.reverse

/-- `decode_mac_pkt_up` on a packet whose frame has been parsed. -/
def decodeMacPktUpRow (p : LgwPktRx) (bufSize : BitVec 8) (macMsg : LoRaMacMessageData) :
    Except OutOfBounds (Option DbRow) :=
  if bufSize = 0#8 then .ok none
  else do
    let dr ← decodeDr p.datarate p.bandwidth p.coderate
    let payloadhex ← decodePayload p.payload macMsg
    if mType macMsg.mhdr = frameTypeDataConfirmedUp then do
      let pdtype ← strcat euiSize [] "DATA_CONF_UP".toList
      .ok (some ⟨pdtype, dr, macMsg.fcnt, [], [], payloadhex⟩)
    else if mType macMsg.mhdr = frameTypeDataUnconfirmedUp then do
      let pdtype ← strcat euiSize [] "DATA_UNCONF_UP".toList
      .ok (some ⟨pdtype, dr, macMsg.fcnt, [], [], payloadhex⟩)
    else if mType macMsg.mhdr = frameTypeJoinReq then do
      let appeui ← decodeEui p.payload 1
      let deveui ← decodeEui p.payload 9
      let all ← slice p.payload 0 p.size.toNat
      let payloadhex ← strcatHex payloadhexSize payloadhex all
      let pdtype ← strcat euiSize [] "JOIN_REQ_UP".toList
      .ok (some ⟨pdtype, dr, macMsg.fcnt, appeui, deveui, payloadhex⟩)
    else .ok (some ⟨[], dr, macMsg.fcnt, [], [], payloadhex⟩)

/-- The list of channel frequencies in `payloadhex`, at the offset of `decode_mac_pkt_down`. -/
def reportCfList (bufSize : BitVec 8) (joinMsg : LoRaMacMessageJoinAccept)
    (payloadhex : List Char) :
    Except OutOfBounds (List Char) :=
  if (bufSize.toNat : Int) - loramacMicFieldSize - 12 = loramacCfListFieldSize then do
    let payloadhex ← strcat payloadhexSize [] "CFLIST:".toList
    strcatHex payloadhexSize payloadhex
      (joinMsg.cfList.getD (List.replicate loramacCfListFieldSize 0#8))
  else .ok payloadhex

/-- The branch `FRAME_TYPE_JOIN_ACCEPT` of `decode_mac_pkt_down`: the type and the payload. -/
def decodeJoinAccept (payload : Vector (BitVec 8) 256) (bufSize : BitVec 8)
    (payloadhex : List Char) : Except OutOfBounds (List Char × List Char) := do
  -- printed byte for byte
  let _ ← slice payload 0 bufSize.toNat
  match ← loRaMacParserJoinAccept payload bufSize with
  | (.fail, _) => .ok ([], payloadhex)
  | (.success, joinMsg) =>
      let payloadhex ← reportCfList bufSize joinMsg payloadhex
      let pdtype ← strcat euiSize [] "JOIN_ACCEPT_DOWN".toList
      .ok (pdtype, payloadhex)

/-- `decode_mac_pkt_down` on a packet whose frame has been parsed. -/
def decodeMacPktDown (p : LgwPktTx) (bufSize : BitVec 8) (macMsg : LoRaMacMessageData) :
    Except OutOfBounds (Option DbRow) :=
  if bufSize = 0#8 then .ok none
  else do
    let dr ← decodeDr p.datarate p.bandwidth p.coderate
    let payloadhex ← decodePayload p.payload macMsg
    if mType macMsg.mhdr = frameTypeDataConfirmedDown then do
      let pdtype ← strcat euiSize [] "DATA_CONF_DOWN".toList
      .ok (some ⟨pdtype, dr, macMsg.fcnt, [], [], payloadhex⟩)
    else if mType macMsg.mhdr = frameTypeDataUnconfirmedDown then do
      let pdtype ← strcat euiSize [] "DATA_UNCONF_DOWN".toList
      .ok (some ⟨pdtype, dr, macMsg.fcnt, [], [], payloadhex⟩)
    else if mType macMsg.mhdr = frameTypeJoinAccept then do
      let (pdtype, payloadhex) ← decodeJoinAccept p.payload bufSize payloadhex
      .ok (some ⟨pdtype, dr, macMsg.fcnt, [], [], payloadhex⟩)
    else .ok (some ⟨[], dr, macMsg.fcnt, [], [], payloadhex⟩)

/-! ## The condition and the property -/

/-- A packet of either direction. -/
inductive RadioPkt where
  | up (p : LgwPktRx)
  | down (p : LgwPktTx)

namespace RadioPkt

/-- The bytes of the packet, in their array. -/
def payload : RadioPkt → Vector (BitVec 8) 256
  | .up p => p.payload
  | .down p => p.payload

/-- The number of its bytes. -/
def size : RadioPkt → BitVec 16
  | .up p => p.size
  | .down p => p.size

/-- `macmsg.BufSize` -/
def bufSize (pkt : RadioPkt) : BitVec 8 := pkt.size.setWidth 8

/-- Its data rate. -/
def datarate : RadioPkt → BitVec 32
  | .up p => p.datarate
  | .down p => p.datarate

/-- Its bandwidth. -/
def bandwidth : RadioPkt → BitVec 8
  | .up p => p.bandwidth
  | .down p => p.bandwidth

/-- Its coding rate. -/
def coderate : RadioPkt → BitVec 8
  | .up p => p.coderate
  | .down p => p.coderate

/-- The frame of the packet has been parsed. -/
def Parsed (pkt : RadioPkt) (macMsg : LoRaMacMessageData) : Prop :=
  loRaMacParserData pkt.payload pkt.bufSize = .ok (.success, macMsg)

/-- The function for its direction. -/
def decode (pkt : RadioPkt) (macMsg : LoRaMacMessageData) : Except OutOfBounds (Option DbRow) :=
  match pkt with
  | .up p => decodeMacPktUpRow p (p.size.setWidth 8) macMsg
  | .down p => decodeMacPktDown p (p.size.setWidth 8) macMsg

/-- The payload of the frame. -/
def frmPayload (pkt : RadioPkt) (macMsg : LoRaMacMessageData) : List (BitVec 8) :=
  (pkt.payload.toList.drop macMsg.frmPayload).take macMsg.frmPayloadSize.toNat

/-- The whole frame. -/
def frame (pkt : RadioPkt) : List (BitVec 8) := pkt.payload.toList.take pkt.size.toNat

/-- The list of channel frequencies that `LoRaMacParserJoinAccept` extracts from a downlink that is
a join-accept. -/
def HasCfList (pkt : RadioPkt) (macMsg : LoRaMacMessageData) (cfList : List (BitVec 8)) : Prop :=
  (∃ p, pkt = .down p) ∧ mType macMsg.mhdr = frameTypeJoinAccept ∧
    ∃ joinMsg, loRaMacParserJoinAccept pkt.payload pkt.bufSize = .ok (.success, joinMsg) ∧
      joinMsg.cfList = some cfList

/-- The text is the one for what has been parsed: a list of channel frequencies, a join request as a
whole, or the payload. -/
structure Shows (pkt : RadioPkt) (macMsg : LoRaMacMessageData) (payloadhex : List Char) : Prop where
  cfList : ∀ cfList, pkt.HasCfList macMsg cfList →
    payloadhex = "CFLIST:".toList ++ hexText cfList
  joinReq : (∃ p, pkt = .up p) → mType macMsg.mhdr = frameTypeJoinReq →
    payloadhex = hexText pkt.frame
  payload : (∀ cfList, ¬ pkt.HasCfList macMsg cfList) →
    ¬ ((∃ p, pkt = .up p) ∧ mType macMsg.mhdr = frameTypeJoinReq) →
    payloadhex = hexText (pkt.frmPayload macMsg)

/-- No text leaves its array, and the row, if there is one, shows what has been parsed. -/
def Reports (pkt : RadioPkt) (macMsg : LoRaMacMessageData) : Prop :=
  ∃ row, pkt.decode macMsg = .ok row ∧ ∀ r ∈ row, pkt.Shows macMsg r.payloadhex

/-- The data rate has a name of three characters, the bandwidth a name, and there is no coding: the
text of the three has 20 characters. -/
def SlowUncoded (pkt : RadioPkt) : Prop :=
  (10 ≤ pkt.datarate.toNat ∧ pkt.datarate.toNat ≤ 12) ∧
    (4 ≤ pkt.bandwidth.toNat ∧ pkt.bandwidth.toNat ≤ 6) ∧ pkt.coderate.toNat = 0

/-- The longest text in hexadecimal that fits `payloadhex`. -/
def maxHexBytes : Nat := 239

/-- The packet is empty, or its texts fit and it is no join-accept with a list of channel
frequencies. -/
def Fits (pkt : RadioPkt) (macMsg : LoRaMacMessageData) : Prop :=
  pkt.size = 0#16 ∨
    (¬ pkt.SlowUncoded ∧ macMsg.frmPayloadSize.toNat ≤ maxHexBytes ∧
      match pkt with
      | .up p => mType macMsg.mhdr = frameTypeJoinReq → p.size.toNat ≤ maxHexBytes
      | .down p => mType macMsg.mhdr = frameTypeJoinAccept → p.size.toNat ≠ 33)

end RadioPkt

/-! ## Texts in arrays -/

theorem strcat_eq_ok {cap : Nat} {dst src text : List Char} :
    strcat cap dst src = .ok text ↔ dst.length + src.length < cap ∧ text = dst ++ src := by
  rw [strcat]
  split
  · next hfit => simp [hfit, eq_comm]
  · next hfit => simp [hfit]

/-- Two digits a byte. -/
theorem length_fmtX2 : ∀ byte, (fmtX2 byte).length = 2 := by decide +kernel

/-- The loop appends the bytes in hexadecimal, if they fit. -/
theorem strcatHex_eq_ok {cap : Nat} {dst : List Char} (bytes : List (BitVec 8)) {text : List Char}
    (hdst : dst.length < cap) :
    strcatHex cap dst bytes = .ok text ↔
      dst.length + 2 * bytes.length < cap ∧ text = dst ++ hexText bytes := by
  induction bytes generalizing dst with
  | nil => simp [strcatHex, hexText, hdst, eq_comm]
  | cons byte bytes ih =>
      have htwo := length_fmtX2 byte
      rw [strcatHex, bind_eq_ok]
      constructor
      · rintro ⟨mid, hmid, hrest⟩
        obtain ⟨hfit, rfl⟩ := strcat_eq_ok.1 hmid
        have hlen : (dst ++ fmtX2 byte).length = dst.length + 2 := by
          rw [List.length_append, htwo]
        obtain ⟨hfits, rfl⟩ := (ih (by omega)).1 hrest
        rw [List.length_cons]
        refine ⟨by omega, ?_⟩
        rw [hexText, hexText, List.flatMap_cons, List.append_assoc]
      · rintro ⟨hfits, rfl⟩
        rw [List.length_cons] at hfits
        have hlen : (dst ++ fmtX2 byte).length = dst.length + 2 := by
          rw [List.length_append, htwo]
        refine ⟨dst ++ fmtX2 byte, strcat_eq_ok.2 ⟨by omega, rfl⟩, (ih (by omega)).2 ⟨by omega, ?_⟩⟩
        rw [hexText, hexText, List.flatMap_cons, List.append_assoc]

theorem strcat_ok {cap : Nat} {dst src : List Char} (h : dst.length + src.length < cap) :
    strcat cap dst src = .ok (dst ++ src) := if_pos h

/-! ## The text of the data rate -/

theorem length_sfName (datarate : BitVec 32) : (sfName datarate).toList.length =
    if 10 ≤ datarate.toNat ∧ datarate.toNat ≤ 12 then 5
    else if 5 ≤ datarate.toNat ∧ datarate.toNat ≤ 9 then 4 else 0 := by
  rw [sfName]
  generalize datarate.toNat = n
  split
  case h_9 =>
    rw [if_neg (by grind), if_neg (by grind)]
    rfl
  all_goals decide

theorem length_bwName (bandwidth : BitVec 8) : (bwName bandwidth).toList.length =
    if 4 ≤ bandwidth.toNat ∧ bandwidth.toNat ≤ 6 then 9 else 0 := by
  rw [bwName]
  generalize bandwidth.toNat = n
  split
  case h_4 =>
    rw [if_neg (by grind)]
    rfl
  all_goals decide

theorem length_crName (coderate : BitVec 8) : (crName coderate).toList.length =
    if coderate.toNat = 0 then 6 else if coderate.toNat ≤ 4 then 5 else 0 := by
  rw [crName]
  generalize coderate.toNat = n
  split
  case h_6 =>
    rw [if_neg (by grind), if_neg (by grind)]
    rfl
  all_goals decide

/-- The text of the data rate fits if its three parts do. -/
theorem decodeDr_isOk_iff_length (datarate : BitVec 32) (bandwidth coderate : BitVec 8) :
    (∃ dr, decodeDr datarate bandwidth coderate = .ok dr) ↔
      (sfName datarate).toList.length + (bwName bandwidth).toList.length +
        (crName coderate).toList.length < drSize := by
  have hsf := length_sfName datarate
  have hbw := length_bwName bandwidth
  have hsize : drSize = 20 := rfl
  rw [decodeDr, strcat_ok (by rw [List.length_nil, hsf]; split_ifs <;> omega), ok_bind,
    List.nil_append, strcat_ok (by rw [hsf, hbw]; split_ifs <;> omega), ok_bind]
  simp only [strcat_eq_ok, List.length_append]
  exact ⟨fun ⟨_, hfit, _⟩ => hfit, fun hfit => ⟨_, hfit, rfl⟩⟩

/-- That is so unless the data rate has two digits, the bandwidth a name, and there is no coding. -/
theorem decodeDr_isOk_iff (datarate : BitVec 32) (bandwidth coderate : BitVec 8) :
    (∃ dr, decodeDr datarate bandwidth coderate = .ok dr) ↔
      ¬ ((10 ≤ datarate.toNat ∧ datarate.toNat ≤ 12) ∧
        (4 ≤ bandwidth.toNat ∧ bandwidth.toNat ≤ 6) ∧ coderate.toNat = 0) := by
  have hsize : drSize = 20 := rfl
  rw [decodeDr_isOk_iff_length, length_sfName, length_bwName, length_crName]
  split_ifs <;> omega

/-! ## The rows -/

section Rows

variable {macMsg : LoRaMacMessageData}

/-- The payload in hexadecimal fits when it has at most 239 bytes. -/
theorem decodePayload_eq_ok (payload : Vector (BitVec 8) 256) {payloadhex : List Char}
    (hin : macMsg.frmPayload + macMsg.frmPayloadSize.toNat ≤ 256) :
    decodePayload payload macMsg = .ok payloadhex ↔
      macMsg.frmPayloadSize.toNat ≤ RadioPkt.maxHexBytes ∧
        payloadhex = hexText
          ((payload.toList.drop macMsg.frmPayload).take macMsg.frmPayloadSize.toNat) := by
  have hmax : RadioPkt.maxHexBytes = 239 := rfl
  have hcap : payloadhexSize = 480 := rfl
  have hlen : ((payload.toList.drop macMsg.frmPayload).take macMsg.frmPayloadSize.toNat).length =
      macMsg.frmPayloadSize.toNat := by
    rw [List.length_take, List.length_drop, Vector.length_toList]
    omega
  rw [decodePayload, slice_ok payload _ _ hin, ok_bind, strcatHex_eq_ok _ (by decide), hlen,
    List.length_nil, List.nil_append]
  exact and_congr_left fun _ => by omega

/-- An identifier fits its array. -/
theorem decodeEui_isOk (payload : Vector (BitVec 8) 256) {start : Nat} (h : start + 8 ≤ 256) :
    ∃ eui, decodeEui payload start = .ok eui := by
  have hslice := slice_ok payload start 8 h
  push_cast at hslice
  rw [decodeEui, hslice, ok_bind]
  have hlen : ((payload.toList.drop start).take 8).reverse.length ≤ 8 := by
    rw [List.length_reverse, List.length_take]
    exact Nat.min_le_left _ _
  have hcap : euiSize = 17 := rfl
  refine ⟨_, (strcatHex_eq_ok _ (by decide)).2 ⟨?_, rfl⟩⟩
  rw [List.length_nil]
  omega

/-- The row of a join request. -/
theorem decodeMacPktUpRow_joinReq (p : LgwPktRx) {bufSize : BitVec 8} (hbuf : bufSize ≠ 0#8)
    (htype : mType macMsg.mhdr = frameTypeJoinReq) (hempty : macMsg.frmPayloadSize = 0#8)
    (hstart : macMsg.frmPayload ≤ 256) (hsize : p.size.toNat ≤ 256) (shown : List Char → Prop) :
    (∃ row, decodeMacPktUpRow p bufSize macMsg = .ok row ∧ ∀ r ∈ row, shown r.payloadhex) ↔
      ((∃ dr, decodeDr p.datarate p.bandwidth p.coderate = .ok dr) ∧
        p.size.toNat ≤ RadioPkt.maxHexBytes) ∧
          shown (hexText (p.payload.toList.take p.size.toNat)) := by
  have hmax : RadioPkt.maxHexBytes = 239 := rfl
  have hcap : payloadhexSize = 480 := rfl
  have hconf : mType macMsg.mhdr ≠ frameTypeDataConfirmedUp := by rw [htype]; decide
  have hunconf : mType macMsg.mhdr ≠ frameTypeDataUnconfirmedUp := by rw [htype]; decide
  have hhex : decodePayload p.payload macMsg = .ok [] := by
    refine (decodePayload_eq_ok p.payload (by rw [hempty]; exact hstart)).2 ?_
    rw [hempty]
    exact ⟨Nat.zero_le _, rfl⟩
  obtain ⟨appeui, happeui⟩ := decodeEui_isOk p.payload (by decide : 1 + 8 ≤ 256)
  obtain ⟨deveui, hdeveui⟩ := decodeEui_isOk p.payload (by decide : 9 + 8 ≤ 256)
  have hslice := slice_ok p.payload 0 p.size.toNat (by omega)
  rw [List.drop_zero] at hslice
  have hlen : (p.payload.toList.take p.size.toNat).length = p.size.toNat := by
    rw [List.length_take, Vector.length_toList, Nat.min_eq_left hsize]
  have hall : ∀ text, strcatHex payloadhexSize [] (p.payload.toList.take p.size.toNat) = .ok text ↔
      p.size.toNat ≤ RadioPkt.maxHexBytes ∧
        text = hexText (p.payload.toList.take p.size.toNat) := by
    intro text
    rw [strcatHex_eq_ok _ (by decide), hlen, List.length_nil, List.nil_append]
    exact and_congr_left fun _ => by omega
  have hpdtype : strcat euiSize [] "JOIN_REQ_UP".toList = .ok "JOIN_REQ_UP".toList := by
    decide +kernel
  rw [decodeMacPktUpRow, if_neg hbuf]
  constructor
  · rintro ⟨row, h, hshown⟩
    obtain ⟨dr, hdr, h⟩ := bind_eq_ok.1 h
    simp only [hhex, ok_bind, if_neg hconf, if_neg hunconf, if_pos htype, happeui, hdeveui, hslice,
      hpdtype] at h
    obtain ⟨text, htext, h⟩ := bind_eq_ok.1 h
    obtain ⟨hfit, rfl⟩ := (hall text).1 htext
    cases h
    exact ⟨⟨⟨dr, hdr⟩, hfit⟩, hshown _ rfl⟩
  · rintro ⟨⟨⟨dr, hdr⟩, hfit⟩, hshown⟩
    have htext := (hall _).2 ⟨hfit, rfl⟩
    simp only [hdr, hhex, ok_bind, if_neg hconf, if_neg hunconf, if_pos htype, happeui, hdeveui,
      hslice, htext, hpdtype]
    exact ⟨_, rfl, fun r hr => by cases hr; exact hshown⟩

/-- A row whose columns can all be filled in is there just when the data rate and the payload fit,
and shows the payload. -/
theorem row_of_payload_iff (payload : Vector (BitVec 8) 256) {dr : Except OutOfBounds (List Char)}
    {row : List Char → List Char → Except OutOfBounds (Option DbRow)}
    (hin : macMsg.frmPayload + macMsg.frmPayloadSize.toNat ≤ 256)
    (hrow : ∀ dr payloadhex, ∃ r, row dr payloadhex = .ok (some r) ∧ r.payloadhex = payloadhex)
    (shown : List Char → Prop) :
    (∃ r, (do
        let dr ← dr
        let payloadhex ← decodePayload payload macMsg
        row dr payloadhex) = .ok r ∧ ∀ r' ∈ r, shown r'.payloadhex) ↔
      ((∃ text, dr = .ok text) ∧ macMsg.frmPayloadSize.toNat ≤ RadioPkt.maxHexBytes) ∧
        shown (hexText
          ((payload.toList.drop macMsg.frmPayload).take macMsg.frmPayloadSize.toNat)) := by
  constructor
  · rintro ⟨r, h, hshown⟩
    obtain ⟨text, hdr, h⟩ := bind_eq_ok.1 h
    obtain ⟨payloadhex, hhex, h⟩ := bind_eq_ok.1 h
    obtain ⟨hfit, rfl⟩ := (decodePayload_eq_ok payload hin).1 hhex
    obtain ⟨r', hr', hpayload⟩ := hrow text _
    obtain rfl : some r' = r := Except.ok.inj (hr'.symm.trans h)
    refine ⟨⟨⟨text, hdr⟩, hfit⟩, ?_⟩
    rw [← hpayload]
    exact hshown r' rfl
  · rintro ⟨⟨⟨text, hdr⟩, hfit⟩, hshown⟩
    have hhex := (decodePayload_eq_ok payload hin).2 ⟨hfit, rfl⟩
    obtain ⟨r', hr', hpayload⟩ := hrow text _
    rw [hdr, ok_bind, hhex, ok_bind]
    refine ⟨_, hr', ?_⟩
    rintro _ ⟨⟩
    rw [hpayload]
    exact hshown

/-- The row of any other uplink. -/
theorem decodeMacPktUpRow_data (p : LgwPktRx) {bufSize : BitVec 8} (hbuf : bufSize ≠ 0#8)
    (htype : mType macMsg.mhdr ≠ frameTypeJoinReq)
    (hin : macMsg.frmPayload + macMsg.frmPayloadSize.toNat ≤ 256) (shown : List Char → Prop) :
    (∃ row, decodeMacPktUpRow p bufSize macMsg = .ok row ∧ ∀ r ∈ row, shown r.payloadhex) ↔
      ((∃ dr, decodeDr p.datarate p.bandwidth p.coderate = .ok dr) ∧
        macMsg.frmPayloadSize.toNat ≤ RadioPkt.maxHexBytes) ∧ shown (hexText
          ((p.payload.toList.drop macMsg.frmPayload).take macMsg.frmPayloadSize.toNat)) := by
  have hconf : strcat euiSize [] "DATA_CONF_UP".toList = .ok "DATA_CONF_UP".toList := by
    decide +kernel
  have hunconf : strcat euiSize [] "DATA_UNCONF_UP".toList = .ok "DATA_UNCONF_UP".toList := by
    decide +kernel
  rw [decodeMacPktUpRow, if_neg hbuf]
  apply row_of_payload_iff p.payload hin
  intro dr payloadhex
  rw [hconf, hunconf, if_neg htype]
  split_ifs <;> exact ⟨_, rfl, rfl⟩

/-- A join-accept never changes the text of the payload: the size with room for a list of channel
frequencies behind twelve bytes is one that the parser refuses. -/
theorem decodeJoinAccept_isOk (payload : Vector (BitVec 8) 256) (bufSize : BitVec 8)
    (payloadhex : List Char) :
    ∃ pdtype, decodeJoinAccept payload bufSize payloadhex = .ok (pdtype, payloadhex) := by
  have hmic : loramacMicFieldSize = 4 := rfl
  have hlist : loramacCfListFieldSize = 16 := rfl
  have hbyte := bufSize.isLt
  have hpdtype : strcat euiSize [] "JOIN_ACCEPT_DOWN".toList = .ok "JOIN_ACCEPT_DOWN".toList := by
    decide +kernel
  have hslice := slice_ok payload 0 bufSize.toNat (by omega)
  obtain ⟨⟨status, joinMsg⟩, hparse⟩ : ∃ r, loRaMacParserJoinAccept payload bufSize = .ok r :=
    loRaMacParserJoinAccept_of_fits (by omega) (by omega)
  rw [decodeJoinAccept, hslice, ok_bind, hparse, ok_bind]
  cases status with
  | fail => exact ⟨[], rfl⟩
  | success =>
      have hsize : bufSize.toNat ≠ 32 := by
        rcases loRaMacParserJoinAccept_cases hparse with
          ⟨hsize, -⟩ | ⟨-, -, hstatus⟩ | ⟨hsize, -⟩
        · omega
        · cases hstatus
        · omega
      have hkept : reportCfList bufSize joinMsg payloadhex = .ok payloadhex := if_neg (by omega)
      simp only [hkept, hpdtype, ok_bind]
      exact ⟨_, rfl⟩

/-- The row of a downlink. -/
theorem decodeMacPktDown_iff (p : LgwPktTx) {bufSize : BitVec 8} (hbuf : bufSize ≠ 0#8)
    (hin : macMsg.frmPayload + macMsg.frmPayloadSize.toNat ≤ 256) (shown : List Char → Prop) :
    (∃ row, decodeMacPktDown p bufSize macMsg = .ok row ∧ ∀ r ∈ row, shown r.payloadhex) ↔
      ((∃ dr, decodeDr p.datarate p.bandwidth p.coderate = .ok dr) ∧
        macMsg.frmPayloadSize.toNat ≤ RadioPkt.maxHexBytes) ∧ shown (hexText
          ((p.payload.toList.drop macMsg.frmPayload).take macMsg.frmPayloadSize.toNat)) := by
  have hconf : strcat euiSize [] "DATA_CONF_DOWN".toList = .ok "DATA_CONF_DOWN".toList := by
    decide +kernel
  have hunconf : strcat euiSize [] "DATA_UNCONF_DOWN".toList = .ok "DATA_UNCONF_DOWN".toList := by
    decide +kernel
  rw [decodeMacPktDown, if_neg hbuf]
  apply row_of_payload_iff p.payload hin
  intro dr payloadhex
  obtain ⟨pdtype, hjoin⟩ := decodeJoinAccept_isOk p.payload bufSize payloadhex
  rw [hconf, hunconf, hjoin]
  split_ifs <;> exact ⟨_, rfl, rfl⟩

end Rows

/-! ## What the rows show -/

namespace RadioPkt

/-- A list of channel frequencies is extracted from a join-accept of 33 bytes. -/
theorem hasCfList_iff (p : LgwPktTx) (macMsg : LoRaMacMessageData) (hsize : p.size.toNat ≤ 255) :
    (∃ cfList, (down p).HasCfList macMsg cfList) ↔
      mType macMsg.mhdr = frameTypeJoinAccept ∧ p.size.toNat = 33 := by
  have hbuf : (p.size.setWidth 8).toNat = p.size.toNat := by
    rw [BitVec.toNat_setWidth, Nat.mod_eq_of_lt (by omega)]
  constructor
  · rintro ⟨cfList, -, htype, joinMsg, hparse, hlist⟩
    refine ⟨htype, ?_⟩
    rcases loRaMacParserJoinAccept_cases hparse with
      ⟨hthirty, -⟩ | ⟨-, -, hstatus⟩ | ⟨-, -, -, hnone⟩
    · exact hbuf.symm.trans hthirty
    · cases hstatus
    · rw [hnone] at hlist
      cases hlist
  · rintro ⟨htype, hthirty⟩
    obtain ⟨⟨status, joinMsg⟩, hparse⟩ : ∃ r,
      loRaMacParserJoinAccept p.payload (p.size.setWidth 8) =
        .ok r := loRaMacParserJoinAccept_of_fits (by omega) (by omega)
    rcases loRaMacParserJoinAccept_cases hparse with
      ⟨-, hstatus, hsome⟩ | ⟨-, hnot, -⟩ | ⟨hshort, -⟩
    · obtain ⟨cfList, hlist⟩ := Option.isSome_iff_exists.1 hsome
      simp only at hstatus
      subst hstatus
      exact ⟨cfList, ⟨p, rfl⟩, htype, joinMsg, hparse, hlist⟩
    · omega
    · omega

/-- A row that shows the whole of a join request is right. -/
theorem shows_joinReq (p : LgwPktRx) {macMsg : LoRaMacMessageData}
    (htype : mType macMsg.mhdr = frameTypeJoinReq) :
    (up p).Shows macMsg (hexText (p.payload.toList.take p.size.toNat)) where
  cfList := by
    rintro cfList ⟨⟨p', hdown⟩, -⟩
    cases hdown
  joinReq _ _ := rfl
  payload _ hnot := absurd ⟨⟨p, rfl⟩, htype⟩ hnot

/-- A row that shows the payload of another uplink is right. -/
theorem shows_up (p : LgwPktRx) {macMsg : LoRaMacMessageData}
    (htype : mType macMsg.mhdr ≠ frameTypeJoinReq) :
    (up p).Shows macMsg (hexText ((up p).frmPayload macMsg)) where
  cfList := by
    rintro cfList ⟨⟨p', hdown⟩, -⟩
    cases hdown
  joinReq _ hreq := absurd hreq htype
  payload _ _ := rfl

/-- A row that shows the payload of a downlink is right if no list of channel frequencies has been
extracted: the payload of a join-accept is empty. -/
theorem shows_down_iff (p : LgwPktTx) {macMsg : LoRaMacMessageData} (hsize : p.size.toNat ≤ 255)
    (hempty : mType macMsg.mhdr = frameTypeJoinAccept → macMsg.frmPayloadSize = 0#8) :
    (down p).Shows macMsg (hexText ((down p).frmPayload macMsg)) ↔
      (mType macMsg.mhdr = frameTypeJoinAccept → p.size.toNat ≠ 33) := by
  constructor
  · intro hshows htype hthirty
    obtain ⟨cfList, hhas⟩ := (hasCfList_iff p macMsg hsize).2 ⟨htype, hthirty⟩
    have htext := congrArg List.length (hshows.cfList cfList hhas)
    have hseven : "CFLIST:".toList.length = 7 := by decide +kernel
    have hnone : (down p).frmPayload macMsg = [] := by
      rw [frmPayload, hempty htype]
      exact List.take_zero
    rw [hnone, List.length_append, hseven] at htext
    exact absurd htext (by rw [hexText, List.flatMap_nil, List.length_nil]; omega)
  · intro hnot
    refine ⟨?_, ?_, fun _ _ => rfl⟩
    · intro cfList hhas
      obtain ⟨htype, hthirty⟩ := (hasCfList_iff p macMsg hsize).1 ⟨cfList, hhas⟩
      exact absurd hthirty (hnot htype)
    · rintro ⟨p', hup⟩
      cases hup

theorem mType_dataUp : mType 0x40#8 ≠ frameTypeJoinAccept ∧ mType 0x40#8 ≠ frameTypeJoinReq := by
  decide

theorem length_noOptions : ([] : List (BitVec 8)).length = (fOptsLen 0#8).toNat := by decide

/-- A data frame with a payload of 239 bytes. -/
def longFrame : DataFrame where
  mhdr := 0x40#8
  devAddr := 0x2601126A#32
  fctrl := 0#8
  counter := 7#32
  fopts := []
  body := some (2#8, List.replicate 239 0xAB#8)
  mic := 0x1234ABCD#32
  isData := mType_dataUp
  foptsLength := length_noOptions

/-- The frame at SF12 and 125 kHz. -/
def longUplink : RadioPkt :=
  .up { LgwPktRx.ofBytes longFrame.bytes with
    datarate := 12#32
    bandwidth := 4#8
    coderate := 1#8 }

theorem longUplink_parsed : longUplink.Parsed longFrame.parsed :=
  (carries_ofBytes (by decide +kernel)).parse

/-- The bytes of a join request: two identifiers, a nonce and a MIC. -/
def joinReqBytes : List (BitVec 8) :=
  [0x00#8] ++ List.replicate 8 0x70#8 ++ List.replicate 8 0xA8#8 ++ [0x34#8, 0x12#8] ++
    List.replicate 4 0x5C#8

/-- A join request at SF12 and 125 kHz without coding. -/
def slowJoinReq : RadioPkt :=
  .up { LgwPktRx.ofBytes joinReqBytes with
    datarate := 12#32
    bandwidth := 4#8
    coderate := 0#8 }

theorem slowJoinReq_parsed : slowJoinReq.Parsed LoRaMacMessageData.zero := by
  have h0 : slowJoinReq.payload.toList[0]? = some 0x00#8 := by
    simp [slowJoinReq, payload, LgwPktRx.ofBytes, joinReqBytes]
  exact loRaMacParserData_join h0 fun hdata => hdata.2 rfl

end RadioPkt

end DraginoFwd.Mac

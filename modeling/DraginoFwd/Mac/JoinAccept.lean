import DraginoFwd.Mac.Frame

/-!
# Join-accepts, and what the parsers read

`loRaMacParserJoinAccept` is `LoRaMacParserJoinAccept` of `mac-header-decode.c`. Like
`LoRaMacParserData` it gets a buffer and the size of the frame at its start, and has no test for the
shortest frame.

`ParsersInside` says of a frame that neither parser reads behind it and succeeds, and that what
`LoRaMacParserData` says of a data frame is right. `parsersInside_iff` says for which frames that is
so: a data frame needs its header, its options and its MIC, and a join-accept 17 bytes.
-/

set_option autoImplicit false

namespace DraginoFwd.Mac

open DraginoFwd.Lib.Memory

/-! ## The parser of join-accepts -/

/-- `LORAMAC_CF_LIST_FIELD_SIZE` -/
def loramacCfListFieldSize : Nat := 16

/-- The fields of `LoRaMacMessageJoinAccept_t` that the parser sets. `cfList` is the list of channel
frequencies if it has been extracted. -/
structure LoRaMacMessageJoinAccept where
  mhdr : BitVec 8
  joinNonce : List (BitVec 8)
  netId : List (BitVec 8)
  devAddr : BitVec 32
  dlSettings : BitVec 8
  rxDelay : BitVec 8
  cfList : Option (List (BitVec 8))
  mic : BitVec 32
  deriving DecidableEq, Repr

/-- The first 13 bytes of a join-accept. -/
def parseJoinHeader {n : Nat} (buffer : Vector (BitVec 8) n) :
    Except OutOfBounds LoRaMacMessageJoinAccept := do
  let mhdr ← read buffer 0
  let joinNonce ← slice buffer 1 3
  let netId ← slice buffer 4 3
  let a0 ← read buffer 7
  let a1 ← read buffer 8
  let a2 ← read buffer 9
  let a3 ← read buffer 10
  let dlSettings ← read buffer 11
  let rxDelay ← read buffer 12
  .ok ⟨mhdr, joinNonce, netId, le32 a0 a1 a2 a3, dlSettings, rxDelay, none, 0#32⟩

/-- The MIC of a join-accept, from `bufItr` on. -/
def parseJoinMic {n : Nat} (buffer : Vector (BitVec 8) n) (bufItr : Nat) :
    Except OutOfBounds (BitVec 32) := do
  let m0 ← read buffer bufItr
  let m1 ← read buffer (bufItr + 1 : Nat)
  let m2 ← read buffer (bufItr + 2 : Nat)
  let m3 ← read buffer (bufItr + 3 : Nat)
  .ok (le32 m0 m1 m2 m3)

/-- `LoRaMacParserJoinAccept` on a message that was cleared before. -/
def loRaMacParserJoinAccept {n : Nat} (buffer : Vector (BitVec 8) n) (bufSize : BitVec 8) :
    Except OutOfBounds (LoRaMacParserStatus × LoRaMacMessageJoinAccept) := do
  let msg ← parseJoinHeader buffer
  if (bufSize.toNat : Int) - loramacMicFieldSize - 13 = loramacCfListFieldSize then
    let cfList ← slice buffer 13 loramacCfListFieldSize
    let mic ← parseJoinMic buffer (13 + loramacCfListFieldSize)
    .ok (.success, { msg with cfList := some cfList, mic := mic })
  else if (bufSize.toNat : Int) - loramacMicFieldSize - 13 > 0 then
    .ok (.fail, msg)
  else
    let mic ← parseJoinMic buffer 13
    .ok (.success, { msg with mic := mic })

/-! ## The condition and the property -/

/-- The parser takes the frame for a data frame. -/
def IsData (mhdr : BitVec 8) : Prop :=
  mType mhdr ≠ frameTypeJoinAccept ∧ mType mhdr ≠ frameTypeJoinReq

/-- What a successful parse of a data frame is to mean: the frame has room for its header, its
options and its MIC, the payload ends at the MIC, and the MIC is the end of the frame. -/
structure DataFits (frame : List (BitVec 8)) (macMsg : LoRaMacMessageData) : Prop where
  header : 12 + (fOptsLen macMsg.fctrl).toNat ≤ frame.length
  payload : macMsg.frmPayload ≠ 0 →
    macMsg.frmPayload + macMsg.frmPayloadSize.toNat + loramacMicFieldSize = frame.length
  mic : ∃ m0 m1 m2 m3, frame.drop (frame.length - loramacMicFieldSize) = [m0, m1, m2, m3] ∧
    macMsg.mic = le32 m0 m1 m2 m3

section Property

variable {k : Nat} {bufSize : BitVec 8} (frame : Vector (BitVec 8) bufSize.toNat)
  (rest : Vector (BitVec 8) k)

/-- The program reads nothing behind the frame, or does not succeed on the buffer. -/
def ReadsInside {β : Type}
    (parser : {n : Nat} → Vector (BitVec 8) n → BitVec 8 →
      Except OutOfBounds (LoRaMacParserStatus × β)) : Prop :=
  (∃ r, parser frame bufSize = .ok r) ∨
    ∃ status macMsg, parser (frame ++ rest) bufSize = .ok (status, macMsg) ∧ status ≠ .success

/-- Both parsers keep to the frame at the start of a buffer, and a data frame is what
`LoRaMacParserData` says. -/
structure ParsersInside : Prop where
  data : ReadsInside frame rest loRaMacParserData
  joinAccept : ReadsInside frame rest loRaMacParserJoinAccept
  fits : ∀ macMsg, loRaMacParserData (frame ++ rest) bufSize = .ok (.success, macMsg) →
    IsData macMsg.mhdr → DataFits frame.toList macMsg

/-- The frame has a first byte and, if this is one of a data frame, its header, its options and its
MIC. -/
def DataLongEnough : Prop :=
  ∃ mhdr, frame.toList[0]? = some mhdr ∧
    (IsData mhdr → ∃ fctrl, frame.toList[5]? = some fctrl ∧
      12 + (fOptsLen fctrl).toNat ≤ bufSize.toNat)

/-- The frame has a header of 13 bytes and its MIC. -/
def JoinLongEnough (bufSize : BitVec 8) : Prop := 13 + loramacMicFieldSize ≤ bufSize.toNat

end Property

/-! ## The parser of data frames -/

section Data

variable {n k : Nat} {buffer : Vector (BitVec 8) n} {bufSize : BitVec 8}

/-- A longer buffer makes no difference to a parse that stays inside this one. -/
theorem persists_loRaMacParserData (buffer : Vector (BitVec 8) n) (rest : Vector (BitVec 8) k)
    (bufSize : BitVec 8) :
    Persists (loRaMacParserData buffer bufSize) (loRaMacParserData (buffer ++ rest) bufSize) := by
  have hread := persists_read buffer rest
  have hpayload : ∀ bufItr,
      Persists (parsePayload buffer bufSize bufItr)
        (parsePayload (buffer ++ rest) bufSize bufItr) :=
    fun bufItr => .ite (.bind (hread _) fun _ => .refl _) (.refl _)
  have hmic : Persists (parseMic buffer bufSize) (parseMic (buffer ++ rest) bufSize) :=
    .bind (hread _) fun _ => .bind (hread _) fun _ => .bind (hread _) fun _ =>
      .bind (hread _) fun _ => .refl _
  refine .bind (hread 0) fun mhdr => .ite (.refl _) ?_
  refine .bind (hread 1) fun _ => .bind (hread 2) fun _ => .bind (hread 3) fun _ => ?_
  refine .bind (hread 4) fun _ => .bind (hread 5) fun fctrl => .bind (hread 6) fun _ => ?_
  refine .bind (hread 7) fun _ => .ite ?_ (.refl _)
  exact .bind (persists_slice buffer rest 8 _) fun _ => .bind (hpayload _) fun _ =>
    .bind hmic fun _ => .refl _

/-- The parser has read the bytes that it reports. -/
theorem reads_of_loRaMacParserData {status : LoRaMacParserStatus} {macMsg : LoRaMacMessageData}
    (h : loRaMacParserData buffer bufSize = .ok (status, macMsg)) :
    buffer.toList[0]? = some macMsg.mhdr ∧
      (IsData macMsg.mhdr → buffer.toList[5]? = some macMsg.fctrl) := by
  obtain ⟨-, hmhdr, ⟨hjoin, -⟩ | ⟨-, hfctrl, -⟩⟩ := parser_cases h
  · refine ⟨getElem?_of_read hmhdr, fun hdata => ?_⟩
    exact absurd hjoin (not_or.2 hdata)
  · exact ⟨getElem?_of_read hmhdr, fun _ => getElem?_of_read hfctrl⟩

/-- Behind a port, the payload ends at the MIC. -/
theorem toNat_frmPayloadSize {bufItr : Nat}
    (h : (bufSize.toNat : Int) - bufItr - loramacMicFieldSize > 0) :
    bufItr + 1 + (BitVec.ofInt 8
      ((bufSize.toNat : Int) - (bufItr + 1 : Nat) - loramacMicFieldSize)).toNat +
        loramacMicFieldSize = bufSize.toNat := by
  have hmic : loramacMicFieldSize = 4 := rfl
  have hbyte := bufSize.isLt
  have hsize : (bufSize.toNat : Int) - (bufItr + 1 : Nat) - loramacMicFieldSize =
      (bufSize.toNat - (bufItr + 1) - loramacMicFieldSize : Nat) := by omega
  rw [hsize, BitVec.ofInt_natCast, BitVec.toNat_ofNat, Nat.mod_eq_of_lt (by omega)]
  omega

/-- The payload of a frame ends at its MIC. -/
theorem parsePayload_of_le (buffer : Vector (BitVec 8) n) (hn : bufSize.toNat ≤ n) (bufItr : Nat) :
    ∃ fport frmPayload frmPayloadSize,
      parsePayload buffer bufSize bufItr = .ok (fport, frmPayload, frmPayloadSize) ∧
      (frmPayload ≠ 0 →
        frmPayload + frmPayloadSize.toNat + loramacMicFieldSize = bufSize.toNat) := by
  rw [parsePayload]
  split
  · -- a port and a payload, which may be empty
    next hport =>
    have hlt : bufItr < n := by omega
    refine ⟨_, bufItr + 1, _, by rw [read_get buffer hlt]; rfl, fun _ => ?_⟩
    exact toNat_frmPayloadSize hport
  · exact ⟨0#8, 0, 0#8, rfl, fun hne => absurd rfl hne⟩

/-- The payload of a frame lies inside the frame. -/
theorem le_of_parsePayload {bufItr : Nat} {fport : BitVec 8} {frmPayload : Nat}
    {frmPayloadSize : BitVec 8}
    (h : parsePayload buffer bufSize bufItr = .ok (fport, frmPayload, frmPayloadSize)) :
    frmPayload + frmPayloadSize.toNat ≤ bufSize.toNat := by
  rw [parsePayload] at h
  split at h
  · next hport =>
    obtain ⟨fport', -, h⟩ := bind_eq_ok.1 h
    cases h
    exact Nat.le.intro (toNat_frmPayloadSize hport)
  · cases h
    exact Nat.zero_le _

/-- The payload that the parser reports lies inside the frame, and only a data frame has one. -/
theorem payload_of_loRaMacParserData {status : LoRaMacParserStatus} {macMsg : LoRaMacMessageData}
    (h : loRaMacParserData buffer bufSize = .ok (status, macMsg)) :
    macMsg.frmPayload + macMsg.frmPayloadSize.toNat ≤ bufSize.toNat ∧
      (¬ IsData macMsg.mhdr → macMsg.frmPayload = 0 ∧ macMsg.frmPayloadSize = 0#8) := by
  obtain ⟨-, -, ⟨-, hstart, hsize⟩ | ⟨hdata, -, hpayload⟩⟩ := parser_cases h
  · rw [hstart, hsize]
    exact ⟨Nat.zero_le _, fun _ => ⟨rfl, rfl⟩⟩
  · exact ⟨le_of_parsePayload hpayload, fun hnot => absurd (not_or.1 hdata) hnot⟩

/-- A join-request and a join-accept are not looked into. -/
theorem loRaMacParserData_join {mhdr : BitVec 8} (h0 : buffer.toList[0]? = some mhdr)
    (hjoin : ¬ IsData mhdr) :
    loRaMacParserData buffer bufSize =
      .ok (.success, { LoRaMacMessageData.zero with mhdr := mhdr }) := by
  have hread : read buffer 0 = .ok mhdr := read_ok rfl h0
  have htype : mType mhdr = frameTypeJoinAccept ∨ mType mhdr = frameTypeJoinReq := by
    by_contra hneither
    exact hjoin (not_or.1 hneither)
  rw [loRaMacParserData, hread, ok_bind, if_pos htype]

/-- Four bytes of a list. -/
theorem exists_of_length_four {l : List (BitVec 8)} (h : l.length = 4) :
    ∃ m0 m1 m2 m3, l = [m0, m1, m2, m3] := by
  match l, h with
  | [m0, m1, m2, m3], _ => exact ⟨m0, m1, m2, m3, rfl⟩

/-- The MIC is the last four bytes of the frame. -/
theorem parseMic_of_le (buffer : Vector (BitVec 8) n) (hn : bufSize.toNat = n)
    (hle : loramacMicFieldSize ≤ n) :
    ∃ m0 m1 m2 m3, parseMic buffer bufSize = .ok (le32 m0 m1 m2 m3) ∧
      buffer.toList.drop (n - loramacMicFieldSize) = [m0, m1, m2, m3] := by
  have hmic : loramacMicFieldSize = 4 := rfl
  obtain ⟨i, hi⟩ : ∃ i, n = i + 4 := ⟨n - 4, by omega⟩
  have hstart : (bufSize.toNat : Int) - loramacMicFieldSize = (i : Nat) := by omega
  have hdrop : n - loramacMicFieldSize = i := by omega
  have hfour : (buffer.toList.drop i).length = 4 := by
    rw [List.length_drop, Vector.length_toList]
    omega
  obtain ⟨m0, m1, m2, m3, hlist⟩ := exists_of_length_four hfour
  have hread : ∀ j v, [m0, m1, m2, m3][j]? = some v →
      read buffer ((i + j : Nat) : Int) = .ok v := by
    intro j v hj
    refine read_ok rfl ?_
    rw [← List.getElem?_drop, hlist]
    exact hj
  have h0 := hread 0 m0 rfl
  have h1 := hread 1 m1 rfl
  have h2 := hread 2 m2 rfl
  have h3 := hread 3 m3 rfl
  push_cast at h0 h1 h2 h3
  rw [Int.add_zero] at h0
  refine ⟨m0, m1, m2, m3, ?_, hdrop ▸ hlist⟩
  rw [parseMic, hstart]
  simp only [h0, h1, h2, h3, ok_bind]

/-- A data frame that has room for its header, its options and its MIC. -/
theorem loRaMacParserData_of_fits (hn : bufSize.toNat = n) {mhdr fctrl : BitVec 8}
    (h0 : buffer.toList[0]? = some mhdr) (hdata : IsData mhdr)
    (h5 : buffer.toList[5]? = some fctrl) (hfit : 12 + (fOptsLen fctrl).toNat ≤ n) :
    ∃ macMsg, loRaMacParserData buffer bufSize = .ok (.success, macMsg) ∧
      DataFits buffer.toList macMsg := by
  have hmicSize : loramacMicFieldSize = 4 := rfl
  have hlen : buffer.toList.length = n := Vector.length_toList
  -- the reads in the order of the parser: address, control, counter, options, payload, MIC
  have hread : ∀ i, i < 12 → ∃ v, read buffer (i : Nat) = .ok v :=
    fun i hi => ⟨_, read_get buffer (by omega)⟩
  have hmhdr : read buffer 0 = .ok mhdr := read_ok rfl h0
  have hfctrl : read buffer 5 = .ok fctrl := read_ok rfl h5
  obtain ⟨a0, h1⟩ := hread 1 (by omega)
  obtain ⟨a1, h2⟩ := hread 2 (by omega)
  obtain ⟨a2, h3⟩ := hread 3 (by omega)
  obtain ⟨a3, h4⟩ := hread 4 (by omega)
  obtain ⟨c0, h6⟩ := hread 6 (by omega)
  obtain ⟨c1, h7⟩ := hread 7 (by omega)
  push_cast at h1 h2 h3 h4 h6 h7
  have hfopts := slice_ok buffer 8 (fOptsLen fctrl).toNat (by omega)
  obtain ⟨fport, frmPayload, frmPayloadSize, hpayload, hend⟩ :=
    parsePayload_of_le buffer (Nat.le_of_eq hn) (8 + (fOptsLen fctrl).toNat)
  obtain ⟨m0, m1, m2, m3, hmic, hlast⟩ := parseMic_of_le buffer hn (by omega)
  have hnot : ¬ (mType mhdr = frameTypeJoinAccept ∨ mType mhdr = frameTypeJoinReq) :=
    not_or.2 hdata
  have hparse : loRaMacParserData buffer bufSize = .ok (.success, ⟨mhdr, le32 a0 a1 a2 a3, fctrl,
      le16 c0 c1, (buffer.toList.drop 8).take (fOptsLen fctrl).toNat, fport, frmPayload,
      frmPayloadSize, le32 m0 m1 m2 m3⟩) := by
    rw [loRaMacParserData, hmhdr]
    simp only [ok_bind, if_neg hnot, h1, h2, h3, h4, hfctrl, h6, h7, if_pos (fOptsLen_le fctrl),
      hfopts, hpayload, hmic]
  refine ⟨_, hparse, ⟨?_, ?_, m0, m1, m2, m3, ?_, rfl⟩⟩
  · rw [hlen]
    exact hfit
  · intro hport
    rw [hlen]
    exact (hend hport).trans hn
  · rw [hlen]
    exact hlast

end Data

/-! ## The parser of join-accepts -/

section JoinAccept

variable {n k : Nat} {buffer : Vector (BitVec 8) n} {bufSize : BitVec 8}

theorem parseJoinMic_isOk_iff (buffer : Vector (BitVec 8) n) (bufItr : Nat) :
    (∃ mic, parseJoinMic buffer bufItr = .ok mic) ↔ bufItr + 4 ≤ n := by
  constructor
  · rintro ⟨mic, h⟩
    rw [parseJoinMic] at h
    obtain ⟨m0, -, h⟩ := bind_eq_ok.1 h
    obtain ⟨m1, -, h⟩ := bind_eq_ok.1 h
    obtain ⟨m2, -, h⟩ := bind_eq_ok.1 h
    obtain ⟨m3, hlast, -⟩ := bind_eq_ok.1 h
    exact lt_of_read hlast
  · intro hfit
    rw [parseJoinMic, read_get buffer (by omega : bufItr < n), ok_bind,
      read_get buffer (by omega : bufItr + 1 < n), ok_bind,
      read_get buffer (by omega : bufItr + 2 < n), ok_bind,
      read_get buffer (by omega : bufItr + 3 < n), ok_bind]
    exact ⟨_, rfl⟩

/-- A header that has been parsed ended inside the buffer, and has no list of channel
frequencies. -/
theorem of_parseJoinHeader {msg : LoRaMacMessageJoinAccept}
    (h : parseJoinHeader buffer = .ok msg) : 13 ≤ n ∧ msg.cfList = none := by
  rw [parseJoinHeader] at h
  obtain ⟨mhdr, -, h⟩ := bind_eq_ok.1 h
  obtain ⟨joinNonce, -, h⟩ := bind_eq_ok.1 h
  obtain ⟨netId, -, h⟩ := bind_eq_ok.1 h
  obtain ⟨a0, -, h⟩ := bind_eq_ok.1 h
  obtain ⟨a1, -, h⟩ := bind_eq_ok.1 h
  obtain ⟨a2, -, h⟩ := bind_eq_ok.1 h
  obtain ⟨a3, -, h⟩ := bind_eq_ok.1 h
  obtain ⟨dlSettings, -, h⟩ := bind_eq_ok.1 h
  obtain ⟨rxDelay, hlast, h⟩ := bind_eq_ok.1 h
  cases h
  have hlt : 12 < n := lt_of_read hlast
  exact ⟨hlt, rfl⟩

/-- The header is 13 bytes long. -/
theorem parseJoinHeader_isOk_iff (buffer : Vector (BitVec 8) n) :
    (∃ msg, parseJoinHeader buffer = .ok msg) ↔ 13 ≤ n := by
  constructor
  · rintro ⟨msg, h⟩
    exact (of_parseJoinHeader h).1
  · intro hn
    have hread : ∀ i, i < 13 → ∃ v, read buffer (i : Nat) = .ok v :=
      fun i hi => ⟨_, read_get buffer (by omega)⟩
    obtain ⟨mhdr, h0⟩ := hread 0 (by omega)
    obtain ⟨a0, h7⟩ := hread 7 (by omega)
    obtain ⟨a1, h8⟩ := hread 8 (by omega)
    obtain ⟨a2, h9⟩ := hread 9 (by omega)
    obtain ⟨a3, h10⟩ := hread 10 (by omega)
    obtain ⟨dlSettings, h11⟩ := hread 11 (by omega)
    obtain ⟨rxDelay, h12⟩ := hread 12 (by omega)
    have hnonce := slice_ok buffer 1 3 (by omega)
    have hnet := slice_ok buffer 4 3 (by omega)
    push_cast at h0 h7 h8 h9 h10 h11 h12 hnonce hnet
    rw [parseJoinHeader]
    simp only [h0, hnonce, hnet, h7, h8, h9, h10, h11, h12, ok_bind]
    exact ⟨_, rfl⟩

/-- The three ways in which the parser ends: with a list of channel frequencies, with a failure, and
without a list. -/
theorem loRaMacParserJoinAccept_cases {r : LoRaMacParserStatus × LoRaMacMessageJoinAccept}
    (h : loRaMacParserJoinAccept buffer bufSize = .ok r) :
    (bufSize.toNat = 33 ∧ r.1 = .success ∧ r.2.cfList.isSome) ∨
      (17 < bufSize.toNat ∧ bufSize.toNat ≠ 33 ∧ r.1 = .fail) ∨
      (bufSize.toNat ≤ 17 ∧ 17 ≤ n ∧ r.1 = .success ∧ r.2.cfList = none) := by
  have hmic : loramacMicFieldSize = 4 := rfl
  have hlist : loramacCfListFieldSize = 16 := rfl
  rw [loRaMacParserJoinAccept] at h
  obtain ⟨msg, hhead, h⟩ := bind_eq_ok.1 h
  split at h
  · next hcf =>
    obtain ⟨cfList, -, h⟩ := bind_eq_ok.1 h
    obtain ⟨mic, -, h⟩ := bind_eq_ok.1 h
    cases h
    exact Or.inl ⟨by omega, rfl, rfl⟩
  · next hcf =>
    split at h
    · next hlong =>
      cases h
      exact Or.inr (Or.inl ⟨by omega, by omega, rfl⟩)
    · next hshort =>
      obtain ⟨mic, hread, h⟩ := bind_eq_ok.1 h
      have hfit := (parseJoinMic_isOk_iff buffer 13).1 ⟨mic, hread⟩
      have hnone := (of_parseJoinHeader hhead).2
      cases h
      exact Or.inr (Or.inr ⟨by omega, hfit, rfl, hnone⟩)

/-- A join-accept is parsed inside an array that holds its frame, its header and its MIC. -/
theorem loRaMacParserJoinAccept_of_fits (hn : bufSize.toNat ≤ n) (hfit : 17 ≤ n) :
    ∃ r, loRaMacParserJoinAccept buffer bufSize = .ok r := by
  have hmic : loramacMicFieldSize = 4 := rfl
  have hlist : loramacCfListFieldSize = 16 := rfl
  obtain ⟨msg, hhead⟩ := (parseJoinHeader_isOk_iff buffer).2 (by omega)
  rw [loRaMacParserJoinAccept, hhead, ok_bind]
  split
  · next hcf =>
    obtain ⟨mic, hread⟩ := (parseJoinMic_isOk_iff buffer (13 + loramacCfListFieldSize)).2 (by omega)
    rw [slice_ok buffer 13 loramacCfListFieldSize (by omega), ok_bind, hread]
    exact ⟨_, rfl⟩
  · split
    · exact ⟨_, rfl⟩
    · obtain ⟨mic, hread⟩ := (parseJoinMic_isOk_iff buffer 13).2 (by omega)
      rw [hread]
      exact ⟨_, rfl⟩

end JoinAccept

/-! ## The frame -/

section Frame

variable {k : Nat} {bufSize : BitVec 8} (frame : Vector (BitVec 8) bufSize.toNat)
  (rest : Vector (BitVec 8) k)

/-- The parser of data frames succeeds on every buffer that it does not leave. -/
theorem readsInside_data_iff :
    ReadsInside frame rest loRaMacParserData ↔
      ∃ macMsg, loRaMacParserData frame bufSize = .ok (.success, macMsg) := by
  constructor
  · rintro (⟨⟨status, macMsg⟩, hparse⟩ | ⟨status, macMsg, hparse, hfail⟩)
    · have hstatus := parser_success hparse
      subst hstatus
      exact ⟨macMsg, hparse⟩
    · exact absurd (parser_success hparse) hfail
  · rintro ⟨macMsg, hparse⟩
    exact Or.inl ⟨_, hparse⟩

/-- The parser of join-accepts keeps to the frame if this is long enough. -/
theorem readsInside_joinAccept_iff :
    ReadsInside frame rest loRaMacParserJoinAccept ↔ JoinLongEnough bufSize := by
  have hmic : loramacMicFieldSize = 4 := rfl
  rw [JoinLongEnough]
  constructor
  · rintro (⟨r, hparse⟩ | ⟨status, macMsg, hparse, hfail⟩)
    · rcases loRaMacParserJoinAccept_cases hparse with ⟨hsize, -⟩ | ⟨hsize, -⟩ | ⟨-, hsize, -⟩ <;>
        omega
    · rcases loRaMacParserJoinAccept_cases hparse with
        ⟨-, hstatus, -⟩ | ⟨hsize, -⟩ | ⟨-, -, hstatus, -⟩
      · exact absurd hstatus hfail
      · omega
      · exact absurd hstatus hfail
  · intro hlong
    exact Or.inl (loRaMacParserJoinAccept_of_fits le_rfl (by omega))

/-- The parser of data frames keeps to the frame and is right about it if this is long enough. -/
theorem dataInside_iff :
    (ReadsInside frame rest loRaMacParserData ∧
      ∀ macMsg, loRaMacParserData (frame ++ rest) bufSize = .ok (.success, macMsg) →
        IsData macMsg.mhdr → DataFits frame.toList macMsg) ↔ DataLongEnough frame := by
  have hlen : frame.toList.length = bufSize.toNat := Vector.length_toList
  rw [readsInside_data_iff]
  constructor
  · rintro ⟨⟨macMsg, hparse⟩, hfits⟩
    obtain ⟨h0, h5⟩ := reads_of_loRaMacParserData hparse
    refine ⟨macMsg.mhdr, h0, fun hdata => ⟨macMsg.fctrl, h5 hdata, ?_⟩⟩
    have hbuffer := persists_loRaMacParserData frame rest bufSize _ hparse
    rw [← hlen]
    exact (hfits macMsg hbuffer hdata).header
  · rintro ⟨mhdr, h0, hlong⟩
    by_cases hdata : IsData mhdr
    · obtain ⟨fctrl, h5, hfit⟩ := hlong hdata
      obtain ⟨macMsg, hparse, hok⟩ := loRaMacParserData_of_fits rfl h0 hdata h5 hfit
      refine ⟨⟨macMsg, hparse⟩, ?_⟩
      intro macMsg' hbuffer' _
      have hbuffer := persists_loRaMacParserData frame rest bufSize _ hparse
      cases hbuffer.symm.trans hbuffer'
      exact hok
    · have hparse : loRaMacParserData frame bufSize = _ := loRaMacParserData_join h0 hdata
      refine ⟨⟨_, hparse⟩, ?_⟩
      intro macMsg' hbuffer' hdata'
      have hbuffer := persists_loRaMacParserData frame rest bufSize _ hparse
      cases hbuffer.symm.trans hbuffer'
      exact absurd hdata' hdata

/-- Both parsers keep to the frame just when it is long enough for a data frame and for a
join-accept. -/
theorem parsersInside_iff :
    ParsersInside frame rest ↔ DataLongEnough frame ∧ JoinLongEnough bufSize := by
  rw [← dataInside_iff frame rest, ← readsInside_joinAccept_iff frame rest]
  constructor
  · rintro ⟨hdata, hjoin, hfits⟩
    exact ⟨⟨hdata, hfits⟩, hjoin⟩
  · rintro ⟨⟨hdata, hfits⟩, hjoin⟩
    exact ⟨hdata, hjoin, hfits⟩

end Frame

/-! ## A frame of one byte -/

/-- An unconfirmed uplink that ends after its first byte is parsed from what is behind it. -/
theorem short_frame_read_outside :
    ¬ ∀ (k : Nat) (bufSize : BitVec 8) (frame : Vector (BitVec 8) bufSize.toNat)
      (rest : Vector (BitVec 8) k), ParsersInside frame rest := by
  intro hall
  have hinside := hall 255 1#8 #v[0x40#8] (Vector.replicate 255 0#8)
  obtain ⟨macMsg, hparse⟩ := (readsInside_data_iff _ _).1 hinside.data
  have hfault : ∀ macMsg, loRaMacParserData (#v[0x40#8] : Vector (BitVec 8) (1#8).toNat) 1#8 ≠
      .ok (.success, macMsg) := by
    intro macMsg hok
    cases hok
  exact hfault macMsg hparse

end DraginoFwd.Mac

import DraginoFwd.Gps.Parser
import DraginoFwd.Lib.Memory

/-!
# The bytes that the GPS parsers read

`lgw_parse_ubx` and `lgw_parse_nmea` with every access checked: to the bytes they are given, to the
copy `parser_buf` and to the entries of `str_index` that `str_chop` has set. Without a bad access
they answer as the parsers of lists do (`lgwParseUbxMem_eq`, `lgwParseNmeaMem_eq`).

`lgw_parse_nmea` stays inside. `lgw_parse_ubx` reads the validity flags of NAV-TIMEGPS at byte 17
without a look at the size, so a frame of this class with a short payload is read behind its end
(`ShortTimegps`).
-/

set_option autoImplicit false

namespace DraginoFwd.Gps

open DraginoFwd.Lib.Memory

/-- `serial_buff[i]` of `n` bytes -/
def byteAt {n : Nat} (serialBuff : Vector (BitVec 8) n) (i : Nat) :
    Except OutOfBounds (BitVec 8) :=
  read serialBuff (i : Int)

/-! ## UBX -/

/-- What a frame does to `gps_time_ok`, `gps_iTOW`, `gps_fTOW` and `gps_week`. -/
inductive TimeUpdate where
  | kept
  | lost
  | set (iTow fTow : BitVec 32) (week : BitVec 16)

/-- The time in NAV-TIMEGPS: the validity flags are byte 17, the fields bytes 6 to 15. -/
def parseTimegps {n : Nat} (serialBuff : Vector (BitVec 8) n) : Except OutOfBounds TimeUpdate := do
  let flags ← byteAt serialBuff 17
  if flags &&& 0x3#8 = 0#8 then .ok .lost
  else
    let b6 ← byteAt serialBuff 6
    let b7 ← byteAt serialBuff 7
    let b8 ← byteAt serialBuff 8
    let b9 ← byteAt serialBuff 9
    let b10 ← byteAt serialBuff 10
    let b11 ← byteAt serialBuff 11
    let b12 ← byteAt serialBuff 12
    let b13 ← byteAt serialBuff 13
    let b14 ← byteAt serialBuff 14
    let b15 ← byteAt serialBuff 15
    .ok (.set (le32 b6 b7 b8 b9) (le32 b10 b11 b12 b13) (le16 b14 b15))

/-- The Fletcher sums of `k` bytes from `serial_buff[i]` on. -/
def fletcherMem {n : Nat} (serialBuff : Vector (BitVec 8) n) :
    Nat → Nat → BitVec 8 × BitVec 8 → Except OutOfBounds (BitVec 8 × BitVec 8)
  | 0, _, ck => .ok ck
  | k + 1, i, ck => do
      let b ← byteAt serialBuff i
      fletcherMem serialBuff k (i + 1) (ck.1 + b, ck.2 + (ck.1 + b))

/-- The body of `lgw_parse_ubx` for a complete message: the kind and the time. -/
def checkedUbx {n : Nat} (serialBuff : Vector (BitVec 8) n) (payloadLength : Nat) :
    Except OutOfBounds (GpsMsg × TimeUpdate) := do
  let ckARcv ← byteAt serialBuff (6 + payloadLength)
  let ckBRcv ← byteAt serialBuff (6 + payloadLength + 1)
  let ck ← fletcherMem serialBuff (4 + payloadLength) 2 (0#8, 0#8)
  if ck = (ckARcv, ckBRcv) then
    let cls ← byteAt serialBuff 2
    let id ← byteAt serialBuff 3
    if cls = 0x01#8 ∧ id = 0x20#8 then
      let time ← parseTimegps serialBuff
      .ok (.ubxNavTimegps, time)
    else .ok (.ignored, .kept)
  else .ok (.invalid, .kept)

/-- `lgw_parse_ubx`: the kind of the message, `msg_size` and the time. -/
def lgwParseUbxMem {n : Nat} (serialBuff : Vector (BitVec 8) n) :
    Except OutOfBounds ((GpsMsg × Nat) × TimeUpdate) :=
  if n < 8 then .ok ((.ignored, 0), .kept)
  else do
    let sync0 ← byteAt serialBuff 0
    let sync1 ← byteAt serialBuff 1
    if sync0 = 0xB5#8 ∧ sync1 = 0x62#8 then
      let low ← byteAt serialBuff 4
      let high ← byteAt serialBuff 5
      let payloadLength := low.toNat ||| high.toNat <<< 8
      if 6 + payloadLength + 2 ≤ n then
        (checkedUbx serialBuff payloadLength).map fun r => ((r.1, 6 + payloadLength + 2), r.2)
      else .ok ((.incomplete, 6 + payloadLength + 2), .kept)
    else .ok ((.ignored, 0), .kept)

/-- A complete NAV-TIMEGPS frame with a valid checksum stands at the front of fewer than 18
bytes. -/
structure ShortTimegps (l : List (BitVec 8)) : Prop where
  complete : 6 + payloadLength l + 2 ≤ l.length
  frame : UbxFrame (l.take (6 + payloadLength l + 2))
  timegps : charAt l 2 = 0x01#8 ∧ charAt l 3 = 0x20#8
  short : l.length < 18

/-! ## NMEA -/

/-- The loop of `nmea_checksum` from `nmea_string[i]` on. -/
def xorUntilStarMem {n : Nat} (nmeaString : Vector (BitVec 8) n) (i : Nat) (checkNum : BitVec 8) :
    Except OutOfBounds (Option (Nat × BitVec 8)) :=
  if h : i < n then
    let c := nmeaString.get ⟨i, h⟩
    if c = 0x2A#8 then .ok (some (i, checkNum))
    else if n ≤ i + 1 then .ok none
    else xorUntilStarMem nmeaString (i + 1) (checkNum ^^^ c)
  else .error ⟨i, n⟩
termination_by n - i

/-- `nmea_checksum` -/
def nmeaChecksumMem {n : Nat} (nmeaString : Vector (BitVec 8) n) :
    Except OutOfBounds (Option (Nat × BitVec 8 × BitVec 8)) :=
  if n ≤ 1 then .ok none
  else do
    let c ← byteAt nmeaString 0
    let r ← xorUntilStarMem nmeaString (if c = nmeaSyncChar then 1 else 0) 0#8
    .ok (r.map fun r => (r.1 + 1, nibbleToHexchar (r.2 / 16#8), nibbleToHexchar (r.2 % 16#8)))

/-- `validate_nmea_checksum` -/
def validateNmeaChecksumMem {n : Nat} (serialBuff : Vector (BitVec 8) n) :
    Except OutOfBounds Bool := do
  match ← nmeaChecksumMem serialBuff with
  | none => .ok false
  | some (checksumIndex, checksum0, checksum1) =>
      if n ≤ checksumIndex + 2 then .ok false
      else
        let c0 ← byteAt serialBuff checksumIndex
        let c1 ← byteAt serialBuff (checksumIndex + 1)
        .ok (c0 == checksum0 && c1 == checksum1)

/-- `match_label` from the `i`-th character of the label on. -/
def matchLabelMem {n : Nat} (s : Vector (BitVec 8) n) (wildcard : BitVec 8) :
    List (BitVec 8) → Nat → Except OutOfBounds Bool
  | [], _ => .ok true
  | c :: label, i =>
      if c = wildcard then matchLabelMem s wildcard label (i + 1)
      else do
        let b ← byteAt s i
        if c = b then matchLabelMem s wildcard label (i + 1) else .ok false

/-- The entries of `str_index` that are set; there is room for 30. -/
def setIndex (idxAry : List Nat) (value : Nat) : Except OutOfBounds (List Nat) :=
  if idxAry.length < 30 then .ok (idxAry ++ [value]) else .error ⟨idxAry.length, 30⟩

/-- `str_index[k]`, where it is set -/
def getIndex (idxAry : List Nat) (k : Nat) : Except OutOfBounds Nat :=
  match idxAry[k]? with
  | some i => .ok i
  | none => .error ⟨k, idxAry.length⟩

/-- The loop of `str_chop` from `s[i]` on. -/
def chopLoopMem (separator : BitVec 8) (maxIdx : Nat) (s : Vector (BitVec 8) 256) (i : Nat)
    (idxAry : List Nat) : Except OutOfBounds (Vector (BitVec 8) 256 × List Nat) :=
  if h : i < 256 then
    if s.get ⟨i, h⟩ = 0#8 then .ok (s, idxAry)
    else if s.get ⟨i, h⟩ = separator then
      if maxIdx ≤ idxAry.length then .ok (s.set i 0#8, idxAry)
      else do
        let idxAry ← setIndex idxAry (i + 1)
        chopLoopMem separator maxIdx (s.set i 0#8) (i + 1) idxAry
    else chopLoopMem separator maxIdx s (i + 1) idxAry
  else .error ⟨i, 256⟩
termination_by 256 - i

/-- `str_chop`: the chopped string and the indexes of its tokens. -/
def strChopMem (s : Vector (BitVec 8) 256) (buffSize : Nat) (separator : BitVec 8) (maxIdx : Nat) :
    Except OutOfBounds (Vector (BitVec 8) 256 × List Nat) :=
  if buffSize = 0 ∨ maxIdx = 0 then .ok (s, [])
  else do
    let s ← write s (buffSize - 1) 0#8
    let idxAry ← setIndex [] 0
    chopLoopMem separator maxIdx s 0 idxAry

/-- The string at `s + i`, which is read up to its terminator. -/
def stringAt (s : Vector (BitVec 8) 256) (i : Nat) : Except OutOfBounds (List (BitVec 8)) :=
  if h : i < 256 then
    if s.get ⟨i, h⟩ = 0#8 then .ok []
    else (stringAt s (i + 1)).map fun rest => s.get ⟨i, h⟩ :: rest
  else .error ⟨i, 256⟩
termination_by 256 - i

/-- The character at a token. -/
def tokenChar (s : Vector (BitVec 8) 256) (idxAry : List Nat) (k : Nat) :
    Except OutOfBounds (List (BitVec 8)) := do
  let i ← getIndex idxAry k
  let c ← byteAt s i
  .ok [c]

/-- The string at a token, as `sscanf` reads it. -/
def tokenText (s : Vector (BitVec 8) 256) (idxAry : List Nat) (k : Nat) :
    Except OutOfBounds (List (BitVec 8)) := do
  let i ← getIndex idxAry k
  stringAt s i

/-- The sentence in `parser_buf`, whose other bytes hold `junk`, chopped at the commas. -/
def chopSentence {n : Nat} (serialBuff : Vector (BitVec 8) n) (junk : Vector (BitVec 8) 256) :
    Except OutOfBounds (Vector (BitVec 8) 256 × List Nat) := do
  let parserBuf ← copy junk 0 serialBuff.toList
  let parserBuf ← write parserBuf n 0#8
  strChopMem parserBuf n 0x2C#8 30

/-- `lgw_parse_nmea`: the kind of the sentence and what is read out of its tokens. -/
def lgwParseNmeaMem {n : Nat} (serialBuff : Vector (BitVec 8) n) (buffSize : Int)
    (junk : Vector (BitVec 8) 256) : Except OutOfBounds (GpsMsg × List (List (BitVec 8))) :=
  if 255 < buffSize then .ok (.invalid, [])
  else if buffSize < 8 then .ok (.unknown, [])
  else do
    let valid ← validateNmeaChecksumMem serialBuff
    if !valid then .ok (.invalid, [])
    else
      let rmc ← matchLabelMem serialBuff 0x3F#8 labelRmc 0
      if rmc then
        let (parserBuf, strIndex) ← chopSentence serialBuff junk
        if strIndex.length < 13 then .ok (.ignored, [])
        else
          let gpsMod ← tokenChar parserBuf strIndex 12
          let time ← tokenText parserBuf strIndex 1
          let date ← tokenText parserBuf strIndex 9
          .ok (.nmeaRmc, [gpsMod, time, date])
      else
        let gga ← matchLabelMem serialBuff 0x3F#8 labelGga 0
        if gga then
          let (parserBuf, strIndex) ← chopSentence serialBuff junk
          if strIndex.length ≠ 15 then .ok (.ignored, [])
          else
            let sat ← tokenText parserBuf strIndex 7
            let lat ← tokenText parserBuf strIndex 2
            let ola ← tokenChar parserBuf strIndex 3
            let lon ← tokenText parserBuf strIndex 4
            let olo ← tokenChar parserBuf strIndex 5
            let alt ← tokenText parserBuf strIndex 9
            .ok (.nmeaGga, [sat, lat, ola, lon, olo, alt])
        else .ok (.ignored, [])

/-! ## `lgw_parse_ubx` -/

section Ubx

variable {n : Nat} {serialBuff : Vector (BitVec 8) n}

theorem charAt_eq_getElem {l : List (BitVec 8)} {i : Nat} (h : i < l.length) :
    charAt l i = l[i] := by
  rw [charAt, List.getD_eq_getElem?_getD, List.getElem?_eq_getElem h]
  rfl

theorem drop_eq_charAt_cons {l : List (BitVec 8)} {i : Nat} (h : i < l.length) :
    l.drop i = charAt l i :: l.drop (i + 1) := by
  rw [List.drop_eq_getElem_cons h, charAt_eq_getElem h]

theorem byteAt_ok (serialBuff : Vector (BitVec 8) n) {i : Nat} (h : i < n) :
    byteAt serialBuff i = .ok (charAt serialBuff.toList i) := by
  apply read_ok rfl
  have hlen : i < serialBuff.toList.length := by simpa using h
  rw [charAt_eq_getElem hlen, List.getElem?_eq_getElem hlen]

theorem byteAt_error (serialBuff : Vector (BitVec 8) n) {i : Nat} (h : n ≤ i) :
    byteAt serialBuff i = .error ⟨i, n⟩ := by
  rw [byteAt, Lib.Memory.read, dif_neg (by omega)]

/-- The sums of bytes in the buffer. -/
theorem fletcherMem_ok (k i : Nat) (ck : BitVec 8 × BitVec 8) (h : i + k ≤ n) :
    fletcherMem serialBuff k i ck =
      .ok (((serialBuff.toList.drop i).take k).foldl
        (fun ck b => (ck.1 + b, ck.2 + (ck.1 + b))) ck) := by
  induction k generalizing i ck with
  | zero => rfl
  | succ k ih =>
      have hi : i < serialBuff.toList.length := by
        rw [Vector.length_toList]
        omega
      rw [fletcherMem, byteAt_ok serialBuff (by omega), ok_bind, ih (i + 1) _ (by omega),
        drop_eq_charAt_cons hi, List.take_succ_cons, List.foldl_cons]

/-- With 18 bytes, the time of NAV-TIMEGPS is there. -/
theorem parseTimegps_ok (h : 18 ≤ n) : ∃ time, parseTimegps serialBuff = .ok time := by
  rw [parseTimegps, byteAt_ok serialBuff (by omega), ok_bind]
  split
  · exact ⟨_, rfl⟩
  · simp only [byteAt_ok serialBuff (show 6 < n by omega),
      byteAt_ok serialBuff (show 7 < n by omega), byteAt_ok serialBuff (show 8 < n by omega),
      byteAt_ok serialBuff (show 9 < n by omega), byteAt_ok serialBuff (show 10 < n by omega),
      byteAt_ok serialBuff (show 11 < n by omega), byteAt_ok serialBuff (show 12 < n by omega),
      byteAt_ok serialBuff (show 13 < n by omega), byteAt_ok serialBuff (show 14 < n by omega),
      byteAt_ok serialBuff (show 15 < n by omega), ok_bind]
    exact ⟨_, rfl⟩

theorem parseTimegps_error (h : n < 18) : parseTimegps serialBuff = .error ⟨17, n⟩ := by
  rw [parseTimegps, byteAt_error serialBuff (by omega)]
  rfl

/-- A complete message: its sums are over bytes of the buffer. -/
theorem checkedUbx_eq (payloadLength : Nat) (h : 6 + payloadLength + 2 ≤ n) :
    checkedUbx serialBuff payloadLength =
      if fletcher ((serialBuff.toList.drop 2).take (4 + payloadLength)) =
          (charAt serialBuff.toList (6 + payloadLength),
            charAt serialBuff.toList (6 + payloadLength + 1)) then
        if charAt serialBuff.toList 2 = 0x01#8 ∧ charAt serialBuff.toList 3 = 0x20#8 then
          (parseTimegps serialBuff).map fun time => (.ubxNavTimegps, time)
        else .ok (.ignored, .kept)
      else .ok (.invalid, .kept) := by
  rw [checkedUbx, byteAt_ok serialBuff (by omega), ok_bind, byteAt_ok serialBuff (by omega),
    ok_bind, fletcherMem_ok _ _ _ (by omega), ok_bind, fletcher]
  split
  · rw [byteAt_ok serialBuff (by omega), ok_bind, byteAt_ok serialBuff (by omega), ok_bind]
    split
    · cases parseTimegps serialBuff with
      | error e => rfl
      | ok time => rfl
    · rfl
  · rfl

/-- The answer of the parser of lists to a complete message. -/
theorem lgwParseUbx_complete {l : List (BitVec 8)}
    (hsync : charAt l 0 = 0xB5#8 ∧ charAt l 1 = 0x62#8)
    (hfit : 6 + payloadLength l + 2 ≤ l.length) :
    lgwParseUbx l =
      if fletcher ((l.drop 2).take (4 + payloadLength l)) =
          (charAt l (6 + payloadLength l), charAt l (6 + payloadLength l + 1)) then
        if charAt l 2 = 0x01#8 ∧ charAt l 3 = 0x20#8 then
          (.ubxNavTimegps, 6 + payloadLength l + 2)
        else (.ignored, 6 + payloadLength l + 2)
      else (.invalid, 6 + payloadLength l + 2) := by
  rw [lgwParseUbx, if_neg (by omega), if_pos hsync]
  dsimp only
  rw [if_pos hfit]
  simp only [ite_self]
  rfl

/-- A complete message is a short NAV-TIMEGPS, or it gets the answer of the parser of lists. -/
theorem answer_complete
    (hsync : charAt serialBuff.toList 0 = 0xB5#8 ∧ charAt serialBuff.toList 1 = 0x62#8)
    (hfit : 6 + payloadLength serialBuff.toList + 2 ≤ n) :
    (ShortTimegps serialBuff.toList ∧
      (checkedUbx serialBuff (payloadLength serialBuff.toList)).map (fun r =>
        ((r.1, 6 + payloadLength serialBuff.toList + 2), r.2)) = .error ⟨17, n⟩) ∨
    (¬ ShortTimegps serialBuff.toList ∧ ∃ time,
      (checkedUbx serialBuff (payloadLength serialBuff.toList)).map (fun r =>
        ((r.1, 6 + payloadLength serialBuff.toList + 2), r.2)) =
        .ok (lgwParseUbx serialBuff.toList, time)) := by
  have hlen : serialBuff.toList.length = n := Vector.length_toList
  have hframe : UbxFrame (serialBuff.toList.take (6 + payloadLength serialBuff.toList + 2)) ↔
      fletcher ((serialBuff.toList.drop 2).take (4 + payloadLength serialBuff.toList)) =
        (charAt serialBuff.toList (6 + payloadLength serialBuff.toList),
          charAt serialBuff.toList (6 + payloadLength serialBuff.toList + 1)) := by
    rw [ubxFrame_take_iff (by rw [hlen]; exact hfit)]
    exact ⟨fun h => h.2.2, fun h => ⟨hsync, rfl, h⟩⟩
  rw [checkedUbx_eq _ hfit, lgwParseUbx_complete hsync (by rw [hlen]; exact hfit)]
  by_cases hck : fletcher ((serialBuff.toList.drop 2).take
      (4 + payloadLength serialBuff.toList)) =
    (charAt serialBuff.toList (6 + payloadLength serialBuff.toList),
      charAt serialBuff.toList (6 + payloadLength serialBuff.toList + 1))
  · rw [if_pos hck, if_pos hck]
    by_cases hcls : charAt serialBuff.toList 2 = 0x01#8 ∧ charAt serialBuff.toList 3 = 0x20#8
    · rw [if_pos hcls, if_pos hcls]
      -- a NAV-TIMEGPS frame, whose bytes 6 to 17 are read
      rcases Nat.lt_or_ge n 18 with hshort | hlong
      · left
        refine ⟨⟨by rw [hlen]; exact hfit, hframe.2 hck, hcls, by rw [hlen]; exact hshort⟩, ?_⟩
        rw [parseTimegps_error hshort]
        rfl
      · right
        obtain ⟨time, htime⟩ := @parseTimegps_ok n serialBuff hlong
        refine ⟨fun h => ?_, time, ?_⟩
        · have hshort := h.short
          omega
        · rw [htime]
          rfl
    · rw [if_neg hcls, if_neg hcls]
      exact Or.inr ⟨fun h => hcls h.timegps, .kept, rfl⟩
  · rw [if_neg hck, if_neg hck]
    exact Or.inr ⟨fun h => hck (hframe.1 h.frame), .kept, rfl⟩

/-- The checked parser has an error at a short NAV-TIMEGPS, and answers elsewhere as the parser of
lists. -/
theorem lgwParseUbxMem_eq (serialBuff : Vector (BitVec 8) n) :
    (ShortTimegps serialBuff.toList ∧ lgwParseUbxMem serialBuff = .error ⟨17, n⟩) ∨
      (¬ ShortTimegps serialBuff.toList ∧
        ∃ time, lgwParseUbxMem serialBuff = .ok (lgwParseUbx serialBuff.toList, time)) := by
  have hlen : serialBuff.toList.length = n := Vector.length_toList
  by_cases hsmall : n < 8
  · right
    refine ⟨fun h => ?_, .kept, ?_⟩
    · have hcomplete := h.complete
      omega
    · rw [lgwParseUbxMem, if_pos hsmall, lgwParseUbx, hlen, if_pos hsmall]
  rw [lgwParseUbxMem, if_neg hsmall, byteAt_ok serialBuff (by omega), ok_bind,
    byteAt_ok serialBuff (by omega), ok_bind]
  by_cases hsync : charAt serialBuff.toList 0 = 0xB5#8 ∧ charAt serialBuff.toList 1 = 0x62#8
  · rw [if_pos hsync, byteAt_ok serialBuff (by omega), ok_bind, byteAt_ok serialBuff (by omega),
      ok_bind]
    -- the length of the header decides whether the message is complete
    by_cases hfit : 6 + ((charAt serialBuff.toList 4).toNat |||
        (charAt serialBuff.toList 5).toNat <<< 8) + 2 ≤ n
    · dsimp only
      rw [if_pos hfit]
      exact answer_complete hsync hfit
    · right
      refine ⟨fun h => hfit (h.complete.trans hlen.le), .kept, ?_⟩
      rw [lgwParseUbx, hlen, if_neg hsmall, if_pos hsync]
      dsimp only
      rw [if_neg hfit, if_neg (show ¬ 6 + payloadLength serialBuff.toList + 2 ≤ n from hfit)]
      rfl
  · right
    refine ⟨fun h => hsync ?_, .kept, ?_⟩
    · exact ((ubxFrame_take_iff h.complete).1 h.frame).1
    · rw [if_neg hsync, lgwParseUbx, hlen, if_neg hsmall, if_neg hsync]

end Ubx

/-! ## `lgw_parse_nmea` -/

section Nmea

variable {n : Nat} {serialBuff : Vector (BitVec 8) n}

theorem get_eq_charAt {m : Nat} (s : Vector (BitVec 8) m) {i : Nat} (h : i < m) :
    s.get ⟨i, h⟩ = charAt s.toList i := by
  have hlen : i < s.toList.length := by simpa using h
  rw [charAt_eq_getElem hlen]
  simp [Vector.get]

/-- The search for `'*'` from inside the buffer ends inside. -/
theorem xorUntilStarMem_ok (i : Nat) (checkNum : BitVec 8) (h : i < n) :
    xorUntilStarMem serialBuff i checkNum =
      .ok (xorUntilStar (serialBuff.toList.drop i) i checkNum) := by
  induction hk : n - i generalizing i checkNum with
  | zero => omega
  | succ k ih =>
      have hlen : i < serialBuff.toList.length := by rwa [Vector.length_toList]
      rw [xorUntilStarMem, dif_pos h, get_eq_charAt, drop_eq_charAt_cons hlen, xorUntilStar]
      dsimp only
      split
      · rfl
      · split
        · next hend =>
          rw [List.drop_of_length_le (by rw [Vector.length_toList]; exact hend)]
          rfl
        · next hmore => exact ih (i + 1) _ (Nat.lt_of_not_le hmore) (by omega)

theorem nmeaChecksumMem_ok (serialBuff : Vector (BitVec 8) n) :
    nmeaChecksumMem serialBuff = .ok (nmeaChecksum serialBuff.toList) := by
  have hlen : serialBuff.toList.length = n := Vector.length_toList
  rw [nmeaChecksumMem, nmeaChecksum, hlen]
  split
  · rfl
  · rw [byteAt_ok serialBuff (by omega), ok_bind, xorUntilStarMem_ok _ _ (by split <;> omega),
      ok_bind]

theorem validateNmeaChecksumMem_ok (serialBuff : Vector (BitVec 8) n) :
    validateNmeaChecksumMem serialBuff = .ok (validateNmeaChecksum serialBuff.toList) := by
  have hlen : serialBuff.toList.length = n := Vector.length_toList
  rw [validateNmeaChecksumMem, validateNmeaChecksum, nmeaChecksumMem_ok, ok_bind]
  cases nmeaChecksum serialBuff.toList with
  | none => rfl
  | some r =>
    dsimp only
    rw [hlen]
    split
    · rfl
    · rw [byteAt_ok serialBuff (by omega), ok_bind, byteAt_ok serialBuff (by omega), ok_bind]

theorem matchLabelMem_ok (wildcard : BitVec 8) (label : List (BitVec 8)) (i : Nat)
    (h : i + label.length ≤ n) :
    matchLabelMem serialBuff wildcard label i =
      .ok ((label.zipIdx i).all fun c => c.1 == wildcard ||
        c.1 == charAt serialBuff.toList c.2) := by
  induction label generalizing i with
  | nil => rfl
  | cons c label ih =>
      rw [List.length_cons] at h
      rw [matchLabelMem, List.zipIdx_cons, List.all_cons, ih (i + 1) (by omega)]
      split
      · next hwild => simp [hwild]
      · next hwild =>
        rw [byteAt_ok serialBuff (by omega), ok_bind]
        split
        · next heq => simp [heq]
        · next hne => simp [hwild, hne]

theorem matchLabelMem_eq (serialBuff : Vector (BitVec 8) n) (label : List (BitVec 8))
    (wildcard : BitVec 8) (h : label.length ≤ n) :
    matchLabelMem serialBuff wildcard label 0 =
      .ok (matchLabel serialBuff.toList label wildcard) :=
  matchLabelMem_ok wildcard label 0 (by omega)

/-! ### The chopped copy -/

/-- The copy ends with a terminator at `z`, and the tokens begin in front of it. -/
structure Chopped (s : Vector (BitVec 8) 256) (idxAry : List Nat) (z : Nat) : Prop where
  inside : z < 256
  stop : charAt s.toList z = 0#8
  tokens : ∀ i ∈ idxAry, i ≤ z

theorem charAt_set (s : Vector (BitVec 8) 256) {i : Nat} (hi : i < 256) (v : BitVec 8) (k : Nat) :
    charAt (s.set i v).toList k = if i = k then v else charAt s.toList k := by
  have hlen : i < s.toList.length := by rwa [Vector.length_toList]
  rw [charAt, charAt, Vector.toList_set, List.getD_eq_getElem?_getD, List.getD_eq_getElem?_getD,
    List.getElem?_set, if_pos hlen]
  split <;> rfl

/-- A terminator at a separator in front of the last one. -/
theorem Chopped.set {s : Vector (BitVec 8) 256} {idxAry : List Nat} {z i : Nat}
    (h : Chopped s idxAry z) (hi : i < z) :
    Chopped (s.set i 0#8 (hi.trans h.inside)) idxAry z := by
  refine ⟨h.inside, ?_, h.tokens⟩
  rw [charAt_set s (hi.trans h.inside), if_neg (Nat.ne_of_lt hi)]
  exact h.stop

/-- A token behind a separator. -/
theorem Chopped.snoc {s : Vector (BitVec 8) 256} {idxAry : List Nat} {z i : Nat}
    (h : Chopped s idxAry z) (hi : i < z) : Chopped s (idxAry ++ [i + 1]) z := by
  refine ⟨h.inside, h.stop, fun k hk => ?_⟩
  rcases List.mem_append.1 hk with hold | hnew
  · exact h.tokens k hold
  · rw [List.mem_singleton.1 hnew]
    exact hi

/-- The loop of `str_chop` ends at the terminator at the latest, with as many tokens as on lists. -/
theorem chopLoopMem_ok (separator : BitVec 8) {maxIdx : Nat} (hmax : maxIdx ≤ 30)
    (s : Vector (BitVec 8) 256) (i : Nat) (idxAry : List Nat) {z : Nat} (h : Chopped s idxAry z)
    (hi : i ≤ z) :
    ∃ s' idxAry', chopLoopMem separator maxIdx s i idxAry = .ok (s', idxAry') ∧
      Chopped s' idxAry' z ∧ idxAry'.length =
        chopLoop separator maxIdx ((s.toList.drop i).take (z - i)) idxAry.length := by
  have hz := h.inside
  -- by the distance to the last terminator
  induction hk : z - i generalizing s i idxAry with
  | zero =>
    obtain rfl : i = z := by omega
    refine ⟨s, idxAry, ?_, h, rfl⟩
    rw [chopLoopMem, dif_pos hz, get_eq_charAt, if_pos h.stop]
  | succ k ih =>
      have hlt : i < z := by omega
      have hlen : i < s.toList.length := by
        rw [Vector.length_toList]
        omega
      rw [chopLoopMem, dif_pos (hlt.trans hz), get_eq_charAt, drop_eq_charAt_cons hlen,
        List.take_succ_cons, chopLoop]
      split
      · exact ⟨s, idxAry, rfl, h, rfl⟩
      · split
        · split
          · exact ⟨_, idxAry, rfl, h.set hlt, rfl⟩
          · -- the separator becomes a terminator, and a token begins behind it
            next hroom =>
            rw [setIndex, if_pos (by omega), ok_bind]
            obtain ⟨s', idxAry', hrun, hchopped, hcount⟩ := ih (s.set i 0#8 (hlt.trans hz)) (i + 1)
              (idxAry ++ [i + 1]) ((h.set hlt).snoc hlt) hlt (by omega)
            refine ⟨s', idxAry', hrun, hchopped, ?_⟩
            rw [hcount, Vector.toList_set, List.drop_set_of_lt (by omega), List.length_append]
            rfl
        · exact ih s (i + 1) idxAry h hlt (by omega)

/-- A string in front of the last terminator is read to a terminator. -/
theorem stringAt_ok {s : Vector (BitVec 8) 256} {idxAry : List Nat} {z : Nat}
    (h : Chopped s idxAry z) (i : Nat) (hi : i ≤ z) : ∃ text, stringAt s i = .ok text := by
  have hz := h.inside
  induction hk : z - i generalizing i with
  | zero =>
    obtain rfl : i = z := by omega
    exact ⟨[], by rw [stringAt, dif_pos hz, get_eq_charAt, if_pos h.stop]⟩
  | succ k ih =>
      have hlt : i < z := by omega
      rw [stringAt, dif_pos (hlt.trans hz)]
      split
      · exact ⟨[], rfl⟩
      · obtain ⟨text, htext⟩ := ih (i + 1) hlt (by omega)
        exact ⟨_, by rw [htext]; rfl⟩

theorem getIndex_ok {s : Vector (BitVec 8) 256} {idxAry : List Nat} {z : Nat}
    (h : Chopped s idxAry z) {k : Nat} (hk : k < idxAry.length) :
    ∃ i, getIndex idxAry k = .ok i ∧ i ≤ z := by
  refine ⟨idxAry[k], ?_, h.tokens _ (List.getElem_mem hk)⟩
  rw [getIndex, List.getElem?_eq_getElem hk]

theorem tokenText_ok {s : Vector (BitVec 8) 256} {idxAry : List Nat} {z : Nat}
    (h : Chopped s idxAry z) {k : Nat} (hk : k < idxAry.length) :
    ∃ text, tokenText s idxAry k = .ok text := by
  obtain ⟨i, hget, hi⟩ := getIndex_ok h hk
  obtain ⟨text, htext⟩ := stringAt_ok h i hi
  exact ⟨text, by rw [tokenText, hget, ok_bind, htext]⟩

theorem tokenChar_ok {s : Vector (BitVec 8) 256} {idxAry : List Nat} {z : Nat}
    (h : Chopped s idxAry z) {k : Nat} (hk : k < idxAry.length) :
    ∃ text, tokenChar s idxAry k = .ok text := by
  obtain ⟨i, hget, hi⟩ := getIndex_ok h hk
  have hz := h.inside
  exact ⟨_, by rw [tokenChar, hget, ok_bind, byteAt_ok s (by omega), ok_bind]⟩

/-- The copy of a sentence is chopped inside `parser_buf`. -/
theorem chopSentence_ok (serialBuff : Vector (BitVec 8) n) (junk : Vector (BitVec 8) 256)
    (hpos : 0 < n) (hfit : n ≤ 255) :
    ∃ s idxAry, chopSentence serialBuff junk = .ok (s, idxAry) ∧ Chopped s idxAry (n - 1) ∧
      idxAry.length = strChop serialBuff.toList 0x2C#8 30 := by
  have hlen : serialBuff.toList.length = n := Vector.length_toList
  obtain ⟨buf, hcopy, hbuf⟩ := copy_spec junk 0 serialBuff.toList (by omega)
  -- `str_chop` puts its own terminator over the last character of the sentence
  have hstart : Chopped ((buf.set n 0#8).set (n - 1) 0#8) [0] (n - 1) := by
    refine ⟨by omega, ?_, fun i hi => ?_⟩
    · rw [charAt_set _ (by omega), if_pos rfl]
    · rw [List.mem_singleton.1 hi]
      exact Nat.zero_le _
  obtain ⟨s, idxAry, hrun, hchopped, hcount⟩ := chopLoopMem_ok 0x2C#8 (Nat.le_refl 30) _ 0 [0]
    hstart (Nat.zero_le _)
  refine ⟨s, idxAry, ?_, hchopped, ?_⟩
  · rw [chopSentence, hcopy, ok_bind, write_ok buf _ (by omega), ok_bind, strChopMem,
      if_neg (by omega), write_ok _ _ (by omega), ok_bind]
    exact hrun
  · have hfront : (((buf.set n 0#8).set (n - 1) 0#8).toList.drop 0).take (n - 1 - 0) =
        serialBuff.toList.dropLast := by
      rw [List.drop_zero, Vector.toList_set, Vector.toList_set, List.take_set_of_le (by omega),
        List.take_set_of_le (by omega), hbuf, List.take_zero, List.nil_append,
        List.take_append_of_le_length (by omega), List.dropLast_eq_take, hlen]
      rfl
    rw [hcount, hfront, strChop, if_neg (by omega)]
    rfl

/-- The checked parser has no error, and answers as the parser of lists. -/
theorem lgwParseNmeaMem_eq (serialBuff : Vector (BitVec 8) n) {buffSize : Int}
    (hsize : buffSize.toNat = n) (junk : Vector (BitVec 8) 256) :
    ∃ texts, lgwParseNmeaMem serialBuff buffSize junk =
      .ok (lgwParseNmea serialBuff.toList, texts) := by
  have hlen : serialBuff.toList.length = n := Vector.length_toList
  rw [lgwParseNmeaMem, lgwParseNmea, hlen]
  by_cases hbig : 255 < buffSize
  · rw [if_pos hbig, if_pos (show 255 < n by omega)]
    exact ⟨[], rfl⟩
  rw [if_neg hbig, if_neg (show ¬ 255 < n by omega)]
  by_cases hsmall : buffSize < 8
  · rw [if_pos hsmall, if_pos (show n < 8 by omega)]
    exact ⟨[], rfl⟩
  rw [if_neg hsmall, if_neg (show ¬ n < 8 by omega), validateNmeaChecksumMem_ok, ok_bind]
  split
  · exact ⟨[], rfl⟩
  -- the sentence has eight characters by now, and both labels fit
  have hrmc : labelRmc.length = 6 := rfl
  have hgga : labelGga.length = 6 := rfl
  obtain ⟨s, idxAry, hchop, hchopped, hcount⟩ := chopSentence_ok serialBuff junk (by omega)
    (by omega)
  rw [matchLabelMem_eq serialBuff labelRmc _ (by omega), ok_bind]
  split
  · rw [hchop, ok_bind]
    simp only [hcount]
    split
    · exact ⟨[], rfl⟩
    -- with 13 tokens, those of the numbers 1, 9 and 12 are there
    · obtain ⟨gpsMod, hmod⟩ := @tokenChar_ok s idxAry _ hchopped 12 (by omega)
      obtain ⟨time, htime⟩ := @tokenText_ok s idxAry _ hchopped 1 (by omega)
      obtain ⟨date, hdate⟩ := @tokenText_ok s idxAry _ hchopped 9 (by omega)
      rw [hmod, ok_bind, htime, ok_bind, hdate, ok_bind]
      exact ⟨_, rfl⟩
  · rw [matchLabelMem_eq serialBuff labelGga _ (by omega), ok_bind]
    split
    · rw [hchop, ok_bind]
      simp only [hcount]
      split
      · exact ⟨[], rfl⟩
      -- with 15 tokens, those up to number 9 are there
      · obtain ⟨sat, hsat⟩ := @tokenText_ok s idxAry _ hchopped 7 (by omega)
        obtain ⟨lat, hlat⟩ := @tokenText_ok s idxAry _ hchopped 2 (by omega)
        obtain ⟨ola, hola⟩ := @tokenChar_ok s idxAry _ hchopped 3 (by omega)
        obtain ⟨lon, hlon⟩ := @tokenText_ok s idxAry _ hchopped 4 (by omega)
        obtain ⟨olo, holo⟩ := @tokenChar_ok s idxAry _ hchopped 5 (by omega)
        obtain ⟨alt, halt⟩ := @tokenText_ok s idxAry _ hchopped 9 (by omega)
        rw [hsat, ok_bind, hlat, ok_bind, hola, ok_bind, hlon, ok_bind, holo, ok_bind, halt,
          ok_bind]
        exact ⟨_, rfl⟩
    · exact ⟨[], rfl⟩

end Nmea

/-! ## Both parsers -/

/-- A message that is not incomplete has its size in the buffer. -/
theorem lgwParseUbx_size_le (l : List (BitVec 8)) (h : (lgwParseUbx l).1 ≠ .incomplete) :
    (lgwParseUbx l).2 ≤ l.length := by
  rw [lgwParseUbx] at h ⊢
  split at h
  · next hshort => rw [if_pos hshort]; exact Nat.zero_le _
  · next hlong =>
    rw [if_neg hlong]
    split at h
    · next hsync =>
      rw [if_pos hsync]
      dsimp only at h ⊢
      split at h
      · next hfit =>
        rw [if_pos hfit]
        simp only [ite_self]
        split
        · split
          · exact hfit
          · exact hfit
        · exact hfit
      · exact absurd rfl h
    · next hsync => rw [if_neg hsync]; exact Nat.zero_le _

/-- On a buffer of `n` bytes both parsers make no access outside of it, of the copy or of the set
entries of `str_index`, and a message that is not incomplete has at most `n` bytes. -/
structure ParsersInside {n : Nat} (serialBuff : Vector (BitVec 8) n) : Prop where
  ubx : ∃ msg msgSize time, lgwParseUbxMem serialBuff = .ok ((msg, msgSize), time) ∧
    (msg ≠ .incomplete → msgSize ≤ n)
  nmea : ∀ (buffSize : Int) (junk : Vector (BitVec 8) 256), buffSize.toNat = n →
    ∃ msg texts, lgwParseNmeaMem serialBuff buffSize junk = .ok (msg, texts)

/-- The parsers stay inside exactly without a NAV-TIMEGPS frame in fewer than 18 bytes. -/
theorem parsersInside_gps_iff {n : Nat} (serialBuff : Vector (BitVec 8) n) :
    ParsersInside serialBuff ↔ ¬ ShortTimegps serialBuff.toList := by
  have hlen : serialBuff.toList.length = n := Vector.length_toList
  rcases lgwParseUbxMem_eq serialBuff with ⟨hshort, herr⟩ | ⟨hno, time, hok⟩
  · refine iff_of_false (fun h => ?_) (not_not.2 hshort)
    obtain ⟨msg, msgSize, time, hok, -⟩ := h.ubx
    rw [herr] at hok
    cases hok
  · refine iff_of_true ⟨⟨_, _, time, hok, fun hmsg => ?_⟩, ?_⟩ hno
    · exact (lgwParseUbx_size_le _ hmsg).trans hlen.le
    · intro buffSize junk hsize
      obtain ⟨texts, hnmea⟩ := lgwParseNmeaMem_eq serialBuff hsize junk
      exact ⟨_, texts, hnmea⟩

/-- NAV-TIMEGPS without a payload: eight bytes, of which byte 17 is read. -/
theorem empty_timegps_outside :
    lgwParseUbxMem #v[0xB5#8, 0x62#8, 0x01#8, 0x20#8, 0x00#8, 0x00#8, 0x21#8, 0x64#8] =
        .error ⟨17, 8⟩ ∧
      ¬ ParsersInside #v[0xB5#8, 0x62#8, 0x01#8, 0x20#8, 0x00#8, 0x00#8, 0x21#8, 0x64#8] := by
  have herr : lgwParseUbxMem
      #v[0xB5#8, 0x62#8, 0x01#8, 0x20#8, 0x00#8, 0x00#8, 0x21#8, 0x64#8] = .error ⟨17, 8⟩ := rfl
  refine ⟨herr, fun h => ?_⟩
  obtain ⟨msg, msgSize, time, hok, -⟩ := h.ubx
  rw [herr] at hok
  cases hok

end DraginoFwd.Gps

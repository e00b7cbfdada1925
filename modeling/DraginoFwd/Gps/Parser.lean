import DraginoFwd.Lib.Framing
import Mathlib

/-!
# GPS frames

`lgw_parse_ubx` and `lgw_parse_nmea` look at the bytes of the serial line, and answer with the kind
of the message and its size. A pointer into the buffer with the number of bytes behind it is the
list of these bytes. The decoded time and position, which both leave in globals for `lgw_gps_get`,
and the texts of the log are left out: no size and no kind depends on them.

`gpsFrame` says which frame starts at the front of some bytes, and `gpsFrame_eq_some_iff` that this
is a matter of the bytes of the frame alone: its sync characters, its length and its checksum.
-/

set_option autoImplicit false

namespace DraginoFwd.Gps

open DraginoFwd.Lib.Framing

/-- `enum gps_msg`, as far as the two parsers answer with it. -/
inductive GpsMsg where
  | unknown
  | ignored
  | invalid
  | incomplete
  | nmeaRmc
  | nmeaGga
  | ubxNavTimegps
  deriving DecidableEq, Repr

/-- `LGW_GPS_UBX_SYNC_CHAR` -/
def ubxSyncChar : BitVec 8 := 0xB5#8
/-- `LGW_GPS_NMEA_SYNC_CHAR` -/
def nmeaSyncChar : BitVec 8 := 0x24#8
/-- The end marker of an NMEA frame -/
def lineFeed : BitVec 8 := 0x0A#8

/-- `serial_buff[i]` -/
def charAt (serialBuff : List (BitVec 8)) (i : Nat) : BitVec 8 := serialBuff.getD i 0#8

/-! ## UBX -/

/-- `payload_length` of a header, little endian. -/
def payloadLength (serialBuff : List (BitVec 8)) : Nat :=
  (charAt serialBuff 4).toNat ||| (charAt serialBuff 5).toNat <<< 8

/-- The 8-bit Fletcher sums `ck_a` and `ck_b`. -/
def fletcher (bytes : List (BitVec 8)) : BitVec 8 × BitVec 8 :=
  bytes.foldl (fun ck b => (ck.1 + b, ck.2 + (ck.1 + b))) (0#8, 0#8)

/-- The kind of the message and `msg_size`. -/
def lgwParseUbx (serialBuff : List (BitVec 8)) : GpsMsg × Nat :=
  if serialBuff.length < 8 then (.ignored, 0)
  else if charAt serialBuff 0 = 0xB5#8 ∧ charAt serialBuff 1 = 0x62#8 then
    let msgSize := 6 + payloadLength serialBuff + 2
    if msgSize ≤ serialBuff.length then
      let ckRcv := (charAt serialBuff (msgSize - 2), charAt serialBuff (msgSize - 1))
      -- class, identifier, length and payload are summed
      let ck := fletcher ((serialBuff.drop 2).take (4 + payloadLength serialBuff))
      if ck = ckRcv then
        if charAt serialBuff 2 = 0x01#8 ∧ charAt serialBuff 3 = 0x20#8 then
          (.ubxNavTimegps, msgSize)
        else if charAt serialBuff 2 = 0x05#8 ∧ charAt serialBuff 3 = 0x00#8 then
          (.ignored, msgSize)
        else if charAt serialBuff 2 = 0x05#8 ∧ charAt serialBuff 3 = 0x01#8 then
          (.ignored, msgSize)
        else (.ignored, msgSize)
      else (.invalid, msgSize)
    else (.incomplete, msgSize)
  else (.ignored, 0)

/-! ## NMEA -/

/-- `nibble_to_hexchar` -/
def nibbleToHexchar (a : BitVec 8) : BitVec 8 :=
  if a < 10#8 then 0x30#8 + a
  else if a < 16#8 then 0x41#8 + (a - 10#8)
  else 0x3F#8

/-- The loop of `nmea_checksum`: the place of the first `'*'`, and the exclusive or of what stands
before it. -/
def xorUntilStar : List (BitVec 8) → Nat → BitVec 8 → Option (Nat × BitVec 8)
  | [], _, _ => none
  | c :: rest, i, checkNum =>
      if c = 0x2A#8 then some (i, checkNum) else xorUntilStar rest (i + 1) (checkNum ^^^ c)

/-- The position of the checksum in the string, and the two characters that should stand there. -/
def nmeaChecksum (nmeaString : List (BitVec 8)) : Option (Nat × BitVec 8 × BitVec 8) :=
  if nmeaString.length ≤ 1 then none
  else
    let i := if charAt nmeaString 0 = nmeaSyncChar then 1 else 0
    (xorUntilStar (nmeaString.drop i) i 0#8).map fun r =>
      (r.1 + 1, nibbleToHexchar (r.2 / 16#8), nibbleToHexchar (r.2 % 16#8))

/-- `validate_nmea_checksum` -/
def validateNmeaChecksum (serialBuff : List (BitVec 8)) : Bool :=
  match nmeaChecksum serialBuff with
  | none => false
  | some (checksumIndex, checksum0, checksum1) =>
      -- enough characters to read the checksum
      if serialBuff.length ≤ checksumIndex + 2 then false
      else charAt serialBuff checksumIndex == checksum0 &&
        charAt serialBuff (checksumIndex + 1) == checksum1

/-- The label, which can hold wildcards, is the beginning of the string. -/
def matchLabel (s label : List (BitVec 8)) (wildcard : BitVec 8) : Bool :=
  label.zipIdx.all fun c => c.1 == wildcard || c.1 == charAt s c.2

/-- The loop of `str_chop`, with `j` tokens so far. -/
def chopLoop (separator : BitVec 8) (maxIdx : Nat) : List (BitVec 8) → Nat → Nat
  | [], j => j
  | c :: rest, j =>
      if c = 0#8 then j
      else if c = separator then
        if maxIdx ≤ j then j else chopLoop separator maxIdx rest (j + 1)
      else chopLoop separator maxIdx rest j

/-- The number of tokens. The terminator takes the place of the last character. -/
def strChop (s : List (BitVec 8)) (separator : BitVec 8) (maxIdx : Nat) : Nat :=
  if s.length = 0 ∨ maxIdx = 0 then 0 else chopLoop separator maxIdx s.dropLast 1

/-- `"$G?RMC"` -/
def labelRmc : List (BitVec 8) := [0x24#8, 0x47#8, 0x3F#8, 0x52#8, 0x4D#8, 0x43#8]
/-- `"$G?GGA"` -/
def labelGga : List (BitVec 8) := [0x24#8, 0x47#8, 0x3F#8, 0x47#8, 0x47#8, 0x41#8]

/-- `lgw_parse_nmea`, as far as it decides on the type of the message -/
def lgwParseNmea (serialBuff : List (BitVec 8)) : GpsMsg :=
  if 255 < serialBuff.length then .invalid
  else if serialBuff.length < 8 then .unknown
  else if !validateNmeaChecksum serialBuff then .invalid
  else if matchLabel serialBuff labelRmc 0x3F#8 then
    if strChop serialBuff 0x2C#8 30 < 13 then .ignored else .nmeaRmc
  else if matchLabel serialBuff labelGga 0x3F#8 then
    if strChop serialBuff 0x2C#8 30 ≠ 15 then .ignored else .nmeaGga
  else .ignored

/-! ## Frames -/

/-- The frame at the front of the bytes, with its size: what a parser finds intact. -/
def gpsFrame (l : List (BitVec 8)) : Option (GpsMsg × Nat) :=
  if charAt l 0 = ubxSyncChar then
    match lgwParseUbx l with
    | (.incomplete, _) | (.invalid, _) | (_, 0) => none
    | (msg, size) => some (msg, size)
  else if charAt l 0 = nmeaSyncChar then
    (l.findIdx? (· == lineFeed)).bind fun i =>
      match lgwParseNmea (l.take (i + 1)) with
      | .invalid | .unknown => none
      | msg => some (msg, i + 1)
  else none

/-- The bytes are one UBX frame. -/
@[mk_iff]
structure UbxFrame (f : List (BitVec 8)) : Prop where
  sync : charAt f 0 = 0xB5#8 ∧ charAt f 1 = 0x62#8
  size : f.length = 6 + payloadLength f + 2
  checksum : fletcher ((f.drop 2).take (4 + payloadLength f)) =
    (charAt f (f.length - 2), charAt f (f.length - 1))

/-- The bytes are one NMEA frame. -/
@[mk_iff]
structure NmeaFrame (f : List (BitVec 8)) : Prop where
  sync : charAt f 0 = nmeaSyncChar
  stop : f.findIdx? (· == lineFeed) = some (f.length - 1)
  size : 8 ≤ f.length ∧ f.length ≤ 255
  checksum : validateNmeaChecksum f = true

/-- The kind of a UBX frame. -/
def ubxMsg (f : List (BitVec 8)) : GpsMsg :=
  if charAt f 2 = 0x01#8 ∧ charAt f 3 = 0x20#8 then .ubxNavTimegps else .ignored

/-- The kind of an NMEA frame. -/
def nmeaMsg (f : List (BitVec 8)) : GpsMsg :=
  if matchLabel f labelRmc 0x3F#8 then
    if strChop f 0x2C#8 30 < 13 then .ignored else .nmeaRmc
  else if matchLabel f labelGga 0x3F#8 then
    if strChop f 0x2C#8 30 ≠ 15 then .ignored else .nmeaGga
  else .ignored

theorem charAt_take {l : List (BitVec 8)} {i n : Nat} (h : i < n) :
    charAt (l.take n) i = charAt l i := by
  simp [charAt, List.getD_eq_getElem?_getD, h]

theorem payloadLength_take {l : List (BitVec 8)} {n : Nat} (h : 8 ≤ n) :
    payloadLength (l.take n) = payloadLength l := by
  unfold payloadLength
  rw [charAt_take (by omega), charAt_take (by omega)]

/-- The first bytes are a UBX frame when the header says so and the sums are right. -/
theorem ubxFrame_take_iff {l : List (BitVec 8)} {n : Nat} (hn : n ≤ l.length) :
    UbxFrame (l.take n) ↔
      (charAt l 0 = 0xB5#8 ∧ charAt l 1 = 0x62#8) ∧ n = 6 + payloadLength l + 2 ∧
        fletcher ((l.drop 2).take (4 + payloadLength l)) =
          (charAt l (n - 2), charAt l (n - 1)) := by
  have hlen : (l.take n).length = n := by
    rw [List.length_take, Nat.min_eq_left hn]
  rw [ubxFrame_iff, hlen]
  by_cases h : 8 ≤ n
  · rw [payloadLength_take h, charAt_take (by omega), charAt_take (by omega),
      charAt_take (by omega), charAt_take (by omega)]
    refine and_congr_right fun _ => and_congr_right fun hsize => ?_
    rw [List.drop_take, List.take_take, Nat.min_eq_left (by omega)]
  · -- a frame has eight bytes at least
    refine iff_of_false ?_ ?_
    · rintro ⟨-, hsize, -⟩
      omega
    · rintro ⟨-, hsize, -⟩
      omega

/-- An intact message of `lgw_parse_ubx` is a UBX frame at the front. -/
theorem lgwParseUbx_eq_iff (l : List (BitVec 8)) (m : GpsMsg) (n : Nat) :
    (lgwParseUbx l = (m, n) ∧ m ≠ .incomplete ∧ m ≠ .invalid ∧ n ≠ 0) ↔
      n ≤ l.length ∧ UbxFrame (l.take n) ∧ m = ubxMsg (l.take n) := by
  constructor
  · rintro ⟨h, hinc, hinv, hpos⟩
    unfold lgwParseUbx at h
    split at h
    next => exact absurd (congrArg Prod.snd h).symm hpos
    next hlong =>
    split at h
    next hsync =>
      dsimp only at h
      split at h
      next hle =>
        split at h
        next hck =>
          -- the acknowledgements are ignored like every other message
          simp only [ite_self] at h
          obtain rfl : 6 + payloadLength l + 2 = n := by
            split at h <;> exact congrArg Prod.snd h
          refine ⟨hle, (ubxFrame_take_iff hle).mpr ⟨hsync, rfl, hck⟩, ?_⟩
          unfold ubxMsg
          rw [charAt_take (by omega), charAt_take (by omega)]
          split at h
          next hnav =>
            rw [if_pos hnav]
            exact (congrArg Prod.fst h).symm
          next hnav =>
            rw [if_neg hnav]
            exact (congrArg Prod.fst h).symm
        next => exact absurd (congrArg Prod.fst h).symm hinv
      next => exact absurd (congrArg Prod.fst h).symm hinc
    next => exact absurd (congrArg Prod.snd h).symm hpos
  · rintro ⟨hn, hf, rfl⟩
    obtain ⟨hsync, hsize, hck⟩ := (ubxFrame_take_iff hn).mp hf
    have hparse : lgwParseUbx l = (ubxMsg (l.take n), n) := by
      unfold lgwParseUbx ubxMsg
      rw [charAt_take (by omega), charAt_take (by omega), if_neg (by omega), if_pos hsync]
      dsimp only
      rw [← hsize, if_pos hn, if_pos hck]
      simp only [ite_self]
      split <;> rfl
    refine ⟨hparse, ?_, ?_, by omega⟩
    · unfold ubxMsg
      split <;> decide
    · unfold ubxMsg
      split <;> decide

/-- A sentence that `lgw_parse_nmea` takes is of the right size, and its checksum is valid. -/
theorem lgwParseNmea_eq_iff (f : List (BitVec 8)) (m : GpsMsg) :
    (lgwParseNmea f = m ∧ m ≠ .invalid ∧ m ≠ .unknown) ↔
      (8 ≤ f.length ∧ f.length ≤ 255) ∧ validateNmeaChecksum f = true ∧ m = nmeaMsg f := by
  constructor
  · rintro ⟨h, hinv, hunk⟩
    unfold lgwParseNmea at h
    split at h
    next => exact absurd h.symm hinv
    next hshort =>
    split at h
    next => exact absurd h.symm hunk
    next hlong =>
    split at h
    next => exact absurd h.symm hinv
    next hck =>
      exact ⟨⟨by omega, by omega⟩, by simpa using hck, h.symm⟩
  · rintro ⟨⟨hlong, hshort⟩, hck, rfl⟩
    refine ⟨?_, ?_, ?_⟩
    · unfold lgwParseNmea
      rw [if_neg (by omega), if_neg (by omega), hck]
      rfl
    · unfold nmeaMsg
      repeat' split
      all_goals decide
    · unfold nmeaMsg
      repeat' split
      all_goals decide

/-- The end marker of the front is that of the bytes. -/
theorem findIdx?_take_succ (l : List (BitVec 8)) (i : Nat) :
    (l.take (i + 1)).findIdx? (· == lineFeed) = some i ↔ l.findIdx? (· == lineFeed) = some i := by
  rw [List.findIdx?_take]
  cases h : l.findIdx? (· == lineFeed) with
  | none => simp
  | some j =>
      simp only [Option.bind_some, Option.guard_eq_some_iff, Option.some.injEq, decide_eq_true_eq]
      omega

theorem nmeaFrame_take_iff {l : List (BitVec 8)} {n : Nat} (hn : n ≤ l.length) :
    NmeaFrame (l.take n) ↔
      charAt l 0 = nmeaSyncChar ∧ l.findIdx? (· == lineFeed) = some (n - 1) ∧
        (8 ≤ n ∧ n ≤ 255) ∧ validateNmeaChecksum (l.take n) = true := by
  have hlen : (l.take n).length = n := by
    rw [List.length_take, Nat.min_eq_left hn]
  rw [nmeaFrame_iff, hlen]
  cases n with
  | zero => exact iff_of_false (fun h => absurd h.2.2.1.1 (by decide)) fun h =>
      absurd h.2.2.1.1 (by decide)
  | succ n =>
      rw [charAt_take (Nat.succ_pos n), Nat.add_sub_cancel, findIdx?_take_succ]

theorem ubxSyncChar_ne : ubxSyncChar ≠ nmeaSyncChar := by decide

theorem gpsFrame_ubx {l : List (BitVec 8)} (hsync : charAt l 0 = ubxSyncChar) (m : GpsMsg)
    (n : Nat) :
    gpsFrame l = some (m, n) ↔ n ≤ l.length ∧ UbxFrame (l.take n) ∧ m = ubxMsg (l.take n) := by
  rw [← lgwParseUbx_eq_iff, gpsFrame, if_pos hsync]
  rcases lgwParseUbx l with ⟨msg, size⟩
  cases msg <;> cases size <;> simp <;> grind

theorem gpsFrame_nmea {l : List (BitVec 8)} (hsync : charAt l 0 = nmeaSyncChar) (m : GpsMsg)
    (n : Nat) :
    gpsFrame l = some (m, n) ↔ n ≤ l.length ∧ NmeaFrame (l.take n) ∧ m = nmeaMsg (l.take n) := by
  have hother : charAt l 0 ≠ ubxSyncChar := fun h => ubxSyncChar_ne (h.symm.trans hsync)
  rw [gpsFrame, if_neg hother, if_pos hsync]
  constructor
  · intro h
    obtain ⟨i, hi, hmsg⟩ := Option.bind_eq_some_iff.mp h
    -- the sentence ends with the first line feed
    have hlt : i < l.length := (List.findIdx?_eq_some_iff_getElem.mp hi).1
    have hparse : (lgwParseNmea (l.take (i + 1)) = m ∧ m ≠ .invalid ∧ m ≠ .unknown) ∧
        i + 1 = n := by
      generalize lgwParseNmea (l.take (i + 1)) = msg at hmsg
      cases msg <;> simp at hmsg <;> grind
    obtain ⟨hparse, rfl⟩ := hparse
    obtain ⟨hsize, hck, hm⟩ := (lgwParseNmea_eq_iff _ _).mp hparse
    rw [List.length_take, Nat.min_eq_left hlt] at hsize
    exact ⟨hlt, (nmeaFrame_take_iff hlt).mpr ⟨hsync, hi, hsize, hck⟩, hm⟩
  · rintro ⟨hn, hf, hm⟩
    obtain ⟨-, hend, hsize, hck⟩ := (nmeaFrame_take_iff hn).mp hf
    obtain ⟨n, rfl⟩ : ∃ n', n = n' + 1 := ⟨n - 1, by omega⟩
    have hlen : (l.take (n + 1)).length = n + 1 := by
      rw [List.length_take, Nat.min_eq_left hn]
    obtain ⟨hparse, hinv, hunk⟩ :=
      (lgwParseNmea_eq_iff _ m).mpr ⟨by rw [hlen]; exact hsize, hck, hm⟩
    rw [hend, Option.bind_some, Nat.add_sub_cancel, hparse]
    cases m <;> simp at hinv hunk ⊢

/-- **The frame at the front of the bytes is the one that its own bytes are**, whatever follows. -/
theorem gpsFrame_eq_some_iff (l : List (BitVec 8)) (m : GpsMsg) (n : Nat) :
    gpsFrame l = some (m, n) ↔ n ≤ l.length ∧
      (UbxFrame (l.take n) ∧ m = ubxMsg (l.take n) ∨
        NmeaFrame (l.take n) ∧ m = nmeaMsg (l.take n)) := by
  have hubx : n ≤ l.length → UbxFrame (l.take n) → charAt l 0 = ubxSyncChar :=
    fun hn hf => ((ubxFrame_take_iff hn).mp hf).1.1
  have hnmea : n ≤ l.length → NmeaFrame (l.take n) → charAt l 0 = nmeaSyncChar :=
    fun hn hf => ((nmeaFrame_take_iff hn).mp hf).1
  constructor
  · intro h
    by_cases hsync : charAt l 0 = ubxSyncChar
    · obtain ⟨hn, hf⟩ := (gpsFrame_ubx hsync m n).mp h
      exact ⟨hn, .inl hf⟩
    · by_cases hstart : charAt l 0 = nmeaSyncChar
      · obtain ⟨hn, hf⟩ := (gpsFrame_nmea hstart m n).mp h
        exact ⟨hn, .inr hf⟩
      · rw [gpsFrame, if_neg hsync, if_neg hstart] at h
        cases h
  · rintro ⟨hn, hf | hf⟩
    · exact (gpsFrame_ubx (hubx hn hf.1) m n).mpr ⟨hn, hf⟩
    · exact (gpsFrame_nmea (hnmea hn hf.1) m n).mpr ⟨hn, hf⟩

/-- The shortest frame of both kinds has eight bytes. -/
theorem eight_le_of_gpsFrame {l : List (BitVec 8)} {m : GpsMsg} {n : Nat}
    (h : gpsFrame l = some (m, n)) : 8 ≤ n := by
  obtain ⟨-, hf | hf⟩ := (gpsFrame_eq_some_iff l m n).mp h
  · have hsize := hf.1.size
    rw [List.length_take] at hsize
    omega
  · have hsize := hf.1.size
    rw [List.length_take] at hsize
    omega

theorem gpsFrame_local : Local gpsFrame where
  pos := by
    intro l m n h
    have hsize := eight_le_of_gpsFrame h
    omega
  le := fun h => ((gpsFrame_eq_some_iff _ _ _).mp h).1
  agree := by
    intro l l' m n h hn hsame
    rw [gpsFrame_eq_some_iff] at h ⊢
    rw [hsame]
    exact ⟨hn, h.2⟩

end DraginoFwd.Gps

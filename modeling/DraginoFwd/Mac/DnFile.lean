import DraginoFwd.Lib.Fields
import DraginoFwd.Lib.Memory
import DraginoFwd.Mac.FrameCounter

/-!
# Files with downlinks

`pkt_prepare_downlink` reads each file in `/var/iot/push` into `buff_down` and cuts ten fields out
of it with `strcpypt`. A file is the list of its bytes here, and the cursor `start` of `strcpypt` is
what is left of the file behind it. A copy into an array of the packet that does not fit is
`OutOfBounds`.

The files that give the packet they describe are named by `ReadsAsWritten`
(`parsedAsWritten_iff`). The others lose something on the way: the length of the file and the
numbers are kept in 8 bits, a text is cut to 15 characters, and `txmode` and `pdformat` have 8
cells. The port is compared with 255 when it has 8 bits already, so that a port like 300 never gives
the default (`port_cut_to_a_byte`).
-/

set_option autoImplicit false

namespace DraginoFwd.Mac.DnFile

open DraginoFwd.Lib.Fields DraginoFwd.Lib.Memory

/-! ## Cutting fields out of a file -/

/-- The loop of `strcpypt` that stores characters up to the next comma, `j` of them so far: the
characters that it stores, and what is left of the file. -/
def strcpyptLoop (len : Nat) : Nat → List Char → List Char × List Char
  | _, [] => ([], [])
  | j, c :: src =>
      if c = ',' then ([], src)
      -- without room for it the rest of the field is skipped
      else if j = len - 1 then strcpyptLoop len j src
      else if c.toNat ≠ 0 ∧ c.toNat ≠ 10 then
        (c :: (strcpyptLoop len (j + 1) src).1, (strcpyptLoop len (j + 1) src).2)
      else strcpyptLoop len j src

/-- `strcpypt`: the text stored in `dest`, whose length is the value returned, and what is left of
the file. The cursor stays where it is when there are only blanks left. -/
def strcpypt (src : List Char) (len : Nat) : List Char × List Char :=
  match src.dropWhile (· = ' ') with
  | [] => ([], src)
  | c :: rest => strcpyptLoop len 0 (c :: rest)

/-- The text that a file has for a field: without the blanks in front of it, and without the
characters NUL and LF. -/
def fieldText (file : List Char) (k : Nat) : List Char :=
  ((field ',' file k).dropWhile (· = ' ')).filter fun c => c.toNat ≠ 0 ∧ c.toNat ≠ 10

/-! ## The packet -/

/-- The fields of `dn_pkt_s` that a file sets. -/
structure DnPkt where
  devaddr : Vector Char 16
  txmode : Vector Char 8
  pdformat : Vector Char 8
  payload : Vector (BitVec 8) 512
  psize : BitVec 8
  txdr : BitVec 8
  txbw : BitVec 8
  txpw : BitVec 8
  rxwindow : BitVec 8
  txport : BitVec 8
  txfreq : BitVec 32

/-- `strcpy`: the text and a NUL behind it. -/
def strcpy {n : Nat} (dest : Vector Char n) (src : List Char) :
    Except OutOfBounds (Vector Char n) :=
  copy dest 0 (src ++ [Char.ofNat 0])

/-- The text in an array, up to the first NUL. -/
def cstring {n : Nat} (s : Vector Char n) : List Char := s.toList.takeWhile fun c => c.toNat ≠ 0

/-- A character as a `uint8_t`. -/
def charByte (c : Char) : BitVec 8 := BitVec.ofNat 8 c.toNat

/-- `hex2int`: a character that is no digit counts as 0. -/
def hex2int (c : Char) : BitVec 8 :=
  if 0x30 ≤ c.toNat ∧ c.toNat ≤ 0x39 then charByte c - 0x30#8
  else if 0x41 ≤ c.toNat ∧ c.toNat ≤ 0x46 then charByte c - 0x37#8
  else if 0x61 ≤ c.toNat ∧ c.toNat ≤ 0x66 then charByte c - 0x57#8
  else 0#8

/-- `hex2str`: a byte for two digits. -/
def hex2str : List Char → List (BitVec 8)
  | h :: l :: hex => (hex2int h <<< 4 ||| hex2int l) :: hex2str hex
  | [_] => []
  | [] => []

/-- The constant of the data rate that a text names, and 0 for any other text. -/
def dataRate (tmpstr : List Char) : BitVec 8 :=
  if "SF7".toList <+: tmpstr then 7
  else if "SF8".toList <+: tmpstr then 8
  else if "SF9".toList <+: tmpstr then 9
  else if "SF10".toList <+: tmpstr then 10
  else if "SF11".toList <+: tmpstr then 11
  else if "SF12".toList <+: tmpstr then 12
  else if "SF5".toList <+: tmpstr then 5
  else if "SF6".toList <+: tmpstr then 6
  else 0

/-- What is behind the blanks and the sign at the start of a text. -/
def unsignedPart (text : List Char) : List Char :=
  let rest := text.dropWhile isSpace
  if rest.head? = some '-' ∨ rest.head? = some '+' then rest.tail else rest

/-- `sscanf(tmpstr, "%u", ..)` on a text of fewer than 20 characters: nothing without a digit. -/
def sscanfU (tmpstr : List Char) : Option (BitVec 32) :=
  if (unsignedPart tmpstr).takeWhile Char.isDigit = [] then none
  else some (BitVec.ofInt 32 (atol (String.ofList tmpstr)))

/-- `DEFAULT_DOWN_FPORT` -/
def defaultDownFport : BitVec 8 := 2#8

/-- A field of 8 bits that `atoi` reads: the number after its check, or the value for no text. -/
def byteField (absent : BitVec 8) (check : BitVec 8 → BitVec 8) (tmpstr : List Char) : BitVec 8 :=
  if 0 < tmpstr.length then check (BitVec.ofInt 8 (atoi (String.ofList tmpstr))) else absent

/-- The field `txpw`. -/
def txpwField : List Char → BitVec 8 := byteField 0#8 id

/-- The field `txbw`. -/
def txbwField : List Char → BitVec 8 := byteField 0#8 id

/-- The field `rxwindow`: 2 without a text, and 0 for what is no window. -/
def rxwindowField : List Char → BitVec 8 :=
  byteField 2#8 fun rxwindow => if 2 < rxwindow.toNat ∨ rxwindow.toNat < 1 then 0#8 else rxwindow

/-- The test for a negative port and for one above 255 comes after the number has 8 bits. -/
def txportField : List Char → BitVec 8 :=
  byteField defaultDownFport fun txport =>
    if 255 < txport.toNat ∨ (txport.toNat : Int) < 0 then defaultDownFport else txport

/-- The field `txfreq`. -/
def txfreqField (tmpstr : List Char) : BitVec 32 :=
  if 0 < tmpstr.length then (sscanfU tmpstr).getD 0#32 else 0#32

/-- The constants of the SX1302 for the bandwidths. -/
def bandwidthCode (txbw : BitVec 8) : BitVec 8 :=
  if txbw = 0x1#8 then 0x6#8
  else if txbw = 0x2#8 then 0x5#8
  else if txbw = 0x3#8 then 0x4#8
  else txbw

/-- `strstr(pdformat, "hex")`: the payload is written with two hexadecimal digits a byte. -/
def IsHex (format : List Char) : Prop := "hex".toList <:+: format

instance (format : List Char) : Decidable (IsHex format) :=
  inferInstanceAs (Decidable ("hex".toList <:+: format))

/-- The end of `pkt_prepare_downlink`, with the payload of the file in `dnpld`. -/
def storePayload (entry : DnPkt) (hexpld : Vector (BitVec 8) 256) (dnpld : List Char)
    (psize : BitVec 8) : Except OutOfBounds (Option DnPkt) :=
  if IsHex (cstring entry.pdformat) then
    if psize.toNat % 2 ≠ 0 then .ok none
    else do
      let hexpld ← copy hexpld 0 (hex2str (dnpld.take psize.toNat))
      let psize := psize / 2#8
      let cells ← slice hexpld 0 (psize.toNat + 1)
      let payload ← copy entry.payload 0 cells
      .ok (some { entry with payload, psize, txbw := bandwidthCode entry.txbw })
  else do
    -- `strcpypt` filled `dnpld` with NUL
    let payload ← copy entry.payload 0 ((dnpld.map charByte ++ [0#8]).take (psize.toNat + 1))
    .ok (some { entry with payload, psize, txbw := bandwidthCode entry.txbw })

/-- What `pkt_prepare_downlink` does with a file: the packet, or `none` for a file that it rejects.
`entry` and `hexpld` are as the memory was before. -/
def pktPrepareDownlink (entry : DnPkt) (hexpld : Vector (BitVec 8) 256) (file : List Char) :
    Except OutOfBounds (Option DnPkt) :=
  -- `size` is a `uint8_t`, and what `fread` returns may be up to 512
  let size := BitVec.ofNat 8 (file.take 512).length
  let buffDown := file.take size.toNat
  if buffDown.count ',' < 3 then .ok none
  else
    let f0 := strcpypt buffDown 16
    if f0.1.length < 1 then .ok none
    else do
      let devaddr ← strcpy entry.devaddr f0.1
      let f1 := strcpypt f0.2 16
      let txmode ← strcpy entry.txmode (if f1.1.length < 1 then "time".toList else f1.1)
      let f2 := strcpypt f1.2 16
      let pdformat ← strcpy entry.pdformat (if f2.1.length < 1 then "txt".toList else f2.1)
      let f3 := strcpypt f2.2 256
      let psize := BitVec.ofNat 8 f3.1.length
      if psize.toNat < 1 then .ok none
      else
        let f4 := strcpypt f3.2 16
        let f5 := strcpypt f4.2 16
        let f6 := strcpypt f5.2 16
        let f7 := strcpypt f6.2 16
        let f8 := strcpypt f7.2 16
        let f9 := strcpypt f8.2 16
        storePayload
          { entry with
            devaddr, txmode, pdformat
            txpw := txpwField f4.1
            txbw := txbwField f5.1
            txdr := if 0 < f6.1.length then dataRate f6.1 else 0#8
            txfreq := txfreqField f7.1
            rxwindow := rxwindowField f8.1
            txport := txportField f9.1 }
          hexpld f3.1 psize

/-! ## What a file describes -/

/-- The part of a file that is looked at: `size` has 8 bits. -/
def readPart (file : List Char) : List Char := file.take ((file.take 512).length % 256)

/-- The number at the start of a text, and 0 without one. -/
def number (text : List Char) : Int := atol (String.ofList text)

/-- A text, or the one that stands for a field without text. -/
def orText (default text : List Char) : List Char := if text = [] then default else text

/-- The bandwidths 1, 2 and 3 stand for the constants 6, 5 and 4 of the radio. -/
def bandwidthSetting (text : List Char) : Int :=
  if number text = 1 then 6 else if number text = 2 then 5 else if number text = 3 then 4
  else number text

/-- The receive window: the second one by default, and 0 for one that does not exist. -/
def windowSetting (text : List Char) : Int :=
  if text = [] then 2 else if 1 ≤ number text ∧ number text ≤ 2 then number text else 0

/-- The port: `DEFAULT_DOWN_FPORT` by default, and for numbers outside 0..255. -/
def portSetting (text : List Char) : Int :=
  if text = [] then 2 else if 0 ≤ number text ∧ number text ≤ 255 then number text else 2

/-- The byte number `i` of a payload. -/
def payloadByte (format text : List Char) (i : Nat) : Option (BitVec 8) :=
  if IsHex format then
    match text[2 * i]?, text[2 * i + 1]? with
    | some h, some l => some (BitVec.ofNat 8 (16 * (hex2int h).toNat + (hex2int l).toNat))
    | _, _ => none
  else text[i]?.map charByte

/-- The packet has the fields of the whole file, and the defaults for those without text. -/
structure AsWritten (file : List Char) (pkt : DnPkt) : Prop where
  devaddr : cstring pkt.devaddr = fieldText file 0
  txmode : cstring pkt.txmode = orText "time".toList (fieldText file 1)
  pdformat : cstring pkt.pdformat = orText "txt".toList (fieldText file 2)
  psize : (if IsHex (fieldText file 2) then 2 * pkt.psize.toNat else pkt.psize.toNat) =
    (fieldText file 3).length
  payload : ∀ i, i < pkt.psize.toNat →
    pkt.payload.toList[i]? = payloadByte (fieldText file 2) (fieldText file 3) i
  txpw : (pkt.txpw.toNat : Int) = number (fieldText file 4)
  txbw : (pkt.txbw.toNat : Int) = bandwidthSetting (fieldText file 5)
  txdr : pkt.txdr = dataRate (fieldText file 6)
  txfreq : (pkt.txfreq.toNat : Int) = number (fieldText file 7)
  rxwindow : (pkt.rxwindow.toNat : Int) = windowSetting (fieldText file 8)
  txport : (pkt.txport.toNat : Int) = portSetting (fieldText file 9)

/-- The file is rejected or gives the packet that it describes, and no copy leaves its array. -/
def ParsedAsWritten (entry : DnPkt) (hexpld : Vector (BitVec 8) 256) (file : List Char) : Prop :=
  ∃ result, pktPrepareDownlink entry hexpld file = .ok result ∧
    ∀ pkt, result = some pkt → AsWritten file pkt

/-! ## The files that are parsed as written -/

/-- The number of a field stands in its first 15 characters, and fits `bits` bits. -/
def FitsIn (bits : Nat) (seen whole : List Char) : Prop :=
  number (seen.take 15) = number whole ∧ 0 ≤ number whole ∧ number whole < 2 ^ bits

/-- A window that exists is read in full, and no other number has the low byte of one. -/
def WindowKept (seen whole : List Char) : Prop :=
  whole = [] ∨ (seen = [] ∧ number whole = 2) ∨
    (seen ≠ [] ∧
      if 1 ≤ number whole ∧ number whole ≤ 2 then number (seen.take 15) = number whole
      else number (seen.take 15) % 256 ≠ 1 ∧ number (seen.take 15) % 256 ≠ 2)

/-- A port in 0..255 is read in full, and any other number has the low byte 2. -/
def PortKept (seen whole : List Char) : Prop :=
  whole = [] ∨ (seen = [] ∧ (number whole < 0 ∨ 255 < number whole ∨ number whole = 2)) ∨
    (seen ≠ [] ∧
      if 0 ≤ number whole ∧ number whole ≤ 255 then number (seen.take 15) = number whole
      else number (seen.take 15) % 256 = 2)

/-- The fields from the payload on keep what they say, where `seen` gives the text of a field in the
part of the file that is looked at and `whole` its text in the file. -/
structure FieldsKept (seen whole : Nat → List Char) : Prop where
  devaddr : (seen 0).length ≤ 15
  payload : seen 3 = whole 3
  txpw : FitsIn 8 (seen 4) (whole 4)
  txbw : FitsIn 8 (seen 5) (whole 5)
  txdr : dataRate (seen 6) = dataRate (whole 6)
  txfreq : FitsIn 32 (seen 7) (whole 7)
  rxwindow : WindowKept (seen 8) (whole 8)
  txport : PortKept (seen 9) (whole 9)

/-- The file is rejected for its commas or its address; or the mode and the format fit their arrays,
and the file is rejected for its payload or all the fields keep what they say. -/
def ReadsAsWritten (file : List Char) : Prop :=
  (readPart file).count ',' < 3 ∨ fieldText (readPart file) 0 = [] ∨
    ((fieldText (readPart file) 1).length ≤ 7 ∧ (fieldText (readPart file) 2).length ≤ 7 ∧
      (fieldText (readPart file) 3 = [] ∨
        (IsHex (fieldText (readPart file) 2) ∧ (fieldText (readPart file) 3).length % 2 ≠ 0) ∨
        FieldsKept (fieldText (readPart file)) (fieldText file)))

/-! ## The cursor -/

theorem strcpyptLoop_text (len : Nat) (src : List Char) {j : Nat} (hj : j ≤ len - 1) :
    (strcpyptLoop len j src).1 =
      ((field ',' src 0).filter fun c => c.toNat ≠ 0 ∧ c.toNat ≠ 10).take (len - 1 - j) := by
  induction src generalizing j with
  | nil => simp [strcpyptLoop]
  | cons c src ih =>
    rw [strcpyptLoop]
    by_cases hc : c = ','
    · rw [if_pos hc, hc, field_sep_zero]
      simp
    · rw [if_neg hc, field_cons_zero hc]
      by_cases hfull : j = len - 1
      · rw [if_pos hfull, ih hj, hfull]
        simp
      · rw [if_neg hfull]
        have hroom : len - 1 - j = len - 1 - (j + 1) + 1 := by omega
        by_cases hkeep : c.toNat ≠ 0 ∧ c.toNat ≠ 10
        · rw [if_pos hkeep, ih (by omega), List.filter_cons_of_pos (by simpa using hkeep), hroom,
            List.take_succ_cons]
        · rw [if_neg hkeep, ih hj, List.filter_cons_of_neg (by simpa using hkeep)]

theorem field_strcpyptLoop (len j : Nat) (src : List Char) (k : Nat) :
    field ',' (strcpyptLoop len j src).2 k = field ',' src (k + 1) := by
  induction src generalizing j with
  | nil => rw [strcpyptLoop, field_nil, field_nil]
  | cons c src ih =>
    rw [strcpyptLoop]
    by_cases hc : c = ','
    · rw [if_pos hc, hc, field_sep_succ]
    · rw [if_neg hc, field_cons_succ hc]
      split
      · exact ih j
      · split
        · exact ih (j + 1)
        · exact ih j

/-- The blanks in front of a file are those in front of its first field. -/
theorem field_dropWhile (src : List Char) :
    field ',' (src.dropWhile (· = ' ')) 0 = (field ',' src 0).dropWhile (· = ' ') ∧
      ∀ k, field ',' (src.dropWhile (· = ' ')) (k + 1) = field ',' src (k + 1) := by
  induction src with
  | nil => simp
  | cons c src ih =>
    by_cases hblank : c = ' '
    · subst hblank
      have hc : ' ' ≠ ',' := by decide
      rw [List.dropWhile_cons_of_pos (by simp), field_cons_zero hc,
        List.dropWhile_cons_of_pos (by simp)]
      exact ⟨ih.1, fun k => by rw [ih.2 k, field_cons_succ hc]⟩
    · rw [List.dropWhile_cons_of_neg (by simpa using hblank)]
      refine ⟨?_, fun k => rfl⟩
      by_cases hc : c = ','
      · subst hc
        simp
      · rw [field_cons_zero hc, List.dropWhile_cons_of_neg (by simpa using hblank)]

/-- `strcpypt` stores the text of the first field, as much of it as there is room for. -/
theorem strcpypt_text (src : List Char) (len : Nat) :
    (strcpypt src len).1 = (fieldText src 0).take (len - 1) := by
  rw [fieldText, ← (field_dropWhile src).1, strcpypt]
  cases hrest : src.dropWhile (· = ' ') with
  | nil => simp
  | cons c rest => exact strcpyptLoop_text len (c :: rest) (Nat.zero_le _)

/-- The fields of what `strcpypt` leaves are the next ones. -/
theorem fieldText_strcpypt (src : List Char) (len k : Nat) :
    fieldText (strcpypt src len).2 k = fieldText src (k + 1) := by
  rw [strcpypt]
  cases hrest : src.dropWhile (· = ' ') with
  | nil =>
    -- only blanks are left, and no field has a text
    have hempty : ∀ i, fieldText src i = [] := by
      intro i
      cases i with
      | zero => rw [fieldText, ← (field_dropWhile src).1, hrest]; simp
      | succ i => rw [fieldText, ← (field_dropWhile src).2, hrest]; simp
    rw [hempty, hempty]
  | cons c rest =>
    rw [fieldText, fieldText, field_strcpyptLoop, ← (field_dropWhile src).2, hrest]

/-! ## The text of a field -/

theorem fieldText_cut {s t : List Char} (h : s <+: t) (k : Nat) :
    fieldText s k <+: fieldText t k :=
  (dropWhile_prefix_dropWhile _ (field_cut h k)).filter _

theorem fieldText_eq_of_cut {s t : List Char} (h : s <+: t) {k : Nat} (hk : k < s.count ',') :
    fieldText s k = fieldText t k := by
  rw [fieldText, fieldText, field_eq_of_cut h hk]

theorem length_fieldText_le (s : List Char) (k : Nat) : (fieldText s k).length ≤ s.length :=
  (List.filter_sublist.trans ((List.dropWhile_sublist _).trans (field_sublist s k))).length_le

theorem ne_nul_of_mem_fieldText {s : List Char} {k : Nat} {c : Char} (hc : c ∈ fieldText s k) :
    c.toNat ≠ 0 := by
  rw [fieldText, List.mem_filter] at hc
  exact (of_decide_eq_true hc.2).1

/-! ## Numbers that are cut -/

theorem leadingDigits_nonneg (cs : List Char) : 0 ≤ leadingDigits cs := Int.natCast_nonneg _

/-- Cutting a digit off leaves a tenth at most. -/
theorem leadingDigits_cut {s t : List Char} (h : s <+: t) :
    leadingDigits s = leadingDigits t ∨ 10 * leadingDigits s ≤ leadingDigits t := by
  rw [leadingDigits, leadingDigits]
  obtain ⟨u, hu⟩ := takeWhile_prefix_takeWhile Char.isDigit h
  rw [← hu, Nat.ofDigitChars_append, Nat.ofDigitChars_eq_ofDigitChars_zero (l := u)]
  cases u with
  | nil => exact Or.inl (by simp)
  | cons c u =>
    right
    have hpow : 10 ≤ 10 ^ (c :: u).length := Nat.le_self_pow (Nat.succ_ne_zero _) 10
    exact_mod_cast (Nat.mul_le_mul_right _ hpow).trans (Nat.le_add_right _ _)

theorem ofDigitChars_lt {cs : List Char} (hdigits : ∀ c ∈ cs, c.isDigit = true) :
    Nat.ofDigitChars 10 cs 0 < 10 ^ cs.length := by
  induction cs with
  | nil => simp
  | cons c cs ih =>
    have hrange : 48 ≤ c.toNat ∧ c.toNat ≤ 57 :=
      Char.isDigit_iff_toNat.1 (hdigits c List.mem_cons_self)
    have hrest := ih fun d hd => hdigits d (List.mem_cons_of_mem c hd)
    have hdigit : c.toNat - '0'.toNat ≤ 9 := by
      have hzero : '0'.toNat = 48 := rfl
      omega
    rw [Nat.ofDigitChars_cons, Nat.mul_zero, Nat.zero_add, Nat.ofDigitChars_eq_ofDigitChars_zero,
      List.length_cons, pow_succ]
    have hmul := Nat.mul_le_mul_left (10 ^ cs.length) hdigit
    omega

theorem leadingDigits_lt (cs : List Char) : leadingDigits cs < 10 ^ cs.length := by
  have hlt : Nat.ofDigitChars 10 (cs.takeWhile Char.isDigit) 0 <
      10 ^ (cs.takeWhile Char.isDigit).length :=
    ofDigitChars_lt fun c hc => List.mem_takeWhile_imp hc
  have hle : 10 ^ (cs.takeWhile Char.isDigit).length ≤ 10 ^ cs.length :=
    Nat.pow_le_pow_right (by decide) (List.takeWhile_sublist Char.isDigit).length_le
  rw [leadingDigits]
  exact_mod_cast hlt.trans_le hle

theorem number_of_blank {text : List Char} (h : text.dropWhile isSpace = []) : number text = 0 := by
  rw [number, atol, String.toList_ofList, h]
  rfl

theorem number_nil : number [] = 0 := number_of_blank rfl

theorem number_of_cons {text cs : List Char} {c : Char} (h : text.dropWhile isSpace = c :: cs) :
    number text =
      if c = '-' then -leadingDigits cs
      else if c = '+' then leadingDigits cs
      else leadingDigits (c :: cs) := by
  rw [number, atol, String.toList_ofList, h]
  by_cases hminus : c = '-'
  · rw [if_pos hminus]
    subst hminus
    rfl
  · rw [if_neg hminus]
    by_cases hplus : c = '+'
    · rw [if_pos hplus]
      subst hplus
      rfl
    · rw [if_neg hplus]
      split
      · next heq => exact absurd (List.cons.inj heq).1 hminus
      · next heq => exact absurd (List.cons.inj heq).1 hplus
      · rfl

/-- A number that is cut is the whole one, or loses a digit at least. -/
theorem number_cut {s t : List Char} (h : s <+: t) (hpos : 0 ≤ number t) :
    0 ≤ number s ∧ (number s = number t ∨ 10 * number s ≤ number t) := by
  have hrest := dropWhile_prefix_dropWhile isSpace h
  cases hs : s.dropWhile isSpace with
  | nil =>
    rw [number_of_blank hs]
    exact ⟨le_rfl, Or.inr hpos⟩
  | cons c cs =>
    rw [hs] at hrest
    obtain ⟨ds, ht, hcs⟩ := List.cons_prefix_iff.1 hrest
    have hnonneg := leadingDigits_nonneg cs
    have hcut := leadingDigits_cut hcs
    have hall := leadingDigits_cut ((List.prefix_cons_inj c).2 hcs)
    rw [number_of_cons hs]
    rw [number_of_cons ht] at hpos ⊢
    by_cases hminus : c = '-'
    · rw [if_pos hminus] at hpos ⊢
      rw [if_pos hminus]
      omega
    · rw [if_neg hminus, if_neg hminus]
      by_cases hplus : c = '+'
      · rw [if_pos hplus, if_pos hplus]
        exact ⟨hnonneg, hcut⟩
      · rw [if_neg hplus, if_neg hplus]
        exact ⟨leadingDigits_nonneg _, hall⟩

/-- The size of a number is that of its digits. -/
theorem natAbs_number (text : List Char) :
    (number text).natAbs = (leadingDigits (unsignedPart text)).natAbs := by
  cases hrest : text.dropWhile isSpace with
  | nil =>
    rw [number_of_blank hrest, unsignedPart, hrest]
    rfl
  | cons c cs =>
    rw [number_of_cons hrest, unsignedPart, hrest]
    simp only [List.head?_cons, List.tail_cons, Option.some.injEq]
    by_cases hminus : c = '-'
    · rw [if_pos hminus, if_pos (Or.inl hminus), Int.natAbs_neg]
    · by_cases hplus : c = '+'
      · rw [if_neg hminus, if_pos hplus, if_pos (Or.inr hplus)]
      · rw [if_neg hminus, if_neg hplus, if_neg (by simp [hminus, hplus])]

theorem length_unsignedPart_le (text : List Char) : (unsignedPart text).length ≤ text.length := by
  have hle : (text.dropWhile isSpace).length ≤ text.length :=
    (List.dropWhile_sublist isSpace).length_le
  rw [unsignedPart]
  split
  · rw [List.length_tail]
    exact (Nat.sub_le _ 1).trans hle
  · exact hle

theorem natAbs_number_lt (text : List Char) : (number text).natAbs < 10 ^ text.length := by
  have hlt := leadingDigits_lt (unsignedPart text)
  have hnonneg := leadingDigits_nonneg (unsignedPart text)
  have hpow := Nat.pow_le_pow_right (by decide : 0 < 10) (length_unsignedPart_le text)
  have hcast : ((10 ^ (unsignedPart text).length : Nat) : Int) =
      10 ^ (unsignedPart text).length := by
    push_cast
    rfl
  rw [natAbs_number]
  omega

/-- `atoi` of a short text keeps the low bits of the number. -/
theorem toNat_atoi {text : List Char} (h : text.length ≤ 15) :
    ((BitVec.ofInt 8 (atoi (String.ofList text))).toNat : Int) = number text % 256 := by
  have hbound := (natAbs_number_lt text).trans_le (Nat.pow_le_pow_right (by decide : 0 < 10) h)
  have hclamp : clampLong (number text) = number text := by
    rw [clampLong, if_neg (by omega), if_neg (by omega)]
  have hdvd : (256 : Int) ∣ ((2 ^ 32 : Nat) : Int) := ⟨16777216, by norm_num⟩
  rw [atoi, ← number, hclamp, BitVec.toInt_ofInt, BitVec.toNat_ofInt,
    Int.toNat_of_nonneg (by omega)]
  show (number text).bmod (2 ^ 32) % 256 = number text % 256
  rw [← Int.emod_emod_of_dvd _ hdvd, Int.bmod_emod, Int.emod_emod_of_dvd _ hdvd]

theorem length_take_le (text : List Char) : (text.take 15).length ≤ 15 := by
  rw [List.length_take]
  exact Nat.min_le_left _ _

/-- What `byteField` checks is the number modulo 256. -/
theorem byteField_cons (absent : BitVec 8) (check : BitVec 8 → BitVec 8) {text : List Char}
    (hne : text ≠ []) (hlen : text.length ≤ 15) :
    ∃ b : BitVec 8, byteField absent check text = check b ∧ (b.toNat : Int) = number text % 256 :=
  ⟨_, if_pos (List.length_pos_of_ne_nil hne), toNat_atoi hlen⟩

theorem toNat_txpwField {text : List Char} (hlen : text.length ≤ 15) :
    ((txpwField text).toNat : Int) = number text % 256 := by
  by_cases hne : text = []
  · subst hne
    rw [number_nil]
    rfl
  · obtain ⟨b, hfield, hb⟩ := byteField_cons 0#8 id hne hlen
    rw [txpwField, hfield, id, hb]

/-- A text without digits counts as 0 for `sscanf` as it does for `atol`. -/
theorem getD_sscanfU (text : List Char) :
    (sscanfU text).getD 0#32 = BitVec.ofInt 32 (number text) := by
  rw [sscanfU]
  split
  · next hdigits =>
    have hzero : (number text).natAbs = 0 := by
      rw [natAbs_number, leadingDigits, hdigits]
      rfl
    rw [Int.natAbs_eq_zero.1 hzero]
    rfl
  · rfl

theorem toNat_txfreqField (text : List Char) :
    ((txfreqField text).toNat : Int) = number text % 2 ^ 32 := by
  rw [txfreqField]
  by_cases hne : text = []
  · subst hne
    rw [number_nil]
    rfl
  · rw [if_pos (List.length_pos_of_ne_nil hne), getD_sscanfU, BitVec.toNat_ofInt,
      Int.toNat_of_nonneg (Int.emod_nonneg _ (by norm_num))]
    norm_num

/-- A narrowed number that was cut is the whole number only if that number fits. -/
theorem narrowed_eq_iff {s t : List Char} (h : s <+: t) {m : Int} (hm : 0 < m) :
    number s % m = number t ↔ number s = number t ∧ 0 ≤ number t ∧ number t < m := by
  constructor
  · intro heq
    have hpos : 0 ≤ number t := heq ▸ Int.emod_nonneg _ hm.ne'
    have hlt : number t < m := heq ▸ Int.emod_lt_of_pos _ hm
    obtain ⟨hs, hcut⟩ := number_cut h hpos
    rw [Int.emod_eq_of_lt hs (by omega)] at heq
    exact ⟨heq, hpos, hlt⟩
  · rintro ⟨heq, hpos, hlt⟩
    rw [heq, Int.emod_eq_of_lt hpos hlt]

theorem toNat_rxwindowField {text : List Char} (hne : text ≠ []) (hlen : text.length ≤ 15) :
    ((rxwindowField text).toNat : Int) =
      if number text % 256 = 1 ∨ number text % 256 = 2 then number text % 256 else 0 := by
  rw [rxwindowField]
  obtain ⟨b, hfield, hb⟩ := byteField_cons 2#8
    (fun rxwindow => if 2 < rxwindow.toNat ∨ rxwindow.toNat < 1 then 0#8 else rxwindow) hne hlen
  rw [hfield, ← hb]
  by_cases hout : 2 < b.toNat ∨ b.toNat < 1
  · rw [if_pos hout, if_neg (by omega)]
    rfl
  · rw [if_neg hout, if_pos (by omega)]

/-- The port never fails its check, for it has 8 bits by then. -/
theorem toNat_txportField {text : List Char} (hne : text ≠ []) (hlen : text.length ≤ 15) :
    ((txportField text).toNat : Int) = number text % 256 := by
  rw [txportField]
  obtain ⟨b, hfield, hb⟩ := byteField_cons defaultDownFport
    (fun txport =>
      if 255 < txport.toNat ∨ (txport.toNat : Int) < 0 then defaultDownFport else txport) hne hlen
  have hlt := b.isLt
  rw [hfield, if_neg (by omega), hb]

theorem toNat_bandwidthCode (txbw : BitVec 8) :
    ((bandwidthCode txbw).toNat : Int) =
      if (txbw.toNat : Int) = 1 then (6 : Int) else if (txbw.toNat : Int) = 2 then 5
      else if (txbw.toNat : Int) = 3 then 4 else txbw.toNat := by
  have hnumeral : ∀ n : Nat, n < 256 → (txbw = BitVec.ofNat 8 n ↔ (txbw.toNat : Int) = n) := by
    intro n hn
    rw [← BitVec.toNat_inj, BitVec.toNat_ofNat, Nat.mod_eq_of_lt hn, Nat.cast_inj]
  rw [bandwidthCode]
  simp only [hnumeral _ (by decide : 1 < 256), hnumeral _ (by decide : 2 < 256),
    hnumeral _ (by decide : 3 < 256)]
  split_ifs <;> first | rfl | omega

section Numbers

variable {seen whole : List Char} (h : seen <+: whole)

include h

theorem take_prefix_whole : seen.take 15 <+: whole :=
  have hseen := List.take_prefix 15 seen
  hseen.trans h

theorem txpwField_iff :
    ((txpwField (seen.take 15)).toNat : Int) = number whole ↔ FitsIn 8 seen whole := by
  rw [toNat_txpwField (length_take_le seen)]
  exact narrowed_eq_iff (take_prefix_whole h) (by decide)

theorem txfreqField_iff :
    ((txfreqField (seen.take 15)).toNat : Int) = number whole ↔ FitsIn 32 seen whole := by
  rw [toNat_txfreqField]
  exact narrowed_eq_iff (take_prefix_whole h) (by decide)

theorem txbwField_iff :
    ((bandwidthCode (txbwField (seen.take 15))).toNat : Int) = bandwidthSetting whole ↔
      FitsIn 8 seen whole := by
  have hbyte : ((txbwField (seen.take 15)).toNat : Int) = number (seen.take 15) % 256 :=
    toNat_txpwField (length_take_le seen)
  rw [toNat_bandwidthCode, hbyte, bandwidthSetting]
  constructor
  · intro heq
    have hpos : 0 ≤ number whole := by split_ifs at heq <;> omega
    -- a number that lost a digit is no tenth of a constant that 1, 2 or 3 stand for
    obtain ⟨hs, hcut⟩ := number_cut (take_prefix_whole h) hpos
    have hfits : number (seen.take 15) = number whole ∧ number whole < 256 := by
      split_ifs at heq <;> omega
    exact ⟨hfits.1, hpos, hfits.2⟩
  · rintro ⟨heq, hpos, hlt⟩
    have hsame : number whole % 256 = number whole := Int.emod_eq_of_lt hpos hlt
    rw [heq, hsame]

/-- A field with the default 2: it may be missing in the file, or only in the part that is looked
at, or its number is read. -/
theorem defaultTwo_iff {code setting : Int} {missed read : Prop} (hempty : seen = [] → code = 2)
    (habsent : whole = [] → setting = 2) (hmissed : whole ≠ [] → (2 = setting ↔ missed))
    (hread : seen ≠ [] → whole ≠ [] → (code = setting ↔ read)) :
    code = setting ↔ whole = [] ∨ (seen = [] ∧ missed) ∨ (seen ≠ [] ∧ read) := by
  by_cases hwhole : whole = []
  · have hseen : seen = [] := List.prefix_nil.1 (hwhole ▸ h)
    rw [hempty hseen, habsent hwhole]
    exact iff_of_true rfl (Or.inl hwhole)
  · rw [or_iff_right hwhole]
    by_cases hseen : seen = []
    · rw [hempty hseen, hmissed hwhole]
      simp [hseen]
    · rw [hread hseen hwhole]
      simp [hseen]

theorem rxwindowField_iff :
    ((rxwindowField (seen.take 15)).toNat : Int) = windowSetting whole ↔
      WindowKept seen whole := by
  -- a number that was cut is smaller than the one in the file, or the same
  have hcut := number_cut (take_prefix_whole h)
  refine defaultTwo_iff h ?_ ?_ ?_ ?_
  · intro hseen
    rw [hseen]
    rfl
  · exact fun hwhole => if_pos hwhole
  · intro hwhole
    rw [windowSetting, if_neg hwhole]
    split_ifs <;> omega
  · intro hseen hwhole
    rw [toNat_rxwindowField (by simpa using hseen) (length_take_le seen), windowSetting,
      if_neg hwhole]
    split_ifs <;> omega

theorem txportField_iff :
    ((txportField (seen.take 15)).toNat : Int) = portSetting whole ↔ PortKept seen whole := by
  have hcut := number_cut (take_prefix_whole h)
  refine defaultTwo_iff h ?_ ?_ ?_ ?_
  · intro hseen
    rw [hseen]
    rfl
  · exact fun hwhole => if_pos hwhole
  · intro hwhole
    rw [portSetting, if_neg hwhole]
    split_ifs <;> omega
  · intro hseen hwhole
    rw [toNat_txportField (by simpa using hseen) (length_take_le seen), portSetting, if_neg hwhole]
    split_ifs <;> omega

end Numbers

/-! ## Copies into the packet -/

/-- A copy to the front of an array. -/
theorem copy_front {α : Type} {n : Nat} (m : Vector α n) {l : List α} (hfit : l.length ≤ n) :
    ∃ m', copy m 0 l = .ok m' ∧ m'.toList = l ++ m.toList.drop l.length := by
  obtain ⟨m', hcopy, hlist⟩ := copy_spec m 0 l (by omega)
  exact ⟨m', hcopy, by simpa using hlist⟩

theorem strcpy_ok {n : Nat} (dest : Vector Char n) {src : List Char} (hfit : src.length < n)
    (hnul : ∀ c ∈ src, c.toNat ≠ 0) : ∃ s, strcpy dest src = .ok s ∧ cstring s = src := by
  obtain ⟨s, hcopy, hlist⟩ := copy_front dest (l := src ++ [Char.ofNat 0]) (by simpa using hfit)
  refine ⟨s, hcopy, ?_⟩
  rw [cstring, hlist, List.append_assoc, List.takeWhile_append_of_pos (by simpa using hnul),
    List.singleton_append, List.takeWhile_cons_of_neg (by decide), List.append_nil]

theorem strcpy_error {n : Nat} (dest : Vector Char n) {src : List Char} (hlong : n ≤ src.length) :
    ∃ e, strcpy dest src = .error e :=
  copy_error dest 0 _ (by simp) (by simp; omega)

theorem hex2int_lt (c : Char) : (hex2int c).toNat < 16 := by
  rw [hex2int]
  split_ifs with hdigit hupper hlower
  · simp only [charByte]
    bv_omega
  · simp only [charByte]
    bv_omega
  · simp only [charByte]
    bv_omega
  · decide

/-- Two digits side by side are a number of base 16. -/
theorem hex2int_pair (h l : Char) :
    hex2int h <<< 4 ||| hex2int l =
      BitVec.ofNat 8 (16 * (hex2int h).toNat + (hex2int l).toNat) := by
  have hh := hex2int_lt h
  have hl := hex2int_lt l
  apply BitVec.eq_of_toNat_eq
  rw [BitVec.toNat_or, BitVec.toNat_shiftLeft, BitVec.toNat_ofNat,
    Nat.mod_eq_of_lt (by rw [Nat.shiftLeft_eq]; omega), ← Nat.shiftLeft_add_eq_or_of_lt (by omega),
    Nat.shiftLeft_eq, Nat.mod_eq_of_lt (by omega)]
  omega

theorem length_hex2str (text : List Char) : (hex2str text).length = text.length / 2 := by
  induction text using hex2str.induct with
  | case1 h l text ih =>
      rw [hex2str, List.length_cons, ih, List.length_cons, List.length_cons]
      omega
  | case2 c => simp [hex2str]
  | case3 => rfl

theorem getElem?_hex2str {format text : List Char} (hhex : IsHex format) (i : Nat) :
    (hex2str text)[i]? = payloadByte format text i := by
  rw [payloadByte, if_pos hhex]
  induction text using hex2str.induct generalizing i with
  | case1 h l text ih =>
      rw [hex2str, hex2int_pair]
      cases i with
      | zero => rfl
      | succ i =>
        rw [List.getElem?_cons_succ, ih i]
        rfl
  | case2 c =>
      cases i with
      | zero => rfl
      | succ i => rfl
  | case3 => rfl

/-- `psize` has room for the length of a payload. -/
theorem toNat_psize {length : Nat} (hlen : length ≤ 255) :
    (BitVec.ofNat 8 length).toNat = length := by
  rw [BitVec.toNat_ofNat, Nat.mod_eq_of_lt (by omega)]

section Payload

variable {entry : DnPkt} (hexpld : Vector (BitVec 8) 256) {format dnpld : List Char}
  (hformat : cstring entry.pdformat = format) (hlen : dnpld.length ≤ 255)

include hformat hlen

theorem storePayload_odd (hhex : IsHex format) (hodd : dnpld.length % 2 ≠ 0) :
    storePayload entry hexpld dnpld (BitVec.ofNat 8 dnpld.length) = .ok none := by
  rw [storePayload, hformat, if_pos hhex, toNat_psize hlen, if_pos hodd]

theorem storePayload_ok (heven : IsHex format → dnpld.length % 2 = 0) :
    ∃ payload psize,
      storePayload entry hexpld dnpld (BitVec.ofNat 8 dnpld.length) =
        .ok (some { entry with payload, psize, txbw := bandwidthCode entry.txbw }) ∧
      (if IsHex format then 2 * psize.toNat else psize.toNat) = dnpld.length ∧
      ∀ i, i < psize.toNat → payload.toList[i]? = payloadByte format dnpld i := by
  have hsize := toNat_psize hlen
  rw [storePayload, hformat, hsize]
  by_cases hhex : IsHex format
  · have hhalf : (BitVec.ofNat 8 dnpld.length / 2#8).toNat = dnpld.length / 2 := by
      rw [BitVec.toNat_udiv, hsize]
      rfl
    have heven := heven hhex
    obtain ⟨hexpld', hcopy, hlist⟩ := copy_front hexpld (l := hex2str dnpld)
      (by rw [length_hex2str]; omega)
    have hslice := slice_ok hexpld' 0 (dnpld.length / 2 + 1) (by omega)
    obtain ⟨payload, hstore, hpayload⟩ := copy_front entry.payload
      (l := (hexpld'.toList.drop 0).take (dnpld.length / 2 + 1)) (by simp)
    refine ⟨payload, BitVec.ofNat 8 dnpld.length / 2#8, ?_, ?_, ?_⟩
    · rw [Nat.cast_add, Nat.cast_one] at hslice
      rw [if_pos hhex, if_neg (by omega), List.take_length, hcopy, ok_bind]
      simp only [hhalf]
      rw [hslice, ok_bind, hstore, ok_bind]
    · rw [if_pos hhex, hhalf]
      omega
    · intro i hi
      rw [hhalf] at hi
      have hcells : i < ((hexpld'.toList.drop 0).take (dnpld.length / 2 + 1)).length := by
        simp only [List.drop_zero, List.length_take, Vector.length_toList]
        omega
      rw [hpayload, List.getElem?_append_left hcells, List.getElem?_take_of_lt (by omega),
        List.drop_zero, hlist, List.getElem?_append_left (by rwa [length_hex2str]),
        getElem?_hex2str hhex]
  · obtain ⟨payload, hstore, hpayload⟩ := copy_front entry.payload
      (l := (dnpld.map charByte ++ [0#8]).take (dnpld.length + 1)) (by simp; omega)
    refine ⟨payload, BitVec.ofNat 8 dnpld.length, ?_, ?_, ?_⟩
    · rw [if_neg hhex, hstore, ok_bind]
    · rw [if_neg hhex, hsize]
    · intro i hi
      rw [hsize] at hi
      rw [hpayload, payloadByte, if_neg hhex, List.getElem?_append_left (by simp; omega),
        List.getElem?_take_of_lt (by omega), List.getElem?_append_left (by simpa using hi),
        List.getElem?_map]

end Payload

/-! ## The whole function -/

theorem length_readPart_le (file : List Char) : (readPart file).length ≤ 255 := by
  rw [readPart, List.length_take]
  exact (Nat.min_le_left _ _).trans (Nat.le_of_lt_succ (Nat.mod_lt _ (by decide)))

theorem readPart_cut (file : List Char) : readPart file <+: file := List.take_prefix _ file

/-- The packet with the texts of a file, before its payload is stored. -/
def DnPkt.withTexts (entry : DnPkt) (devaddr : Vector Char 16) (txmode pdformat : Vector Char 8)
    (text : Nat → List Char) : DnPkt :=
  { entry with
    devaddr, txmode, pdformat
    txpw := txpwField ((text 4).take 15)
    txbw := txbwField ((text 5).take 15)
    txdr := dataRate (text 6)
    txfreq := txfreqField ((text 7).take 15)
    rxwindow := rxwindowField ((text 8).take 15)
    txport := txportField ((text 9).take 15) }

/-- No data rate has a name of more than 15 characters. -/
theorem dataRate_take (text : List Char) : dataRate (text.take 15) = dataRate text := by
  have hname : ∀ name : List Char, name.length ≤ 15 → (name <+: text.take 15 ↔ name <+: text) := by
    intro name hname
    rw [List.prefix_take_iff]
    exact and_iff_left hname
  simp only [dataRate, hname "SF7".toList (by decide), hname "SF8".toList (by decide),
    hname "SF9".toList (by decide), hname "SF10".toList (by decide),
    hname "SF11".toList (by decide), hname "SF12".toList (by decide),
    hname "SF5".toList (by decide), hname "SF6".toList (by decide)]

theorem pktPrepareDownlink_rejects {entry : DnPkt} {hexpld : Vector (BitVec 8) 256}
    {file : List Char}
    (h : (readPart file).count ',' < 3 ∨ fieldText (readPart file) 0 = []) :
    pktPrepareDownlink entry hexpld file = .ok none := by
  have hread : file.take (BitVec.ofNat 8 (file.take 512).length).toNat = readPart file := rfl
  rw [pktPrepareDownlink]
  simp only [hread, strcpypt_text]
  by_cases hcommas : (readPart file).count ',' < 3
  · rw [if_pos hcommas]
  · rw [if_neg hcommas, h.resolve_left hcommas]
    rfl

/-- The function in terms of the texts of the fields. -/
theorem pktPrepareDownlink_eq {entry : DnPkt} {hexpld : Vector (BitVec 8) 256} {file : List Char}
    (hcommas : ¬(readPart file).count ',' < 3) (haddr : fieldText (readPart file) 0 ≠ []) :
    pktPrepareDownlink entry hexpld file = (do
      let devaddr ← strcpy entry.devaddr ((fieldText (readPart file) 0).take 15)
      let txmode ← strcpy entry.txmode
        (orText "time".toList ((fieldText (readPart file) 1).take 15))
      let pdformat ← strcpy entry.pdformat
        (orText "txt".toList ((fieldText (readPart file) 2).take 15))
      if fieldText (readPart file) 3 = [] then .ok none
      else
        storePayload (entry.withTexts devaddr txmode pdformat (fieldText (readPart file))) hexpld
          (fieldText (readPart file) 3)
          (BitVec.ofNat 8 (fieldText (readPart file) 3).length)) := by
  have hread : file.take (BitVec.ofNat 8 (file.take 512).length).toNat = readPart file := rfl
  have hlen : (fieldText (readPart file) 3).length ≤ 255 :=
    (length_fieldText_le _ 3).trans (length_readPart_le file)
  have hempty : ∀ text : List Char, text.length < 1 ↔ text = [] := by
    intro text
    rw [Nat.lt_one_iff, List.length_eq_zero_iff]
  have htake : ∀ text : List Char, text.take 15 = [] ↔ text = [] := by simp
  have hpayload : (fieldText (readPart file) 3).take 255 = fieldText (readPart file) 3 :=
    List.take_of_length_le hlen
  have hrate : ∀ text : List Char,
      (if 0 < (text.take 15).length then dataRate (text.take 15) else 0#8) = dataRate text := by
    intro text
    rw [dataRate_take]
    split
    · rfl
    · next hnil =>
      rw [List.length_pos_iff, not_not, htake] at hnil
      rw [hnil]
      rfl
  rw [pktPrepareDownlink]
  simp only [hread, strcpypt_text, fieldText_strcpypt, Nat.reduceAdd, Nat.reduceSub, hempty, htake,
    hpayload, toNat_psize hlen, hrate, orText]
  rw [if_neg hcommas, if_neg haddr]
  rfl

/-- No default changes whether a format is `hex`. -/
theorem isHex_orText (text : List Char) : IsHex (orText "txt".toList text) ↔ IsHex text := by
  rw [orText]
  split
  · next hnil =>
    rw [hnil]
    decide
  · rfl

theorem orText_ne_nul {default text : List Char} (hdefault : ∀ c ∈ default, c.toNat ≠ 0)
    (htext : ∀ c ∈ text, c.toNat ≠ 0) : ∀ c ∈ orText default text, c.toNat ≠ 0 := by
  rw [orText]
  split
  · exact hdefault
  · exact htext

theorem take_ne_nul {s : List Char} {k len : Nat} :
    ∀ c ∈ (fieldText s k).take len, c.toNat ≠ 0 := fun _ hc =>
  ne_nul_of_mem_fieldText (List.mem_of_mem_take hc)

theorem time_ne_nul : ∀ c ∈ "time".toList, c.toNat ≠ 0 := by simp

theorem txt_ne_nul : ∀ c ∈ "txt".toList, c.toNat ≠ 0 := by simp

/-- The copy of a mode or a format into its 8 cells fits for a text of at most 7 characters. -/
theorem strcpy_orText (dest : Vector Char 8) {default : List Char} (s : List Char) (k : Nat)
    (hdefault : ∀ c ∈ default, c.toNat ≠ 0) (hlen : default.length ≤ 7) :
    ((fieldText s k).length ≤ 7 ∧
      ∃ v, strcpy dest (orText default ((fieldText s k).take 15)) = .ok v ∧
        cstring v = orText default (fieldText s k)) ∨
    (7 < (fieldText s k).length ∧
      ∃ e, strcpy dest (orText default ((fieldText s k).take 15)) = .error e) := by
  by_cases hfit : (fieldText s k).length ≤ 7
  · left
    rw [List.take_of_length_le (by omega)]
    refine ⟨hfit, strcpy_ok dest ?_ (orText_ne_nul hdefault fun c hc => ne_nul_of_mem_fieldText hc)⟩
    rw [orText]
    split <;> omega
  · right
    refine ⟨by omega, strcpy_error dest ?_⟩
    have hne : (fieldText s k).take 15 ≠ [] := by
      intro hnil
      rw [List.take_eq_nil_iff] at hnil
      rcases hnil with h | h
      · cases h
      · rw [h] at hfit
        exact hfit (Nat.zero_le 7)
    rw [orText, if_neg hne, List.length_take]
    omega

/-- A packet that was filled from the part of a file describes the file when the fields keep what
they say. -/
theorem asWritten_iff (entry : DnPkt) {devaddr : Vector Char 16} {txmode pdformat : Vector Char 8}
    {payload : Vector (BitVec 8) 512} {psize : BitVec 8} {part file : List Char}
    (hpart : part <+: file) (hcommas : 3 ≤ part.count ',')
    (hdevaddr : cstring devaddr = (fieldText part 0).take 15)
    (htxmode : cstring txmode = orText "time".toList (fieldText part 1))
    (hpdformat : cstring pdformat = orText "txt".toList (fieldText part 2))
    (hpsize : (if IsHex (fieldText part 2) then 2 * psize.toNat else psize.toNat) =
      (fieldText part 3).length)
    (hpayload : ∀ i, i < psize.toNat →
      payload.toList[i]? = payloadByte (fieldText part 2) (fieldText part 3) i) :
    AsWritten file
      { entry.withTexts devaddr txmode pdformat (fieldText part) with
        payload, psize
        txbw := bandwidthCode (entry.withTexts devaddr txmode pdformat (fieldText part)).txbw } ↔
      FieldsKept (fieldText part) (fieldText file) := by
  have hfield := fieldText_cut hpart
  -- three commas stand behind the address, the mode and the format
  have hsame : ∀ k, k < 3 → fieldText part k = fieldText file k := fun k hk =>
    fieldText_eq_of_cut hpart (by omega)
  constructor
  · intro h
    have hlen : (fieldText part 0).take 15 = fieldText part 0 := by
      rw [← hdevaddr, hsame 0 (by decide)]
      exact h.devaddr
    have hwhole : (fieldText part 3).length = (fieldText file 3).length := by
      rw [← hpsize, hsame 2 (by decide)]
      exact h.psize
    exact {
      devaddr := by
        rw [← hlen]
        exact length_take_le _
      payload := (hfield 3).eq_of_length hwhole
      txpw := (txpwField_iff (hfield 4)).1 h.txpw
      txbw := (txbwField_iff (hfield 5)).1 h.txbw
      txdr := h.txdr
      txfreq := (txfreqField_iff (hfield 7)).1 h.txfreq
      rxwindow := (rxwindowField_iff (hfield 8)).1 h.rxwindow
      txport := (txportField_iff (hfield 9)).1 h.txport }
  · intro h
    exact {
      devaddr := by
        rw [← hsame 0 (by decide)]
        exact hdevaddr.trans (List.take_of_length_le h.devaddr)
      txmode := by
        rw [← hsame 1 (by decide)]
        exact htxmode
      pdformat := by
        rw [← hsame 2 (by decide)]
        exact hpdformat
      psize := by
        rw [← hsame 2 (by decide), ← h.payload]
        exact hpsize
      payload := by
        rw [← hsame 2 (by decide), ← h.payload]
        exact hpayload
      txpw := (txpwField_iff (hfield 4)).2 h.txpw
      txbw := (txbwField_iff (hfield 5)).2 h.txbw
      txdr := h.txdr
      txfreq := (txfreqField_iff (hfield 7)).2 h.txfreq
      rxwindow := (rxwindowField_iff (hfield 8)).2 h.rxwindow
      txport := (txportField_iff (hfield 9)).2 h.txport }

theorem returned_iff {pkt : DnPkt} {p : DnPkt → Prop} :
    (∃ result, (Except.ok (some pkt) : Except OutOfBounds (Option DnPkt)) = .ok result ∧
      ∀ pkt', result = some pkt' → p pkt') ↔ p pkt := by
  constructor
  · rintro ⟨result, h, hp⟩
    exact hp pkt (Except.ok.inj h).symm
  · intro h
    refine ⟨some pkt, rfl, ?_⟩
    rintro pkt' hpkt
    exact Option.some.inj hpkt ▸ h

theorem not_returned {e : OutOfBounds} {p : Option DnPkt → Prop} :
    ¬∃ result, (Except.error e : Except OutOfBounds (Option DnPkt)) = .ok result ∧ p result := by
  rintro ⟨result, h, -⟩
  cases h

section Filled

variable {entry : DnPkt} {hexpld : Vector (BitVec 8) 256} {devaddr : Vector Char 16}
  {txmode pdformat : Vector Char 8} {part file : List Char}

/-- The end of the function, behind the copies of the three texts. -/
theorem filled_iff (hpart : part <+: file) (hlen : part.length ≤ 255) (hcommas : 3 ≤ part.count ',')
    (hdevaddr : cstring devaddr = (fieldText part 0).take 15)
    (htxmode : cstring txmode = orText "time".toList (fieldText part 1))
    (hpdformat : cstring pdformat = orText "txt".toList (fieldText part 2)) :
    (∃ result,
      (if fieldText part 3 = [] then .ok none
        else storePayload (entry.withTexts devaddr txmode pdformat (fieldText part)) hexpld
          (fieldText part 3) (BitVec.ofNat 8 (fieldText part 3).length)) = .ok result ∧
      ∀ pkt, result = some pkt → AsWritten file pkt) ↔
    (fieldText part 3 = [] ∨
      (IsHex (fieldText part 2) ∧ (fieldText part 3).length % 2 ≠ 0) ∨
      FieldsKept (fieldText part) (fieldText file)) := by
  have hpld : (fieldText part 3).length ≤ 255 := (length_fieldText_le part 3).trans hlen
  have hformat : cstring (entry.withTexts devaddr txmode pdformat (fieldText part)).pdformat =
      orText "txt".toList (fieldText part 2) := hpdformat
  by_cases hempty : fieldText part 3 = []
  · rw [if_pos hempty]
    exact iff_of_true ⟨none, rfl, nofun⟩ (Or.inl hempty)
  · rw [if_neg hempty, or_iff_right hempty]
    by_cases hodd : IsHex (fieldText part 2) ∧ (fieldText part 3).length % 2 ≠ 0
    · rw [storePayload_odd hexpld hformat hpld ((isHex_orText _).2 hodd.1) hodd.2]
      exact iff_of_true ⟨none, rfl, nofun⟩ (Or.inl hodd)
    · have heven : IsHex (orText "txt".toList (fieldText part 2)) →
          (fieldText part 3).length % 2 = 0 := by
        intro hhex
        by_contra hne
        exact hodd ⟨(isHex_orText _).1 hhex, hne⟩
      obtain ⟨payload, psize, hstore, hpsize, hpayload⟩ :=
        storePayload_ok hexpld hformat hpld heven
      simp only [payloadByte, isHex_orText] at hpsize hpayload
      rw [or_iff_right hodd, hstore, returned_iff]
      exact asWritten_iff entry hpart hcommas hdevaddr htxmode hpdformat hpsize hpayload

end Filled

/-- A file is rejected or parsed as written if and only if nothing that it says is lost. -/
theorem parsedAsWritten_iff (entry : DnPkt) (hexpld : Vector (BitVec 8) 256) (file : List Char) :
    ParsedAsWritten entry hexpld file ↔ ReadsAsWritten file := by
  rw [ParsedAsWritten, ReadsAsWritten]
  by_cases hreject : (readPart file).count ',' < 3 ∨ fieldText (readPart file) 0 = []
  · rw [pktPrepareDownlink_rejects hreject, ← or_assoc]
    exact iff_of_true ⟨none, rfl, nofun⟩ (Or.inl hreject)
  · obtain ⟨hcommas, haddr⟩ := not_or.1 hreject
    have hfit : ((fieldText (readPart file) 0).take 15).length < 16 := by
      have hle := length_take_le (fieldText (readPart file) 0)
      omega
    obtain ⟨devaddr, hcopy, hdevaddr⟩ := strcpy_ok entry.devaddr hfit take_ne_nul
    rw [pktPrepareDownlink_eq hcommas haddr, hcopy, ok_bind, or_iff_right hcommas,
      or_iff_right haddr]
    -- the copies of the mode and of the format are the ones that may not fit
    obtain ⟨hmode, txmode, hcopy, htxmode⟩ | ⟨hmode, e, herror⟩ :=
      strcpy_orText entry.txmode (readPart file) 1 time_ne_nul (by decide)
    · rw [hcopy, ok_bind, and_iff_right hmode]
      obtain ⟨hpdf, pdformat, hcopy, hpdformat⟩ | ⟨hpdf, e, herror⟩ :=
        strcpy_orText entry.pdformat (readPart file) 2 txt_ne_nul (by decide)
      · rw [hcopy, ok_bind, and_iff_right hpdf]
        exact filled_iff (readPart_cut file) (length_readPart_le file) (Nat.not_lt.1 hcommas)
          hdevaddr htxmode hpdformat
      · rw [herror, error_bind]
        exact iff_of_false not_returned fun h => Nat.not_le.2 hpdf h.1
    · rw [herror, error_bind]
      exact iff_of_false not_returned fun h => Nat.not_le.2 hmode h.1

/-- A packet before it is filled. -/
def blankPkt : DnPkt where
  devaddr := Vector.replicate 16 (Char.ofNat 0)
  txmode := Vector.replicate 8 (Char.ofNat 0)
  pdformat := Vector.replicate 8 (Char.ofNat 0)
  payload := Vector.replicate 512 0#8
  psize := 0#8
  txdr := 0#8
  txbw := 0#8
  txpw := 0#8
  rxwindow := 0#8
  txport := 0#8
  txfreq := 0#32

/-- A file that asks for port 300. -/
def portFile : List Char := "26011BDA,imme,txt,hi,,,,,,300".toList

/-- The port 300 is outside 0..255, and the packet gets port 44. -/
theorem port_cut_to_a_byte :
    ¬∀ (entry : DnPkt) (hexpld : Vector (BitVec 8) 256) (file : List Char), file.length ≤ 512 →
      ParsedAsWritten entry hexpld file := by
  intro h
  obtain ⟨result, hrun, hwritten⟩ :=
    h blankPkt (Vector.replicate 256 0#8) portFile (by decide +kernel)
  have hport : (pktPrepareDownlink blankPkt (Vector.replicate 256 0#8) portFile).toOption.map
      (Option.map DnPkt.txport) = some (some 44#8) := by decide +kernel
  rw [hrun] at hport
  have hsetting : portSetting (fieldText portFile 9) = 2 := by decide +kernel
  cases result with
  | none => cases Option.some.inj hport
  | some pkt =>
      have htxport := (hwritten pkt rfl).txport
      rw [hsetting, Option.some.inj (Option.some.inj hport)] at htxport
      cases htxport

end DraginoFwd.Mac.DnFile

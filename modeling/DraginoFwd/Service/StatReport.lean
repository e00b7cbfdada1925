import DraginoFwd.Lib.Doubles
import DraginoFwd.Lib.JsonStrings
import DraginoFwd.Uplink.Datagram

/-!
# The status report

`semtech_report` prints the member `stat` into `status_report`, an array of `STATUS_SIZE` bytes. The
three strings of the configuration go in as they are, so that the report is complete and is read as
what it should say exactly when the printed widths leave room, the coordinates that are printed are
numbers, and no string has a quotation mark, a backslash or a control character in it
(`reportComplete_iff`). Texts are lists of bytes here, each of them the character with its code.
-/

set_option autoImplicit false

namespace DraginoFwd.Service

open DraginoFwd.Lib.JsonReader
open DraginoFwd.Lib.Printf
open DraginoFwd.Uplink (statusSize StatusReport ReportReadable)

/-! ## The code -/

/-- The time of a report in UTC, up to the last year with four decimals. -/
structure GmTime where
  year : Nat
  month : Nat
  day : Nat
  hour : Nat
  minute : Nat
  second : Nat
  year_lt : year < 10 ^ 4
  month_lt : month < 10 ^ 2
  day_lt : day < 10 ^ 2
  hour_lt : hour < 10 ^ 2
  minute_lt : minute < 10 ^ 2
  second_lt : second < 10 ^ 2

/-- `stat_timestamp`, the text of `"%F %T %Z"` -/
def GmTime.text (t : GmTime) : List Char :=
  padLeft '0' 4 (fmtU t.year) ++ '-' :: padLeft '0' 2 (fmtU t.month) ++
    '-' :: padLeft '0' 2 (fmtU t.day) ++ ' ' :: padLeft '0' 2 (fmtU t.hour) ++
    ':' :: padLeft '0' 2 (fmtU t.minute) ++ ':' :: padLeft '0' 2 (fmtU t.second) ++ " GMT".toList

/-- `struct coord_s` -/
structure CoordS where
  lat : BitVec 64
  lon : BitVec 64
  alt : BitVec 16

/-- The strings of `GW.info`, as long as their arrays let them be. -/
structure GwInfo where
  platform : List Char
  email : List Char
  description : List Char
  platform_fits : platform.length < 24
  email_fits : email.length < 40
  description_fits : description.length < 64

/-- What the report reads of `GW.gps`. -/
structure GpsState where
  gpsEnabled : Bool
  gpsCoordValid : Bool
  measGpsCoord : CoordS
  gpsFakeEnable : Bool
  referenceCoord : CoordS

/-- `cp_gps_coord` -/
def GpsState.cpGpsCoord (gps : GpsState) : CoordS :=
  if gps.gpsFakeEnable then gps.referenceCoord
  else if gps.gpsEnabled then gps.measGpsCoord
  else ⟨0#64, 0#64, 0#16⟩

/-- `(GW.gps.gps_enabled && coord_ok) || GW.gps.gps_fake_enable` -/
def GpsState.showsCoord (gps : GpsState) : Bool :=
  (gps.gpsEnabled && (if gps.gpsEnabled then gps.gpsCoordValid else false)) || gps.gpsFakeEnable

/-- What a report is made from, with the copies of the counters. -/
structure StatValues where
  time : GmTime
  gps : GpsState
  nbRxRcv : BitVec 32
  nbRxOk : BitVec 32
  upPktFwd : BitVec 32
  upAckRcv : BitVec 32
  upDgramSent : BitVec 32
  dwDgramRcv : BitVec 32
  nbTxOk : BitVec 32
  info : GwInfo

/-- The tenths of `100.0 * up_ack_ratio` -/
def StatValues.ackTenths (v : StatValues) : Nat :=
  if 0 < v.upDgramSent.toNat then percentTenths v.upAckRcv.toNat v.upDgramSent.toNat else 0

/-- The first member of the object. -/
def timeField (v : StatValues) : Field := Field.string "time".toList v.time.text

/-- The members that depend on the state of the GPS. -/
def coordFields (v : StatValues) : List Field :=
  if v.gps.showsCoord then
    [Field.number "lati".toList (fmtF5 v.gps.cpGpsCoord.lat),
      Field.number "long".toList (fmtF5 v.gps.cpGpsCoord.lon),
      Field.number "alti".toList (fmtD v.gps.cpGpsCoord.alt.toInt)]
  else []

/-- The members of the counters. -/
def countFields (v : StatValues) : List Field :=
  [Field.number "rxnb".toList (fmtU v.nbRxRcv.toNat),
    Field.number "rxok".toList (fmtU v.nbRxOk.toNat),
    Field.number "rxfw".toList (fmtU v.upPktFwd.toNat),
    Field.number "ackr".toList (fmtPercent v.ackTenths),
    Field.number "dwnb".toList (fmtU v.dwDgramRcv.toNat),
    Field.number "txnb".toList (fmtU v.nbTxOk.toNat)]

/-- The members of the strings. -/
def infoFields (info : GwInfo) : List Field :=
  [Field.string "pfrm".toList info.platform, Field.string "mail".toList info.email,
    Field.string "desc".toList info.description]

/-- The members behind the time. -/
def statFields (v : StatValues) : List Field := coordFields v ++ countFields v ++ infoFields v.info

/-- The text that the format stands for. -/
def statText (v : StatValues) : List Char :=
  memberText "stat".toList (objectText (timeField v) (statFields v))

/-- `status_report`, which `snprintf` cuts short -/
def statusReport (v : StatValues) : List Char := (statText v).take (statusSize - 1)

/-! ## The property and the condition -/

/-- A member that has been read is the one that was printed: a number as it was written, or a string
that stands for the text. -/
inductive MemberDecodes : Field → List Char × Json → Prop where
  | number (name text : List Char) : MemberDecodes (Field.number name text) (name, .num text)
  | string (name : List Char) {body text : List Char} (h : StandsFor body text) :
      MemberDecodes (Field.string name text) (name, .str body)

/-- Nothing of the report is cut off, and in braces it is an object whose member `stat` has all the
members, with the strings of the configuration. -/
structure ReportComplete (v : StatValues) : Prop where
  whole : statusReport v = statText v
  decodes : ∃ members, parse ('{' :: (statusReport v ++ ['}'])) =
      some (.obj [("stat".toList, .obj members)]) ∧
    List.Forall₂ MemberDecodes (timeField v :: statFields v) members

/-- The number of bytes that the format takes: its own characters with the time, and the fields. -/
def reportWidth (v : StatValues) : Nat :=
  119 +
    (if v.gps.showsCoord then
      24 + widthF5 v.gps.cpGpsCoord.lat + widthF5 v.gps.cpGpsCoord.lon +
        widthD v.gps.cpGpsCoord.alt.toInt
    else 0) +
    decimals v.nbRxRcv.toNat + decimals v.nbRxOk.toNat + decimals v.upPktFwd.toNat +
    (decimals (v.ackTenths / 10) + 2) + decimals v.dwDgramRcv.toNat + decimals v.nbTxOk.toNat +
    v.info.platform.length + v.info.email.length + v.info.description.length

/-- The fields leave room in the array, the coordinates are numbers, and the strings need no
escapes. -/
structure Printable (v : StatValues) : Prop where
  fits : reportWidth v < statusSize
  coord : v.gps.showsCoord = true →
    doubleFinite v.gps.cpGpsCoord.lat = true ∧ doubleFinite v.gps.cpGpsCoord.lon = true
  platform : ∀ c ∈ v.info.platform, isPlain c = true
  email : ∀ c ∈ v.info.email, isPlain c = true
  description : ∀ c ∈ v.info.description, isPlain c = true

/-! ## The width -/

theorem length_pad {width n : Nat} (hwidth : 0 < width) (h : n < 10 ^ width) :
    (padLeft '0' width (fmtU n)).length = width := by
  rw [length_padLeft, length_fmtU, max_eq_left (decimals_le hwidth h)]

theorem length_time (t : GmTime) : t.text.length = 23 := by
  have hzone : " GMT".toList.length = 4 := rfl
  simp only [GmTime.text, List.length_append, List.length_cons, length_pad (by decide) t.year_lt,
    length_pad (by decide) t.month_lt, length_pad (by decide) t.day_lt,
    length_pad (by decide) t.hour_lt, length_pad (by decide) t.minute_lt,
    length_pad (by decide) t.second_lt, hzone]

theorem length_quoted (text : List Char) : (quoted text).length = text.length + 2 := by
  simp [quoted]

theorem length_memberText (name text : List Char) :
    (memberText name text).length = name.length + text.length + 3 := by
  rw [memberText, List.length_append, length_quoted, List.length_cons]
  omega

/-- The bytes of the members behind the first one, with their commas. -/
theorem length_moreText_cons (f : Field) (fs : List Field) :
    (moreText (f :: fs)).length =
      f.name.length + f.text.length + 4 + (moreText fs).length := by
  rw [moreText_cons, List.length_append, List.length_cons, length_memberText]

theorem length_coordFields (v : StatValues) :
    (moreText (coordFields v)).length =
      if v.gps.showsCoord then
        24 + widthF5 v.gps.cpGpsCoord.lat + widthF5 v.gps.cpGpsCoord.lon +
          widthD v.gps.cpGpsCoord.alt.toInt
      else 0 := by
  have hnames : "lati".toList.length = 4 ∧ "long".toList.length = 4 ∧ "alti".toList.length = 4 :=
    ⟨rfl, rfl, rfl⟩
  rw [coordFields]
  split
  · simp only [length_moreText_cons, Field.number, moreText_nil, List.length_nil, hnames,
      length_fmtF5, length_fmtD]
    omega
  · rfl

theorem length_countFields (v : StatValues) :
    (moreText (countFields v)).length =
      48 + decimals v.nbRxRcv.toNat + decimals v.nbRxOk.toNat + decimals v.upPktFwd.toNat +
        (decimals (v.ackTenths / 10) + 2) + decimals v.dwDgramRcv.toNat +
        decimals v.nbTxOk.toNat := by
  have hup : "rxnb".toList.length = 4 ∧ "rxok".toList.length = 4 ∧ "rxfw".toList.length = 4 :=
    ⟨rfl, rfl, rfl⟩
  have hdown : "ackr".toList.length = 4 ∧ "dwnb".toList.length = 4 ∧ "txnb".toList.length = 4 :=
    ⟨rfl, rfl, rfl⟩
  simp only [countFields, length_moreText_cons, Field.number, moreText_nil, List.length_nil, hup,
    hdown, length_fmtU, length_fmtPercent]
  omega

theorem length_infoFields (info : GwInfo) :
    (moreText (infoFields info)).length =
      30 + info.platform.length + info.email.length + info.description.length := by
  have hnames : "pfrm".toList.length = 4 ∧ "mail".toList.length = 4 ∧ "desc".toList.length = 4 :=
    ⟨rfl, rfl, rfl⟩
  simp only [infoFields, length_moreText_cons, Field.string, moreText_nil, List.length_nil, hnames,
    length_quoted]
  omega

theorem length_statText (v : StatValues) : (statText v).length = reportWidth v := by
  have hnames : "stat".toList.length = 4 ∧ "time".toList.length = 4 := ⟨rfl, rfl⟩
  rw [statText, length_memberText, objectText, statFields, moreText_append, moreText_append]
  simp only [List.length_append, List.length_cons, List.length_nil, length_memberText, timeField,
    Field.string, length_quoted, length_time, length_coordFields, length_countFields,
    length_infoFields, hnames, reportWidth]
  omega

/-! ## What can be read -/

theorem isPlain_time (t : GmTime) : ∀ c ∈ t.text, isPlain c = true := by
  have hpad : ∀ width n, ∀ c ∈ padLeft '0' width (fmtU n), isPlain c = true := fun width n c hc =>
    isPlain_of_isDigit (isDigit_padLeft_zero width (isDigit_fmtU n) c hc)
  have hdash : isPlain '-' = true := rfl
  have hblank : isPlain ' ' = true := rfl
  have hcolon : isPlain ':' = true := rfl
  have hzone : ∀ c ∈ " GMT".toList, isPlain c = true := plain_of_all rfl
  simp only [GmTime.text, List.forall_mem_append, List.forall_mem_cons, List.append_assoc,
    List.cons_append]
  exact ⟨hpad 4 _, hdash, hpad 2 _, hdash, hpad 2 _, hblank, hpad 2 _, hcolon, hpad 2 _, hcolon,
    hpad 2 _, hzone⟩

theorem timeField_ok (v : StatValues) : (timeField v).Ok :=
  Field.string_ok (plain_of_all rfl) (isPlain_time v.time)

theorem coordFields_ok {v : StatValues} (h : v.gps.showsCoord = true →
    doubleFinite v.gps.cpGpsCoord.lat = true ∧ doubleFinite v.gps.cpGpsCoord.lon = true) :
    ∀ f ∈ coordFields v, f.Ok := by
  rw [coordFields]
  split
  · next hshows =>
    obtain ⟨hlat, hlon⟩ := h hshows
    simp only [List.forall_mem_cons, List.not_mem_nil, false_imp_iff, implies_true, and_true]
    exact ⟨Field.number_ok (plain_of_all rfl) (reads_fmtF5 hlat),
      Field.number_ok (plain_of_all rfl) (reads_fmtF5 hlon),
      Field.number_ok (plain_of_all rfl) (reads_fmtD _)⟩
  · intro f hf
    cases hf

theorem countFields_ok (v : StatValues) : ∀ f ∈ countFields v, f.Ok := by
  have hcounter : ∀ name : String, name.toList.all isPlain = true → ∀ n : BitVec 32,
      (Field.number name.toList (fmtU n.toNat)).Ok := fun name hname n =>
    Field.number_ok (plain_of_all hname) (reads_fmtU _)
  simp only [countFields, List.forall_mem_cons, List.not_mem_nil, false_imp_iff, implies_true,
    and_true]
  exact ⟨hcounter "rxnb" rfl _, hcounter "rxok" rfl _, hcounter "rxfw" rfl _,
    Field.number_ok (plain_of_all rfl) (reads_fmtPercent _), hcounter "dwnb" rfl _,
    hcounter "txnb" rfl _⟩

theorem infoFields_ok {info : GwInfo} (hplatform : ∀ c ∈ info.platform, isPlain c = true)
    (hemail : ∀ c ∈ info.email, isPlain c = true)
    (hdescription : ∀ c ∈ info.description, isPlain c = true) : ∀ f ∈ infoFields info, f.Ok := by
  simp only [infoFields, List.forall_mem_cons, List.not_mem_nil, false_imp_iff, implies_true,
    and_true]
  exact ⟨Field.string_ok (plain_of_all rfl) hplatform, Field.string_ok (plain_of_all rfl) hemail,
    Field.string_ok (plain_of_all rfl) hdescription⟩

/-- The reader behind the name of the report. -/
theorem run_stat (text : List Char) :
    run ⟨.value, []⟩ ('{' :: (memberText "stat".toList text ++ ['}'])) =
      run ⟨.value, [.obj [] "stat".toList]⟩ (text ++ ['}']) :=
  run_first_name (plain_of_all rfl) [] ['}'] text

/-- A report whose members are readable is read as the member `stat` with these members. -/
theorem parse_stat {f : Field} {fs : List Field} (hf : f.Ok) (hfs : ∀ g ∈ fs, g.Ok) :
    parse ('{' :: (memberText "stat".toList (objectText f fs) ++ ['}'])) =
      some (.obj [("stat".toList, .obj ((f :: fs).map Field.member))]) := by
  rw [parse_eq_obj_iff, run_stat, run_object hf hfs]
  rfl

/-- A report with an unreadable number is not read at all. -/
theorem parse_stat_dead {f g : Field} {fs gs : List Field} (hf : f.Ok) (hfs : ∀ h ∈ fs, h.Ok)
    (hg : g.Bad) (members : List (List Char × Json)) :
    parse ('{' :: (memberText "stat".toList (objectText f (fs ++ g :: gs)) ++ ['}'])) ≠
      some (.obj members) := by
  have hdead := run_dead_member hf hfs hg.plain hg.dead [.obj [] "stat".toList]
    (moreText gs ++ ['}'] ++ ['}'])
  rw [Ne, parse_eq_obj_iff, run_stat, objectText, moreText_append, moreText_cons]
  simp only [List.append_assoc, List.cons_append] at hdead ⊢
  rw [hdead]
  intro hnone
  cases hnone

theorem MemberDecodes.standsFor {f : Field} {name body text : List Char}
    (h : MemberDecodes f (name, .str body)) (hf : f.value = .str text) : StandsFor body text := by
  cases h with
  | string _ h =>
    cases hf
    exact h

/-- A string of the report that is read as the text that was printed is plain, when the members
before it are readable. -/
theorem plain_of_decodes {f : Field} {all fs gs : List Field} {name text : List Char}
    {members : List (List Char × Json)}
    (hparse : parse ('{' :: (memberText "stat".toList (objectText f all) ++ ['}'])) =
      some (.obj [("stat".toList, .obj members)]))
    (hdecodes : List.Forall₂ MemberDecodes (f :: all) members)
    (hall : all = fs ++ Field.string name text :: gs) (hf : f.Ok) (hfs : ∀ h ∈ fs, h.Ok)
    (hname : ∀ c ∈ name, isPlain c = true) : ∀ c ∈ text, isPlain c = true := by
  subst hall
  obtain ⟨own, last, hown, hrun⟩ := run_open_object hf hfs [.obj [] "stat".toList]
  -- the reader behind the opening quotation mark of the string
  have hstring : run ⟨.string false [] .plain,
      [.obj (own ++ [last]) name, .obj [] "stat".toList]⟩
        (text ++ '"' :: (moreText gs ++ ['}'] ++ ['}'])) =
      some ⟨.after (.obj [("stat".toList, .obj members)]), []⟩ := by
    have hnext := hrun (',' :: memberText name (quoted text) ++ (moreText gs ++ ['}'] ++ ['}']))
      (Closes.comma _)
    rw [inObject, run_next_name hname, run_open_string] at hnext
    rw [parse_eq_obj_iff, run_stat, objectText, moreText_append, moreText_cons] at hparse
    simp only [Field.string, List.append_assoc, List.cons_append] at hparse hnext ⊢
    rw [← hnext, hparse]
  obtain ⟨body, rest, hsplit, hafter⟩ := run_string_end hstring (by rintro _ _ ⟨⟩)
  obtain ⟨more, hmembers⟩ := run_closes_inner hafter
  -- the member that was read stands where the string was printed
  have hlen : (f :: fs).length = (own ++ [last]).length := by
    rw [hown, List.length_map]
  have hat := List.forall₂_drop (f :: fs).length hdecodes
  rw [hmembers, ← List.cons_append, List.drop_left, hlen, List.append_assoc, List.drop_left] at hat
  cases hat with
  | cons hmember _ => exact (plain_of_standsFor hsplit (hmember.standsFor rfl)).2.2

/-- Coordinates that are read are numbers. -/
theorem finite_of_parse {v : StatValues} {members : List (List Char × Json)}
    (hparse : parse ('{' :: (statText v ++ ['}'])) = some (.obj members))
    (hshows : v.gps.showsCoord = true) :
    doubleFinite v.gps.cpGpsCoord.lat = true ∧ doubleFinite v.gps.cpGpsCoord.lon = true := by
  rw [statText, statFields, coordFields, if_pos hshows] at hparse
  cases hlat : doubleFinite v.gps.cpGpsCoord.lat with
  | false =>
    have hbad : (Field.number "lati".toList (fmtF5 v.gps.cpGpsCoord.lat)).Bad :=
      Field.number_bad (plain_of_all rfl) (dead_fmtF5 hlat)
    exact absurd hparse (parse_stat_dead (timeField_ok v) (List.forall_mem_nil _) hbad members)
  | true =>
    cases hlon : doubleFinite v.gps.cpGpsCoord.lon with
    | false =>
      have hok : (Field.number "lati".toList (fmtF5 v.gps.cpGpsCoord.lat)).Ok :=
        Field.number_ok (plain_of_all rfl) (reads_fmtF5 hlat)
      have hbad : (Field.number "long".toList (fmtF5 v.gps.cpGpsCoord.lon)).Bad :=
        Field.number_bad (plain_of_all rfl) (dead_fmtF5 hlon)
      have hone := List.forall_mem_singleton.2 hok
      exact absurd hparse (parse_stat_dead (timeField_ok v) hone hbad members)
    | true => exact ⟨rfl, rfl⟩

/-- A printable report has the members that were printed. -/
theorem memberDecodes_statFields {v : StatValues} (h : Printable v) :
    ∀ f ∈ timeField v :: statFields v, MemberDecodes f f.member := by
  have hnumber : ∀ name text,
      MemberDecodes (Field.number name text) (Field.number name text).member :=
    MemberDecodes.number
  have hstring : ∀ name {text}, (∀ c ∈ text, isPlain c = true) →
      MemberDecodes (Field.string name text) (Field.string name text).member :=
    fun name _ hplain => MemberDecodes.string name (standsFor_self hplain)
  have hcoord : ∀ f ∈ coordFields v, MemberDecodes f f.member := by
    rw [coordFields]
    split
    · simp only [List.forall_mem_cons, List.not_mem_nil, false_imp_iff, implies_true, and_true]
      exact ⟨hnumber _ _, hnumber _ _, hnumber _ _⟩
    · intro f hf
      cases hf
  rw [List.forall_mem_cons, statFields, List.forall_mem_append, List.forall_mem_append]
  refine ⟨hstring _ (isPlain_time v.time), ⟨hcoord, ?_⟩, ?_⟩
  · simp only [countFields, List.forall_mem_cons, List.not_mem_nil, false_imp_iff, implies_true,
      and_true]
    exact ⟨hnumber _ _, hnumber _ _, hnumber _ _, hnumber _ _, hnumber _ _, hnumber _ _⟩
  · simp only [infoFields, List.forall_mem_cons, List.not_mem_nil, false_imp_iff, implies_true,
      and_true]
    exact ⟨hstring _ h.platform, hstring _ h.email, hstring _ h.description⟩

theorem statusReport_whole {v : StatValues} (h : reportWidth v < statusSize) :
    statusReport v = statText v := by
  rw [statusReport, List.take_of_length_le]
  rw [length_statText]
  exact Nat.le_sub_one_of_lt h

theorem Printable.fields_ok {v : StatValues} (h : Printable v) : ∀ f ∈ statFields v, f.Ok := by
  rw [statFields, List.forall_mem_append, List.forall_mem_append]
  exact ⟨⟨coordFields_ok h.coord, countFields_ok v⟩,
    infoFields_ok h.platform h.email h.description⟩

/-- The strings of a report that is read as it should need no escapes: one string after the other,
each behind members that are readable. -/
theorem info_of_decodes {v : StatValues} {members : List (List Char × Json)}
    (hparse : parse ('{' :: (statText v ++ ['}'])) =
      some (.obj [("stat".toList, .obj members)]))
    (hdecodes : List.Forall₂ MemberDecodes (timeField v :: statFields v) members) :
    (∀ c ∈ v.info.platform, isPlain c = true) ∧ (∀ c ∈ v.info.email, isPlain c = true) ∧
      ∀ c ∈ v.info.description, isPlain c = true := by
  have hnumbers : ∀ f ∈ coordFields v ++ countFields v, f.Ok :=
    List.forall_mem_append.2 ⟨coordFields_ok (finite_of_parse hparse), countFields_ok v⟩
  have hpfrm : ∀ c ∈ "pfrm".toList, isPlain c = true := plain_of_all rfl
  have hmail : ∀ c ∈ "mail".toList, isPlain c = true := plain_of_all rfl
  have hplatform : ∀ c ∈ v.info.platform, isPlain c = true :=
    plain_of_decodes hparse hdecodes rfl (timeField_ok v) hnumbers hpfrm
  have hbefore : ∀ f ∈ coordFields v ++ countFields v ++
      [Field.string "pfrm".toList v.info.platform], f.Ok :=
    List.forall_mem_append.2
      ⟨hnumbers, List.forall_mem_singleton.2 (Field.string_ok hpfrm hplatform)⟩
  have hemail : ∀ c ∈ v.info.email, isPlain c = true :=
    plain_of_decodes hparse hdecodes (List.append_cons _ _ _) (timeField_ok v) hbefore hmail
  have hbefore' : ∀ f ∈ coordFields v ++ countFields v ++
      [Field.string "pfrm".toList v.info.platform, Field.string "mail".toList v.info.email],
        f.Ok := by
    rw [List.append_cons]
    exact List.forall_mem_append.2
      ⟨hbefore, List.forall_mem_singleton.2 (Field.string_ok hmail hemail)⟩
  have hdescription : ∀ c ∈ v.info.description, isPlain c = true :=
    plain_of_decodes hparse hdecodes (List.append_assoc _ [_, _] [_]).symm (timeField_ok v)
      hbefore' (plain_of_all rfl)
  exact ⟨hplatform, hemail, hdescription⟩

/-- The report is complete and says what it should exactly when it is printable. -/
theorem reportComplete_iff (v : StatValues) : ReportComplete v ↔ Printable v := by
  constructor
  · rintro ⟨hwhole, members, hparse, hdecodes⟩
    rw [hwhole] at hparse
    have hfits : reportWidth v < statusSize := by
      have hlen := congrArg List.length hwhole
      rw [statusReport, List.length_take, length_statText] at hlen
      have hle : reportWidth v ≤ statusSize - 1 := by
        rw [← hlen]
        exact Nat.min_le_left _ _
      exact Nat.lt_of_le_of_lt hle (by decide)
    obtain ⟨hplatform, hemail, hdescription⟩ := info_of_decodes hparse hdecodes
    exact ⟨hfits, finite_of_parse hparse, hplatform, hemail, hdescription⟩
  · intro h
    have hwhole := statusReport_whole h.fits
    refine ⟨hwhole, (timeField v :: statFields v).map Field.member, ?_, ?_⟩
    · rw [hwhole]
      exact parse_stat (timeField_ok v) h.fields_ok
    · rw [List.forall₂_map_right_iff, List.forall₂_same]
      exact memberDecodes_statFields h

/-- The first report of a gateway that has received nothing. -/
def quietValues (description : List Char) (h : description.length < 64) : StatValues where
  time := ⟨2025, 1, 1, 0, 0, 0, by decide, by decide, by decide, by decide, by decide, by decide⟩
  gps := ⟨false, false, ⟨0#64, 0#64, 0#16⟩, false, ⟨0#64, 0#64, 0#16⟩⟩
  nbRxRcv := 0#32
  nbRxOk := 0#32
  upPktFwd := 0#32
  upAckRcv := 0#32
  upDgramSent := 0#32
  dwDgramRcv := 0#32
  nbTxOk := 0#32
  info := ⟨"LG308".toList, [], description, by decide, by decide, h⟩

/-- A quotation mark in the description ends the string in the middle. -/
theorem quoted_description_unreadable : ¬ ∀ v, ReportComplete v := by
  intro h
  obtain ⟨-, members, hparse, -⟩ := h (quietValues "the \"roof\"".toList (by decide +kernel))
  have hnone : (parse ('{' :: (statusReport (quietValues "the \"roof\"".toList
      (by decide +kernel)) ++ ['}']))).isNone = true := by
    decide +kernel
  rw [hparse] at hnone
  cases hnone

end DraginoFwd.Service

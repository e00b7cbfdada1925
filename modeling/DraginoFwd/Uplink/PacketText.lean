import DraginoFwd.Uplink.PushData

/-!
# The text of one packet

What `pktLayout` writes for a packet, read as JSON. A packet that can be serialized is written as an
object with the members `packetFields` (`pktLayout_done`), and the object is read with the packet's
time stamp, size and payload unless one of its `float` values is an infinity or a NaN
(`packetObject_fields`, `packetFields_bad`). A packet that cannot be serialized is taken back, or it
leaves an object cut off in front of a member that nothing in the rest of a datagram completes
(`Cut`).
-/

set_option autoImplicit false

namespace DraginoFwd.Uplink

open DraginoFwd.Base64
open DraginoFwd.Hal
open DraginoFwd.Lib.JsonReader
open DraginoFwd.Lib.Memory
open DraginoFwd.Lib.Printf

/-! ## Members -/

/-- The packet can be serialized: its modulation is known, for LoRa also its data rate, bandwidth
and coding rate, and its payload is not longer than the encoder takes. -/
def Serializable (p : LgwPktRx) : Prop :=
  p.size.toNat ≤ 255 ∧
    (p.modulation = modLora ∧ (datrText p).isSome ∧ (bandText p).isSome ∧ (codrText p).isSome ∨
      p.modulation = modFsk)

instance (p : LgwPktRx) : Decidable (Serializable p) :=
  inferInstanceAs (Decidable (_ ∧ _))

/-- The `float` values that are written for the packet are numbers. -/
def FloatsFinite (p : LgwPktRx) : Prop :=
  floatFinite p.rssic = true ∧
    (p.modulation = modLora → floatFinite p.rssis = true ∧ floatFinite p.snr = true)

instance (p : LgwPktRx) : Decidable (FloatsFinite p) := inferInstanceAs (Decidable (_ ∧ _))

/-- The payload bytes of a packet. -/
def payloadBytes (p : LgwPktRx) : List (BitVec 8) := p.payload.toList.take p.size.toNat

/-- The first member of an object. -/
def jverField : Field := .number "jver".toList "1".toList

/-- The members of its time. -/
def timeFields : PktTime → List Field
  | .gps utc gpsMs =>
      (utc.toList.map fun t => .string "time".toList t.text) ++
        gpsMs.toList.map fun ms => .number "tmms".toList (fmtU ms.toNat)
  | .clock utc => [.string "time".toList utc.text]

/-- The members that every packet has, behind the first one. -/
def placeFields (time : PktTime) (p : LgwPktRx) : List Field :=
  .number "tmst".toList (fmtU p.countUs.toNat) ::
    (timeFields time ++ [.number "chan".toList (fmtU p.ifChain.toNat),
      .number "rfch".toList (fmtU p.rfChain.toNat), .number "freq".toList (fmtMillionth p.freqHz),
      ⟨"mid".toList, fmtBlankU p.modemId.toNat, .num (fmtU p.modemId.toNat)⟩])

/-- The members of a packet in LoRa modulation. -/
def loraFields (p : LgwPktRx) : List Field :=
  [.string "modu".toList "LORA".toList,
    .string "datr".toList ((datrText p).getD [] ++ (bandText p).getD []),
    .string "codr".toList ((codrText p).getD []),
    .number "rssis".toList (fmtRoundf p.rssis),
    .number "lsnr".toList (fmtF1 p.snr),
    .number "foff".toList (fmtD p.freqOffset.toInt)]

/-- The members of a packet in FSK. -/
def fskFields (p : LgwPktRx) : List Field :=
  [.string "modu".toList "FSK".toList, .number "datr".toList (fmtU p.datarate.toNat)]

/-- The last members: the strength of its signal and its payload. -/
def dataFields (p : LgwPktRx) : List Field :=
  [.number "rssi".toList (fmtRoundf p.rssic), .number "size".toList (fmtU p.size.toNat),
    .string "data".toList (base64 (payloadBytes p))]

/-- The members of a packet that is serialized, behind the first one. -/
def packetFields (time : PktTime) (p : LgwPktRx) : List Field :=
  placeFields time p ++ .number "stat".toList ((statText p).getD []) ::
    ((if p.modulation = modLora then loraFields p else fskFields p) ++ dataFields p)

/-- The value that a serialized packet is read as. -/
def packetValue (time : PktTime) (p : LgwPktRx) : Json :=
  .obj ((jverField :: packetFields time p).map Field.member)

/-- Exactly one member has the name, and it has the value. -/
def HasMember (members : List (List Char × Json)) (name : String) (v : Json) : Prop :=
  members.filter (fun m => m.1 = name.toList) = [(name.toList, v)]

/-- The value is an object with the packet's time stamp, size and payload. -/
def PacketObject (p : LgwPktRx) (j : Json) : Prop :=
  ∃ members, j = .obj members ∧
    HasMember members "tmst" (.num (fmtU p.countUs.toNat)) ∧
    HasMember members "size" (.num (fmtU p.size.toNat)) ∧
    HasMember members "data" (.str (base64 (payloadBytes p)))

theorem packetObject_fields (time : PktTime) (p : LgwPktRx) :
    PacketObject p (packetValue time p) := by
  refine ⟨_, rfl, ?_⟩
  unfold packetFields
  by_cases hlora : p.modulation = modLora
  · rw [if_pos hlora]
    rcases time with ⟨_ | utc, _ | ms⟩ | utc <;> exact ⟨rfl, rfl, rfl⟩
  · rw [if_neg hlora]
    rcases time with ⟨_ | utc, _ | ms⟩ | utc <;> exact ⟨rfl, rfl, rfl⟩

/-! ## Which members can be read -/

theorem isPlain_utcText (t : UtcTime) : ∀ c ∈ t.text, isPlain c = true := by
  have hdash : isPlain '-' = true := rfl
  have hT : isPlain 'T' = true := rfl
  have hcolon : isPlain ':' = true := rfl
  have hdot : isPlain '.' = true := rfl
  have hZ : isPlain 'Z' = true := rfl
  have hnum := isPlain_fmtZeroD
  simp only [UtcTime.text, List.forall_mem_append, List.forall_mem_cons, List.append_assoc,
    List.cons_append]
  exact ⟨hnum 4 _, hdash, hnum 2 _, hdash, hnum 2 _, hT, hnum 2 _, hcolon, hnum 2 _, hcolon,
    hnum 2 _, hdot, hnum 6 _, hZ, fun c hc => absurd hc List.not_mem_nil⟩

theorem isPlain_datrText (p : LgwPktRx) : ∀ c ∈ (datrText p).getD [], isPlain c = true := by
  unfold datrText
  split <;> exact plain_of_all rfl

theorem isPlain_bandText (p : LgwPktRx) : ∀ c ∈ (bandText p).getD [], isPlain c = true := by
  unfold bandText
  split <;> exact plain_of_all rfl

theorem isPlain_codrText (p : LgwPktRx) : ∀ c ∈ (codrText p).getD [], isPlain c = true := by
  unfold codrText
  split <;> exact plain_of_all rfl

theorem jverField_ok : jverField.Ok :=
  Field.number_ok (plain_of_all rfl) (reads_fmtU 1)

theorem timeFields_ok (time : PktTime) : ∀ f ∈ timeFields time, f.Ok := by
  have hutc : ∀ t : UtcTime, (Field.string "time".toList t.text).Ok := fun t =>
    Field.string_ok (plain_of_all rfl) (isPlain_utcText t)
  have hms : ∀ ms : BitVec 64, (Field.number "tmms".toList (fmtU ms.toNat)).Ok := fun ms =>
    Field.number_ok (plain_of_all rfl) (reads_fmtU _)
  intro f hf
  cases time with
  | gps utc gpsMs =>
    rcases List.mem_append.1 hf with hf | hf
    · obtain ⟨t, -, rfl⟩ := List.mem_map.1 hf
      exact hutc t
    · obtain ⟨ms, -, rfl⟩ := List.mem_map.1 hf
      exact hms ms
  | clock utc =>
    rw [List.mem_singleton.1 hf]
    exact hutc utc

theorem placeFields_ok (time : PktTime) (p : LgwPktRx) : ∀ f ∈ placeFields time p, f.Ok := by
  have hmid : ∀ c ∈ "mid".toList, isPlain c = true := plain_of_all rfl
  rw [placeFields, List.forall_mem_cons, List.forall_mem_append]
  refine ⟨Field.number_ok (plain_of_all rfl) (reads_fmtU _), timeFields_ok time, ?_⟩
  simp only [List.forall_mem_cons, List.not_mem_nil, false_imp_iff, implies_true, and_true]
  exact ⟨Field.number_ok (plain_of_all rfl) (reads_fmtU _),
    Field.number_ok (plain_of_all rfl) (reads_fmtU _),
    Field.number_ok (plain_of_all rfl) (reads_fmtMillionth _), hmid, reads_fmtBlankU _⟩

theorem statField_ok {p : LgwPktRx} (hstat : (statText p).isSome) :
    (Field.number "stat".toList ((statText p).getD [])).Ok := by
  refine Field.number_ok (plain_of_all rfl) ?_
  unfold statText at hstat ⊢
  split
  · exact reads_fmtU 1
  · rw [if_neg ‹_›] at hstat
    split
    · exact reads_fmtD (-1)
    · rw [if_neg ‹_›] at hstat
      split
      · exact reads_fmtU 0
      · rw [if_neg ‹_›] at hstat
        cases hstat

/-- What holds of every member that is read, and of the three with a `float`, holds of all members
of a packet. -/
theorem packetFields_forall {C : Field → Prop} {time : PktTime} {p : LgwPktRx}
    (hstat : (statText p).isSome) (hok : ∀ f : Field, f.Ok → C f)
    (hrssi : C (.number "rssi".toList (fmtRoundf p.rssic)))
    (hlora : p.modulation = modLora → C (.number "rssis".toList (fmtRoundf p.rssis)) ∧
      C (.number "lsnr".toList (fmtF1 p.snr))) :
    ∀ f ∈ packetFields time p, C f := by
  have hplain : ∀ {name : List Char}, (∀ c ∈ name, isPlain c = true) → ∀ {text : List Char},
      (∀ c ∈ text, isPlain c = true) → C (.string name text) := fun hname _ htext =>
    hok _ (Field.string_ok hname htext)
  have hnumber : ∀ {name : List Char}, (∀ c ∈ name, isPlain c = true) → ∀ {text : List Char},
      Reads text (.num text) → C (.number name text) := fun hname _ htext =>
    hok _ (Field.number_ok hname htext)
  have hdata : ∀ f ∈ dataFields p, C f := by
    simp only [dataFields, List.forall_mem_cons, List.not_mem_nil, false_imp_iff, implies_true,
      and_true]
    exact ⟨hrssi, hnumber (plain_of_all rfl) (reads_fmtU _),
      hplain (plain_of_all rfl) (isPlain_base64 _)⟩
  rw [packetFields, List.forall_mem_append, List.forall_mem_cons, List.forall_mem_append]
  refine ⟨fun f hf => hok f (placeFields_ok time p f hf), hok _ (statField_ok hstat), ?_, hdata⟩
  by_cases hmod : p.modulation = modLora
  · obtain ⟨hrssis, hlsnr⟩ := hlora hmod
    have hdatr := List.forall_mem_append.2 ⟨isPlain_datrText p, isPlain_bandText p⟩
    rw [if_pos hmod]
    simp only [loraFields, List.forall_mem_cons, List.not_mem_nil, false_imp_iff, implies_true,
      and_true]
    exact ⟨hplain (plain_of_all rfl) (plain_of_all rfl), hplain (plain_of_all rfl) hdatr,
      hplain (plain_of_all rfl) (isPlain_codrText p), hrssis, hlsnr,
      hnumber (plain_of_all rfl) (reads_fmtD _)⟩
  · rw [if_neg hmod]
    simp only [fskFields, List.forall_mem_cons, List.not_mem_nil, false_imp_iff, implies_true,
      and_true]
    exact ⟨hplain (plain_of_all rfl) (plain_of_all rfl), hnumber (plain_of_all rfl) (reads_fmtU _)⟩

theorem packetFields_ok {time : PktTime} {p : LgwPktRx} (hstat : (statText p).isSome)
    (hfinite : FloatsFinite p) : ∀ f ∈ packetFields time p, f.Ok := by
  refine packetFields_forall hstat (fun f hf => hf) ?_ fun hmod => ⟨?_, ?_⟩
  · exact Field.number_ok (plain_of_all rfl) (reads_fmtRoundf hfinite.1)
  · exact Field.number_ok (plain_of_all rfl) (reads_fmtRoundf (hfinite.2 hmod).1)
  · exact Field.number_ok (plain_of_all rfl) (reads_fmtF1 (hfinite.2 hmod).2)

/-- Without finite values, one of the members cannot be read. -/
theorem packetFields_bad {time : PktTime} {p : LgwPktRx} (hstat : (statText p).isSome)
    (hfinite : ¬ FloatsFinite p) :
    (∀ f ∈ packetFields time p, f.Ok ∨ f.Bad) ∧ ∃ f ∈ packetFields time p, f.Bad := by
  have hround : ∀ {name : List Char}, (∀ c ∈ name, isPlain c = true) → ∀ bits,
      (Field.number name (fmtRoundf bits)).Ok ∨ (Field.number name (fmtRoundf bits)).Bad := by
    intro name hname bits
    cases hbits : floatFinite bits with
    | true => exact Or.inl (Field.number_ok hname (reads_fmtRoundf hbits))
    | false => exact Or.inr (Field.number_bad hname (dead_fmtRoundf hbits))
  have hF1 : ∀ {name : List Char}, (∀ c ∈ name, isPlain c = true) → ∀ bits,
      (Field.number name (fmtF1 bits)).Ok ∨ (Field.number name (fmtF1 bits)).Bad := by
    intro name hname bits
    cases hbits : floatFinite bits with
    | true => exact Or.inl (Field.number_ok hname (reads_fmtF1 hbits))
    | false => exact Or.inr (Field.number_bad hname (dead_fmtF1 hbits))
  refine ⟨packetFields_forall hstat (fun f hf => Or.inl hf) (hround (plain_of_all rfl) _)
    fun _ => ⟨hround (plain_of_all rfl) _, hF1 (plain_of_all rfl) _⟩, ?_⟩
  have hmem : ∀ f, f ∈ (if p.modulation = modLora then loraFields p else fskFields p) ∨
      f ∈ dataFields p → f ∈ packetFields time p := fun f hf =>
    List.mem_append_right _ (List.mem_cons_of_mem _ (List.mem_append.2 hf))
  by_cases hrssic : floatFinite p.rssic = true
  · have hlora : ¬ (p.modulation = modLora →
        floatFinite p.rssis = true ∧ floatFinite p.snr = true) := fun h => hfinite ⟨hrssic, h⟩
    obtain ⟨hmod, hpair⟩ := Classical.not_imp.1 hlora
    rw [if_pos hmod] at hmem
    by_cases hrssis : floatFinite p.rssis = true
    · have hsnr : floatFinite p.snr = false := by
        refine Bool.eq_false_iff.2 fun hsnr => hpair ⟨hrssis, hsnr⟩
      refine ⟨.number "lsnr".toList (fmtF1 p.snr), hmem _ (Or.inl ?_),
        Field.number_bad (plain_of_all rfl) (dead_fmtF1 hsnr)⟩
      simp [loraFields]
    · refine ⟨.number "rssis".toList (fmtRoundf p.rssis), hmem _ (Or.inl ?_),
        Field.number_bad (plain_of_all rfl) (dead_fmtRoundf (Bool.eq_false_iff.2 hrssis))⟩
      simp [loraFields]
  · exact ⟨_, hmem _ (Or.inr List.mem_cons_self),
      Field.number_bad (plain_of_all rfl) (dead_fmtRoundf (Bool.eq_false_iff.2 hrssic))⟩

/-! ## What is written -/

/-- The text of writes. -/
def texts (ws : List Write) : List Char := ws.flatMap Write.text

theorem texts_nil : texts [] = [] := rfl

theorem texts_cons (w : Write) (ws : List Write) : texts (w :: ws) = w.text ++ texts ws := rfl

@[simp] theorem texts_append (ws ws' : List Write) : texts (ws ++ ws') = texts ws ++ texts ws' :=
  List.flatMap_append

@[simp] theorem texts_behind (ws : List Write) (l : Layout) :
    texts (l.behind ws).writes = texts ws ++ texts l.writes := texts_append ws l.writes

@[simp] theorem pktEnd_behind (ws : List Write) (l : Layout) :
    (l.behind ws).pktEnd = l.pktEnd := rfl

/-- The array of 341 characters takes the text of 255 bytes. -/
theorem binToB64_payload (p : LgwPktRx) :
    binToB64 p.payload.toList p.size.toNat 341 =
      if p.size.toNat ≤ 255 then some (base64 (payloadBytes p)) else none := by
  by_cases hsize : p.size.toNat ≤ 255
  · have hlen : (payloadBytes p).length = p.size.toNat := by
      rw [payloadBytes, List.length_take, Vector.length_toList]
      exact Nat.min_eq_left (by omega)
    have hbase := length_base64 (payloadBytes p)
    have heq := binToB64_eq (payloadBytes p) 341
    rw [hlen] at heq hbase
    rw [if_pos hsize, ← binToB64_take]
    exact heq.trans (if_pos (Or.inr (by omega)))
  · have hpos : p.size.toNat ≠ 0 := by omega
    rw [if_neg hsize, binToB64]
    have hnone : binToB64Nopad p.payload.toList p.size.toNat 341 = none := by
      unfold binToB64Nopad
      simp only [if_neg hpos]
      rw [if_pos]
      split <;> omega
    rw [hnone]

theorem dataLayout_done {p : LgwPktRx} (hsize : p.size.toNat ≤ 255) :
    (dataLayout p).pktEnd = .done ∧
      texts (dataLayout p).writes = moreText (dataFields p) ++ ['}'] := by
  rw [dataLayout, binToB64_payload, if_pos hsize]
  refine ⟨rfl, ?_⟩
  simp only [texts_behind, texts_cons, texts_nil, Write.text, dataFields, moreText,
    List.flatMap_cons, List.flatMap_nil, Field.number, Field.string, memberText, quoted,
    List.append_assoc, List.append_nil, List.cons_append, List.nil_append]
  rfl

theorem dataLayout_dropped {p : LgwPktRx} (hsize : ¬ p.size.toNat ≤ 255) :
    (dataLayout p).pktEnd = .dropped := by
  rw [dataLayout, binToB64_payload, if_neg hsize]
  rfl

/-- A cut-off member behind other members of an object: the next packet, the end of the array and
the report do not complete it, and the report does not either when the last eight characters are
taken off. -/
structure Cut (cut : List Char) : Prop where
  comma : ∃ rest, cut.take (cut.length - 8) = ',' :: rest
  next : ∀ members last k rest,
    run (inObject members last k) (cut ++ '{' :: '"' :: 'j' :: rest) = none
  more : ∀ members last k rest,
    run (inObject members last k) (cut ++ ',' :: '{' :: '"' :: 'j' :: rest) = none
  close : ∀ members last k v,
    run (inObject members last k) (cut ++ [']', '}']) ≠ some ⟨.after v, []⟩
  stat : ∀ members last k rest,
    run (inObject members last k) (cut ++ ']' :: '"' :: 's' :: rest) = none
  commaStat : ∀ members last k rest,
    run (inObject members last k) (cut ++ ']' :: ',' :: '"' :: 's' :: rest) = none
  chopped : ∀ members last k rest, run (inObject members last k)
    (cut.take (cut.length - 8) ++ ("\"stat\":".toList ++ rest)) = none

/-- A data rate that is not known cuts a string off. -/
theorem cut_datr : Cut ",\"datr\":\"SF?".toList where
  comma := ⟨_, rfl⟩
  next _ _ _ _ := rfl
  more _ _ _ _ := rfl
  close _ _ _ _ h := by cases h
  stat _ _ _ _ := rfl
  commaStat _ _ _ _ := rfl
  chopped _ _ _ _ := rfl

/-- A coding rate that is not known leaves the object open. -/
theorem cut_codr : Cut ",\"codr\":\"?\"".toList where
  comma := ⟨_, rfl⟩
  next _ _ _ _ := rfl
  more _ _ _ _ := rfl
  close _ _ _ _ h := by cases h
  stat _ _ _ _ := rfl
  commaStat _ _ _ _ := rfl
  chopped _ _ _ _ := rfl

theorem datrText_length {p : LgwPktRx} {datr : List Char} (h : datrText p = some datr) :
    datr.length = 3 ∨ datr.length = 4 := by
  unfold datrText at h
  split at h
  all_goals cases h
  all_goals decide

/-- A bandwidth that is not known leaves the object open, for every data rate. -/
theorem cut_band {p : LgwPktRx} {datr : List Char} (h : datrText p = some datr) :
    Cut (',' :: memberText "datr".toList (quoted (datr ++ "BW?".toList))) := by
  have hplain : ∀ c ∈ datr ++ "BW?".toList, isPlain c = true := by
    have hdatr := isPlain_datrText p
    rw [h] at hdatr
    exact List.forall_mem_append.2 ⟨hdatr, plain_of_all rfl⟩
  have hread := @run_next_string "datr".toList _ (plain_of_all rfl) hplain
  have hchop : ∃ rest, (',' :: memberText "datr".toList (quoted (datr ++ "BW?".toList))).take
        ((',' :: memberText "datr".toList (quoted (datr ++ "BW?".toList))).length - 8) =
      ",\"datr\":".toList ++ rest ∧ (rest = [] ∨ rest = ['"']) := by
    rcases datrText_length h with hlen | hlen
    · obtain ⟨a, b, c, rfl⟩ := List.length_eq_three.1 hlen
      exact ⟨[], rfl, Or.inl rfl⟩
    · match datr, hlen with
      | [a, b, c, d], _ => exact ⟨['"'], rfl, Or.inr rfl⟩
  obtain ⟨rest, hchop, hrest⟩ := hchop
  constructor
  case comma => exact ⟨_, hchop⟩
  case next => exact fun members last k rest => (hread members last k _).trans rfl
  case more => exact fun members last k rest => (hread members last k _).trans rfl
  case close =>
    intro members last k v hrun
    rw [hread] at hrun
    cases hrun
  case stat => exact fun members last k rest => (hread members last k _).trans rfl
  case commaStat => exact fun members last k rest => (hread members last k _).trans rfl
  case chopped =>
    intro members last k tail
    rw [hchop]
    rcases hrest with rfl | rfl <;> rfl

/-- A packet that can be serialized is completed. -/
theorem moduLayout_done {p : LgwPktRx} (h : Serializable p) :
    (moduLayout p).pktEnd = .done ∧ texts (moduLayout p).writes =
      moreText ((if p.modulation = modLora then loraFields p else fskFields p) ++ dataFields p) ++
        ['}'] := by
  obtain ⟨hsize, hmod⟩ := h
  obtain ⟨hend, htext⟩ := dataLayout_done hsize
  rw [moreText_append, List.append_assoc, ← htext]
  rcases hmod with ⟨hlora, hdatr, hband, hcodr⟩ | hfsk
  · obtain ⟨datr, hdatr⟩ := Option.isSome_iff_exists.1 hdatr
    obtain ⟨band, hband⟩ := Option.isSome_iff_exists.1 hband
    obtain ⟨codr, hcodr⟩ := Option.isSome_iff_exists.1 hcodr
    simp only [moduLayout, loraLayout, hlora, if_true, hdatr, hband, hcodr, pktEnd_behind,
      texts_behind, loraFields, Option.getD_some]
    refine ⟨hend, ?_⟩
    simp only [texts, List.flatMap_cons, List.flatMap_nil, Write.text, moreText, Field.number,
      Field.string, memberText, quoted, List.append_assoc, List.append_nil, List.cons_append,
      List.nil_append]
    rfl
  · have hlora : p.modulation ≠ modLora := by
      rw [hfsk]
      decide
    rw [moduLayout, if_neg hlora, if_pos hfsk, if_neg hlora, fskLayout, pktEnd_behind, texts_behind,
      fskFields]
    refine ⟨hend, ?_⟩
    simp only [texts, List.flatMap_cons, List.flatMap_nil, Write.text, moreText, Field.number,
      Field.string, memberText, quoted, List.append_assoc, List.append_nil, List.cons_append,
      List.nil_append]
    rfl

/-- Any other packet is taken back or cut off. -/
theorem moduLayout_not_done {p : LgwPktRx} (h : ¬ Serializable p) :
    (moduLayout p).pktEnd = .dropped ∨
      (moduLayout p).pktEnd = .left ∧ ∃ fs cut, (∀ f ∈ fs, f.Ok) ∧ Cut cut ∧
        texts (moduLayout p).writes = moreText fs ++ cut := by
  have hmodu : ∀ f ∈ [Field.string "modu".toList "LORA".toList], f.Ok := by
    intro f hf
    rw [List.mem_singleton.1 hf]
    exact Field.string_ok (plain_of_all rfl) (plain_of_all rfl)
  unfold moduLayout
  by_cases hlora : p.modulation = modLora
  · rw [if_pos hlora, loraLayout]
    cases hdatr : datrText p with
    | none =>
      exact Or.inr ⟨rfl, [.string "modu".toList "LORA".toList], _, hmodu, cut_datr, rfl⟩
    | some datr =>
      cases hband : bandText p with
      | none =>
        refine Or.inr ⟨rfl, [.string "modu".toList "LORA".toList], _, hmodu, cut_band hdatr, ?_⟩
        simp [texts, Layout.behind, Write.text, moreText, memberText, quoted, Field.string]
      | some band =>
        cases hcodr : codrText p with
        | none =>
          have hstring : (Field.string "datr".toList (datr ++ band)).Ok := by
            have hd := isPlain_datrText p
            have hb := isPlain_bandText p
            rw [hdatr] at hd
            rw [hband] at hb
            exact Field.string_ok (plain_of_all rfl) (List.forall_mem_append.2 ⟨hd, hb⟩)
          refine Or.inr ⟨rfl, [.string "modu".toList "LORA".toList,
            .string "datr".toList (datr ++ band)], _, ?_, cut_codr, ?_⟩
          · rw [List.forall_mem_cons]
            refine ⟨hmodu _ List.mem_cons_self, fun f hf => ?_⟩
            rw [List.mem_singleton.1 hf]
            exact hstring
          · simp [texts, Layout.behind, Write.text, moreText, memberText, quoted, Field.string]
        | some codr =>
          refine Or.inl (dataLayout_dropped fun hsize => h ⟨hsize, Or.inl ⟨hlora, ?_⟩⟩)
          rw [hdatr, hband, hcodr]
          exact ⟨rfl, rfl, rfl⟩
  · rw [if_neg hlora]
    by_cases hfsk : p.modulation = modFsk
    · rw [if_pos hfsk]
      exact Or.inl (dataLayout_dropped fun hsize => h ⟨hsize, Or.inr hfsk⟩)
    · rw [if_neg hfsk]
      exact Or.inl rfl

/-- The separator in front of a packet. -/
def separator (pktInDgram : Nat) : List Char := if pktInDgram = 0 then [] else [',']

/-- A packet that the filters let pass has a known status. -/
theorem statText_of_passes {filter : Mac.ServFilter} {p : LgwPktRx}
    (h : Mac.passesFilter filter p = true) : (statText p).isSome := by
  unfold Mac.passesFilter at h
  unfold statText
  split
  · rfl
  · rw [if_neg ‹_›] at h
    split
    · rfl
    · rw [if_neg ‹_›] at h
      split
      · rfl
      · rw [if_neg ‹_›] at h
        cases h

theorem texts_timeWrites (time : PktTime) :
    texts (timeWrites time) = moreText (timeFields time) := by
  rcases time with ⟨_ | utc, _ | ms⟩ | utc <;>
    simp [texts, timeWrites, timeFields, utcWrite, Write.text, moreText, memberText, quoted,
      Field.string, Field.number]

/-- Up to its status, a packet is a first member and others. -/
theorem pktLayout_spec (pktInDgram : Nat) (time : PktTime) {p : LgwPktRx}
    (hstat : (statText p).isSome) :
    (pktLayout pktInDgram time p).pktEnd = (moduLayout p).pktEnd ∧
      texts (pktLayout pktInDgram time p).writes = separator pktInDgram ++
        ('{' :: memberText jverField.name jverField.text ++
          (moreText (placeFields time p ++ [.number "stat".toList ((statText p).getD [])]) ++
            texts (moduLayout p).writes)) := by
  obtain ⟨stat, hstat⟩ := Option.isSome_iff_exists.1 hstat
  rw [pktLayout, hstat]
  refine ⟨rfl, ?_⟩
  have hopen : (if pktInDgram = 0 then ['{'] else [',', '{']) = separator pktInDgram ++ ['{'] := by
    rw [separator]
    split <;> rfl
  have htime := texts_timeWrites time
  rw [texts_behind, texts_cons, texts_cons, texts_cons, texts_append, htime, texts_behind,
    placeFields, moreText_append, moreText_cons, moreText_append, Write.text, hopen]
  simp only [texts, List.flatMap_cons, List.flatMap_nil, Write.text, moreText, Field.number,
    memberText, quoted, List.append_assoc, List.append_nil, List.cons_append, List.nil_append,
    Option.getD_some]
  rfl

theorem pktLayout_done (pktInDgram : Nat) (time : PktTime) {p : LgwPktRx}
    (hstat : (statText p).isSome) (h : Serializable p) :
    (pktLayout pktInDgram time p).pktEnd = .done ∧
      texts (pktLayout pktInDgram time p).writes =
        separator pktInDgram ++ objectText jverField (packetFields time p) := by
  obtain ⟨hend, htext⟩ := pktLayout_spec pktInDgram time hstat
  obtain ⟨hmoduEnd, hmodu⟩ := moduLayout_done h
  refine ⟨hend.trans hmoduEnd, ?_⟩
  rw [htext, hmodu, objectText, packetFields]
  simp only [moreText_append, List.append_assoc, moreText_cons, moreText_nil, List.append_nil]

theorem pktLayout_not_done (pktInDgram : Nat) (time : PktTime) {p : LgwPktRx}
    (hstat : (statText p).isSome) (h : ¬ Serializable p) :
    (pktLayout pktInDgram time p).pktEnd = .dropped ∨
      (pktLayout pktInDgram time p).pktEnd = .left ∧
        ∃ fs cut, (∀ f ∈ fs, f.Ok) ∧ Cut cut ∧
          texts (pktLayout pktInDgram time p).writes = separator pktInDgram ++
            ('{' :: memberText jverField.name jverField.text ++ (moreText fs ++ cut)) := by
  obtain ⟨hend, htext⟩ := pktLayout_spec pktInDgram time hstat
  rw [hend, htext]
  rcases moduLayout_not_done h with hdropped | ⟨hleft, fs, cut, hfs, hcut, hmodu⟩
  · exact Or.inl hdropped
  · refine Or.inr ⟨hleft, placeFields time p ++ .number "stat".toList ((statText p).getD []) :: fs,
      cut, ?_, hcut, ?_⟩
    · rw [List.forall_mem_append, List.forall_mem_cons]
      exact ⟨placeFields_ok time p, statField_ok hstat, hfs⟩
    · rw [hmodu]
      simp only [moreText_append, List.append_assoc, moreText_cons, moreText_nil, List.append_nil]

end DraginoFwd.Uplink

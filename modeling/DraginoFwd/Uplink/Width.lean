import DraginoFwd.Uplink.PacketText

/-!
# The width of a packet

How many characters `pktLayout` writes, as a sum over the fields of the packet (`pktWidth`): the
decimals of its numbers, the texts that it selects, and four characters for three bytes of its
payload. `length_pktLayout` says that the text has that length. `buff_up` has 540 bytes for each
packet, and a packet that cannot be serialized stays below them (`pktWidth_lt`).
-/

set_option autoImplicit false

namespace DraginoFwd.Uplink

open DraginoFwd.Base64
open DraginoFwd.Hal
open DraginoFwd.Lib.JsonReader
open DraginoFwd.Lib.Memory
open DraginoFwd.Lib.Printf

/-! ## The widths -/

/-- The width of a `struct tm` with its microseconds. -/
def utcWidth (t : UtcTime) : Nat :=
  widthZeroD 4 (t.tmYear.toInt + 1900) + widthZeroD 2 (t.tmMon.toInt + 1) +
    widthZeroD 2 t.tmMday.toInt + widthZeroD 2 t.tmHour.toInt + widthZeroD 2 t.tmMin.toInt +
    widthZeroD 2 t.tmSec.toInt + widthZeroD 6 (t.tvNsec.toInt.tdiv 1000) + 7

/-- `time` and `tmms` -/
def timeWidth : PktTime → Nat
  | .gps utc gpsMs =>
      (utc.elim 0 fun t => 10 + utcWidth t) + gpsMs.elim 0 fun ms => 8 + decimals ms.toNat
  | .clock utc => 10 + utcWidth utc

/-- `rssi`, `size` and `data`, and the end of the object. -/
def dataWidth (p : LgwPktRx) : Nat :=
  25 + widthRoundf p.rssic + decimals p.size.toNat +
    if p.size.toNat ≤ 255 then 4 * ((p.size.toNat + 2) / 3) + 2 else 0

/-- The branch for `MOD_LORA`, up to what is not known. -/
def loraWidth (p : LgwPktRx) : Nat :=
  14 + match datrText p with
    | none => 12
    | some datr => 9 + datr.length + match bandText p with
        | none => 4
        | some _ => 6 + match codrText p with
            | none => 11
            | some _ => 38 + widthRoundf p.rssis + widthF1 p.snr + widthD p.freqOffset.toInt +
                dataWidth p

/-- The branch for `MOD_FSK`. -/
def fskWidth (p : LgwPktRx) : Nat := 21 + decimals p.datarate.toNat + dataWidth p

/-- The members for the modulation of the packet. -/
def moduWidth (p : LgwPktRx) : Nat :=
  if p.modulation = modLora then loraWidth p
  else if p.modulation = modFsk then fskWidth p
  else 0

/-- The number in `stat`. -/
def statWidth (p : LgwPktRx) : Nat := if p.status = statCrcBad then 2 else 1

/-- A packet without the comma in front of it. -/
def pktWidth (time : PktTime) (p : LgwPktRx) : Nat :=
  56 + decimals p.countUs.toNat + timeWidth time + decimals p.ifChain.toNat +
    decimals p.rfChain.toNat + widthMillionth p.freqHz + max 2 (decimals p.modemId.toNat) +
    statWidth p + moduWidth p

/-! ## The texts have the widths -/

theorem length_utcText (t : UtcTime) : t.text.length = utcWidth t := by
  simp only [UtcTime.text, List.length_append, List.length_cons, List.length_nil, length_fmtZeroD,
    utcWidth]
  omega

theorem length_timeWrites (time : PktTime) : (texts (timeWrites time)).length = timeWidth time := by
  have hutc : ∀ t, (utcWrite t).text.length = 10 + utcWidth t := by
    intro t
    simp only [utcWrite, Write.text, List.length_append, List.length_cons, List.length_nil,
      String.reduceToList, length_utcText]
    omega
  rcases time with ⟨_ | utc, _ | ms⟩ | utc
  · rfl
  · simp only [timeWrites, texts, Option.toList, List.map, List.nil_append, List.flatMap_cons,
      List.flatMap_nil, Write.text, List.length_append, List.length_cons, List.length_nil,
      String.reduceToList, length_fmtU, timeWidth, Option.elim]
    omega
  · simp only [timeWrites, texts, Option.toList, List.map, List.append_nil, List.flatMap_cons,
      List.flatMap_nil, hutc, timeWidth, Option.elim]
    omega
  · simp only [timeWrites, texts, Option.toList, List.map, List.cons_append, List.nil_append,
      List.flatMap_cons, List.flatMap_nil, List.length_append, hutc, timeWidth, Option.elim]
    simp only [Write.text, List.length_append, List.length_cons, List.length_nil,
      String.reduceToList, length_fmtU]
    omega
  · simp only [timeWrites, texts, List.flatMap_cons, List.flatMap_nil, List.append_nil, hutc,
      timeWidth]

theorem length_dataLayout (p : LgwPktRx) : (texts (dataLayout p).writes).length = dataWidth p := by
  rw [dataLayout, binToB64_payload, dataWidth]
  by_cases hsize : p.size.toNat ≤ 255
  · have hlen : (payloadBytes p).length = p.size.toNat := by
      rw [payloadBytes, List.length_take, Vector.length_toList]
      exact Nat.min_eq_left (by omega)
    rw [if_pos hsize, if_pos hsize]
    simp only [texts_behind, texts_cons, texts_nil, Write.text, List.length_append,
      List.length_cons, List.length_nil, String.reduceToList, length_fmtRoundf, length_fmtU,
      length_base64, hlen]
    omega
  · rw [if_neg hsize, if_neg hsize]
    simp only [texts_behind, texts_cons, texts_nil, Write.text, List.length_append,
      List.length_cons, List.length_nil, String.reduceToList, length_fmtRoundf, length_fmtU]
    omega

theorem length_band {p : LgwPktRx} {band : List Char} (h : bandText p = some band) :
    band.length = 5 := by
  unfold bandText at h
  split at h
  all_goals cases h
  all_goals rfl

theorem length_codr {p : LgwPktRx} {codr : List Char} (h : codrText p = some codr) :
    codr.length = 3 := by
  unfold codrText at h
  split at h
  all_goals cases h
  all_goals rfl

theorem length_loraLayout (p : LgwPktRx) : (texts (loraLayout p).writes).length = loraWidth p := by
  have hdata := length_dataLayout p
  rw [loraLayout, loraWidth]
  cases hdatr : datrText p with
  | none => rfl
  | some datr =>
      cases hband : bandText p with
      | none =>
          simp only [texts_behind, texts_cons, texts_nil, Write.text, List.length_append,
            List.length_cons, List.length_nil, String.reduceToList]
      | some band =>
          have hfive := length_band hband
          cases hcodr : codrText p with
          | none =>
              simp only [texts_behind, texts_cons, texts_nil, Write.text, List.length_append,
                List.length_cons, List.length_nil, String.reduceToList]
              omega
          | some codr =>
              have hthree := length_codr hcodr
              simp only [texts_behind, texts_cons, texts_nil, Write.text, List.length_append,
                List.length_cons, List.length_nil, String.reduceToList, length_fmtRoundf,
                length_fmtF1, length_fmtD, hdata]
              omega

theorem length_moduLayout (p : LgwPktRx) : (texts (moduLayout p).writes).length = moduWidth p := by
  rw [moduLayout, moduWidth]
  by_cases hlora : p.modulation = modLora
  · rw [if_pos hlora, if_pos hlora]
    exact length_loraLayout p
  · rw [if_neg hlora, if_neg hlora]
    by_cases hfsk : p.modulation = modFsk
    · rw [if_pos hfsk, if_pos hfsk, fskWidth, fskLayout, texts_behind, List.length_append,
        length_dataLayout]
      simp only [texts_cons, texts_nil, Write.text, List.length_append, List.length_cons,
        List.length_nil, String.reduceToList, length_fmtU]
      omega
    · rw [if_neg hfsk, if_neg hfsk]
      rfl

theorem length_statText {p : LgwPktRx} (h : (statText p).isSome) :
    ((statText p).getD []).length = statWidth p := by
  unfold statText at h ⊢
  rw [statWidth]
  by_cases hok : p.status = statCrcOk
  · rw [if_pos hok, hok]
    rfl
  · rw [if_neg hok] at h ⊢
    by_cases hbad : p.status = statCrcBad
    · rw [if_pos hbad, if_pos hbad]
      rfl
    · rw [if_neg hbad] at h ⊢
      rw [if_neg hbad]
      by_cases hno : p.status = statNoCrc
      · rw [if_pos hno]
        rfl
      · rw [if_neg hno] at h
        cases h

theorem length_pktLayout (pktInDgram : Nat) (time : PktTime) {p : LgwPktRx}
    (hstat : (statText p).isSome) :
    (texts (pktLayout pktInDgram time p).writes).length =
      (if pktInDgram = 0 then 0 else 1) + pktWidth time p := by
  have hsep : (separator pktInDgram).length = if pktInDgram = 0 then 0 else 1 := by
    rw [separator]
    split <;> rfl
  rw [(pktLayout_spec pktInDgram time hstat).2, placeFields, moreText_append, moreText_cons,
    moreText_append, ← texts_timeWrites, pktWidth, ← hsep]
  simp only [List.length_append, List.length_cons, List.length_nil, moreText, memberText, quoted,
    Field.number, jverField, List.flatMap_cons, List.flatMap_nil, String.reduceToList, length_fmtU,
    length_fmtMillionth, length_fmtBlankU, length_timeWrites, length_moduLayout,
    length_statText hstat]
  omega

/-! ## Packets that cannot be serialized -/

theorem decimals_byte (b : BitVec 8) : decimals b.toNat ≤ 3 :=
  decimals_le (by decide) (b.isLt.trans (by decide))

theorem decimals_word (w : BitVec 32) : decimals w.toNat ≤ 10 :=
  decimals_le (by decide) (w.isLt.trans (by decide))

theorem widthD_word (w : BitVec 32) : widthD w.toInt ≤ 11 := by
  have hlo := BitVec.le_toInt w
  have hhi := BitVec.toInt_lt (x := w)
  exact widthD_le (by decide) (by omega)

theorem utcWidth_le (t : UtcTime) : utcWidth t ≤ 90 := by
  have hword : ∀ (w : BitVec 32) (shift : Int), 0 ≤ shift → shift ≤ 1900 → ∀ width ≤ 10,
      widthZeroD width (w.toInt + shift) ≤ 11 := by
    intro w shift h0 hshift width hwidth
    have hlo := BitVec.le_toInt w
    have hhi := BitVec.toInt_lt (x := w)
    exact widthZeroD_le (by decide) hwidth (by omega)
  have hnsec : widthZeroD 6 (t.tvNsec.toInt.tdiv 1000) ≤ 17 := by
    have hlo := BitVec.le_toInt t.tvNsec
    have hhi := BitVec.toInt_lt (x := t.tvNsec)
    refine widthZeroD_le (by decide) (by decide) ?_
    have hdiv : t.tvNsec.toInt.natAbs / 1000 < 10 ^ 16 := by omega
    rw [Int.natAbs_tdiv]
    exact hdiv
  have hyear := hword t.tmYear 1900 (by decide) (by decide) 4 (by decide)
  have hmon := hword t.tmMon 1 (by decide) (by decide) 2 (by decide)
  have hday := hword t.tmMday 0 (by decide) (by decide) 2 (by decide)
  have hhour := hword t.tmHour 0 (by decide) (by decide) 2 (by decide)
  have hmin := hword t.tmMin 0 (by decide) (by decide) 2 (by decide)
  have hsec := hword t.tmSec 0 (by decide) (by decide) 2 (by decide)
  rw [Int.add_zero] at hday hhour hmin hsec
  rw [utcWidth]
  omega

theorem timeWidth_le (time : PktTime) : timeWidth time ≤ 128 := by
  have hms : ∀ ms : BitVec 64, decimals ms.toNat ≤ 20 := fun ms =>
    decimals_le (by decide) (ms.isLt.trans (by decide))
  rcases time with ⟨_ | utc, _ | ms⟩ | utc
  · exact Nat.zero_le _
  · have hlen := hms ms
    simp only [timeWidth, Option.elim]
    omega
  · have hlen := utcWidth_le utc
    simp only [timeWidth, Option.elim]
    omega
  · have hlen := hms ms
    have hlen' := utcWidth_le utc
    simp only [timeWidth, Option.elim]
    omega
  · have hlen := utcWidth_le utc
    rw [timeWidth]
    omega

theorem dataWidth_le {p : LgwPktRx} (hsize : ¬ p.size.toNat ≤ 255) : dataWidth p ≤ 70 := by
  have hrssi := widthRoundf_le p.rssic
  have hlen : decimals p.size.toNat ≤ 5 := decimals_le (by decide) (p.size.isLt.trans (by decide))
  rw [dataWidth, if_neg hsize]
  omega

/-- What is left of a packet that cannot be serialized. -/
theorem moduWidth_le {p : LgwPktRx} (h : ¬ Serializable p) : moduWidth p ≤ 240 := by
  rw [moduWidth]
  by_cases hlora : p.modulation = modLora
  · rw [if_pos hlora, loraWidth]
    cases hdatr : datrText p with
    | none =>
      show 14 + 12 ≤ 240
      decide
    | some datr =>
      have hdatrLen := datrText_length hdatr
      cases hband : bandText p with
      | none =>
        show 14 + (9 + datr.length + 4) ≤ 240
        omega
      | some band =>
        cases hcodr : codrText p with
        | none =>
          show 14 + (9 + datr.length + (6 + 11)) ≤ 240
          omega
        | some codr =>
          -- with all three texts there, it is the size that is refused
          have hsize : ¬ p.size.toNat ≤ 255 := by
            refine fun hsize => h ⟨hsize, Or.inl ⟨hlora, ?_⟩⟩
            rw [hdatr, hband, hcodr]
            exact ⟨rfl, rfl, rfl⟩
          have hrssis := widthRoundf_le p.rssis
          have hsnr := widthF1_le p.snr
          have hoff := widthD_word p.freqOffset
          have hdata := dataWidth_le hsize
          simp only
          omega
  · rw [if_neg hlora]
    by_cases hfsk : p.modulation = modFsk
    · have hdata := dataWidth_le fun hsize => h ⟨hsize, Or.inr hfsk⟩
      have hrate := decimals_word p.datarate
      rw [if_pos hfsk, fskWidth]
      omega
    · rw [if_neg hfsk]
      exact Nat.zero_le _

/-- It stays below the 540 bytes for each packet, with the comma in front of it. -/
theorem pktWidth_lt (time : PktTime) {p : LgwPktRx} (h : ¬ Serializable p) :
    1 + pktWidth time p < 540 := by
  have hmodu := moduWidth_le h
  have htime := timeWidth_le time
  have htmst := decimals_word p.countUs
  have hchan := decimals_byte p.ifChain
  have hrfch := decimals_byte p.rfChain
  have hfreq := widthMillionth_le p.freqHz
  have hmid := decimals_byte p.modemId
  have hstat : statWidth p ≤ 2 := by
    rw [statWidth]
    split <;> decide
  rw [pktWidth]
  omega

theorem length_pktLayout_lt (pktInDgram : Nat) (time : PktTime) {p : LgwPktRx}
    (hstat : (statText p).isSome) (h : ¬ Serializable p) :
    (texts (pktLayout pktInDgram time p).writes).length < 540 := by
  have hwidth := pktWidth_lt time h
  rw [length_pktLayout pktInDgram time hstat]
  split <;> omega

end DraginoFwd.Uplink

import DraginoFwd.Uplink.Datagram

/-!
# The index into the buffer

`buff_up` has 540 bytes for each packet of a batch, and 30 for the frame of a datagram behind its
header and the report. This file follows `buff_index` alone: a packet moves it by its width and a
comma, and one that is taken back sets it to 21.

An iteration stays in its buffer just when the widths leave room for each packet and for the end of
the datagram (`pushInside_iff`). That is so when no packet takes more than the 540 bytes
(`room_of_budget`), but one with a payload of 255 bytes does.
-/

set_option autoImplicit false

namespace DraginoFwd.Uplink

open DraginoFwd.Base64
open DraginoFwd.Hal
open DraginoFwd.Lib.Memory
open DraginoFwd.Lib.Printf

/-! ## The condition and the property -/

/-- The packet sets the index back: its modulation is not known, or everything but its size is what
a packet needs to be serialized. -/
def TakenBack (p : LgwPktRx) : Prop :=
  p.modulation ≠ modLora ∧ p.modulation ≠ modFsk ∨
    255 < p.size.toNat ∧
      (p.modulation = modLora ∧ (datrText p).isSome ∧ (bandText p).isSome ∧ (codrText p).isSome ∨
        p.modulation = modFsk)

instance (p : LgwPktRx) : Decidable (TakenBack p) := inferInstanceAs (Decidable (_ ∨ _))

/-- `buff_index` and `pkt_in_dgram` -/
structure Cursor where
  index : Nat
  pktInDgram : Nat

/-- Behind the start of the text. -/
def Cursor.start : Cursor := ⟨21, 0⟩

/-- The end of a packet, before it may be taken back. -/
def Cursor.extent (c : Cursor) (f : PktTime × LgwPktRx) : Nat :=
  c.index + (if c.pktInDgram = 0 then 0 else 1) + pktWidth f.1 f.2

/-- Behind a packet. -/
def Cursor.behind (c : Cursor) (f : PktTime × LgwPktRx) : Cursor :=
  if Serializable f.2 then ⟨c.extent f, c.pktInDgram + 1⟩
  else if TakenBack f.2 then ⟨21, c.pktInDgram⟩
  else ⟨c.extent f, c.pktInDgram⟩

/-- The report, if it is taken. -/
def reportWidth (env : PushEnv) : Nat :=
  if env.reads.atReport then env.status.text.length else 0

/-- There is room for the rest of the datagram and its terminator. -/
def Cursor.Closes (env : PushEnv) (c : Cursor) : Prop :=
  if c.pktInDgram = 0 then
    env.reads.atArrayEnd = true → c.index - 8 + reportWidth env + 1 < txBuffSize
  else c.index + 1 + env.reads.atArrayEnd.toNat + reportWidth env + 1 < txBuffSize

/-- There is room for each of the packets, and for the rest. -/
def Cursor.Room (env : PushEnv) : Cursor → List (PktTime × LgwPktRx) → Prop
  | c, [] => c.Closes env
  | c, f :: fs => c.extent f ≤ txBuffSize ∧ (c.behind f).Room env fs

/-- No write of an iteration leaves `buff_up`, and `buff_index` is an index of it at each of
them. -/
def PushInside (cfg : PushConfig) (env : PushEnv) (fetched : Fetched) : Prop :=
  ∃ pushed, pushUp cfg env fetched = .ok pushed

/-! ## How a packet ends -/

/-- A packet that is not serialized is taken back or left as it is. -/
theorem pktEnd_moduLayout (p : LgwPktRx) :
    (moduLayout p).pktEnd =
      if Serializable p then .done else if TakenBack p then .dropped else .left := by
  have hne : modFsk ≠ modLora := by decide
  have hdata : (dataLayout p).pktEnd =
      if p.size.toNat ≤ 255 then .done else if 255 < p.size.toNat then .dropped else .left := by
    by_cases hsize : p.size.toNat ≤ 255
    · rw [if_pos hsize]
      exact (dataLayout_done hsize).1
    · rw [if_neg hsize, if_pos (Nat.not_le.1 hsize)]
      exact dataLayout_dropped hsize
  rw [moduLayout]
  by_cases hlora : p.modulation = modLora
  · rw [if_pos hlora, loraLayout]
    cases hdatr : datrText p with
    | none => simp [Serializable, TakenBack, hlora, hdatr, hne.symm, Layout.behind]
    | some datr =>
        cases hband : bandText p with
        | none => simp [Serializable, TakenBack, hlora, hdatr, hband, hne.symm, Layout.behind]
        | some band =>
            cases hcodr : codrText p with
            | none =>
                simp [Serializable, TakenBack, hlora, hdatr, hband, hcodr, hne.symm, Layout.behind]
            | some codr =>
                simp [Serializable, TakenBack, hlora, hdatr, hband, hcodr, hdata]
  · rw [if_neg hlora]
    by_cases hfsk : p.modulation = modFsk
    · rw [if_pos hfsk, fskLayout]
      simp [Serializable, TakenBack, hfsk, hne, hdata]
    · rw [if_neg hfsk]
      simp [Serializable, TakenBack, hlora, hfsk]

/-- The last write is by `memcpy` or an assignment. -/
def EndsInCopy (ws : List Write) : Prop := ∃ front text, ws = front ++ [.copy text] ∧ text ≠ []

theorem EndsInCopy.behind (ws : List Write) {l : Layout} (h : EndsInCopy l.writes) :
    EndsInCopy (l.behind ws).writes := by
  obtain ⟨front, text, hwrites, hne⟩ := h
  refine ⟨ws ++ front, text, ?_, hne⟩
  rw [Layout.behind, hwrites, List.append_assoc]

theorem endsInCopy_dataLayout (p : LgwPktRx) : EndsInCopy (dataLayout p).writes := by
  rw [dataLayout]
  cases binToB64 p.payload.toList p.size.toNat 341 with
  | none => exact ⟨[_], _, rfl, by decide⟩
  | some text =>
      apply EndsInCopy.behind
      exact ⟨[_, _], _, rfl, by decide⟩

theorem endsInCopy_loraLayout (p : LgwPktRx) : EndsInCopy (loraLayout p).writes := by
  rw [loraLayout]
  apply EndsInCopy.behind
  cases datrText p with
  | none => exact ⟨[], _, rfl, by decide⟩
  | some datr =>
      apply EndsInCopy.behind
      cases bandText p with
      | none => exact ⟨[], _, rfl, by decide⟩
      | some band =>
          apply EndsInCopy.behind
          cases codrText p with
          | none => exact ⟨[], _, rfl, by decide⟩
          | some codr => exact (endsInCopy_dataLayout p).behind _

/-- The last write of a packet is never by `snprintf`. -/
theorem endsInCopy_pktLayout (pktInDgram : Nat) (time : PktTime) (p : LgwPktRx) :
    EndsInCopy (pktLayout pktInDgram time p).writes := by
  rw [pktLayout]
  apply EndsInCopy.behind
  cases hstat : statText p with
  | none => exact ⟨[], _, rfl, by decide⟩
  | some stat =>
      rw [moduLayout]
      split_ifs with hlora hfsk
      · exact (endsInCopy_loraLayout p).behind _
      · exact ((endsInCopy_dataLayout p).behind _).behind _
      · exact ⟨[], _, rfl, by simp⟩

/-! ## Writes -/

theorem storeAll_append (ws ws' : List Write) (text : List Char) :
    storeAll (ws ++ ws') text = storeAll ws text >>= storeAll ws' := by
  induction ws generalizing text with
  | nil => rfl
  | cons w ws ih =>
      rw [List.cons_append, storeAll, storeAll]
      cases w.store text with
      | error e => rfl
      | ok text' => exact ih text'

/-- Writes that end in a copy stay in the buffer just when their text does. -/
theorem storeAll_iff {ws : List Write} (h : EndsInCopy ws) (text : List Char) :
    (∃ t, storeAll ws text = .ok t) ↔
      headerSize + text.length + (texts ws).length ≤ txBuffSize := by
  obtain ⟨front, last, rfl, hne⟩ := h
  have hpos : 0 < last.length := List.length_pos_iff.2 hne
  have hlen : (texts (front ++ [.copy last])).length = (texts front).length + last.length := by
    rw [texts_append, List.length_append]
    simp [texts, Write.text]
  rw [hlen, storeAll_append]
  constructor
  · rintro ⟨t, hstore⟩
    obtain ⟨t', hfront, hlast⟩ := bind_eq_ok.1 hstore
    obtain ⟨t'', hcopy, -⟩ := bind_eq_ok.1 hlast
    have hfit := (store_ok hcopy).2
    rw [storeAll_ok hfront, List.length_append] at hfit
    simp only [Write.extent] at hfit
    omega
  · intro hfit
    have hfront : storeAll front text = .ok (text ++ texts front) := by
      apply storeAll_fits
      rw [List.length_append]
      omega
    refine ⟨text ++ texts front ++ last, ?_⟩
    rw [hfront, ok_bind, storeAll, Write.store, if_pos]
    · rfl
    · rw [List.length_append]
      simp only [Write.extent]
      omega

/-! ## The loop -/

section Loop

variable {cfg : PushConfig} {env : PushEnv} {i : Nat} {p : LgwPktRx} {s s' : PushState}

/-- The index and the number of packets of a state. -/
def PushState.cursor (s : PushState) : Cursor := ⟨headerSize + s.text.length, s.pktInDgram⟩

/-- A packet stays in the buffer just when there is room for its fields. -/
theorem pushPacket_iff (h : forwards cfg (env.keyExist i) p = true) :
    (∃ s', pushPacket cfg env i p s = .ok s') ↔
      s.cursor.extent (env.time i, p) ≤ txBuffSize := by
  have hends := endsInCopy_pktLayout s.pktInDgram (env.time i) p
  have hlen := length_pktLayout s.pktInDgram (env.time i) (statText_of_forwards h)
  have hextent : s.cursor.extent (env.time i, p) = headerSize + s.text.length +
      (texts (pktLayout s.pktInDgram (env.time i) p).writes).length := by
    rw [hlen, Cursor.extent, ← Nat.add_assoc]
    rfl
  rw [hextent, ← storeAll_iff hends, pushPacket, if_pos h]
  constructor
  · rintro ⟨s', hs'⟩
    obtain ⟨t, hstore, -⟩ := bind_eq_ok.1 hs'
    exact ⟨t, hstore⟩
  · rintro ⟨t, hstore⟩
    simp only [hstore, ok_bind]
    cases (pktLayout s.pktInDgram (env.time i) p).pktEnd with
    | done => exact ⟨_, rfl⟩
    | left => exact ⟨_, rfl⟩
    | dropped => exact ⟨_, rfl⟩

/-- The state behind a packet has the index behind it. -/
theorem cursor_behind (hstat : (statText p).isSome) (time : PktTime) (hopen : 9 ≤ s.text.length) :
    (s.behind (pktLayout s.pktInDgram time p) p).cursor = s.cursor.behind (time, p) ∧
      9 ≤ (s.behind (pktLayout s.pktInDgram time p) p).text.length := by
  have hend := (pktLayout_spec s.pktInDgram time hstat).1.trans (pktEnd_moduLayout p)
  have hlen := length_pktLayout s.pktInDgram time hstat
  have hextent : s.cursor.extent (time, p) = headerSize +
      (s.text ++ texts (pktLayout s.pktInDgram time p).writes).length := by
    rw [List.length_append, hlen, Cursor.extent, ← Nat.add_assoc, ← Nat.add_assoc]
    rfl
  rw [PushState.behind, hend, Cursor.behind, hextent]
  have hlonger : 9 ≤ (s.text ++ texts (pktLayout s.pktInDgram time p).writes).length := by
    rw [List.length_append]
    exact hopen.trans (Nat.le_add_right _ _)
  by_cases hser : Serializable p
  · rw [if_pos hser, if_pos hser]
    exact ⟨rfl, hlonger⟩
  · rw [if_neg hser, if_neg hser]
    by_cases hback : TakenBack p
    · rw [if_pos hback, if_pos hback]
      refine ⟨?_, (List.length_take_of_le hlonger).ge⟩
      rw [PushState.cursor, List.length_take_of_le hlonger]
      rfl
    · rw [if_neg hback, if_neg hback]
      exact ⟨rfl, hlonger⟩

theorem pushEnd_iff (env : PushEnv) (counted : List LgwPktRx) (text : List Char) :
    (∃ pushed, pushEnd env counted text = .ok pushed) ↔
      headerSize + text.length + reportWidth env + 1 < txBuffSize := by
  have hlen : headerSize + (text ++ endText env).length =
      headerSize + text.length + reportWidth env + 1 := by
    rw [endText, List.length_append, List.length_append, reportWidth, ← Nat.add_assoc,
      ← Nat.add_assoc]
    split <;> rfl
  rw [← hlen]
  constructor
  · rintro ⟨pushed, hend⟩
    exact (pushEnd_ok hend).2
  · exact fun hfit => ⟨_, pushEnd_fits counted hfit⟩

/-- Behind the loop there is room for the rest, or the buffer is left. -/
theorem pushRest_iff (hopen : 9 ≤ s.text.length) :
    (∃ pushed, pushRest env s = .ok pushed) ↔ s.cursor.Closes env := by
  have hcursor : s.cursor.index = headerSize + s.text.length := rfl
  rw [pushRest, Cursor.Closes]
  by_cases hn : s.pktInDgram = 0
  · have hn' : s.cursor.pktInDgram = 0 := hn
    rw [if_pos hn, if_pos hn']
    -- a datagram without packets goes on only to report, and takes back the start of the array
    cases hreads : env.reads.atArrayEnd with
    | false => simp
    | true =>
        have hindex : headerSize + (s.text.take (s.text.length - 8)).length =
            s.cursor.index - 8 := by
          rw [List.length_take_of_le (Nat.sub_le _ _), hcursor]
          omega
        rw [if_pos rfl, pushEnd_iff, hindex, imp_iff_right rfl]
  · have hn' : s.cursor.pktInDgram ≠ 0 := hn
    have hlen : (closeText env).length = 1 + env.reads.atArrayEnd.toNat := by
      rw [closeText]
      cases env.reads.atArrayEnd <;> rfl
    have hindex : s.cursor.index + 1 + env.reads.atArrayEnd.toNat =
        headerSize + (s.text ++ closeText env).length := by
      rw [List.length_append, hlen, hcursor]
      omega
    rw [if_neg hn, if_neg hn', hindex, ← pushEnd_iff env s.counted]
    constructor
    · rintro ⟨pushed, hrest⟩
      obtain ⟨text, hstore, hend⟩ := bind_eq_ok.1 hrest
      rw [storeAll_ok hstore, texts_closeText] at hend
      exact ⟨pushed, hend⟩
    · rintro ⟨pushed, hend⟩
      have hfit := (pushEnd_iff env s.counted _).1 ⟨pushed, hend⟩
      rw [← texts_closeText] at hend hfit
      have hstore := @storeAll_fits
        (.copy [']'] :: if env.reads.atArrayEnd then [.copy [',']] else []) s.text (by omega)
      exact ⟨pushed, bind_eq_ok.2 ⟨_, hstore, hend⟩⟩

/-- The packets from index `i` on and the rest stay in the buffer just when there is room for
them. -/
theorem pushLoop_iff (ps : List LgwPktRx) (hopen : 9 ≤ s.text.length) :
    (∃ pushed, (pushLoop cfg env i ps s >>= pushRest env) = .ok pushed) ↔
      s.cursor.Room env (forwardedFrom cfg env i ps) := by
  induction ps generalizing i s with
  | nil => exact pushRest_iff hopen
  | cons p ps ih =>
      rw [pushLoop, forwardedFrom]
      by_cases hforward : forwards cfg (env.keyExist i) p = true
      · rw [if_pos hforward, Cursor.Room, ← pushPacket_iff hforward]
        cases hpacket : pushPacket cfg env i p s with
        | error e =>
            refine iff_of_false (fun h => ?_) (fun h => ?_)
            · obtain ⟨pushed, hloop⟩ := h
              cases hloop
            · obtain ⟨⟨s', hs'⟩, -⟩ := h
              cases hs'
        | ok s' =>
            have hstate := pushPacket_ok hforward hpacket
            obtain ⟨hcursor, hopen'⟩ :=
              cursor_behind (statText_of_forwards hforward) (env.time i) hopen
            rw [← hstate] at hcursor hopen'
            rw [ok_bind, ih hopen', hcursor]
            exact (and_iff_right ⟨s', rfl⟩).symm
      · rw [if_neg hforward, pushPacket_skip (Bool.not_eq_true _ ▸ hforward), ok_bind]
        exact ih hopen

end Loop

/-- An iteration stays in its buffer just when there is room for every packet that passes the
filters and for the end of the datagram. -/
theorem pushInside_iff (cfg : PushConfig) (env : PushEnv) (fetched : Fetched) :
    PushInside cfg env fetched ↔ Cursor.start.Room env (forwarded cfg env fetched) := by
  rw [PushInside]
  by_cases hidle : fetched.packets = [] ∧ env.reads.atFetch = false
  · -- nothing is written, and a report alone fits
    have hfwd : forwarded cfg env fetched = [] := by
      rw [forwarded, hidle.1]
      rfl
    rw [pushUp, if_pos hidle, hfwd]
    refine iff_of_true ⟨_, rfl⟩ fun _ => ?_
    have hreport : reportWidth env < statusSize := by
      rw [reportWidth]
      split
      · exact env.status.fits
      · decide
    have hsize : statusSize + 14 < txBuffSize := by decide
    show 21 - 8 + reportWidth env + 1 < txBuffSize
    omega
  · rw [pushUp_busy hidle]
    exact pushLoop_iff fetched.packets (by decide : 9 ≤ rxpkOpen.length)

/-! ## The budget of a packet -/

/-- Packets that stay below 540 bytes leave room for themselves and for the rest, wherever they are
taken back. -/
theorem Cursor.room_of_budget {env : PushEnv} {fs : List (PktTime × LgwPktRx)} {c : Cursor}
    (hstart : 21 ≤ c.index) (hfit : c.index + 540 * fs.length + statusSize + 3 ≤ txBuffSize)
    (hbudget : ∀ f ∈ fs, pktWidth f.1 f.2 < 540) : c.Room env fs := by
  -- on the packets that are left, each of which moves the index by at most 540
  induction fs generalizing c with
  | nil =>
      have hreport : reportWidth env < statusSize := by
        rw [reportWidth]
        split
        · exact env.status.fits
        · decide
      have hcomma : env.reads.atArrayEnd.toNat ≤ 1 := Bool.toNat_le _
      rw [List.length_nil] at hfit
      rw [Cursor.Room, Cursor.Closes]
      split
      · exact fun _ => by omega
      · omega
  | cons f fs ih =>
      have hwidth := hbudget f List.mem_cons_self
      have hextent : c.extent f ≤ c.index + 540 := by
        rw [Cursor.extent]
        split <;> omega
      have hle : c.index ≤ c.extent f := by
        rw [Cursor.extent]
        omega
      rw [List.length_cons] at hfit
      refine ⟨by omega, ih ?_ ?_ fun g hg => hbudget g (List.mem_cons_of_mem f hg)⟩
      · rw [Cursor.behind]
        split_ifs
        · exact hstart.trans hle
        · exact le_rfl
        · exact hstart.trans hle
      · rw [Cursor.behind]
        split_ifs
        · show c.extent f + _ + _ + _ ≤ _
          omega
        · show 21 + _ + _ + _ ≤ _
          omega
        · show c.extent f + _ + _ + _ ≤ _
          omega

theorem length_forwardedFrom_le (cfg : PushConfig) (env : PushEnv) (i : Nat) (ps : List LgwPktRx) :
    (forwardedFrom cfg env i ps).length ≤ ps.length := by
  induction ps generalizing i with
  | nil => exact Nat.le_refl _
  | cons p ps ih =>
      rw [forwardedFrom]
      split
      · exact Nat.succ_le_succ (ih (i + 1))
      · exact (ih (i + 1)).trans (Nat.le_succ _)

/-- The size of `buff_up` is right for every batch whose packets keep to the budget. -/
theorem room_of_budget (cfg : PushConfig) (env : PushEnv) (fetched : Fetched)
    (hbudget : ∀ f ∈ forwarded cfg env fetched, pktWidth f.1 f.2 < 540) :
    Cursor.start.Room env (forwarded cfg env fetched) := by
  have hcount : (forwarded cfg env fetched).length ≤ nbPktMax :=
    (length_forwardedFrom_le cfg env 0 _).trans fetched.fits
  apply Cursor.room_of_budget le_rfl _ hbudget
  show 21 + 540 * _ + statusSize + 3 ≤ 540 * nbPktMax + 30 + statusSize
  omega

/-! ## Packets beyond the budget -/

/-- A LoRa packet that is serialized, with a payload of 255 bytes. -/
structure FullLora (p : LgwPktRx) : Prop where
  lora : p.modulation = modLora
  serializable : Serializable p
  size : p.size.toNat = 255

/-- Such a packet is beyond its budget, whatever its other fields are, when its time is that of the
clock. -/
theorem FullLora.width {p : LgwPktRx} (h : FullLora p) (utc : UtcTime) :
    553 ≤ pktWidth (.clock utc) p := by
  obtain ⟨-, ⟨-, hdatr, hband, hcodr⟩ | hfsk⟩ := h.serializable
  · obtain ⟨datr, hdatr⟩ := Option.isSome_iff_exists.1 hdatr
    obtain ⟨band, hband⟩ := Option.isSome_iff_exists.1 hband
    obtain ⟨codr, hcodr⟩ := Option.isSome_iff_exists.1 hcodr
    have hlen := datrText_length hdatr
    have hutc : 27 ≤ utcWidth utc := by
      have hyear := le_widthZeroD 4 (utc.tmYear.toInt + 1900)
      have hmon := le_widthZeroD 2 (utc.tmMon.toInt + 1)
      have hday := le_widthZeroD 2 utc.tmMday.toInt
      have hhour := le_widthZeroD 2 utc.tmHour.toInt
      have hmin := le_widthZeroD 2 utc.tmMin.toInt
      have hsec := le_widthZeroD 2 utc.tmSec.toInt
      have hnsec := le_widthZeroD 6 (utc.tvNsec.toInt.tdiv 1000)
      rw [utcWidth]
      omega
    have hroundf : ∀ bits, 1 ≤ widthRoundf bits := by
      intro bits
      rw [widthRoundf, decimals]
      split <;> omega
    have hsnr : 3 ≤ widthF1 p.snr := by
      rw [widthF1, decimals]
      split <;> omega
    have hrssi := hroundf p.rssic
    have hrssis := hroundf p.rssis
    have hdecimals : decimals 255 = 3 := by decide +kernel
    -- the payload alone makes 340 characters
    have hdata : 371 ≤ dataWidth p := by
      rw [dataWidth, h.size, hdecimals, if_pos (by decide)]
      omega
    have hstat : 1 ≤ statWidth p := by
      rw [statWidth]
      split <;> decide
    rw [pktWidth, moduWidth, if_pos h.lora, loraWidth, hdatr, hband, hcodr, timeWidth,
      widthMillionth,
      widthD]
    simp only [decimals]
    omega
  · rw [h.lora] at hfsk
    exact absurd hfsk (by decide)

/-- Room for such packets is room for 553 bytes each. -/
theorem Cursor.Room.full {env : PushEnv} {fs : List (PktTime × LgwPktRx)} {c : Cursor}
    (h : c.Room env fs) (hindex : c.index ≤ txBuffSize)
    (hfull : ∀ f ∈ fs, FullLora f.2 ∧ ∃ utc, f.1 = .clock utc) :
    c.index + 553 * fs.length ≤ txBuffSize := by
  induction fs generalizing c with
  | nil => exact hindex
  | cons f fs ih =>
      obtain ⟨hextent, hroom⟩ := h
      obtain ⟨⟨hf, utc, hclock⟩, hfs⟩ := List.forall_mem_cons.1 hfull
      have hwidth := hf.width utc
      have hbehind : c.behind f = ⟨c.extent f, c.pktInDgram + 1⟩ := if_pos hf.serializable
      rw [hbehind] at hroom
      have hrest : c.extent f + 553 * fs.length ≤ txBuffSize := ih hroom hextent hfs
      have hstep : c.index + 553 ≤ c.extent f := by
        rw [Cursor.extent, hclock]
        omega
      calc c.index + 553 * (f :: fs).length = c.index + 553 + 553 * fs.length := by
            rw [List.length_cons, Nat.mul_succ]
            ring
        _ ≤ c.extent f + 553 * fs.length := Nat.add_le_add_right hstep _
        _ ≤ txBuffSize := hrest

theorem mem_forwardedFrom {cfg : PushConfig} {env : PushEnv} {f : PktTime × LgwPktRx} {i : Nat}
    {ps : List LgwPktRx} (h : f ∈ forwardedFrom cfg env i ps) :
    f.2 ∈ ps ∧ ∃ j, f.1 = env.time j := by
  induction ps generalizing i with
  | nil => cases h
  | cons p ps ih =>
      rw [forwardedFrom] at h
      split at h
      · rcases List.mem_cons.1 h with rfl | h
        · exact ⟨List.mem_cons_self, i, rfl⟩
        · exact ⟨List.mem_cons_of_mem p (ih h).1, (ih h).2⟩
      · exact ⟨List.mem_cons_of_mem p (ih h).1, (ih h).2⟩

theorem length_forwardedFrom {cfg : PushConfig} {env : PushEnv} {ps : List LgwPktRx}
    (h : ∀ i, ∀ p ∈ ps, forwards cfg (env.keyExist i) p = true) (i : Nat) :
    (forwardedFrom cfg env i ps).length = ps.length := by
  induction ps generalizing i with
  | nil => rfl
  | cons p ps ih =>
      rw [forwardedFrom, if_pos (h i p List.mem_cons_self), List.length_cons, List.length_cons,
        ih fun j q hq => h j q (List.mem_cons_of_mem p hq)]

/-- No batch of `NB_PKT_MAX` such packets fits the buffer, if all of them are forwarded. -/
theorem full_batch_outside {cfg : PushConfig} {env : PushEnv} {fetched : Fetched}
    (hcount : fetched.packets.length = nbPktMax)
    (hforward : ∀ i, ∀ p ∈ fetched.packets, forwards cfg (env.keyExist i) p = true)
    (hclock : ∀ i, ∃ utc, env.time i = .clock utc) (hfull : ∀ p ∈ fetched.packets, FullLora p) :
    ¬ PushInside cfg env fetched := by
  intro hinside
  have hbusy : ¬ (fetched.packets = [] ∧ env.reads.atFetch = false) := by
    rintro ⟨hnil, -⟩
    rw [hnil] at hcount
    cases hcount
  rw [PushInside, pushUp_busy hbusy, pushLoop_iff _ (by decide : 9 ≤ rxpkOpen.length)] at hinside
  have hroom := hinside.full (by decide) fun f hf => by
    obtain ⟨hmem, j, htime⟩ := mem_forwardedFrom hf
    obtain ⟨utc, hutc⟩ := hclock j
    exact ⟨hfull _ hmem, utc, htime.trans hutc⟩
  rw [length_forwardedFrom hforward, hcount] at hroom
  exact absurd hroom (by decide)

/-- `NB_PKT_MAX` LoRa packets of 255 bytes, with SF7, 125 kHz and 4/5. -/
def fullBatch : Fetched :=
  ⟨List.replicate nbPktMax { sf7Packet with size := 255#16 }, by rw [List.length_replicate]⟩

/-- A batch of 255 packets with payloads of 255 bytes leaves the buffer. -/
theorem full_batch_overflows :
    ¬ ∀ cfg env fetched, (∀ p ∈ fetched.packets, p.size.toNat ≤ 255) →
      PushInside cfg env fetched := by
  intro hall
  have hpacket : ∀ p ∈ fullBatch.packets, p = { sf7Packet with size := 255#16 } := fun p hp =>
    List.eq_of_mem_replicate hp
  refine full_batch_outside ?_ ?_ ?_ ?_ (hall openConfig quietEnv fullBatch ?_)
  · exact List.length_replicate
  · intro i p hp
    rw [hpacket p hp]
    show forwards openConfig (fun _ => false) { sf7Packet with size := 255#16 } = true
    decide +kernel
  · exact fun i => ⟨_, rfl⟩
  · intro p hp
    rw [hpacket p hp]
    exact ⟨by decide, by decide, by decide⟩
  · intro p hp
    rw [hpacket p hp]
    decide

end DraginoFwd.Uplink

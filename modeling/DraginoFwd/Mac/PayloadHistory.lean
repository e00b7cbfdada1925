import DraginoFwd.Db
import DraginoFwd.Lib.Printf
import DraginoFwd.Mac.FrameCounter
import Mathlib.Data.List.Dedup
import Mathlib.Data.List.Induction

/-!
# The payloads kept of each device

With `mac2db`, `pkt_deal_up` stores each decrypted payload under
`/payload/<devaddr>/<index>/<count_us>`, with an index that it reads from
`/payload/<devaddr>/index`. Nothing ever advances the stored index or deletes a record, and a device
without a stored index gets the one that is left in the variable.

`historyKept_iff` says of every sequence of uplinks, over any stored indexes, when at most ten
records are kept of each device, all of them at its own index.
-/

set_option autoImplicit false

namespace DraginoFwd.Mac

open DraginoFwd.Db
open DraginoFwd.Lib.Printf

/-! ## The code -/

/-- A decrypted uplink: its device, its `count_us`, and the text that `payload_txt` is. -/
structure DecodedUp where
  devaddr : BitVec 32
  countUs : BitVec 32
  payloadTxt : String

/-- `db_family`, the text of `"/payload/%08X"` -/
def payloadFamily (devaddr : BitVec 32) : List Char := "/payload/".toList ++ fmtX8 devaddr

/-- `db_family`, the text of `"/payload/%08X/%d"` -/
def recordFamily (devaddr : BitVec 32) (index : Int) : List Char :=
  payloadFamily devaddr ++ '/' :: fmtD index

/-- The database and the variable `index`. -/
structure PayloadStore where
  db : Gwdb
  index : Int

/-- The block of `mac2db`. -/
def mac2db (s : PayloadStore) (up : DecodedUp) : PayloadStore :=
  let family := payloadFamily up.devaddr
  let s : PayloadStore :=
    match lgwDbGet s.db family "index".toList with
    | none => { s with db := lgwDbPut s.db family "index".toList "0" }
    | some tmpstr => { s with index := (atoi tmpstr).tmod 9 }
  { s with
    db := lgwDbPut s.db (recordFamily up.devaddr s.index) (fmtU up.countUs.toNat) up.payloadTxt }

/-- A run of the thread, which starts with `index = 0`. -/
def dealUplinks (db : Gwdb) (ups : List DecodedUp) : PayloadStore := ups.foldl mac2db ⟨db, 0⟩

/-! ## The property and the condition -/

/-- The key of the stored index of a device. -/
def indexKey (devaddr : BitVec 32) : List Char := fullKey (payloadFamily devaddr) "index".toList

/-- The key of a record. -/
def recordKey (devaddr : BitVec 32) (index : Int) (countUs : BitVec 32) : List Char :=
  fullKey (recordFamily devaddr index) (fmtU countUs.toNat)

/-- The key is under `/payload/<devaddr>/`, and not that of the index. -/
def isRecord (devaddr : BitVec 32) (key : List Char) : Bool :=
  (fullKey (payloadFamily devaddr) []).isPrefixOf key && key != indexKey devaddr

/-- The records of a device. -/
def records (db : Gwdb) (devaddr : BitVec 32) : List (List Char) :=
  db.keys.filter (isRecord devaddr)

/-- The index that the stored index of a device gives, 0 where none is stored. -/
def homeIndex (db : Gwdb) (devaddr : BitVec 32) : Int :=
  match lgwDbGet db (payloadFamily devaddr) "index".toList with
  | none => 0
  | some text => (atoi text).tmod 9

/-- At most ten records are kept of each device, they are at its own index and those of its uplinks,
and each uplink has one. -/
structure HistoryKept (ups : List DecodedUp) (db : Gwdb) : Prop where
  bounded : ∀ devaddr, (records db devaddr).length ≤ 10
  placed : ∀ devaddr, ∀ key ∈ records db devaddr, ∃ up ∈ ups, up.devaddr = devaddr ∧
    key = recordKey devaddr (homeIndex db devaddr) up.countUs
  stored : ∀ up ∈ ups, recordKey up.devaddr (homeIndex db up.devaddr) up.countUs ∈ db

/-- No payload has been stored yet. -/
def NoRecords (db : Gwdb) : Prop := ∀ devaddr, records db devaddr = []

/-- The different `count_us` of the uplinks of a device. -/
def countsOf (ups : List DecodedUp) (devaddr : BitVec 32) : List (BitVec 32) :=
  ((ups.filter fun up => up.devaddr = devaddr).map DecodedUp.countUs).dedup

/-- The index of the device that sent last, 0 before the first uplink. -/
def lastHome (db : Gwdb) (ups : List DecodedUp) : Int :=
  match ups.getLast? with
  | none => 0
  | some up => homeIndex db up.devaddr

/-- A device without a stored index sends for the first time only behind a device with index 0. -/
def KeepsHome (db : Gwdb) (ups : List DecodedUp) : Prop :=
  ∀ front up, front ++ [up] <+: ups → indexKey up.devaddr ∉ db →
    (∀ u ∈ front, u.devaddr ≠ up.devaddr) → lastHome db front = 0

/-! ## Keys -/

/-- The part of a key that names the device. -/
def deviceKey (devaddr : BitVec 32) : List Char := fullKey (payloadFamily devaddr) []

theorem deviceKey_append (devaddr : BitVec 32) (rest : List Char) :
    deviceKey devaddr ++ rest = fullKey (payloadFamily devaddr) rest := by
  simp [deviceKey, fullKey]

theorem recordKey_eq (devaddr : BitVec 32) (index : Int) (countUs : BitVec 32) :
    recordKey devaddr index countUs =
      deviceKey devaddr ++ (fmtD index ++ '/' :: fmtU countUs.toNat) := by
  simp [recordKey, recordFamily, deviceKey, fullKey]

theorem indexKey_eq (devaddr : BitVec 32) :
    indexKey devaddr = deviceKey devaddr ++ "index".toList := by
  rw [deviceKey_append, indexKey]

theorem slash_notMem_fmtU (n : Nat) : '/' ∉ fmtU n := by
  intro hmem
  exact absurd (isDigit_fmtU n _ hmem) (by decide)

theorem slash_notMem_fmtD (n : Int) : '/' ∉ fmtD n := by
  intro hmem
  rw [fmtD, signed] at hmem
  split at hmem
  · rcases List.mem_cons.1 hmem with hminus | hmem
    · exact absurd hminus (by decide)
    · exact slash_notMem_fmtU _ hmem
  · exact slash_notMem_fmtU _ hmem

theorem length_deviceKey (devaddr : BitVec 32) :
    (deviceKey devaddr).length = "/payload/".toList.length + 8 + 1 + 1 := by
  unfold deviceKey fullKey payloadFamily
  simp only [List.length_cons, List.length_append, length_fmtX8, List.length_nil]

/-- The device of a key can be read off. -/
theorem deviceKey_append_inj {a b : BitVec 32} {r t : List Char}
    (h : deviceKey a ++ r = deviceKey b ++ t) : a = b ∧ r = t := by
  have hlen := (length_deviceKey a).trans (length_deviceKey b).symm
  obtain ⟨hkey, hrest⟩ := List.append_inj h hlen
  unfold deviceKey fullKey payloadFamily at hkey
  have hfamily := List.append_cancel_right (List.cons.inj hkey).2
  exact ⟨fmtX8_injective (List.append_cancel_left hfamily), hrest⟩

theorem recordKey_inj {a b : BitVec 32} {i j : Int} {c d : BitVec 32}
    (h : recordKey a i c = recordKey b j d) : a = b ∧ i = j ∧ c = d := by
  rw [recordKey_eq, recordKey_eq] at h
  obtain ⟨haddr, hrest⟩ := deviceKey_append_inj h
  obtain ⟨hindex, -, hcount⟩ :=
    (List.append_cons_inj_of_notMem (slash_notMem_fmtD j) (slash_notMem_fmtU _)).1 hrest.symm
  exact ⟨haddr, (fmtD_injective hindex).symm, BitVec.eq_of_toNat_eq (fmtU_injective hcount).symm⟩

theorem recordKey_ne_indexKey (a b : BitVec 32) (i : Int) (c : BitVec 32) :
    recordKey a i c ≠ indexKey b := by
  intro h
  rw [recordKey_eq, indexKey_eq] at h
  -- a record has one more slash
  have hslash : '/' ∈ "index".toList := by
    rw [← (deviceKey_append_inj h).2]
    exact List.mem_append_right _ List.mem_cons_self
  exact absurd hslash (by decide)

theorem isRecord_iff {devaddr : BitVec 32} {key : List Char} :
    isRecord devaddr key = true ↔ deviceKey devaddr <+: key ∧ key ≠ indexKey devaddr := by
  simp [isRecord, deviceKey]

theorem isRecord_recordKey {devaddr a : BitVec 32} {i : Int} {c : BitVec 32} :
    isRecord devaddr (recordKey a i c) = true ↔ a = devaddr := by
  rw [isRecord_iff]
  constructor
  · rintro ⟨⟨rest, hrest⟩, -⟩
    rw [recordKey_eq] at hrest
    exact (deviceKey_append_inj hrest).1.symm
  · rintro rfl
    refine ⟨?_, recordKey_ne_indexKey _ _ _ _⟩
    rw [recordKey_eq]
    exact List.prefix_append _ _

theorem not_isRecord_indexKey (devaddr a : BitVec 32) : isRecord devaddr (indexKey a) ≠ true := by
  rw [Ne, isRecord_iff]
  rintro ⟨⟨rest, hrest⟩, hne⟩
  rw [indexKey_eq] at hrest
  exact hne (by rw [(deviceKey_append_inj hrest).1])

theorem mem_records {db : Gwdb} {devaddr : BitVec 32} {key : List Char} :
    key ∈ records db devaddr ↔ isRecord devaddr key = true ∧ key ∈ db := by
  rw [records, List.mem_filter, ← AList.mem_keys]
  exact and_comm

/-! ## One uplink -/

theorem mac2db_stored {s : PayloadStore} {up : DecodedUp} {text : String}
    (h : lgwDbGet s.db (payloadFamily up.devaddr) "index".toList = some text) :
    mac2db s up = ⟨lgwDbPut s.db (recordFamily up.devaddr ((atoi text).tmod 9))
      (fmtU up.countUs.toNat) up.payloadTxt, (atoi text).tmod 9⟩ := by
  simp only [mac2db, h]

theorem mac2db_first {s : PayloadStore} {up : DecodedUp}
    (h : lgwDbGet s.db (payloadFamily up.devaddr) "index".toList = none) :
    mac2db s up = ⟨lgwDbPut (lgwDbPut s.db (payloadFamily up.devaddr) "index".toList "0")
      (recordFamily up.devaddr s.index) (fmtU up.countUs.toNat) up.payloadTxt, s.index⟩ := by
  simp only [mac2db, h]

/-- A device keeps the variable only where it has no stored index. -/
theorem mac2db_index (s : PayloadStore) (up : DecodedUp) :
    (mac2db s up).index =
      if indexKey up.devaddr ∈ s.db then homeIndex s.db up.devaddr else s.index := by
  cases h : lgwDbGet s.db (payloadFamily up.devaddr) "index".toList with
  | none =>
      have hmem : indexKey up.devaddr ∉ s.db := lgwDbGet_eq_none.1 h
      rw [mac2db_first h, if_neg hmem]
  | some text =>
      have hmem : indexKey up.devaddr ∈ s.db := mem_of_lgwDbGet h
      rw [mac2db_stored h, if_pos hmem, homeIndex, h]

/-- The keys of the record and of the index are added. -/
theorem mem_mac2db {s : PayloadStore} {up : DecodedUp} {key : List Char} :
    key ∈ (mac2db s up).db ↔ key = recordKey up.devaddr (mac2db s up).index up.countUs ∨
      key = indexKey up.devaddr ∨ key ∈ s.db := by
  cases h : lgwDbGet s.db (payloadFamily up.devaddr) "index".toList with
  | none =>
      rw [mac2db_first h]
      simp only [mem_lgwDbPut]
      rfl
  | some text =>
      have hmem : indexKey up.devaddr ∈ s.db := mem_of_lgwDbGet h
      rw [mac2db_stored h]
      simp only [mem_lgwDbPut]
      constructor
      · rintro (hrec | hold)
        · exact Or.inl hrec
        · exact Or.inr (Or.inr hold)
      · rintro (hrec | rfl | hold)
        · exact Or.inl hrec
        · exact Or.inr hmem
        · exact Or.inr hold

/-- The record is added to those of its device. -/
theorem mem_records_mac2db {s : PayloadStore} {up : DecodedUp} {devaddr : BitVec 32}
    {key : List Char} :
    key ∈ records (mac2db s up).db devaddr ↔
      up.devaddr = devaddr ∧ key = recordKey up.devaddr (mac2db s up).index up.countUs ∨
        key ∈ records s.db devaddr := by
  rw [mem_records, mem_records, mem_mac2db]
  constructor
  · rintro ⟨hrec, rfl | rfl | hold⟩
    · exact Or.inl ⟨isRecord_recordKey.1 hrec, rfl⟩
    · exact absurd hrec (not_isRecord_indexKey _ _)
    · exact Or.inr ⟨hrec, hold⟩
  · rintro (⟨haddr, rfl⟩ | ⟨hrec, hold⟩)
    · exact ⟨isRecord_recordKey.2 haddr, Or.inl rfl⟩
    · exact ⟨hrec, Or.inr (Or.inr hold)⟩

/-- No device ever gets another index. -/
theorem homeIndex_mac2db (s : PayloadStore) (up : DecodedUp) (devaddr : BitVec 32) :
    homeIndex (mac2db s up).db devaddr = homeIndex s.db devaddr := by
  have hrecord : ∀ (db : Gwdb) (i : Int),
      homeIndex (lgwDbPut db (recordFamily up.devaddr i) (fmtU up.countUs.toNat) up.payloadTxt)
        devaddr = homeIndex db devaddr := by
    intro db i
    have hne := (recordKey_ne_indexKey up.devaddr devaddr i up.countUs).symm
    rw [homeIndex, homeIndex, lgwDbGet_lgwDbPut_ne _ _ hne]
  cases h : lgwDbGet s.db (payloadFamily up.devaddr) "index".toList with
  | none =>
      rw [mac2db_first h, hrecord]
      by_cases haddr : devaddr = up.devaddr
      · -- the text that is stored stands for 0
        subst haddr
        rw [homeIndex, homeIndex, h, lgwDbGet_lgwDbPut]
        decide +kernel
      · have hne : indexKey devaddr ≠ indexKey up.devaddr := by
          intro heq
          rw [indexKey_eq, indexKey_eq] at heq
          exact haddr (deviceKey_append_inj heq).1
        rw [homeIndex, homeIndex, lgwDbGet_lgwDbPut_ne _ _ hne]
  | some text =>
      rw [mac2db_stored h, hrecord]

/-! ## A run -/

theorem dealUplinks_concat (db : Gwdb) (ups : List DecodedUp) (up : DecodedUp) :
    dealUplinks db (ups ++ [up]) = mac2db (dealUplinks db ups) up := by
  rw [dealUplinks, List.foldl_append]
  rfl

theorem homeIndex_dealUplinks (db : Gwdb) (ups : List DecodedUp) (devaddr : BitVec 32) :
    homeIndex (dealUplinks db ups).db devaddr = homeIndex db devaddr := by
  induction ups using List.reverseRecOn with
  | nil => rfl
  | append_singleton ups up ih => rw [dealUplinks_concat, homeIndex_mac2db, ih]

/-- A device has a stored index from its first uplink on. -/
theorem indexKey_mem_dealUplinks (db : Gwdb) (ups : List DecodedUp) (devaddr : BitVec 32) :
    indexKey devaddr ∈ (dealUplinks db ups).db ↔
      indexKey devaddr ∈ db ∨ ∃ up ∈ ups, up.devaddr = devaddr := by
  induction ups using List.reverseRecOn with
  | nil => simp [dealUplinks]
  | append_singleton ups up ih =>
    have hrecord := (recordKey_ne_indexKey up.devaddr devaddr
      (mac2db (dealUplinks db ups) up).index up.countUs).symm
    have hindex : indexKey devaddr = indexKey up.devaddr ↔ up.devaddr = devaddr := by
      constructor
      · intro heq
        rw [indexKey_eq, indexKey_eq] at heq
        exact (deviceKey_append_inj heq).1.symm
      · rintro rfl
        rfl
    rw [dealUplinks_concat, mem_mac2db, ih, hindex]
    simp only [hrecord, List.mem_append, List.mem_singleton]
    constructor
    · rintro (hfalse | haddr | hold | ⟨u, hu, haddr⟩)
      · exact hfalse.elim
      · exact Or.inr ⟨up, Or.inr rfl, haddr⟩
      · exact Or.inl hold
      · exact Or.inr ⟨u, Or.inl hu, haddr⟩
    · rintro (hold | ⟨u, hu | rfl, haddr⟩)
      · exact Or.inr (Or.inr (Or.inl hold))
      · exact Or.inr (Or.inr (Or.inr ⟨u, hu, haddr⟩))
      · exact Or.inr (Or.inl haddr)

/-- The condition says of one more uplink what it says of the ones before. -/
theorem keepsHome_concat {db : Gwdb} {ups : List DecodedUp} {up : DecodedUp} :
    KeepsHome db (ups ++ [up]) ↔ KeepsHome db ups ∧
      (indexKey up.devaddr ∉ db → (∀ u ∈ ups, u.devaddr ≠ up.devaddr) → lastHome db ups = 0) := by
  constructor
  · intro h
    refine ⟨?_, h ups up List.prefix_rfl⟩
    intro front u hfront
    exact h front u (hfront.trans (List.prefix_append _ _))
  · rintro ⟨hups, hup⟩ front u hfront
    rcases List.prefix_concat_iff.1 hfront with heq | hfront
    · obtain ⟨rfl, hu⟩ := List.append_inj' heq rfl
      cases hu
      exact hup
    · exact hups front u hfront

/-- The index of an uplink is that of its device where the condition holds for it. -/
theorem mac2db_index_eq_home {db : Gwdb} {ups : List DecodedUp} {up : DecodedUp}
    (hindex : (dealUplinks db ups).index = lastHome db ups) :
    (mac2db (dealUplinks db ups) up).index = homeIndex db up.devaddr ↔
      (indexKey up.devaddr ∉ db → (∀ u ∈ ups, u.devaddr ≠ up.devaddr) → lastHome db ups = 0) := by
  rw [mac2db_index, homeIndex_dealUplinks, hindex]
  by_cases hmem : indexKey up.devaddr ∈ (dealUplinks db ups).db
  · rw [if_pos hmem]
    refine ⟨fun _ hdb hfirst => ?_, fun _ => rfl⟩
    rcases (indexKey_mem_dealUplinks db ups up.devaddr).1 hmem with hdb' | ⟨u, hu, haddr⟩
    · exact absurd hdb' hdb
    · exact absurd haddr (hfirst u hu)
  · rw [if_neg hmem]
    have hnew := (indexKey_mem_dealUplinks db ups up.devaddr).not.1 hmem
    rw [not_or] at hnew
    -- nothing is stored for the device, neither before the run nor in it
    have hzero : homeIndex db up.devaddr = 0 := by
      rw [homeIndex, lgwDbGet_eq_none.2 hnew.1]
    rw [hzero]
    constructor
    · intro h _ _
      exact h
    · intro h
      apply h hnew.1
      intro u hu haddr
      exact hnew.2 ⟨u, hu, haddr⟩

/-- Where the condition holds, the variable has the index of the last device, and the records are
those of the uplinks, each at the index of its device. -/
theorem dealUplinks_of_keepsHome {db : Gwdb} (h0 : NoRecords db) {ups : List DecodedUp}
    (h : KeepsHome db ups) :
    (dealUplinks db ups).index = lastHome db ups ∧ ∀ devaddr key,
      key ∈ records (dealUplinks db ups).db devaddr ↔
        ∃ up ∈ ups, up.devaddr = devaddr ∧
          key = recordKey devaddr (homeIndex db devaddr) up.countUs := by
  induction ups using List.reverseRecOn with
  | nil =>
    refine ⟨rfl, ?_⟩
    intro devaddr key
    simp [dealUplinks, h0 devaddr]
  | append_singleton ups up ih =>
    obtain ⟨hups, hup⟩ := keepsHome_concat.1 h
    obtain ⟨hindex, hrecords⟩ := ih hups
    have hhome := (mac2db_index_eq_home hindex).2 hup
    rw [dealUplinks_concat]
    refine ⟨?_, ?_⟩
    · rw [hhome, lastHome, List.getLast?_concat]
    · intro devaddr key
      rw [mem_records_mac2db, hrecords, hhome]
      simp only [List.mem_append, List.mem_singleton]
      constructor
      · rintro (⟨rfl, rfl⟩ | ⟨u, hu, hkey⟩)
        · exact ⟨up, Or.inr rfl, rfl, rfl⟩
        · exact ⟨u, Or.inl hu, hkey⟩
      · rintro ⟨u, hu | rfl, rfl, rfl⟩
        · exact Or.inr ⟨u, hu, rfl, rfl⟩
        · exact Or.inl ⟨rfl, rfl⟩

/-- Where the condition fails, a record stays at an index that its device does not have. -/
theorem exists_foreign_record {db : Gwdb} (h0 : NoRecords db) {ups : List DecodedUp}
    (h : ¬ KeepsHome db ups) :
    ∃ devaddr index countUs, index ≠ homeIndex db devaddr ∧
      recordKey devaddr index countUs ∈ records (dealUplinks db ups).db devaddr := by
  induction ups using List.reverseRecOn with
  | nil =>
    refine absurd ?_ h
    rintro front up ⟨rest, hrest⟩
    simp at hrest
  | append_singleton ups up ih =>
    rw [dealUplinks_concat]
    by_cases hups : KeepsHome db ups
    · -- this uplink is the one
      have hup : ¬ _ := fun hup => h (keepsHome_concat.2 ⟨hups, hup⟩)
      rw [← mac2db_index_eq_home (dealUplinks_of_keepsHome h0 hups).1] at hup
      exact ⟨_, _, _, hup, mem_records_mac2db.2 (Or.inl ⟨rfl, rfl⟩)⟩
    · obtain ⟨devaddr, index, countUs, hne, hmem⟩ := ih hups
      exact ⟨devaddr, index, countUs, hne, mem_records_mac2db.2 (Or.inr hmem)⟩

/-- At the index of its device, each different `count_us` is a record of its own. -/
theorem length_records {db : Gwdb} (h0 : NoRecords db) {ups : List DecodedUp}
    (h : KeepsHome db ups) (devaddr : BitVec 32) :
    (records (dealUplinks db ups).db devaddr).length = (countsOf ups devaddr).length := by
  have hkeys : (records (dealUplinks db ups).db devaddr).Nodup :=
    (dealUplinks db ups).db.keys_nodup.filter _
  have hcounts :
      ((countsOf ups devaddr).map (recordKey devaddr (homeIndex db devaddr))).Nodup := by
    apply (List.nodup_dedup _).map
    intro a b hab
    exact (recordKey_inj hab).2.2
  have hperm : (records (dealUplinks db ups).db devaddr).Perm
      ((countsOf ups devaddr).map (recordKey devaddr (homeIndex db devaddr))) := by
    rw [List.perm_ext_iff_of_nodup hkeys hcounts]
    intro key
    rw [(dealUplinks_of_keepsHome h0 h).2]
    simp only [countsOf, List.mem_map, List.mem_dedup, List.mem_filter, decide_eq_true_eq]
    constructor
    · rintro ⟨up, hup, haddr, rfl⟩
      exact ⟨up.countUs, ⟨up, ⟨hup, haddr⟩, rfl⟩, rfl⟩
    · rintro ⟨countUs, ⟨up, ⟨hup, haddr⟩, rfl⟩, rfl⟩
      exact ⟨up, hup, haddr, rfl⟩
  rw [hperm.length_eq, List.length_map]

/-- For any stored indexes and every sequence of uplinks: at most ten records are kept of each
device, at its own index, exactly when no device without a stored index sends its first uplink
behind a device with another index than 0, and no device sends with more than ten different
`count_us`. -/
theorem historyKept_iff (db : Gwdb) (h0 : NoRecords db) (ups : List DecodedUp) :
    HistoryKept ups (dealUplinks db ups).db ↔
      KeepsHome db ups ∧ ∀ devaddr, (countsOf ups devaddr).length ≤ 10 := by
  constructor
  · intro hkept
    have hhome : KeepsHome db ups := by
      by_contra hfails
      obtain ⟨devaddr, index, countUs, hne, hmem⟩ := exists_foreign_record h0 hfails
      obtain ⟨up, -, -, hkey⟩ := hkept.placed devaddr _ hmem
      rw [homeIndex_dealUplinks] at hkey
      exact hne (recordKey_inj hkey).2.1
    refine ⟨hhome, ?_⟩
    intro devaddr
    rw [← length_records h0 hhome]
    exact hkept.bounded devaddr
  · rintro ⟨hhome, hcounts⟩
    have hrecords := (dealUplinks_of_keepsHome h0 hhome).2
    refine ⟨?_, ?_, ?_⟩
    · intro devaddr
      rw [length_records h0 hhome]
      exact hcounts devaddr
    · intro devaddr key hkey
      rw [homeIndex_dealUplinks]
      exact (hrecords devaddr key).1 hkey
    · intro up hup
      rw [homeIndex_dealUplinks]
      exact (mem_records.1 ((hrecords up.devaddr _).2 ⟨up, hup, rfl, rfl⟩)).2

/-- A database with the stored index of one device. -/
def indexDb (devaddr : BitVec 32) (text : String) : Gwdb :=
  lgwDbPut ∅ (payloadFamily devaddr) "index".toList text

theorem noRecords_indexDb (devaddr : BitVec 32) (text : String) :
    NoRecords (indexDb devaddr text) := by
  intro a
  apply List.filter_eq_nil_iff.2
  intro key hkey
  rcases mem_lgwDbPut.1 (AList.mem_keys.2 hkey) with rfl | hempty
  · exact not_isRecord_indexKey a devaddr
  · exact absurd hempty (AList.notMem_empty key)

/-- The device with the stored index may send as it likes. -/
theorem keepsHome_indexDb {devaddr : BitVec 32} {text : String} {ups : List DecodedUp}
    (h : ∀ up ∈ ups, up.devaddr = devaddr) : KeepsHome (indexDb devaddr text) ups := by
  intro front up hfront hnew
  have hup := h up (hfront.subset (List.mem_append_right _ List.mem_cons_self))
  rw [hup] at hnew
  exact absurd (mem_lgwDbPut.2 (Or.inl rfl)) hnew

/-- The uplinks of one device with the given `count_us`. -/
def uplinksOf (devaddr : BitVec 32) (counts : List Nat) : List DecodedUp :=
  counts.map fun countUs => ⟨devaddr, BitVec.ofNat 32 countUs, "21.5"⟩

theorem historyKept_iff_two :
    NoRecords (indexDb 0x26011BDA#32 "14") ∧
      HistoryKept (uplinksOf 0x26011BDA#32 [1000, 2000])
        (dealUplinks (indexDb 0x26011BDA#32 "14") (uplinksOf 0x26011BDA#32 [1000, 2000])).db := by
  have hone : ∀ up ∈ uplinksOf 0x26011BDA#32 [1000, 2000], up.devaddr = 0x26011BDA#32 := by
    simp [uplinksOf]
  refine ⟨noRecords_indexDb _ _, (historyKept_iff _ (noRecords_indexDb _ _) _).2 ⟨?_, ?_⟩⟩
  · exact keepsHome_indexDb hone
  · intro devaddr
    calc (countsOf (uplinksOf 0x26011BDA#32 [1000, 2000]) devaddr).length
        ≤ ((uplinksOf 0x26011BDA#32 [1000, 2000]).filter
            fun up => up.devaddr = devaddr).length := by
          rw [← List.length_map DecodedUp.countUs]
          exact (List.dedup_sublist _).length_le
      _ ≤ 2 := List.length_filter_le _ _
      _ ≤ 10 := by decide

/-- Eleven uplinks of one device leave eleven records. -/
theorem eleventh_record :
    ¬ ∀ db, NoRecords db → ∀ ups, HistoryKept ups (dealUplinks db ups).db := by
  intro h
  have hnone := noRecords_indexDb 0x26011BDA#32 "0"
  have hbound := (h _ hnone (uplinksOf 0x26011BDA#32 (List.range 11))).bounded 0x26011BDA#32
  rw [length_records hnone (keepsHome_indexDb (by simp [uplinksOf]))] at hbound
  exact absurd hbound (by decide +kernel)

end DraginoFwd.Mac

import DraginoFwd.Db
import DraginoFwd.Uplink.PushData

/-!
# What the filters of a service match

`pkt_basic_filter` looks for the name of its service, `fport` or `devaddr`, and the port or the
address, with slashes between them, behind a slash at the end of any key. The database compares with
`LIKE`: in the name `%` and `_` are wildcards, and letters match in either case.

`filtersExactly_iff` says of every database, service and packet when the verdict is that of the
listed ports and addresses all the same. A name without wildcards can still be taken for one that
differs in the case of its letters (`Foreign.same_letters`).
-/

set_option autoImplicit false

namespace DraginoFwd.Uplink

open DraginoFwd.Db
open DraginoFwd.Lib.Like
open DraginoFwd.Lib.Printf

/-! ## The listed ports and addresses -/

/-- The path segments of a key. -/
def segments (key : List Char) : List (List Char) := key.splitOn '/'

/-- The last three segments of some key are the name of the service, the filter and the value. -/
def Listed (db : Gwdb) (name kind value : List Char) : Prop :=
  ∃ key ∈ db.keys, [name, kind, value] <:+ segments key

instance (db : Gwdb) (name kind value : List Char) : Decidable (Listed db name kind value) :=
  inferInstanceAs (Decidable (∃ key ∈ db.keys, _))

/-- A filter includes what it drops, or excludes what it passes. -/
def FilterMode.Verdict (mode : FilterMode) (listed : Prop) : Prop :=
  mode = .included ∧ listed ∨ mode = .excluded ∧ ¬ listed

/-- The filter for the port drops the packet. -/
def DropsPort (db : Gwdb) (cfg : PushConfig) (fport : BitVec 8) : Prop :=
  cfg.fport.Verdict (Listed db cfg.name "fport".toList (fmtU fport.toNat))

/-- The filter for the device address drops the packet. -/
def DropsAddr (db : Gwdb) (cfg : PushConfig) (addr : BitVec 32) : Prop :=
  cfg.devaddr.Verdict (Listed db cfg.name "devaddr".toList (fmtX8 addr))

/-! ## The condition -/

/-- The text that is searched for. -/
def listPath (name kind value : List Char) : List Char := name ++ '/' :: (kind ++ '/' :: value)

/-- The end of some key, behind a slash, is like the text. -/
def Matched (db : Gwdb) (name kind value : List Char) : Prop :=
  ∃ key ∈ db.keys, ∃ rest, '/' :: rest <:+ key ∧ like (listPath name kind value) rest = true

/-- Some key matches although the value is not listed. -/
def Foreign (db : Gwdb) (name kind value : List Char) : Prop :=
  ¬ Listed db name kind value ∧ Matched db name kind value

/-- The text is itself a key, without a slash before the name, and no key matches. -/
def Missed (db : Gwdb) (name kind value : List Char) : Prop :=
  '/' ∉ name ∧ listPath name kind value ∈ db.keys ∧ ¬ Matched db name kind value

/-- A filter that is on takes another key for the one that it searches, or misses that one. -/
def Misjudges (db : Gwdb) (mode : FilterMode) (name kind value : List Char) : Prop :=
  mode ≠ .noFilter ∧ (Foreign db name kind value ∨ Missed db name kind value)

/-- The filter of the ports misjudges a port. -/
def MisjudgesPort (db : Gwdb) (cfg : PushConfig) (fport : BitVec 8) : Prop :=
  Misjudges db cfg.fport cfg.name "fport".toList (fmtU fport.toNat)

/-- The filter of the addresses misjudges an address. -/
def MisjudgesAddr (db : Gwdb) (cfg : PushConfig) (addr : BitVec 32) : Prop :=
  Misjudges db cfg.devaddr cfg.name "devaddr".toList (fmtX8 addr)

/-- What the filters misjudge makes no difference: where it is one of them, the other one drops the
packet, and where it is both, exactly one of them should have dropped it. -/
structure VerdictKept (db : Gwdb) (cfg : PushConfig) (addr : BitVec 32) (fport : BitVec 8) :
    Prop where
  onlyPort : MisjudgesPort db cfg fport → ¬ MisjudgesAddr db cfg addr → DropsAddr db cfg addr
  onlyAddr : MisjudgesAddr db cfg addr → ¬ MisjudgesPort db cfg fport → DropsPort db cfg fport
  both : MisjudgesPort db cfg fport → MisjudgesAddr db cfg addr →
    (DropsPort db cfg fport ↔ ¬ DropsAddr db cfg addr)

/-! ## Segments -/

/-- No segment has a slash in it. -/
theorem slash_notMem_segments (key : List Char) : ∀ segment ∈ segments key, '/' ∉ segment := by
  induction key with
  | nil => simp [segments, List.splitOn_nil]
  | cons c key ih =>
    rw [segments, List.splitOn_cons_eq_if_modifyHead]
    split
    · intro segment hmem
      rcases List.mem_cons.1 hmem with rfl | hmem
      · exact List.not_mem_nil
      · exact ih segment hmem
    · next hc =>
      rw [segments] at ih
      cases hsplit : key.splitOn '/' with
      | nil => exact absurd hsplit (List.splitOn_ne_nil _ _)
      | cons head rest =>
        rw [hsplit] at ih
        rintro segment (_ | ⟨_, hmem⟩)
        · intro hslash
          rcases List.mem_cons.1 hslash with rfl | hslash
          · exact hc rfl
          · exact ih head List.mem_cons_self hslash
        · exact ih segment (List.mem_cons_of_mem _ hmem)

/-- The segments of a key that ends with the text, when they have no slash in them. -/
theorem segments_listPath {name kind value : List Char} (hname : '/' ∉ name) (hkind : '/' ∉ kind)
    (hvalue : '/' ∉ value) : segments (listPath name kind value) = [name, kind, value] := by
  rw [segments, listPath, List.splitOn_append_cons_self, List.splitOn_append_cons_self,
    List.splitOn_eq_singleton hname, List.splitOn_eq_singleton hkind,
    List.splitOn_eq_singleton hvalue]
  rfl

/-- Segments in front of others are separated from them by a slash. -/
theorem intercalate_append {front rest : List (List Char)} (hfront : front ≠ [])
    (hrest : rest ≠ []) :
    ['/'].intercalate (front ++ rest) =
      ['/'].intercalate front ++ '/' :: ['/'].intercalate rest := by
  induction front with
  | nil => exact absurd rfl hfront
  | cons segment front ih =>
    cases front with
    | nil =>
      rw [List.singleton_append, List.intercalate_cons_of_ne_nil hrest, List.intercalate_singleton,
        List.append_assoc]
      rfl
    | cons next front =>
      rw [List.cons_append, List.cons_append, List.intercalate_cons_cons,
        List.intercalate_cons_cons, ← List.cons_append, ih (List.cons_ne_nil _ _),
          List.append_assoc,
        List.append_assoc, List.append_assoc]

/-- The last three segments are given by the end of the key. -/
theorem suffix_segments_iff {key name kind value : List Char} (hkind : '/' ∉ kind)
    (hvalue : '/' ∉ value) :
    [name, kind, value] <:+ segments key ↔
      '/' ∉ name ∧ (key = listPath name kind value ∨ '/' :: listPath name kind value <:+ key) := by
  have hpath : ['/'].intercalate [name, kind, value] = listPath name kind value := by
    simp [List.intercalate_cons_cons, List.intercalate_singleton, listPath]
  constructor
  · rintro ⟨front, hfront⟩
    have hkey : key = ['/'].intercalate (front ++ [name, kind, value]) := by
      rw [hfront, segments, List.intercalate_splitOn]
    refine ⟨slash_notMem_segments key name (by rw [← hfront]; simp), ?_⟩
    by_cases hnil : front = []
    · left
      rw [hkey, hnil, List.nil_append, hpath]
    · right
      rw [hkey, intercalate_append hnil (List.cons_ne_nil _ _), hpath]
      exact List.suffix_append _ _
  · rintro ⟨hname, rfl | ⟨front, rfl⟩⟩
    · rw [segments_listPath hname hkind hvalue]
    · rw [segments, List.splitOn_append_cons_self]
      have hrest := segments_listPath hname hkind hvalue
      rw [segments] at hrest
      rw [hrest]
      exact List.suffix_append _ _

/-! ## The verdict -/

theorem slash_notMem_fport (fport : BitVec 8) : '/' ∉ fmtU fport.toNat := by
  intro hmem
  exact absurd (isDigit_fmtU _ _ hmem) (by decide)

theorem slash_notMem_addr (addr : BitVec 32) : '/' ∉ fmtX8 addr := by
  intro hmem
  exact absurd (mem_fmtX8 addr _ hmem) (by decide +kernel)

/-- Some key matches exactly when the value is listed, but for the two kinds of misjudgement. -/
theorem matched_iff {db : Gwdb} {name kind value : List Char} (hkind : '/' ∉ kind)
    (hvalue : '/' ∉ value) :
    Matched db name kind value ↔ (Listed db name kind value ↔
      ¬ (Foreign db name kind value ∨ Missed db name kind value)) := by
  by_cases hlisted : Listed db name kind value
  · have hforeign : ¬ Foreign db name kind value := fun h => h.1 hlisted
    -- a listed key is like the text, unless there is no slash before it
    have hmissed : Missed db name kind value ↔ ¬ Matched db name kind value := by
      refine ⟨fun h => h.2.2, ?_⟩
      intro hnone
      obtain ⟨key, hkey, hsegments⟩ := hlisted
      obtain ⟨hname, rfl | hsuffix⟩ := (suffix_segments_iff hkind hvalue).1 hsegments
      · exact ⟨hname, hkey, hnone⟩
      · exact absurd ⟨key, hkey, _, hsuffix, like_self _⟩ hnone
    simp only [hlisted, hforeign, hmissed, false_or, true_iff, not_not]
  · have hmissed : ¬ Missed db name kind value := by
      rintro ⟨hname, hkey, -⟩
      exact hlisted ⟨_, hkey, (suffix_segments_iff hkind hvalue).2 ⟨hname, Or.inl rfl⟩⟩
    simp only [Foreign, hlisted, hmissed, not_false_eq_true, true_and, or_false, false_iff, not_not]

/-- One filter gives its verdict, or the opposite where it misjudges. -/
theorem drops_iff {db : Gwdb} {mode : FilterMode} {name kind value : List Char}
    (hkind : '/' ∉ kind) (hvalue : '/' ∉ value) :
    mode.drops (lgwDbKeyExist db (listPath name kind value)) = true ↔
      (mode.Verdict (Listed db name kind value) ↔ ¬ Misjudges db mode name kind value) := by
  have hexist : lgwDbKeyExist db (listPath name kind value) = true ↔ _ :=
    lgwDbKeyExist_iff.trans (matched_iff hkind hvalue)
  cases mode with
  | noFilter => simp [FilterMode.drops, FilterMode.Verdict, Misjudges]
  | included =>
      rw [FilterMode.drops, hexist]
      simp [FilterMode.Verdict, Misjudges]
  | excluded =>
      rw [FilterMode.drops, Bool.not_eq_true', ← Bool.not_eq_true, hexist]
      simp [FilterMode.Verdict, Misjudges, not_iff]

/-- Two verdicts, each of them possibly turned around, against the verdicts as they should be. -/
theorem or_iff_or_flipped {p d mp md : Prop} :
    ((p ↔ ¬ mp) ∨ (d ↔ ¬ md) ↔ p ∨ d) ↔
      (mp → ¬ md → d) ∧ (md → ¬ mp → p) ∧ (mp → md → (p ↔ ¬ d)) := by
  by_cases hp : p <;> by_cases hd : d <;> by_cases hmp : mp <;> by_cases hmd : md <;>
    simp [hp, hd, hmp, hmd]

/-- The keys are never cut short. -/
theorem addrKey_eq {name : List Char} (hname : name.length ≤ 31) (addr : BitVec 32) :
    addrKey name addr = listPath name "devaddr".toList (fmtX8 addr) := by
  have htext : "/devaddr/".toList = '/' :: ("devaddr".toList ++ ['/']) := by decide +kernel
  rw [addrKey, htext, List.take_of_length_le]
  · simp [listPath]
  · have hlen := length_fmtX8 addr
    have hkind : "devaddr".toList.length = 7 := by decide +kernel
    simp only [List.length_append, List.length_cons, List.length_nil]
    omega

theorem fportKey_eq {name : List Char} (hname : name.length ≤ 31) (fport : BitVec 8) :
    fportKey name fport = listPath name "fport".toList (fmtU fport.toNat) := by
  have htext : "/fport/".toList = '/' :: ("fport".toList ++ ['/']) := by decide +kernel
  rw [fportKey, htext, List.take_of_length_le]
  · simp [listPath]
  · have hlen : (fmtU fport.toNat).length ≤ 3 := by
      rw [length_fmtU]
      exact decimals_le (by decide) (Nat.lt_of_lt_of_le fport.isLt (by decide))
    have hkind : "fport".toList.length = 5 := by decide +kernel
    simp only [List.length_append, List.length_cons, List.length_nil]
    omega

/-- For every database, every service and every packet: what is dropped is what the listed ports and
addresses say, exactly when no filter misjudges or the other filter makes up for it. -/
theorem filtersExactly_iff (db : Gwdb) (cfg : PushConfig) (hname : cfg.name.length ≤ 31)
    (addr : BitVec 32) (fport : BitVec 8) :
    (pktBasicFilter cfg (lgwDbKeyExist db) addr fport = true ↔
      DropsPort db cfg fport ∨ DropsAddr db cfg addr) ↔ VerdictKept db cfg addr fport := by
  have hport := @drops_iff db cfg.fport cfg.name _ _ (by decide +kernel : '/' ∉ "fport".toList)
    (slash_notMem_fport fport)
  have haddr := @drops_iff db cfg.devaddr cfg.name _ _ (by decide +kernel : '/' ∉ "devaddr".toList)
    (slash_notMem_addr addr)
  rw [pktBasicFilter, fportKey_eq hname, addrKey_eq hname, Bool.or_eq_true, hport, haddr]
  constructor
  · intro h
    obtain ⟨honlyPort, honlyAddr, hboth⟩ := or_iff_or_flipped.1 h
    exact ⟨honlyPort, honlyAddr, hboth⟩
  · intro h
    exact or_iff_or_flipped.2 ⟨h.onlyPort, h.onlyAddr, h.both⟩

/-- A name without wildcards is taken for another one only where the two differ in the case of their
letters. -/
theorem Foreign.same_letters {db : Gwdb} {name kind value : List Char}
    (h : Foreign db name kind value) (hname : '/' ∉ name) (hkind : '/' ∉ kind)
    (hvalue : '/' ∉ value)
    (hplain : ∀ c ∈ listPath name kind value, c ≠ '%' ∧ c ≠ '_') :
    ∃ key ∈ db.keys, ∃ rest, '/' :: rest <:+ key ∧ rest ≠ listPath name kind value ∧
      rest.map Char.toLower = (listPath name kind value).map Char.toLower := by
  obtain ⟨hlisted, key, hkey, rest, hsuffix, hlike⟩ := h
  refine ⟨key, hkey, rest, hsuffix, ?_, (like_of_no_wildcard hplain).1 hlike⟩
  rintro rfl
  exact hlisted ⟨key, hkey, (suffix_segments_iff hkind hvalue).2 ⟨hname, Or.inr hsuffix⟩⟩

/-- The key of one entry of a list. -/
def listDb (family value : String) : Gwdb := lgwDbPut ∅ family.toList value.toList ""

/-- A service with a filter for device addresses. -/
def addrConfig (name : String) (mode : FilterMode) : PushConfig :=
  ⟨name.toList, ⟨true, false, false⟩, .noFilter, mode⟩

/-- Without a wildcard in the name the listed device is dropped, and no other. -/
theorem filtersExactly_iff_listed :
    (addrConfig "gw-1" .included).name.length ≤ 31 ∧
      (pktBasicFilter (addrConfig "gw-1" .included)
        (lgwDbKeyExist (listDb "filter/gw-1/devaddr" "26011BDA")) 0x26011BDA#32 2#8 = true ↔
          DropsPort (listDb "filter/gw-1/devaddr" "26011BDA") (addrConfig "gw-1" .included) 2#8 ∨
            DropsAddr (listDb "filter/gw-1/devaddr" "26011BDA") (addrConfig "gw-1" .included)
              0x26011BDA#32) := by
  have hname : (addrConfig "gw-1" .included).name.length ≤ 31 := by decide +kernel
  refine ⟨hname, (filtersExactly_iff _ _ hname _ _).2 ?_⟩
  have hlisted : Listed (listDb "filter/gw-1/devaddr" "26011BDA") "gw-1".toList
      "devaddr".toList (fmtX8 0x26011BDA#32) := by
    decide +kernel
  have hkey : listPath "gw-1".toList "devaddr".toList (fmtX8 0x26011BDA#32) ∉
      (listDb "filter/gw-1/devaddr" "26011BDA").keys := by
    decide +kernel
  have haddr : ¬ MisjudgesAddr (listDb "filter/gw-1/devaddr" "26011BDA")
      (addrConfig "gw-1" .included) 0x26011BDA#32 := by
    rintro ⟨-, hforeign | hmissed⟩
    · exact hforeign.1 hlisted
    · exact hkey hmissed.2.1
  exact ⟨fun h => absurd rfl h.1, fun h => absurd h haddr, fun h => absurd rfl h.1⟩

/-- The underscore of a service stands for any letter in the name of another one. -/
theorem other_service_drops :
    ¬ ∀ (db : Gwdb) (cfg : PushConfig), cfg.name.length ≤ 31 →
      ∀ (addr : BitVec 32) (fport : BitVec 8),
        (pktBasicFilter cfg (lgwDbKeyExist db) addr fport = true ↔
          DropsPort db cfg fport ∨ DropsAddr db cfg addr) := by
  intro h
  have hdropped := (h (listDb "filter/gwA1/devaddr" "26011BDA") (addrConfig "gw_1" .included)
    (by decide +kernel) 0x26011BDA#32 2#8).1 (by decide +kernel)
  have hlisted : ¬ Listed (listDb "filter/gwA1/devaddr" "26011BDA") "gw_1".toList
      "devaddr".toList (fmtX8 0x26011BDA#32) := by
    decide +kernel
  rcases hdropped with (⟨hmode, -⟩ | ⟨hmode, -⟩) | ⟨-, haddr⟩ | ⟨hmode, -⟩
  · cases hmode
  · cases hmode
  · exact hlisted haddr
  · cases hmode

end DraginoFwd.Uplink

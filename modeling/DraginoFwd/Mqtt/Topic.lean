import Mathlib.Data.List.Basic

/-!
# Topic filters

Model of `isTopicMatched` in `MQTTClient.c`, which goes through the characters of a filter and of a
topic name, and of the use that `deliverMessage` makes of it. On the levels between the slashes it
is `covers`: `+` stands for one level and `#` for all that follows, but neither begins at an empty
level (`isTopicMatched_eq`). The matches of the MQTT specification are `standardMatches`, with its
rule for names that begin with `$`, which the code does not have. Apart from these names the code
finds a part of the matches, and all where no level of the name is empty and `#` stands for at least
one (`isTopicMatched_standard`).
-/

set_option autoImplicit false

namespace DraginoFwd.Mqtt

/-! ## The code -/

/-- `'/'` -/
abbrev slash : BitVec 8 := 0x2F#8
/-- `'+'` -/
abbrev plus : BitVec 8 := 0x2B#8
/-- `'#'` -/
abbrev hash : BitVec 8 := 0x23#8

/-- Where `curn` stands behind the character that it is at, for the one of the filter. -/
def nextName (f : BitVec 8) (cs : List (BitVec 8)) : List (BitVec 8) :=
  if f = plus then cs.dropWhile (· ≠ slash) else if f = hash then [] else cs

/-- `isTopicMatched`, from `curf` and `curn` on -/
def isTopicMatched : List (BitVec 8) → List (BitVec 8) → Bool
  | f :: fs, c :: cs =>
      if c = slash ∧ f ≠ slash then false
      else if f ≠ plus ∧ f ≠ hash ∧ f ≠ c then false
      else isTopicMatched fs (nextName f cs)
  | curf, curn => curn.isEmpty && curf.isEmpty

/-! ## Levels -/

/-- The levels of a filter or a name. -/
abbrev levels (s : List (BitVec 8)) : List (List (BitVec 8)) := s.splitOn slash

/-- The levels of a filter that stand for those of a name. -/
def covers : List (List (BitVec 8)) → List (List (BitVec 8)) → Bool
  | [], [] => true
  | f :: fs, n :: ns =>
      if f = [hash] then !n.isEmpty
      else if f = [plus] then !n.isEmpty && covers fs ns
      else decide (f = n) && covers fs ns
  | _, _ => false

/-- A level is a wildcard or has none, and `#` comes last. -/
def ValidLevels : List (List (BitVec 8)) → Prop
  | [] => True
  | f :: fs => (f = [hash] ∧ fs = [] ∨ f = [plus] ∨ plus ∉ f ∧ hash ∉ f) ∧ ValidLevels fs

instance decidableValidLevels : DecidablePred ValidLevels
  | [] => inferInstanceAs (Decidable True)
  | f :: fs =>
      have := decidableValidLevels fs
      inferInstanceAs (Decidable
        ((f = [hash] ∧ fs = [] ∨ f = [plus] ∨ plus ∉ f ∧ hash ∉ f) ∧ ValidLevels fs))

/-! ## One level after the other -/

@[simp] theorem isTopicMatched_nil_iff (name : List (BitVec 8)) :
    isTopicMatched [] name = true ↔ name = [] := by
  cases name <;> simp [isTopicMatched]

theorem isTopicMatched_cons_nil (f : BitVec 8) (fs : List (BitVec 8)) :
    isTopicMatched (f :: fs) [] = false := rfl

/-- A level without a wildcard has to stand in front of the name. -/
theorem isTopicMatched_literal {l : List (BitVec 8)} (hslash : slash ∉ l) (hplus : plus ∉ l)
    (hhash : hash ∉ l) (rest name : List (BitVec 8)) :
    isTopicMatched (l ++ rest) name = true ↔ ∃ t, name = l ++ t ∧ isTopicMatched rest t = true := by
  induction l generalizing name with
  | nil => simp
  | cons f l ih =>
    simp only [List.mem_cons, not_or] at hslash hplus hhash
    cases name with
    | nil => simp [isTopicMatched_cons_nil]
    | cons c cs =>
      have hnext : nextName f cs = cs := by
        rw [nextName, if_neg fun h => hplus.1 h.symm, if_neg fun h => hhash.1 h.symm]
      rw [List.cons_append, isTopicMatched]
      by_cases hstop : c = slash ∧ f ≠ slash
      · rw [if_pos hstop]
        have hne : f ≠ c := by
          rw [hstop.1]
          exact hstop.2
        simp [hne.symm]
      · by_cases hdiffer : f ≠ plus ∧ f ≠ hash ∧ f ≠ c
        · rw [if_neg hstop, if_pos hdiffer]
          simp [hdiffer.2.2.symm]
        · have hsame : f = c := by
            by_contra hne
            exact hdiffer ⟨fun h => hplus.1 h.symm, fun h => hhash.1 h.symm, hne⟩
          rw [if_neg hstop, if_neg hdiffer, hnext, ih hslash.2 hplus.2 hhash.2, hsame]
          simp

theorem isTopicMatched_slash (rest name : List (BitVec 8)) :
    isTopicMatched (slash :: rest) name = true ↔
      ∃ t, name = slash :: t ∧ isTopicMatched rest t = true := by
  cases name with
  | nil => simp [isTopicMatched_cons_nil]
  | cons c cs =>
    rw [isTopicMatched, if_neg (by simp)]
    by_cases hc : slash = c
    · rw [if_neg (by simp [hc]), nextName, if_neg (by decide), if_neg (by decide), ← hc]
      simp
    · rw [if_pos ⟨by decide, by decide, hc⟩]
      simp [Ne.symm hc]

/-- The first level of a name. -/
def front (name : List (BitVec 8)) : List (BitVec 8) := name.takeWhile (· ≠ slash)

/-- What stands from the slash behind the first level on. -/
def behind (name : List (BitVec 8)) : List (BitVec 8) := name.dropWhile (· ≠ slash)

theorem front_append_behind (name : List (BitVec 8)) : front name ++ behind name = name :=
  List.takeWhile_append_dropWhile

/-- There is nothing behind the first level, or a slash. -/
theorem behind_cases (name : List (BitVec 8)) :
    behind name = [] ∧ levels name = [front name] ∨
      ∃ t, behind name = slash :: t ∧ levels name = front name :: levels t := by
  induction name with
  | nil => exact .inl ⟨rfl, rfl⟩
  | cons c cs ih =>
    rw [levels, List.splitOn_cons_eq_if_modifyHead]
    by_cases hc : c = slash
    · refine .inr ⟨cs, ?_, ?_⟩
      · simp [behind, hc]
      · simp [front, hc]
    · have hfront : front (c :: cs) = c :: front cs := by simp [front, hc]
      have hbehind : behind (c :: cs) = behind cs := by simp [behind, hc]
      rw [if_neg (by simpa using hc), hfront, hbehind]
      rcases ih with ⟨hnil, hlevels⟩ | ⟨t, hcons, hlevels⟩
      · exact .inl ⟨hnil, by rw [← levels, hlevels]; rfl⟩
      · exact .inr ⟨t, hcons, by rw [← levels, hlevels]; rfl⟩

theorem front_append {n t : List (BitVec 8)} (hn : slash ∉ n) (ht : ∀ c ∈ t.head?, c = slash) :
    front (n ++ t) = n ∧ behind (n ++ t) = t := by
  have hall : ∀ c ∈ n, decide (c ≠ slash) = true := by
    intro c hc
    simpa using fun h : c = slash => hn (h ▸ hc)
  rw [front, behind, List.takeWhile_append_of_pos hall, List.dropWhile_append_of_pos hall]
  cases t with
  | nil => simp
  | cons c t =>
    obtain rfl := ht c rfl
    simp

/-- `+` stands for the first level, if it is not empty. -/
theorem isTopicMatched_plus (rest name : List (BitVec 8)) :
    isTopicMatched (plus :: rest) name = true ↔
      front name ≠ [] ∧ isTopicMatched rest (behind name) = true := by
  cases name with
  | nil => simp [isTopicMatched_cons_nil, front]
  | cons c cs =>
    rw [isTopicMatched]
    by_cases hc : c = slash
    · rw [if_pos ⟨hc, by decide⟩]
      simp [front, hc]
    · rw [if_neg fun h => hc h.1, if_neg fun h => h.1 rfl, nextName, if_pos rfl]
      simp [front, behind, hc]

/-- `#` stands for all of the name, if its first level is not empty. -/
theorem isTopicMatched_hash (name : List (BitVec 8)) :
    isTopicMatched [hash] name = true ↔ front name ≠ [] := by
  cases name with
  | nil => simp [isTopicMatched_cons_nil, front]
  | cons c cs =>
    rw [isTopicMatched]
    by_cases hc : c = slash
    · rw [if_pos ⟨hc, by decide⟩]
      simp [front, hc]
    · rw [if_neg fun h => hc h.1, if_neg fun h => h.2.1 rfl, nextName, if_neg (by decide),
        if_pos rfl]
      simp [front, hc]

/-- A filter without wildcards in its first level. -/
theorem isTopicMatched_level {l rest : List (BitVec 8)} (hslash : slash ∉ l) (hplus : plus ∉ l)
    (hhash : hash ∉ l) (hrest : rest = [] ∨ ∃ r, rest = slash :: r) (name : List (BitVec 8)) :
    isTopicMatched (l ++ rest) name = true ↔
      l = front name ∧ isTopicMatched rest (behind name) = true := by
  rw [isTopicMatched_literal hslash hplus hhash]
  constructor
  · rintro ⟨t, rfl, ht⟩
    have hhead : ∀ c ∈ t.head?, c = slash := by
      intro c hc
      rcases hrest with rfl | ⟨r, rfl⟩
      · rw [isTopicMatched_nil_iff] at ht
        simp [ht] at hc
      · obtain ⟨t', rfl, -⟩ := (isTopicMatched_slash r t).1 ht
        simpa using hc.symm
    obtain ⟨hfront, hbehind⟩ := front_append hslash hhead
    rw [hfront, hbehind]
    exact ⟨rfl, ht⟩
  · rintro ⟨rfl, hmatch⟩
    exact ⟨behind name, (front_append_behind name).symm, hmatch⟩

/-! ## All levels -/

/-- The text of some levels behind another one. -/
def tailText : List (List (BitVec 8)) → List (BitVec 8)
  | [] => []
  | f :: fs => slash :: (f ++ tailText fs)

theorem tailText_cases (fs : List (List (BitVec 8))) :
    tailText fs = [] ∨ ∃ r, tailText fs = slash :: r := by
  cases fs with
  | nil => exact .inl rfl
  | cons f fs => exact .inr ⟨_, rfl⟩

theorem intercalate_eq_tailText (f : List (BitVec 8)) (fs : List (List (BitVec 8))) :
    [slash].intercalate (f :: fs) = f ++ tailText fs := by
  induction fs generalizing f with
  | nil => simp [tailText]
  | cons g fs ih =>
    rw [List.intercalate_cons_cons, ih]
    simp [tailText]

/-- The first level of a filter, with the texts of the others behind it. -/
theorem isTopicMatched_first {f : List (BitVec 8)} {fs : List (List (BitVec 8))}
    (hslash : slash ∉ f)
    (hvalid : f = [hash] ∧ fs = [] ∨ f = [plus] ∨ plus ∉ f ∧ hash ∉ f) (name : List (BitVec 8)) :
    isTopicMatched (f ++ tailText fs) name = true ↔
      if f = [hash] then front name ≠ []
      else (if f = [plus] then front name ≠ [] else f = front name) ∧
        isTopicMatched (tailText fs) (behind name) = true := by
  rcases hvalid with ⟨rfl, rfl⟩ | rfl | ⟨hplus, hhash⟩
  · rw [if_pos rfl]
    exact isTopicMatched_hash name
  · rw [if_neg (by decide), if_pos rfl]
    exact isTopicMatched_plus _ name
  · have hhash' : f ≠ [hash] := by
      rintro rfl
      exact hhash (List.mem_singleton_self _)
    have hplus' : f ≠ [plus] := by
      rintro rfl
      exact hplus (List.mem_singleton_self _)
    rw [if_neg hhash', if_neg hplus']
    exact isTopicMatched_level hslash hplus hhash (tailText_cases fs) name

/-- What one level makes of a filter, where the others are known. -/
theorem covers_of_tail {f : List (BitVec 8)} {fs : List (List (BitVec 8))} (hslash : slash ∉ f)
    (hvalid : f = [hash] ∧ fs = [] ∨ f = [plus] ∨ plus ∉ f ∧ hash ∉ f) {name : List (BitVec 8)}
    {ls : List (List (BitVec 8))} (hlevels : levels name = front name :: ls)
    (htail : isTopicMatched (tailText fs) (behind name) = covers fs ls) :
    isTopicMatched (f ++ tailText fs) name = covers (f :: fs) (levels name) := by
  rw [Bool.eq_iff_iff, isTopicMatched_first hslash hvalid, htail, hlevels, covers]
  split
  · simp
  · split <;> simp

/-- The levels of a valid filter, one after the other. -/
theorem isTopicMatched_levels {f : List (BitVec 8)} {fs : List (List (BitVec 8))}
    (hslash : ∀ l ∈ f :: fs, slash ∉ l) (hvalid : ValidLevels (f :: fs)) (name : List (BitVec 8)) :
    isTopicMatched (f ++ tailText fs) name = covers (f :: fs) (levels name) := by
  have hfirst := hslash f List.mem_cons_self
  induction fs generalizing f name with
  | nil =>
    rcases behind_cases name with ⟨hbehind, hlevels⟩ | ⟨t, hbehind, hlevels⟩
    · exact covers_of_tail hfirst hvalid.1 hlevels (by rw [hbehind]; rfl)
    · refine covers_of_tail hfirst hvalid.1 hlevels ?_
      obtain ⟨n, ns, hne⟩ := List.exists_cons_of_ne_nil (List.splitOn_ne_nil slash t)
      rw [hbehind, levels, hne]
      rfl
  | cons g fs ih =>
    have hrest : ∀ l ∈ g :: fs, slash ∉ l := fun l hl => hslash l (List.mem_cons_of_mem f hl)
    rcases behind_cases name with ⟨hbehind, hlevels⟩ | ⟨t, hbehind, hlevels⟩
    · exact covers_of_tail hfirst hvalid.1 hlevels (by rw [hbehind]; rfl)
    · refine covers_of_tail hfirst hvalid.1 hlevels ?_
      rw [hbehind, tailText, Bool.eq_iff_iff, isTopicMatched_slash,
        ← ih hrest hvalid.2 t (hrest g List.mem_cons_self)]
      simp

theorem slash_notMem_levels {s l : List (BitVec 8)} (h : l ∈ levels s) : slash ∉ l := by
  induction s generalizing l with
  | nil =>
    obtain rfl : l = [] := by simpa using h
    exact List.not_mem_nil
  | cons c s ih =>
    rw [levels, List.splitOn_cons_eq_if_modifyHead] at h
    split at h
    · rcases List.mem_cons.1 h with rfl | hl
      · exact List.not_mem_nil
      · exact ih hl
    · next hc =>
      obtain ⟨n, ns, hne⟩ := List.exists_cons_of_ne_nil (List.splitOn_ne_nil slash s)
      rw [hne, List.modifyHead_cons] at h
      rcases List.mem_cons.1 h with rfl | hl
      · have hn : slash ∉ n := ih (by rw [levels, hne]; exact List.mem_cons_self)
        simpa [hn] using fun hslash : slash = c => hc (by simp [hslash])
      · exact ih (by rw [levels, hne]; exact List.mem_cons_of_mem n hl)

theorem isTopicMatched_eq {filter : List (BitVec 8)} (hvalid : ValidLevels (levels filter))
    (name : List (BitVec 8)) :
    isTopicMatched filter name = covers (levels filter) (levels name) := by
  have hslash : ∀ l ∈ levels filter, slash ∉ l := fun l hl => slash_notMem_levels hl
  have hjoin : [slash].intercalate (levels filter) = filter := List.intercalate_splitOn slash
  obtain ⟨f, fs, hlevels⟩ := List.exists_cons_of_ne_nil (List.splitOn_ne_nil slash filter)
  rw [levels] at *
  rw [hlevels] at hslash hjoin hvalid ⊢
  rw [intercalate_eq_tailText] at hjoin
  rw [← isTopicMatched_levels hslash hvalid, hjoin]

/-! ## The specification -/

/-- `'$'` -/
abbrev dollar : BitVec 8 := 0x24#8

/-- The filter begins with a wild card and the name with `$`, which MQTT keeps apart. -/
def Reserved (filter name : List (BitVec 8)) : Prop :=
  (filter.head? = some plus ∨ filter.head? = some hash) ∧ name.head? = some dollar

instance (filter name : List (BitVec 8)) : Decidable (Reserved filter name) :=
  inferInstanceAs (Decidable
    ((filter.head? = some plus ∨ filter.head? = some hash) ∧ name.head? = some dollar))

/-- The levels in MQTT: `+` stands for any level, and `#` for the level in front too. -/
def standardCovers : List (List (BitVec 8)) → List (List (BitVec 8)) → Bool
  | [], [] => true
  | f :: fs, ns =>
      if f = [hash] then true
      else
        match ns with
        | [] => false
        | n :: ns => decide (f = [plus] ∨ f = n) && standardCovers fs ns
  | [], _ :: _ => false

/-- The names that a filter of MQTT matches. -/
def standardMatches (filter name : List (BitVec 8)) : Bool :=
  !decide (Reserved filter name) && standardCovers (levels filter) (levels name)

/-- Apart from the names that are kept apart, MQTT matches by the levels. -/
theorem standardMatches_eq {filter name : List (BitVec 8)} (hfree : ¬ Reserved filter name) :
    standardMatches filter name = standardCovers (levels filter) (levels name) := by
  rw [standardMatches, decide_eq_false hfree, Bool.not_false, Bool.true_and]

theorem standardCovers_of_covers {fs ns : List (List (BitVec 8))} (h : covers fs ns = true) :
    standardCovers fs ns = true := by
  induction fs generalizing ns with
  | nil =>
    cases ns with
    | nil => rfl
    | cons n ns => cases h
  | cons f fs ih =>
    cases ns with
    | nil => cases h
    | cons n ns =>
      rw [covers] at h
      rw [standardCovers]
      split
      · rfl
      · next hhash =>
        rw [if_neg hhash] at h
        split at h
        · next hplus =>
          rw [Bool.and_eq_true] at h
          simp [hplus, ih h.2]
        · rw [Bool.and_eq_true, decide_eq_true_eq] at h
          simp [h.1, ih h.2]

theorem covers_of_standardCovers {fs ns : List (List (BitVec 8))} (hne : ∀ n ∈ ns, n ≠ [])
    (hlen : fs.length ≤ ns.length) (h : standardCovers fs ns = true) : covers fs ns = true := by
  induction fs generalizing ns with
  | nil =>
    cases ns with
    | nil => rfl
    | cons n ns => cases h
  | cons f fs ih =>
    cases ns with
    | nil => exact absurd hlen (Nat.not_succ_le_zero _)
    | cons n ns =>
      have hn := hne n List.mem_cons_self
      have hrest : standardCovers fs ns = true → covers fs ns = true :=
        ih (fun m hm => hne m (List.mem_cons_of_mem n hm)) (Nat.le_of_succ_le_succ hlen)
      rw [standardCovers] at h
      rw [covers]
      split
      · simpa using hn
      · next hhash =>
        rw [if_neg hhash, Bool.and_eq_true, decide_eq_true_eq] at h
        split
        · simp [hn, hrest h.2]
        · next hplus => simp [h.1.resolve_left hplus, hrest h.2]

/-- **A valid filter matches by its levels.** Where the filter does not begin with a wild card or
the name not with `$`, MQTT matches what the code does, and the other way round where no level of
the name is empty and the name has as many levels as the filter. -/
theorem isTopicMatched_standard {filter : List (BitVec 8)} (hvalid : ValidLevels (levels filter))
    (name : List (BitVec 8)) :
    isTopicMatched filter name = covers (levels filter) (levels name) ∧
      (¬ Reserved filter name → isTopicMatched filter name = true →
        standardMatches filter name = true) ∧
      (¬ Reserved filter name → (∀ n ∈ levels name, n ≠ []) →
        (levels filter).length ≤ (levels name).length →
          isTopicMatched filter name = standardMatches filter name) := by
  have heq := isTopicMatched_eq hvalid name
  refine ⟨heq, ?_, ?_⟩
  · intro hfree hmatch
    rw [standardMatches_eq hfree]
    exact standardCovers_of_covers (heq.symm.trans hmatch)
  · intro hfree hne hlen
    rw [heq, standardMatches_eq hfree, Bool.eq_iff_iff]
    exact ⟨standardCovers_of_covers, covers_of_standardCovers hne hlen⟩

/-- The filter `a/+/#`. -/
def someFilter : List (BitVec 8) := [0x61#8, slash, plus, slash, hash]

/-- Both match `a/+/#` with `a/b/c`, only MQTT with `a//c`, and only the code `#` with `$S`. -/
theorem isTopicMatched_standard_three :
    (isTopicMatched someFilter [0x61#8, slash, 0x62#8, slash, 0x63#8] = true ∧
      standardMatches someFilter [0x61#8, slash, 0x62#8, slash, 0x63#8] = true) ∧
    (isTopicMatched someFilter [0x61#8, slash, slash, 0x63#8] = false ∧
      standardMatches someFilter [0x61#8, slash, slash, 0x63#8] = true) ∧
    (isTopicMatched [hash] [dollar, 0x53#8] = true ∧
      standardMatches [hash] [dollar, 0x53#8] = false) := by
  have hmatch : isTopicMatched someFilter [0x61#8, slash, 0x62#8, slash, 0x63#8] = true := by decide
  have hvalid : ValidLevels (levels someFilter) := by decide
  obtain ⟨-, hstandard, -⟩ := isTopicMatched_standard hvalid [0x61#8, slash, 0x62#8, slash, 0x63#8]
  exact ⟨⟨hmatch, hstandard (by decide) hmatch⟩, ⟨by decide, by decide⟩, by decide, by decide⟩

end DraginoFwd.Mqtt

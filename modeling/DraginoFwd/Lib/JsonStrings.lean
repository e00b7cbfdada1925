import DraginoFwd.Lib.JsonReader
import Mathlib.Data.List.Count

/-!
# Strings and members of JSON texts

The reader of `Lib.JsonReader` keeps strings as they are written; `StandsFor` says which text a
string stands for, as bytes of UTF-8. A text that is printed between quotation marks without escapes
is read as itself only when all its characters are plain (`plain_of_standsFor`).

A member that has been read, of an object inside the outermost one, is a member of that object when
the machine has closed both (`run_closes_inner`).
-/

set_option autoImplicit false

namespace DraginoFwd.Lib.JsonReader

/-! ## What a string stands for -/

/-- The value of a hexadecimal digit. -/
def hexDigit (c : Char) : Option Nat :=
  if c.isDigit then some (c.toNat - 48)
  else if 'a' ≤ c && c ≤ 'f' then some (c.toNat - 87)
  else if 'A' ≤ c && c ≤ 'F' then some (c.toNat - 55)
  else none

/-- The number of four hexadecimal digits. -/
def hex4 (a b c d : Char) : Option Nat := do
  let a ← hexDigit a
  let b ← hexDigit b
  let c ← hexDigit c
  let d ← hexDigit d
  some (((a * 16 + b) * 16 + c) * 16 + d)

/-- The character behind a backslash. -/
def simpleEscape (c : Char) : Option Char :=
  if c = '"' || c = '\\' || c = '/' then some c
  else if c = 'b' then some '\x08'
  else if c = 'f' then some '\x0c'
  else if c = 'n' then some '\n'
  else if c = 'r' then some '\r'
  else if c = 't' then some '\t'
  else none

/-- The bytes of a code point in UTF-8. -/
def utf8 (n : Nat) : List Char :=
  let bytes :=
    if n < 0x80 then [n]
    else if n < 0x800 then [0xC0 + n / 64, 0x80 + n % 64]
    else if n < 0x10000 then [0xE0 + n / 4096, 0x80 + n / 64 % 64, 0x80 + n % 64]
    else [0xF0 + n / 262144, 0x80 + n / 4096 % 64, 0x80 + n / 64 % 64, 0x80 + n % 64]
  bytes.map Char.ofNat

/-- The first half of a surrogate pair. -/
def isHigh (n : Nat) : Prop := 0xD800 ≤ n ∧ n < 0xDC00

/-- The second half. -/
def isLow (n : Nat) : Prop := 0xDC00 ≤ n ∧ n < 0xE000

/-- What is written between the quotation marks, and the text that it stands for. -/
inductive StandsFor : List Char → List Char → Prop where
  | nil : StandsFor [] []
  | plain {c : Char} {body text : List Char} (hc : isPlain c = true) (h : StandsFor body text) :
      StandsFor (c :: body) (c :: text)
  | escape {c d : Char} {body text : List Char} (hc : simpleEscape c = some d)
      (h : StandsFor body text) : StandsFor ('\\' :: c :: body) (d :: text)
  | unicode {a b c d : Char} {n : Nat} {body text : List Char} (hn : hex4 a b c d = some n)
      (hhigh : ¬ isHigh n) (hlow : ¬ isLow n) (h : StandsFor body text) :
      StandsFor ('\\' :: 'u' :: a :: b :: c :: d :: body) (utf8 n ++ text)
  | pair {a b c d e f g i : Char} {n m : Nat} {body text : List Char} (hn : hex4 a b c d = some n)
      (hm : hex4 e f g i = some m) (hhigh : isHigh n) (hlow : isLow m) (h : StandsFor body text) :
      StandsFor ('\\' :: 'u' :: a :: b :: c :: d :: '\\' :: 'u' :: e :: f :: g :: i :: body)
        (utf8 (0x10000 + (n - 0xD800) * 1024 + (m - 0xDC00)) ++ text)

/-- Plain characters stand for themselves. -/
theorem standsFor_self {text : List Char} (h : ∀ c ∈ text, isPlain c = true) :
    StandsFor text text := by
  induction text with
  | nil => exact StandsFor.nil
  | cons c text ih =>
    exact StandsFor.plain (h c List.mem_cons_self) (ih fun d hd => h d (List.mem_cons_of_mem _ hd))

theorem length_utf8_le (n : Nat) : (utf8 n).length ≤ 4 := by
  rw [utf8, List.length_map]
  split
  · simp
  · split
    · simp
    · split <;> simp

theorem StandsFor.length_le {body text : List Char} (h : StandsFor body text) :
    text.length ≤ body.length := by
  induction h with
  | nil => exact le_rfl
  | plain _ _ ih => exact Nat.succ_le_succ ih
  | escape _ _ ih => exact Nat.le_succ_of_le (Nat.succ_le_succ ih)
  | @unicode _ _ _ _ n _ _ _ _ _ _ ih =>
    have hutf8 := length_utf8_le n
    simp only [List.length_append, List.length_cons]
    omega
  | @pair _ _ _ _ _ _ _ _ n m _ _ _ _ _ _ _ ih =>
    have hutf8 := length_utf8_le (0x10000 + (n - 0xD800) * 1024 + (m - 0xDC00))
    simp only [List.length_append, List.length_cons]
    omega

/-- An escape is longer than what it stands for. -/
theorem StandsFor.eq_of_length {body text : List Char} (h : StandsFor body text)
    (hlen : text.length = body.length) : body = text ∧ ∀ c ∈ text, isPlain c = true := by
  induction h with
  | nil => exact ⟨rfl, fun c hc => absurd hc List.not_mem_nil⟩
  | plain hc _ ih =>
    obtain ⟨rfl, hplain⟩ := ih (Nat.succ.inj hlen)
    exact ⟨rfl, List.forall_mem_cons.2 ⟨hc, hplain⟩⟩
  | escape _ h _ =>
    have hle := h.length_le
    simp only [List.length_cons] at hlen
    omega
  | @unicode _ _ _ _ n _ _ _ _ _ h _ =>
    have hle := h.length_le
    have hutf8 := length_utf8_le n
    simp only [List.length_append, List.length_cons] at hlen
    omega
  | @pair _ _ _ _ _ _ _ _ n m _ _ _ _ _ _ h _ =>
    have hle := h.length_le
    have hutf8 := length_utf8_le (0x10000 + (n - 0xD800) * 1024 + (m - 0xDC00))
    simp only [List.length_append, List.length_cons] at hlen
    omega

/-- There is no quotation mark in a number. -/
theorem count_quote_hex4 {a b c d : Char} {n : Nat} (h : hex4 a b c d = some n) (body : List Char) :
    ('\\' :: 'u' :: a :: b :: c :: d :: body).count '"' = body.count '"' := by
  have hquote : ∀ {e : Char} {x : Nat}, hexDigit e = some x → e ≠ '"' := by
    rintro e x hx rfl
    cases hx
  obtain ⟨_, ha, h⟩ := Option.bind_eq_some_iff.1 h
  obtain ⟨_, hb, h⟩ := Option.bind_eq_some_iff.1 h
  obtain ⟨_, hc, h⟩ := Option.bind_eq_some_iff.1 h
  obtain ⟨_, hd, -⟩ := Option.bind_eq_some_iff.1 h
  rw [List.count_cons_of_ne (by decide), List.count_cons_of_ne (by decide),
    List.count_cons_of_ne (hquote ha), List.count_cons_of_ne (hquote hb),
    List.count_cons_of_ne (hquote hc), List.count_cons_of_ne (hquote hd)]

/-- A quotation mark inside a string is escaped and stands for itself. -/
theorem StandsFor.count_quote_le {body text : List Char} (h : StandsFor body text) :
    body.count '"' ≤ text.count '"' := by
  induction h with
  | nil => exact le_rfl
  | plain _ _ ih =>
    rw [List.count_cons, List.count_cons]
    omega
  | @escape c d body text hc _ ih =>
    rw [List.count_cons_of_ne (by decide)]
    by_cases hquote : c = '"'
    · subst hquote
      cases hc
      rw [List.count_cons_self, List.count_cons_self]
      omega
    · rw [List.count_cons_of_ne hquote]
      exact ih.trans (List.count_le_count_cons)
  | unicode hn _ _ _ ih =>
    rw [count_quote_hex4 hn, List.count_append]
    omega
  | pair hn hm _ _ _ ih =>
    rw [count_quote_hex4 hn, count_quote_hex4 hm, List.count_append]
    omega

/-- A text between quotation marks that is read as itself is plain, wherever the reader takes the
string to end. -/
theorem plain_of_standsFor {text body tail rest : List Char}
    (hsplit : text ++ '"' :: tail = body ++ '"' :: rest) (h : StandsFor body text) :
    body = text ∧ tail = rest ∧ ∀ c ∈ text, isPlain c = true := by
  have hle := h.length_le
  rcases List.append_eq_append_iff.1 hsplit with ⟨more, rfl, hmore⟩ | ⟨more, rfl, hmore⟩
  · cases more with
    | nil =>
      obtain ⟨-, hplain⟩ := h.eq_of_length (by simp)
      exact ⟨List.append_nil _, (List.cons.inj hmore).2, hplain⟩
    | cons c more =>
      -- a string that ends further on would have one quotation mark less than it stands for
      exfalso
      have hcount := h.count_quote_le
      rw [(List.cons.inj hmore).1.symm, List.count_append, List.count_cons_self] at hcount
      omega
  · rw [List.length_append] at hle
    have hnil : more = [] := List.length_eq_zero_iff.1 (by omega)
    subst hnil
    obtain ⟨-, hplain⟩ := h.eq_of_length (by simp)
    exact ⟨(List.append_nil _).symm, (List.cons.inj hmore).2.symm, hplain⟩

/-! ## The end of a string -/

/-- A string that starts where a value may stand. -/
theorem run_open_string (text : List Char) (k : List Frame) (rest : List Char) :
    run ⟨.value, k⟩ (quoted text ++ rest) =
      run ⟨.string false [] .plain, k⟩ (text ++ '"' :: rest) := by
  have hopen : step ⟨.value, k⟩ '"' = some ⟨.string false [] .plain, k⟩ := by
    cases k <;> rfl
  rw [quoted, List.cons_append, List.cons_append, List.append_assoc, run, hopen]
  rfl

/-- Every character but an end is added to the string, or kills it. -/
theorem step_string (body : List Char) (st : StrState) (k : List Frame) (c : Char) :
    (st = .plain ∧ c = '"') ∨ step ⟨.string false body st, k⟩ c = none ∨
      ∃ st', step ⟨.string false body st, k⟩ c = some ⟨.string false (body ++ [c]) st', k⟩ := by
  have hstack : k.head?.toList ++ k.tail = k := by
    cases k <;> rfl
  have hstep : step ⟨.string false body st, k⟩ c =
      (stringStep false body st k.head? c).map fun r => ⟨r.1, r.2 ++ k.tail⟩ := rfl
  rw [hstep]
  cases st with
  | plain =>
    by_cases hquote : c = '"'
    · exact Or.inl ⟨rfl, hquote⟩
    · right
      rw [stringStep, if_neg hquote]
      split
      · exact Or.inr ⟨.escape, by rw [Option.map_some, hstack]⟩
      · split
        · exact Or.inr ⟨.plain, by rw [Option.map_some, hstack]⟩
        · exact Or.inl rfl
  | escape =>
    right
    rw [stringStep]
    split
    · exact Or.inr ⟨.hex 4, by rw [Option.map_some, hstack]⟩
    · split
      · exact Or.inr ⟨.plain, by rw [Option.map_some, hstack]⟩
      · exact Or.inl rfl
  | hex left =>
    right
    rw [stringStep]
    split
    · exact Or.inr ⟨_, by rw [Option.map_some, hstack]⟩
    · exact Or.inl rfl

/-- A string that does not reach to the end of the text has one of its own. -/
theorem run_string_end {body : List Char} {st : StrState} {k : List Frame} {input : List Char}
    {t : State} (h : run ⟨.string false body st, k⟩ input = some t)
    (hend : ∀ body st, t.mode ≠ .string false body st) :
    ∃ more rest, input = more ++ '"' :: rest ∧
      run ⟨.after (.str (body ++ more)), k⟩ rest = some t := by
  induction input generalizing body st with
  | nil =>
    cases h
    exact absurd rfl (hend body st)
  | cons c input ih =>
    rw [run] at h
    rcases step_string body st k c with ⟨rfl, rfl⟩ | hnone | ⟨st', hnext⟩
    · have hclose : step ⟨.string false body .plain, k⟩ '"' = some ⟨.after (.str body), k⟩ := by
        cases k <;> rfl
      rw [hclose] at h
      refine ⟨[], input, rfl, ?_⟩
      rwa [List.append_nil]
    · rw [hnone] at h
      cases h
    · rw [hnext] at h
      obtain ⟨more, rest, rfl, hafter⟩ := ih h
      refine ⟨c :: more, rest, rfl, ?_⟩
      rwa [List.append_assoc] at hafter

/-! ## Members of an object inside another one -/

/-- The first member of the outermost object is `name`, and its value is an object that begins with
the members: the last of them has just been read, the inner object is open or has just been closed,
or the outer object goes on or is closed. -/
inductive Inner (name : List Char) (before : List (List Char × Json)) : State → Prop where
  | last {members : List (List Char × Json)} {next : List Char} {v : Json}
      (h : before = members ++ [(next, v)]) :
      Inner name before ⟨.after v, [.obj members next, .obj [] name]⟩
  | inside (mode : Mode) (k : List Frame) (members : List (List Char × Json)) (next : List Char) :
      Inner name before ⟨mode, k ++ [.obj (before ++ members) next, .obj [] name]⟩
  | closed (members : List (List Char × Json)) :
      Inner name before ⟨.after (.obj (before ++ members)), [.obj [] name]⟩
  | under {members : List (List Char × Json)} {s t : State}
      (h : Under [(name, .obj (before ++ members))] s t) : Inner name before t

section Inner

variable {name : List Char} {before : List (List Char × Json)}

/-- A step behind a value: nothing happens at a blank, and else the value becomes a member. -/
theorem step_after {v : Json} {members : List (List Char × Json)} {next : List Char}
    {k : List Frame}
    {c : Char} {t : State} (h : step ⟨.after v, .obj members next :: k⟩ c = some t) :
    t = ⟨.after v, .obj members next :: k⟩ ∨
      t = ⟨.name, .obj (members ++ [(next, v)]) [] :: k⟩ ∨
      t = ⟨.after (.obj (members ++ [(next, v)])), k⟩ := by
  have hstep : step ⟨.after v, .obj members next :: k⟩ c =
      (afterValue v (some (.obj members next)) c).map fun r => ⟨r.1, r.2 ++ k⟩ := rfl
  rw [hstep, afterValue] at h
  split at h
  · cases h
    exact Or.inl rfl
  · split at h
    · cases h
      exact Or.inr (Or.inl rfl)
    · split at h
      · cases h
        exact Or.inr (Or.inr rfl)
      · cases h

theorem Inner.step {s t : State} {c : Char} (h : Inner name before s)
    (hstep : JsonReader.step s c = some t) : Inner name before t := by
  cases h with
  | @last members next v hbefore =>
    subst hbefore
    rcases step_after hstep with rfl | rfl | rfl
    · exact Inner.last rfl
    · have hinside := @Inner.inside name (members ++ [(next, v)]) .name [] [] []
      rwa [List.append_nil] at hinside
    · have hclosed := @Inner.closed name (members ++ [(next, v)]) []
      rwa [List.append_nil] at hclosed
  | inside mode k members next =>
    obtain ⟨r, hlocal, rfl⟩ := Option.map_eq_some_iff.1 hstep
    cases k with
    | nil =>
      -- the inner object itself goes on or is closed
      cases localStep_effect hlocal with
      | keep _ _ => exact Inner.inside _ [] members next
      | push mode' _ g => exact Inner.inside mode' [g] members next
      | named _ _ text _ => exact Inner.inside _ [] members text
      | member _ _ v =>
        have hinside := @Inner.inside name before .name [] (members ++ [(next, v)]) []
        rwa [← List.append_assoc] at hinside
      | closeObj _ _ v =>
        have hclosed := @Inner.closed name before (members ++ [(next, v)])
        rwa [← List.append_assoc] at hclosed
      | closeEmpty _ _ _ => exact Inner.closed members
    | cons f k =>
      -- a value inside one of its members
      cases localStep_effect hlocal with
      | keep _ _ => exact Inner.inside _ (f :: k) members next
      | push mode' _ g => exact Inner.inside mode' (g :: f :: k) members next
      | item items v => exact Inner.inside _ (.arr (items ++ [v]) :: k) members next
      | member own own' v => exact Inner.inside _ (.obj (own ++ [(own', v)]) [] :: k) members next
      | named own _ text _ => exact Inner.inside _ (.obj own text :: k) members next
      | closeArr _ _ => exact Inner.inside _ k members next
      | closeObj _ _ _ => exact Inner.inside _ k members next
      | closeEmpty _ _ _ => exact Inner.inside _ k members next
  | closed members =>
    rcases step_after hstep with rfl | rfl | rfl
    · exact Inner.closed members
    · exact Inner.under (Under.inside .name [] [] [])
    · exact Inner.under (Under.closed [])
  | under hunder =>
    rcases under_step hunder c with ⟨-, hnone⟩ | ⟨s', t', -, ht, hunder'⟩
    · rw [hnone] at hstep
      cases hstep
    · rw [ht] at hstep
      cases hstep
      exact Inner.under hunder'

theorem Inner.run {s t : State} (h : Inner name before s) {text : List Char}
    (hrun : JsonReader.run s text = some t) : Inner name before t := by
  induction text generalizing s with
  | nil =>
    cases hrun
    exact h
  | cons c text ih =>
    rw [JsonReader.run] at hrun
    cases hstep : JsonReader.step s c with
    | none =>
      rw [hstep] at hrun
      cases hrun
    | some s' =>
      rw [hstep] at hrun
      exact ih (h.step hstep) hrun

end Inner

/-- The members of the inner object so far, and the value just read, are its first members when both
objects are closed. -/
theorem run_closes_inner {name next : List Char} {v : Json} {members own : List (List Char × Json)}
    {text : List Char}
    (h : run ⟨.after v, [.obj members next, .obj [] name]⟩ text =
      some ⟨.after (.obj [(name, .obj own)]), []⟩) :
    ∃ more, own = (members ++ [(next, v)]) ++ more := by
  have hinner := (@Inner.last name _ members next v rfl).run h
  generalize hs : (⟨.after (.obj [(name, .obj own)]), []⟩ : State) = s at hinner
  cases hinner with
  | last _ => cases hs
  | inside mode k members' next' =>
    injection hs with _ hstack
    exact absurd hstack.symm (List.append_ne_nil_of_right_ne_nil _ (List.cons_ne_nil _ _))
  | closed _ =>
    injection hs with _ hstack
    cases hstack
  | @under members' _ _ hunder =>
    cases hunder with
    | inside mode k _ _ =>
      injection hs with _ hstack
      exact absurd hstack.symm (List.append_ne_nil_of_right_ne_nil _ (List.cons_ne_nil _ _))
    | closed _ =>
      injection hs with hmode _
      injection hmode with hobj
      injection hobj with hmembers
      injection (List.cons.inj hmembers).1 with _ hvalue
      injection hvalue with hown
      exact ⟨members', hown⟩

end DraginoFwd.Lib.JsonReader

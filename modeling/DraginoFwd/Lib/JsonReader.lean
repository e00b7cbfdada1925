import Mathlib.Data.List.Basic
import Mathlib.Data.Option.Basic
import Mathlib.Tactic.IntervalCases

/-!
# A JSON reader

`parse` reads a text as one JSON value, by a machine that takes one character at a time: the mode
says what may come next, and the stack holds the arrays and objects that are open. Numbers and
strings are kept as they are written. A text that is not JSON has no value.

Since the machine goes on from where a text ends (`run_append`), a text that is put together from
pieces is read piece by piece: `Reads text v` says that a text is read as the value `v` wherever a
value may stand, `run_next_field` adds a member to an object, and a dead text stays dead. What is
read inside an object does not depend on the members before (`under_run`).
-/

set_option autoImplicit false

namespace DraginoFwd.Lib.JsonReader

/-! ## Values and the machine -/

/-- A JSON value. -/
inductive Json where
  | null
  | bool (b : Bool)
  | num (text : List Char)
  | str (text : List Char)
  | arr (items : List Json)
  | obj (members : List (List Char × Json))

/-- An array with the values so far, or an object with the members so far and the name of the
next. -/
inductive Frame where
  | arr (items : List Json)
  | obj (members : List (List Char × Json)) (name : List Char)

/-- What of a number has been read. -/
inductive NumState where
  | minus
  | zero
  | int
  | dot
  | frac
  | exp
  | expSign
  | expDigits

/-- Where a string stands: between characters, behind a backslash, or before hexadecimal digits. -/
inductive StrState where
  | plain
  | escape
  | hex (left : Nat)

/-- What may come next: a value; a value or the end of the array just opened; a name; a name or the
end of the object just opened; a colon; what follows a value; or the rest of a string, a number or
a literal. -/
inductive Mode where
  | value
  | firstValue
  | name
  | firstName
  | colon
  | after (v : Json)
  | string (isName : Bool) (text : List Char) (st : StrState)
  | number (text : List Char) (st : NumState)
  | literal (rest : List Char) (v : Json)

/-- The mode and the open arrays and objects, the innermost first. -/
structure State where
  mode : Mode
  stack : List Frame

/-- White space. -/
def isWs (c : Char) : Bool := c = ' ' || c = '\t' || c = '\n' || c = '\r'

/-- One more character of a number. -/
def numStep (st : NumState) (c : Char) : Option NumState :=
  match st with
  | .minus => if c = '0' then some .zero else if c.isDigit then some .int else none
  | .zero => if c = '.' then some .dot else if c = 'e' || c = 'E' then some .exp else none
  | .int =>
      if c.isDigit then some .int
      else if c = '.' then some .dot
      else if c = 'e' || c = 'E' then some .exp else none
  | .dot => if c.isDigit then some .frac else none
  | .frac => if c.isDigit then some .frac else if c = 'e' || c = 'E' then some .exp else none
  | .exp =>
      if c.isDigit then some .expDigits else if c = '+' || c = '-' then some .expSign else none
  | .expSign => if c.isDigit then some .expDigits else none
  | .expDigits => if c.isDigit then some .expDigits else none

/-- A number may end here. -/
def NumState.final : NumState → Bool
  | .zero => true
  | .int => true
  | .frac => true
  | .expDigits => true
  | _ => false

/-- A character of a string that stands for itself. -/
def isPlain (c : Char) : Bool := c ≠ '"' && c ≠ '\\' && 0x20 ≤ c.toNat

/-- A character that stands behind a backslash. -/
def isEscaped (c : Char) : Bool :=
  c = '"' || c = '\\' || c = '/' || c = 'b' || c = 'f' || c = 'n' || c = 'r' || c = 't'

/-- A hexadecimal digit. -/
def isHexDigit (c : Char) : Bool :=
  c.isDigit || ('a' ≤ c && c ≤ 'f') || ('A' ≤ c && c ≤ 'F')

/-- The first character of a value: the mode, and what it opens. -/
def startValue (c : Char) : Option (Mode × List Frame) :=
  if c = '{' then some (.firstName, [.obj [] []])
  else if c = '[' then some (.firstValue, [.arr []])
  else if c = '"' then some (.string false [] .plain, [])
  else if c = 't' then some (.literal "rue".toList (.bool true), [])
  else if c = 'f' then some (.literal "alse".toList (.bool false), [])
  else if c = 'n' then some (.literal "ull".toList .null, [])
  else if c = '-' then some (.number [c] .minus, [])
  else if c = '0' then some (.number [c] .zero, [])
  else if c.isDigit then some (.number [c] .int, [])
  else none

/-- A character behind the value `v`: the mode, and what becomes of the innermost frame. -/
def afterValue (v : Json) (top : Option Frame) (c : Char) : Option (Mode × List Frame) :=
  if isWs c then some (.after v, top.toList)
  else
    match top with
    | none => none
    | some (.arr items) =>
        if c = ',' then some (.value, [.arr (items ++ [v])])
        else if c = ']' then some (.after (.arr (items ++ [v])), [])
        else none
    | some (.obj members name) =>
        if c = ',' then some (.name, [.obj (members ++ [(name, v)]) []])
        else if c = '}' then some (.after (.obj (members ++ [(name, v)])), [])
        else none

/-- The end of a string. -/
def endString (isName : Bool) (text : List Char) (top : Option Frame) :
    Option (Mode × List Frame) :=
  match isName, top with
  | false, _ => some (.after (.str text), top.toList)
  | true, some (.obj members _) => some (.colon, [.obj members text])
  | true, _ => none

/-- A character of a string. -/
def stringStep (isName : Bool) (text : List Char) (st : StrState) (top : Option Frame)
    (c : Char) : Option (Mode × List Frame) :=
  match st with
  | .plain =>
      if c = '"' then endString isName text top
      else if c = '\\' then some (.string isName (text ++ [c]) .escape, top.toList)
      else if isPlain c then some (.string isName (text ++ [c]) .plain, top.toList)
      else none
  | .escape =>
      if c = 'u' then some (.string isName (text ++ [c]) (.hex 4), top.toList)
      else if isEscaped c then some (.string isName (text ++ [c]) .plain, top.toList)
      else none
  | .hex left =>
      if isHexDigit c then
        some (.string isName (text ++ [c]) (if left ≤ 1 then .plain else .hex (left - 1)),
          top.toList)
      else none

/-- One character: the new mode, and what becomes of the innermost frame. -/
def localStep (mode : Mode) (top : Option Frame) (c : Char) : Option (Mode × List Frame) :=
  match mode with
  | .value =>
      if isWs c then some (.value, top.toList)
      else (startValue c).map fun r => (r.1, r.2 ++ top.toList)
  | .firstValue =>
      if isWs c then some (.firstValue, top.toList)
      else if c = ']' then
        match top with
        | some (.arr _) => some (.after (.arr []), [])
        | _ => none
      else (startValue c).map fun r => (r.1, r.2 ++ top.toList)
  | .name =>
      if isWs c then some (.name, top.toList)
      else if c = '"' then some (.string true [] .plain, top.toList)
      else none
  | .firstName =>
      if isWs c then some (.firstName, top.toList)
      else if c = '}' then
        match top with
        | some (.obj members _) => some (.after (.obj members), [])
        | _ => none
      else if c = '"' then some (.string true [] .plain, top.toList)
      else none
  | .colon =>
      if isWs c then some (.colon, top.toList)
      else if c = ':' then some (.value, top.toList)
      else none
  | .after v => afterValue v top c
  | .string isName text st => stringStep isName text st top c
  | .number text st =>
      match numStep st c with
      | some st' => some (.number (text ++ [c]) st', top.toList)
      | none => if st.final then afterValue (.num text) top c else none
  | .literal rest v =>
      match rest with
      | [] => none
      | r :: rest' =>
          if c = r then some (if rest' = [] then .after v else .literal rest' v, top.toList)
          else none

/-- One character: what its mode makes of it, and the rest of the stack as it is. -/
def step (s : State) (c : Char) : Option State :=
  (localStep s.mode s.stack.head? c).map fun r => ⟨r.1, r.2 ++ s.stack.tail⟩

/-- The machine on a text. -/
def run (s : State) : List Char → Option State
  | [] => some s
  | c :: cs =>
      match step s c with
      | none => none
      | some t => run t cs

/-- The value that a text is read as. -/
def parse (text : List Char) : Option Json :=
  match run ⟨.value, []⟩ text with
  | some ⟨.after v, []⟩ => some v
  | some ⟨.number digits st, []⟩ => if st.final then some (.num digits) else none
  | _ => none

example : (parse "\x7b\"a\":[1, -2.5e3,\"\\u00e9\"],\"b\":null\x7d".toList).isSome = true := by
  decide

example : (parse "[01]".toList).isNone = true := by decide

/-! ## Texts in pieces -/

@[simp] theorem run_nil (s : State) : run s [] = some s := rfl

theorem run_append (s : State) (xs ys : List Char) :
    run s (xs ++ ys) = (run s xs).bind fun t => run t ys := by
  induction xs generalizing s with
  | nil => rfl
  | cons c cs ih =>
    rw [List.cons_append, run, run]
    cases step s c with
    | none => rfl
    | some t => exact ih t

theorem run_append_some {s t : State} {xs : List Char} (h : run s xs = some t) (ys : List Char) :
    run s (xs ++ ys) = run t ys := by
  rw [run_append, h]
  rfl

/-- A dead text stays dead. -/
theorem run_append_none {s : State} {xs : List Char} (h : run s xs = none) (ys : List Char) :
    run s (xs ++ ys) = none := by
  rw [run_append, h]
  rfl

/-- A text is an object when the machine has closed it. -/
theorem parse_eq_obj_iff {text : List Char} {members : List (List Char × Json)} :
    parse text = some (.obj members) ↔
      run ⟨.value, []⟩ text = some ⟨.after (.obj members), []⟩ := by
  rw [parse]
  constructor
  · intro h
    split at h
    · next v hrun =>
      cases h
      exact hrun
    · split at h <;> cases h
    · cases h
  · intro h
    rw [h]

/-- The text goes on with a comma or a bracket that closes. -/
inductive Closes : List Char → Prop where
  | comma (rest : List Char) : Closes (',' :: rest)
  | bracket (rest : List Char) : Closes (']' :: rest)
  | brace (rest : List Char) : Closes ('}' :: rest)

/-- A text is read as `v` wherever a value may stand. -/
def Reads (text : List Char) (v : Json) : Prop :=
  ∀ k rest, Closes rest → run ⟨.value, k⟩ (text ++ rest) = run ⟨.after v, k⟩ rest

/-- A text cannot stand where a value stands. -/
def Dead (text : List Char) : Prop :=
  ∀ k rest, run ⟨.value, k⟩ (text ++ rest) = none

theorem plain_of_all {text : List Char} (h : text.all isPlain = true) :
    ∀ c ∈ text, isPlain c = true := List.all_eq_true.1 h

/-- Plain characters of a string. -/
theorem run_plain {cs : List Char} (h : ∀ c ∈ cs, isPlain c = true) (isName : Bool)
    (text : List Char) (k : List Frame) (rest : List Char) :
    run ⟨.string isName text .plain, k⟩ (cs ++ rest) =
      run ⟨.string isName (text ++ cs) .plain, k⟩ rest := by
  induction cs generalizing text with
  | nil => rw [List.nil_append, List.append_nil]
  | cons c cs ih =>
    have hc := h c List.mem_cons_self
    have hne : c ≠ '"' ∧ c ≠ '\\' := by
      simp only [isPlain, Bool.and_eq_true, decide_eq_true_eq] at hc
      exact hc.1
    have hstep : step ⟨.string isName text .plain, k⟩ c =
        some ⟨.string isName (text ++ [c]) .plain, k⟩ := by
      cases k <;> simp [step, localStep, stringStep, hne, hc]
    rw [List.cons_append, run, hstep]
    show run ⟨.string isName (text ++ [c]) .plain, k⟩ (cs ++ rest) = _
    rw [ih (fun c' hc' => h c' (List.mem_cons_of_mem _ hc')), List.append_assoc]
    rfl

/-- The text of a string. -/
def quoted (text : List Char) : List Char := '"' :: text ++ ['"']

/-- A string is read whatever comes behind it. -/
theorem run_quoted {text : List Char} (h : ∀ c ∈ text, isPlain c = true) (k : List Frame)
    (rest : List Char) :
    run ⟨.value, k⟩ (quoted text ++ rest) = run ⟨.after (.str text), k⟩ rest := by
  have hopen : step ⟨.value, k⟩ '"' = some ⟨.string false [] .plain, k⟩ := by
    cases k <;> rfl
  have hclose : step ⟨.string false text .plain, k⟩ '"' = some ⟨.after (.str text), k⟩ := by
    cases k <;> rfl
  rw [quoted, List.cons_append, List.cons_append, List.append_assoc, run, hopen]
  show run ⟨.string false [] .plain, k⟩ (text ++ (['"'] ++ rest)) = _
  rw [run_plain h, List.nil_append, List.cons_append, run, hclose]
  rfl

theorem reads_quoted {text : List Char} (h : ∀ c ∈ text, isPlain c = true) :
    Reads (quoted text) (.str text) := fun k rest _ => run_quoted h k rest

/-! ## Numbers -/

/-- More characters of a number. -/
def numRun (st : NumState) : List Char → Option NumState
  | [] => some st
  | c :: cs =>
      match numStep st c with
      | none => none
      | some st' => numRun st' cs

/-- The first character of a number. -/
def startNum (c : Char) : Option NumState :=
  if c = '-' then some .minus else numStep .minus c

/-- The texts of JSON numbers. -/
def IsNumber : List Char → Prop
  | [] => False
  | c :: cs => ∃ st0 st, startNum c = some st0 ∧ numRun st0 cs = some st ∧ st.final = true

theorem numRun_append {st st' : NumState} {xs : List Char} (h : numRun st xs = some st')
    (ys : List Char) : numRun st (xs ++ ys) = numRun st' ys := by
  induction xs generalizing st with
  | nil =>
    cases h
    rfl
  | cons c cs ih =>
    rw [numRun] at h
    rw [List.cons_append, numRun]
    cases hstep : numStep st c with
    | none =>
      rw [hstep] at h
      cases h
    | some st1 =>
      rw [hstep] at h
      exact ih h

theorem ne_of_isDigit {c d : Char} (hc : c.isDigit = true) (hd : d.isDigit = false) : c ≠ d := by
  rintro rfl
  rw [hc] at hd
  cases hd

/-- A character that starts a number starts no other value. -/
theorem step_startNum {c : Char} {st : NumState} (h : startNum c = some st) (k : List Frame) :
    step ⟨.value, k⟩ c = some ⟨.number [c] st, k⟩ := by
  have hcases : c = '-' ∧ st = .minus ∨ c.isDigit = true ∧
      st = (if c = '0' then .zero else .int) := by
    unfold startNum at h
    by_cases hminus : c = '-'
    · rw [if_pos hminus] at h
      cases h
      exact Or.inl ⟨hminus, rfl⟩
    · rw [if_neg hminus, numStep] at h
      by_cases hzero : c = '0'
      · rw [if_pos hzero] at h
        cases h
        exact Or.inr ⟨by rw [hzero]; rfl, by rw [if_pos hzero]⟩
      · rw [if_neg hzero] at h
        by_cases hdigit : c.isDigit = true
        · rw [if_pos hdigit] at h
          cases h
          exact Or.inr ⟨hdigit, by rw [if_neg hzero]⟩
        · rw [if_neg hdigit] at h
          cases h
  rcases hcases with ⟨rfl, rfl⟩ | ⟨hdigit, rfl⟩
  · cases k <;> rfl
  · have hne : ∀ d : Char, d.isDigit = false → c ≠ d := fun d hd => ne_of_isDigit hdigit hd
    have hws : isWs c = false := by
      simp [isWs, hne ' ' rfl, hne '\t' rfl, hne '\n' rfl, hne '\r' rfl]
    have hstart : startValue c = some (.number [c] (if c = '0' then .zero else .int), []) := by
      simp only [startValue, if_neg (hne '{' rfl), if_neg (hne '[' rfl), if_neg (hne '"' rfl),
        if_neg (hne 't' rfl), if_neg (hne 'f' rfl), if_neg (hne 'n' rfl), if_neg (hne '-' rfl)]
      by_cases hzero : c = '0'
      · simp [hzero]
      · simp [hzero, hdigit]
    cases k <;> simp [step, localStep, hws, hstart]

theorem run_number {st st' : NumState} {cs : List Char} (h : numRun st cs = some st')
    (text : List Char) (k : List Frame) (rest : List Char) :
    run ⟨.number text st, k⟩ (cs ++ rest) = run ⟨.number (text ++ cs) st', k⟩ rest := by
  induction cs generalizing st text with
  | nil =>
    cases h
    rw [List.nil_append, List.append_nil]
  | cons c cs ih =>
    rw [numRun] at h
    cases hnum : numStep st c with
    | none =>
      rw [hnum] at h
      cases h
    | some st1 =>
      rw [hnum] at h
      have hstep : step ⟨.number text st, k⟩ c = some ⟨.number (text ++ [c]) st1, k⟩ := by
        cases k <;> simp [step, localStep, hnum]
      rw [List.cons_append, run, hstep]
      show run ⟨.number (text ++ [c]) st1, k⟩ (cs ++ rest) = _
      rw [ih h, List.append_assoc]
      rfl

/-- A comma or a closing bracket ends a number. -/
theorem run_number_closes {st : NumState} (hfinal : st.final = true) (text : List Char)
    (k : List Frame) {rest : List Char} (hrest : Closes rest) :
    run ⟨.number text st, k⟩ rest = run ⟨.after (.num text), k⟩ rest := by
  have hstep : ∀ c : Char, numStep st c = none →
      step ⟨.number text st, k⟩ c = step ⟨.after (.num text), k⟩ c := by
    intro c hnum
    simp [step, localStep, hnum, hfinal]
  cases hrest with
  | comma rest => rw [run, run, hstep ',' (by cases st <;> rfl)]
  | bracket rest => rw [run, run, hstep ']' (by cases st <;> rfl)]
  | brace rest => rw [run, run, hstep '}' (by cases st <;> rfl)]

theorem reads_number {text : List Char} (h : IsNumber text) : Reads text (.num text) := by
  intro k rest hrest
  cases text with
  | nil => exact absurd h id
  | cons c cs =>
    obtain ⟨st0, st, hstart, hrun, hfinal⟩ := h
    rw [List.cons_append, run, step_startNum hstart]
    show run ⟨.number [c] st0, k⟩ (cs ++ rest) = _
    rw [run_number hrun, run_number_closes hfinal _ _ hrest]
    rfl

theorem numRun_digits {st : NumState} (hst : ∀ c : Char, c.isDigit = true → numStep st c = some st)
    {cs : List Char} (h : ∀ c ∈ cs, c.isDigit = true) : numRun st cs = some st := by
  induction cs with
  | nil => rfl
  | cons c cs ih =>
    rw [numRun, hst c (h c List.mem_cons_self)]
    exact ih fun c' hc' => h c' (List.mem_cons_of_mem _ hc')

theorem numRun_toDigits {n : Nat} (hn : 0 < n) :
    numRun .minus (Nat.toDigits 10 n) = some .int := by
  induction n using Nat.strong_induction_on with
  | _ n ih =>
    rcases Nat.lt_or_ge n 10 with hlt | hge
    · rw [Nat.toDigits_of_lt_base hlt]
      interval_cases n <;> rfl
    · rw [Nat.toDigits_of_base_le (by decide) hge,
        numRun_append (ih (n / 10) (by omega) (by omega))]
      have hdigit : (Nat.digitChar (n % 10)).isDigit = true := by
        have hlt : n % 10 < 10 := Nat.mod_lt n (by decide)
        interval_cases n % 10 <;> rfl
      simp [numRun, numStep, hdigit]

/-- Decimal digits are a whole number, without leading zeros. -/
theorem numRun_decimal (n : Nat) :
    ∃ st, numRun .minus (Nat.toDigits 10 n) = some st ∧ (st = .zero ∨ st = .int) := by
  rcases Nat.eq_zero_or_pos n with rfl | hn
  · exact ⟨.zero, rfl, Or.inl rfl⟩
  · exact ⟨.int, numRun_toDigits hn, Or.inr rfl⟩

/-- A number without a sign, and the same with a minus sign. -/
theorem isNumber_of_numRun {text : List Char} {st : NumState}
    (h : numRun .minus text = some st) (hfinal : st.final = true) :
    IsNumber text ∧ IsNumber ('-' :: text) := by
  refine ⟨?_, .minus, st, rfl, h, hfinal⟩
  cases text with
  | nil =>
    cases h
    cases hfinal
  | cons c cs =>
    rw [numRun] at h
    cases hstep : numStep .minus c with
    | none =>
      rw [hstep] at h
      cases h
    | some st0 =>
      rw [hstep] at h
      have hminus : c ≠ '-' := by
        rintro rfl
        cases hstep
      refine ⟨st0, st, ?_, h, hfinal⟩
      rw [startNum, if_neg hminus, hstep]

theorem isNumber_decimal (n : Nat) :
    IsNumber (Nat.toDigits 10 n) ∧ IsNumber ('-' :: Nat.toDigits 10 n) := by
  obtain ⟨st, hrun, rfl | rfl⟩ := numRun_decimal n
  · exact isNumber_of_numRun hrun rfl
  · exact isNumber_of_numRun hrun rfl

/-- Decimal digits, a point, and more digits. -/
theorem isNumber_fraction (n : Nat) {frac : List Char} (hne : frac ≠ [])
    (hdigits : ∀ c ∈ frac, c.isDigit = true) :
    IsNumber (Nat.toDigits 10 n ++ '.' :: frac) ∧
      IsNumber ('-' :: (Nat.toDigits 10 n ++ '.' :: frac)) := by
  have hfrac : numRun .dot frac = some .frac := by
    cases frac with
    | nil => exact absurd rfl hne
    | cons d ds =>
      have hd := hdigits d List.mem_cons_self
      have hrest : numRun .frac ds = some .frac :=
        numRun_digits (fun c hc => by simp [numStep, hc])
          fun c hc => hdigits c (List.mem_cons_of_mem _ hc)
      simp [numRun, numStep, hd, hrest]
  obtain ⟨st, hrun, hst⟩ := numRun_decimal n
  have hdot : numStep st '.' = some .dot := by
    rcases hst with rfl | rfl <;> rfl
  refine @isNumber_of_numRun _ .frac ?_ rfl
  rw [numRun_append hrun, numRun, hdot]
  exact hfrac

/-! ## Blanks -/

/-- A blank before a value changes nothing. -/
theorem reads_blank {text : List Char} {v : Json} (h : Reads text v) : Reads (' ' :: text) v := by
  intro k rest hrest
  have hstep : step ⟨.value, k⟩ ' ' = some ⟨.value, k⟩ := by
    cases k <;> rfl
  rw [List.cons_append, run, hstep]
  exact h k rest hrest

/-! ## Objects and arrays -/

/-- A member: the name, a colon, and the text of the value. -/
def memberText (name text : List Char) : List Char := quoted name ++ ':' :: text

section Members

variable {name : List Char} (hname : ∀ c ∈ name, isPlain c = true)
  (members : List (List Char × Json)) (prev : List Char) (k : List Frame) (rest : List Char)

include hname

/-- The name of a member and the colon. -/
theorem run_name :
    run ⟨.string true [] .plain, .obj members prev :: k⟩ (name ++ '"' :: ':' :: rest) =
      run ⟨.value, .obj members name :: k⟩ rest := by
  rw [run_plain hname, List.nil_append]
  rfl

/-- The name of the next member, behind a value. -/
theorem run_next_name (v : Json) (text : List Char) :
    run ⟨.after v, .obj members prev :: k⟩ (',' :: memberText name text ++ rest) =
      run ⟨.value, .obj (members ++ [(prev, v)]) name :: k⟩ (text ++ rest) := by
  rw [memberText, quoted, List.cons_append, List.append_assoc, List.append_assoc]
  exact run_name hname (members ++ [(prev, v)]) [] k (text ++ rest)

/-- The name of the first member. -/
theorem run_first_name (text : List Char) :
    run ⟨.value, k⟩ ('{' :: memberText name text ++ rest) =
      run ⟨.value, .obj [] name :: k⟩ (text ++ rest) := by
  have hopen : step ⟨.value, k⟩ '{' = some ⟨.firstName, .obj [] [] :: k⟩ := by
    cases k <;> rfl
  rw [List.cons_append, run, hopen, memberText, quoted, List.append_assoc, List.append_assoc]
  exact run_name hname [] [] k (text ++ rest)

end Members

/-- A member with the text of its value. -/
structure Field where
  name : List Char
  text : List Char
  value : Json

/-- The member as it is read. -/
def Field.member (f : Field) : List Char × Json := (f.name, f.value)

/-- A member whose value is a string. -/
def Field.string (name text : List Char) : Field := ⟨name, quoted text, .str text⟩

/-- A member whose value is a number. -/
def Field.number (name text : List Char) : Field := ⟨name, text, .num text⟩

/-- The name is plain and the text is read as the value. -/
structure Field.Ok (f : Field) : Prop where
  plain : ∀ c ∈ f.name, isPlain c = true
  reads : Reads f.text f.value

/-- The name is plain and the text is dead. -/
structure Field.Bad (f : Field) : Prop where
  plain : ∀ c ∈ f.name, isPlain c = true
  dead : Dead f.text

theorem Field.string_ok {name text : List Char} (hname : ∀ c ∈ name, isPlain c = true)
    (htext : ∀ c ∈ text, isPlain c = true) : (Field.string name text).Ok :=
  ⟨hname, reads_quoted htext⟩

theorem Field.number_ok {name text : List Char} (hname : ∀ c ∈ name, isPlain c = true)
    (htext : Reads text (.num text)) : (Field.number name text).Ok :=
  ⟨hname, htext⟩

theorem Field.number_bad {name text : List Char} (hname : ∀ c ∈ name, isPlain c = true)
    (htext : Dead text) : (Field.number name text).Bad :=
  ⟨hname, htext⟩

/-- Members behind a first one. -/
def moreText (fs : List Field) : List Char := fs.flatMap fun f => ',' :: memberText f.name f.text

/-- Inside an object, behind its last member so far. -/
def inObject (members : List (List Char × Json)) (last : List Char × Json) (k : List Frame) :
    State := ⟨.after last.2, .obj members last.1 :: k⟩

@[simp] theorem moreText_nil : moreText [] = [] := rfl

theorem moreText_cons (f : Field) (fs : List Field) :
    moreText (f :: fs) = ',' :: memberText f.name f.text ++ moreText fs := rfl

theorem moreText_append (fs gs : List Field) : moreText (fs ++ gs) = moreText fs ++ moreText gs :=
  List.flatMap_append

/-- Members, or nothing, before a comma or a closing bracket. -/
theorem closes_moreText (fs : List Field) {rest : List Char} (hrest : Closes rest) :
    Closes (moreText fs ++ rest) := by
  cases fs with
  | nil => exact hrest
  | cons f fs => exact Closes.comma _

theorem run_first_field {f : Field} (hf : f.Ok) (k : List Frame) {rest : List Char}
    (hrest : Closes rest) :
    run ⟨.value, k⟩ ('{' :: memberText f.name f.text ++ rest) =
      run (inObject [] f.member k) rest := by
  rw [run_first_name hf.plain, hf.reads _ rest hrest]
  rfl

theorem run_next_field {f : Field} (hf : f.Ok) (members : List (List Char × Json))
    (last : List Char × Json) (k : List Frame) {rest : List Char} (hrest : Closes rest) :
    run (inObject members last k) (',' :: memberText f.name f.text ++ rest) =
      run (inObject (members ++ [last]) f.member k) rest := by
  rw [inObject, run_next_name hf.plain, hf.reads _ rest hrest]
  rfl

/-- A string member is added whatever comes behind it. -/
theorem run_next_string {name text : List Char} (hname : ∀ c ∈ name, isPlain c = true)
    (htext : ∀ c ∈ text, isPlain c = true) (members : List (List Char × Json))
    (last : List Char × Json) (k : List Frame) (rest : List Char) :
    run (inObject members last k) (',' :: memberText name (quoted text) ++ rest) =
      run (inObject (members ++ [last]) (name, .str text) k) rest := by
  rw [inObject, run_next_name hname, run_quoted htext]
  rfl

/-- Members are added to an object. -/
theorem run_moreText {fs : List Field} (hfs : ∀ f ∈ fs, f.Ok)
    (members : List (List Char × Json)) (last : List Char × Json) (k : List Frame) :
    ∃ members' last', members' ++ [last'] = members ++ last :: fs.map Field.member ∧
      ∀ rest, Closes rest →
        run (inObject members last k) (moreText fs ++ rest) =
          run (inObject members' last' k) rest := by
  induction fs generalizing members last with
  | nil => exact ⟨members, last, rfl, fun rest _ => rfl⟩
  | cons f fs ih =>
    obtain ⟨members', last', hmembers, hrun⟩ :=
      ih (fun g hg => hfs g (List.mem_cons_of_mem _ hg)) (members ++ [last]) f.member
    refine ⟨members', last', ?_, fun rest hrest => ?_⟩
    · rw [hmembers, List.append_assoc]
      rfl
    · rw [moreText_cons, List.append_assoc,
        run_next_field (hfs f List.mem_cons_self) _ _ _ (closes_moreText fs hrest)]
      exact hrun rest hrest

/-- The text of an object with at least one member. -/
def objectText (f : Field) (fs : List Field) : List Char :=
  '{' :: memberText f.name f.text ++ moreText fs ++ ['}']

/-- An object up to its last member. -/
theorem run_open_object {f : Field} {fs : List Field} (hf : f.Ok) (hfs : ∀ g ∈ fs, g.Ok)
    (k : List Frame) :
    ∃ members last, members ++ [last] = (f :: fs).map Field.member ∧
      ∀ rest, Closes rest →
        run ⟨.value, k⟩ ('{' :: memberText f.name f.text ++ (moreText fs ++ rest)) =
          run (inObject members last k) rest := by
  obtain ⟨members, last, hmembers, hrun⟩ := run_moreText hfs [] f.member k
  refine ⟨members, last, hmembers, fun rest hrest => ?_⟩
  rw [run_first_field hf k (closes_moreText fs hrest)]
  exact hrun rest hrest

/-- An object is read whatever comes behind it. -/
theorem run_object {f : Field} {fs : List Field} (hf : f.Ok) (hfs : ∀ g ∈ fs, g.Ok)
    (k : List Frame) (rest : List Char) :
    run ⟨.value, k⟩ (objectText f fs ++ rest) =
      run ⟨.after (.obj ((f :: fs).map Field.member)), k⟩ rest := by
  obtain ⟨members, last, hmembers, hrun⟩ := run_open_object hf hfs k
  have hclose : step (inObject members last k) '}' =
      some ⟨.after (.obj (members ++ [last])), k⟩ := rfl
  rw [objectText, List.append_assoc, List.append_assoc, hrun (['}'] ++ rest) (Closes.brace rest),
    List.cons_append, run, hclose, hmembers]
  rfl

/-- A member that is dead kills the object. -/
theorem run_dead_member {f g : Field} {fs : List Field} (hf : f.Ok) (hfs : ∀ h ∈ fs, h.Ok)
    (hname : ∀ c ∈ g.name, isPlain c = true) (hdead : Dead g.text) (k : List Frame)
    (rest : List Char) :
    run ⟨.value, k⟩ ('{' :: memberText f.name f.text ++
      (moreText fs ++ (',' :: memberText g.name g.text ++ rest))) = none := by
  obtain ⟨members, last, -, hrun⟩ := run_open_object hf hfs k
  rw [hrun (',' :: memberText g.name g.text ++ rest) (Closes.comma _), inObject,
    run_next_name hname]
  exact hdead _ rest

/-- The same wherever the dead member stands. -/
theorem run_bad_field {f : Field} {fs : List Field} (hf : f.Ok)
    (hfs : ∀ g ∈ fs, g.Ok ∨ g.Bad) (hbad : ∃ g ∈ fs, g.Bad) (k : List Frame) (rest : List Char) :
    run ⟨.value, k⟩ ('{' :: memberText f.name f.text ++ (moreText fs ++ rest)) = none := by
  -- the members before the first dead one are read
  have hfirst : ∃ gs g hs, fs = gs ++ g :: hs ∧ (∀ h ∈ gs, h.Ok) ∧ g.Bad := by
    clear hf
    induction fs with
    | nil =>
      obtain ⟨g, hg, -⟩ := hbad
      cases hg
    | cons g fs ih =>
      rcases hfs g List.mem_cons_self with hok | hg
      · obtain ⟨b, hb, hbbad⟩ := hbad
        rcases List.mem_cons.1 hb with rfl | hb
        · exact ⟨[], b, fs, rfl, fun h hh => absurd hh List.not_mem_nil, hbbad⟩
        · obtain ⟨gs, g', hs, rfl, hgs, hg'⟩ :=
            ih (fun h hh => hfs h (List.mem_cons_of_mem _ hh)) ⟨b, hb, hbbad⟩
          refine ⟨g :: gs, g', hs, rfl, fun h hh => ?_, hg'⟩
          rcases List.mem_cons.1 hh with rfl | hh
          · exact hok
          · exact hgs h hh
      · exact ⟨[], g, fs, rfl, fun h hh => absurd hh List.not_mem_nil, hg⟩
  obtain ⟨gs, g, hs, rfl, hgs, hg⟩ := hfirst
  have hdead := run_dead_member hf hgs hg.plain hg.dead k (moreText hs ++ rest)
  rwa [moreText_append, moreText_cons, List.append_assoc, List.append_assoc]

/-! ## Inside an object -/

/-- Two states that differ in the members which the outermost object already had: open, or just
closed. -/
inductive Under (before : List (List Char × Json)) : State → State → Prop where
  | inside (mode : Mode) (k : List Frame) (members : List (List Char × Json)) (name : List Char) :
      Under before ⟨mode, k ++ [.obj members name]⟩ ⟨mode, k ++ [.obj (before ++ members) name]⟩
  | closed (members : List (List Char × Json)) :
      Under before ⟨.after (.obj members), []⟩ ⟨.after (.obj (before ++ members)), []⟩

/-- The same for what one step makes of the outermost object. -/
inductive LocalUnder (before : List (List Char × Json)) :
    Option (Mode × List Frame) → Option (Mode × List Frame) → Prop where
  | stuck : LocalUnder before none none
  | inside (mode : Mode) (k : List Frame) (members : List (List Char × Json)) (name : List Char) :
      LocalUnder before (some (mode, k ++ [.obj members name]))
        (some (mode, k ++ [.obj (before ++ members) name]))
  | closed (members : List (List Char × Json)) :
      LocalUnder before (some (.after (.obj members), []))
        (some (.after (.obj (before ++ members)), []))

section Under

variable (before members : List (List Char × Json)) (name : List Char) (c : Char)

theorem LocalUnder.same (mode : Mode) :
    LocalUnder before (some (mode, [.obj members name]))
      (some (mode, [.obj (before ++ members) name])) :=
  LocalUnder.inside mode [] members name

theorem localUnder_startValue :
    LocalUnder before ((startValue c).map fun r => (r.1, r.2 ++ [.obj members name]))
      ((startValue c).map fun r => (r.1, r.2 ++ [.obj (before ++ members) name])) := by
  cases startValue c with
  | none => exact LocalUnder.stuck
  | some r => exact LocalUnder.inside r.1 r.2 members name

theorem localUnder_afterValue (v : Json) :
    LocalUnder before (afterValue v (some (.obj members name)) c)
      (afterValue v (some (.obj (before ++ members) name)) c) := by
  simp only [afterValue, List.append_assoc]
  split
  · exact LocalUnder.same before members name _
  · split
    · exact LocalUnder.same before _ _ _
    · split
      · exact LocalUnder.closed _
      · exact LocalUnder.stuck

theorem localUnder_stringStep (isName : Bool) (text : List Char) (st : StrState) :
    LocalUnder before (stringStep isName text st (some (.obj members name)) c)
      (stringStep isName text st (some (.obj (before ++ members) name)) c) := by
  cases st with
  | plain =>
    simp only [stringStep]
    split
    · cases isName with
      | false => exact LocalUnder.same before members name _
      | true => exact LocalUnder.same before members text _
    · split
      · exact LocalUnder.same before members name _
      · split
        · exact LocalUnder.same before members name _
        · exact LocalUnder.stuck
  | escape =>
    simp only [stringStep]
    split
    · exact LocalUnder.same before members name _
    · split
      · exact LocalUnder.same before members name _
      · exact LocalUnder.stuck
  | hex left =>
    simp only [stringStep]
    split
    · exact LocalUnder.same before members name _
    · exact LocalUnder.stuck

theorem localUnder_localStep (mode : Mode) :
    LocalUnder before (localStep mode (some (.obj members name)) c)
      (localStep mode (some (.obj (before ++ members) name)) c) := by
  have hsame := LocalUnder.same before members name
  cases mode with
  | value =>
    simp only [localStep]
    split
    · exact hsame _
    · exact localUnder_startValue before members name c
  | firstValue =>
    simp only [localStep]
    split
    · exact hsame _
    · split
      · exact LocalUnder.stuck
      · exact localUnder_startValue before members name c
  | name =>
    simp only [localStep]
    split
    · exact hsame _
    · split
      · exact hsame _
      · exact LocalUnder.stuck
  | firstName =>
    simp only [localStep]
    split
    · exact hsame _
    · split
      · exact LocalUnder.closed members
      · split
        · exact hsame _
        · exact LocalUnder.stuck
  | colon =>
    simp only [localStep]
    split
    · exact hsame _
    · split
      · exact hsame _
      · exact LocalUnder.stuck
  | after v => exact localUnder_afterValue before members name c v
  | string isName text st => exact localUnder_stringStep before members name c isName text st
  | number text st =>
    simp only [localStep]
    split
    · exact hsame _
    · split
      · exact localUnder_afterValue before members name c _
      · exact LocalUnder.stuck
  | literal rest v =>
    cases rest with
    | nil => exact LocalUnder.stuck
    | cons r rest =>
      simp only [localStep]
      split
      · exact hsame _
      · exact LocalUnder.stuck

end Under

/-- What is read inside an object does not depend on the members before. -/
theorem under_step {before : List (List Char × Json)} {s t : State} (h : Under before s t)
    (c : Char) :
    step s c = none ∧ step t c = none ∨
      ∃ s' t', step s c = some s' ∧ step t c = some t' ∧ Under before s' t' := by
  cases h with
  | closed members =>
    cases hws : isWs c with
    | false => exact Or.inl (by simp [step, localStep, afterValue, hws])
    | true =>
      refine Or.inr ⟨_, _, ?_, ?_, Under.closed members⟩ <;>
        simp [step, localStep, afterValue, hws]
  | inside mode k members name =>
    cases k with
    | cons f k =>
      show (localStep mode (some f) c).map _ = none ∧ (localStep mode (some f) c).map _ = none ∨ _
      cases hlocal : localStep mode (some f) c with
      | none => exact Or.inl ⟨rfl, rfl⟩
      | some r =>
        refine Or.inr ⟨⟨r.1, (r.2 ++ k) ++ [.obj members name]⟩,
          ⟨r.1, (r.2 ++ k) ++ [.obj (before ++ members) name]⟩, ?_, ?_, Under.inside _ _ _ _⟩
        · simp [step, hlocal]
        · simp [step, hlocal]
    | nil =>
      have hlocal := localUnder_localStep before members name c mode
      have hs : step ⟨mode, [.obj members name]⟩ c =
          (localStep mode (some (.obj members name)) c).map fun r => ⟨r.1, r.2 ++ []⟩ := rfl
      have ht : step ⟨mode, [.obj (before ++ members) name]⟩ c =
          (localStep mode (some (.obj (before ++ members) name)) c).map
            fun r => ⟨r.1, r.2 ++ []⟩ := rfl
      simp only [List.nil_append, hs, ht]
      generalize localStep mode (some (.obj members name)) c = a at hlocal ⊢
      generalize localStep mode (some (.obj (before ++ members) name)) c = b at hlocal ⊢
      cases hlocal with
      | stuck => exact Or.inl ⟨rfl, rfl⟩
      | inside mode' k' members' name' =>
        refine Or.inr ⟨_, _, rfl, rfl, ?_⟩
        simp only [List.append_nil]
        exact Under.inside _ _ _ _
      | closed members' => exact Or.inr ⟨_, _, rfl, rfl, Under.closed members'⟩

theorem under_run {before : List (List Char × Json)} {s t : State} (h : Under before s t)
    (text : List Char) :
    run s text = none ∧ run t text = none ∨
      ∃ s' t', run s text = some s' ∧ run t text = some t' ∧ Under before s' t' := by
  induction text generalizing s t with
  | nil => exact Or.inr ⟨s, t, rfl, rfl, h⟩
  | cons c cs ih =>
    rw [run, run]
    rcases under_step h c with ⟨hs, ht⟩ | ⟨s', t', hs, ht, h'⟩
    · rw [hs, ht]
      exact Or.inl ⟨rfl, rfl⟩
    · rw [hs, ht]
      exact ih h'

/-- What closes the outermost object closes it with the members before. -/
theorem Under.run_closed {before : List (List Char × Json)} {s t : State} (h : Under before s t)
    (text : List Char) (members : List (List Char × Json)) :
    run t text = some ⟨.after (.obj members), []⟩ ↔
      ∃ own, members = before ++ own ∧ run s text = some ⟨.after (.obj own), []⟩ := by
  rcases under_run h text with ⟨hs, ht⟩ | ⟨s', t', hs, ht, h'⟩
  · rw [hs, ht]
    constructor
    · intro hnone
      cases hnone
    · rintro ⟨own, -, hnone⟩
      cases hnone
  · rw [hs, ht]
    cases h' with
    | inside mode k own name =>
      constructor
      · intro heq
        injection heq with heq
        injection heq with _ hstack
        exact absurd hstack (List.append_ne_nil_of_right_ne_nil _ (List.cons_ne_nil _ _))
      · rintro ⟨own, -, heq⟩
        injection heq with heq
        injection heq with _ hstack
        exact absurd hstack (List.append_ne_nil_of_right_ne_nil _ (List.cons_ne_nil _ _))
    | closed own =>
      constructor
      · intro heq
        injection heq with heq
        injection heq with hmode _
        injection hmode with hobj
        injection hobj with hmembers
        exact ⟨own, hmembers.symm, rfl⟩
      · rintro ⟨own', rfl, heq⟩
        injection heq with heq
        injection heq with hmode _
        injection hmode with hobj
        injection hobj with hmembers
        rw [hmembers]

/-! ## The first member -/

/-- Modes in which a value is read. -/
def Mode.inValue : Mode → Prop
  | .value => True
  | .firstValue => True
  | .after _ => True
  | .string false _ _ => True
  | .number _ _ => True
  | .literal _ _ => True
  | _ => False

/-- What one step makes of the innermost frame: it stays, another one is opened on it, a value or
a member is added to it, it is closed, or its next name is known. -/
inductive LocalEffect (mode : Mode) : Frame → Mode × List Frame → Prop where
  | keep {mode' : Mode} (f : Frame) (h : mode.inValue → mode'.inValue) :
      LocalEffect mode f (mode', [f])
  | push (mode' : Mode) (f g : Frame) : LocalEffect mode f (mode', [g, f])
  | item (items : List Json) (v : Json) :
      LocalEffect mode (.arr items) (.value, [.arr (items ++ [v])])
  | closeArr (items : List Json) (v : Json) : LocalEffect mode (.arr items) (.after v, [])
  | member (members : List (List Char × Json)) (name : List Char) (v : Json) :
      LocalEffect mode (.obj members name) (.name, [.obj (members ++ [(name, v)]) []])
  | closeObj (members : List (List Char × Json)) (name : List Char) (v : Json) :
      LocalEffect mode (.obj members name) (.after (.obj (members ++ [(name, v)])), [])
  | closeEmpty (members : List (List Char × Json)) (name : List Char) (h : ¬ mode.inValue) :
      LocalEffect mode (.obj members name) (.after (.obj members), [])
  | named (members : List (List Char × Json)) (name text : List Char) (h : ¬ mode.inValue) :
      LocalEffect mode (.obj members name) (.colon, [.obj members text])

theorem startValue_effect {mode : Mode} {f : Frame} {c : Char} {r : Mode × List Frame}
    (h : (startValue c).map (fun r => (r.1, r.2 ++ [f])) = some r) : LocalEffect mode f r := by
  unfold startValue at h
  repeat' split at h
  all_goals cases h
  · exact LocalEffect.push _ _ _
  · exact LocalEffect.push _ _ _
  all_goals exact LocalEffect.keep _ fun _ => trivial

theorem afterValue_effect {mode : Mode} {f : Frame} {c : Char} {v : Json} {r : Mode × List Frame}
    (h : afterValue v (some f) c = some r) : LocalEffect mode f r := by
  unfold afterValue at h
  split at h
  · cases h
    exact LocalEffect.keep _ fun _ => trivial
  · cases f with
    | arr items =>
      simp only at h
      split at h
      · cases h
        exact LocalEffect.item _ _
      · split at h
        · cases h
          exact LocalEffect.closeArr _ _
        · cases h
    | obj members name =>
      simp only at h
      split at h
      · cases h
        exact LocalEffect.member _ _ _
      · split at h
        · cases h
          exact LocalEffect.closeObj _ _ _
        · cases h

theorem stringStep_effect {isName : Bool} {text : List Char} {st : StrState} {f : Frame} {c : Char}
    {r : Mode × List Frame} (h : stringStep isName text st (some f) c = some r) :
    LocalEffect (.string isName text st) f r := by
  have hkeep : ∀ text' st', LocalEffect (.string isName text st) f
      (.string isName text' st', [f]) := by
    intro text' st'
    refine LocalEffect.keep f fun hin => ?_
    cases isName with
    | false => exact trivial
    | true => exact hin
  cases st with
  | plain =>
    simp only [stringStep] at h
    split at h
    · cases isName with
      | false =>
        cases h
        exact LocalEffect.keep _ fun _ => trivial
      | true =>
        cases f with
        | arr items => cases h
        | obj members name =>
          cases h
          exact LocalEffect.named _ _ _ id
    · split at h
      · cases h
        exact hkeep _ _
      · split at h
        · cases h
          exact hkeep _ _
        · cases h
  | escape =>
    simp only [stringStep] at h
    split at h
    · cases h
      exact hkeep _ _
    · split at h
      · cases h
        exact hkeep _ _
      · cases h
  | hex left =>
    simp only [stringStep] at h
    split at h
    · cases h
      exact hkeep _ _
    · cases h

theorem localStep_effect {mode : Mode} {f : Frame} {c : Char} {r : Mode × List Frame}
    (h : localStep mode (some f) c = some r) : LocalEffect mode f r := by
  cases mode with
  | value =>
    simp only [localStep] at h
    split at h
    · cases h
      exact LocalEffect.keep _ fun _ => trivial
    · exact startValue_effect h
  | firstValue =>
    simp only [localStep] at h
    split at h
    · cases h
      exact LocalEffect.keep _ fun _ => trivial
    · split at h
      · cases f with
        | arr items =>
          cases h
          exact LocalEffect.closeArr _ _
        | obj members name => cases h
      · exact startValue_effect h
  | name =>
    simp only [localStep] at h
    split at h
    · cases h
      exact LocalEffect.keep _ id
    · split at h
      · cases h
        exact LocalEffect.keep _ fun hin => hin.elim
      · cases h
  | firstName =>
    simp only [localStep] at h
    split at h
    · cases h
      exact LocalEffect.keep _ id
    · split at h
      · cases f with
        | arr items => cases h
        | obj members name =>
          cases h
          exact LocalEffect.closeEmpty _ _ id
      · split at h
        · cases h
          exact LocalEffect.keep _ fun hin => hin.elim
        · cases h
  | colon =>
    simp only [localStep] at h
    split at h
    · cases h
      exact LocalEffect.keep _ id
    · split at h
      · cases h
        exact LocalEffect.keep _ fun _ => trivial
      · cases h
  | after v => exact afterValue_effect h
  | string isName text st => exact stringStep_effect h
  | number text st =>
    simp only [localStep] at h
    split at h
    · cases h
      exact LocalEffect.keep _ fun _ => trivial
    · split at h
      · exact afterValue_effect h
      · cases h
  | literal rest v =>
    cases rest with
    | nil => cases h
    | cons r rest =>
      simp only [localStep] at h
      split at h
      · cases h
        refine LocalEffect.keep _ fun _ => ?_
        split <;> exact trivial
      · cases h

/-- The first member of the outermost object has the name: its value is being read, it has been
read, or the object is closed. -/
inductive FirstMember (name : List Char) : State → Prop where
  | nested (mode : Mode) (f : Frame) (k : List Frame) :
      FirstMember name ⟨mode, f :: k ++ [.obj [] name]⟩
  | value {mode : Mode} (h : mode.inValue) : FirstMember name ⟨mode, [.obj [] name]⟩
  | more (mode : Mode) (k : List Frame) (v : Json) (members : List (List Char × Json))
      (next : List Char) : FirstMember name ⟨mode, k ++ [.obj ([(name, v)] ++ members) next]⟩
  | closed (v : Json) (members : List (List Char × Json)) :
      FirstMember name ⟨.after (.obj ([(name, v)] ++ members)), []⟩

theorem FirstMember.of_under {name : List Char} {v : Json} {s t : State}
    (h : Under [(name, v)] s t) : FirstMember name t := by
  cases h with
  | inside mode k members next => exact FirstMember.more mode k v members next
  | closed members => exact FirstMember.closed v members

theorem firstMember_step {name : List Char} {s t : State} {c : Char} (h : FirstMember name s)
    (hstep : step s c = some t) : FirstMember name t := by
  have hunder : ∀ v s0, Under [(name, v)] s0 s → FirstMember name t := by
    intro v s0 hs0
    rcases under_step hs0 c with ⟨-, hnone⟩ | ⟨s', t', -, ht', h'⟩
    · rw [hnone] at hstep
      cases hstep
    · rw [ht'] at hstep
      cases hstep
      exact FirstMember.of_under h'
  cases h with
  | nested mode f k =>
    obtain ⟨r, hlocal, rfl⟩ := Option.map_eq_some_iff.1 hstep
    cases localStep_effect hlocal with
    | keep _ _ => exact FirstMember.nested _ _ _
    | push mode' _ g => exact FirstMember.nested mode' g (f :: k)
    | item _ _ => exact FirstMember.nested _ _ _
    | member _ _ _ => exact FirstMember.nested _ _ _
    | named _ _ _ _ => exact FirstMember.nested _ _ _
    | closeArr _ _ =>
      cases k with
      | nil => exact FirstMember.value trivial
      | cons g k => exact FirstMember.nested _ _ _
    | closeObj _ _ _ =>
      cases k with
      | nil => exact FirstMember.value trivial
      | cons g k => exact FirstMember.nested _ _ _
    | closeEmpty _ _ _ =>
      cases k with
      | nil => exact FirstMember.value trivial
      | cons g k => exact FirstMember.nested _ _ _
  | value hin =>
    obtain ⟨r, hlocal, rfl⟩ := Option.map_eq_some_iff.1 hstep
    cases localStep_effect hlocal with
    | keep _ h => exact FirstMember.value (h hin)
    | push mode' f g => exact FirstMember.nested mode' g []
    | member members _ v => exact FirstMember.more _ [] v [] []
    | named _ _ _ h => exact absurd hin h
    | closeObj _ _ v => exact FirstMember.closed v []
    | closeEmpty _ _ h => exact absurd hin h
  | more mode k v members next => exact hunder v _ (Under.inside mode k members next)
  | closed v members => exact hunder v _ (Under.closed members)

/-- The first name of an object stays. -/
theorem firstMember_run {name : List Char} {s t : State} (h : FirstMember name s)
    {text : List Char} (hrun : run s text = some t) : FirstMember name t := by
  induction text generalizing s with
  | nil =>
    cases hrun
    exact h
  | cons c cs ih =>
    rw [run] at hrun
    cases hstep : step s c with
    | none =>
      rw [hstep] at hrun
      cases hrun
    | some s' =>
      rw [hstep] at hrun
      exact ih (firstMember_step h hstep) hrun

/-- An object that is closed has the name as its first. -/
theorem FirstMember.of_closed {name : List Char} {mode : Mode} (h : FirstMember name ⟨mode, []⟩) :
    ∃ v members, mode = .after (.obj ([(name, v)] ++ members)) := by
  generalize hs : (⟨mode, []⟩ : State) = s at h
  cases h with
  | nested mode' f k => cases hs
  | value hin => cases hs
  | more mode' k v members next =>
    injection hs with _ hstack
    exact absurd hstack.symm (List.append_ne_nil_of_right_ne_nil _ (List.cons_ne_nil _ _))
  | closed v members =>
    injection hs with hmode _
    exact ⟨v, members, hmode⟩

end DraginoFwd.Lib.JsonReader

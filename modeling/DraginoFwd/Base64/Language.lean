import DraginoFwd.Base64.Buffer

/-!
# Which texts the base64 decoder accepts

`b64_to_bin` guesses from the length and two characters whether a text is padded, then it looks at
the room in the array, and at the other characters only while it decodes them. `IsBase64` is what it
should accept. `acceptsExactly_iff` says for which texts and capacities it accepts these texts
alone, answers `-1` for all others and comes back: a text is judged by its length when that is wrong
or too long, and by its characters otherwise, where one outside the alphabet ends the process and
the last one is not looked at when the one before it is padding.
-/

set_option autoImplicit false

namespace DraginoFwd.Base64.Buffer

/-! ## The texts -/

/-- A character of the alphabet. -/
def IsCode (c : Char) : Prop := ∃ x, codeToChar x = c

/-- A base64 text with the characters `chars`, with or without its padding. The unused bits of the
last character may have any value. -/
def IsBase64 (text chars : List Char) : Prop :=
  (∀ c ∈ chars, IsCode c) ∧ chars.length % 4 ≠ 1 ∧
    (text = chars ∨ text = chars ++ List.replicate ((4 - chars.length % 4) % 4) '=')

/-- A base64 text of at most `maxLen` bytes. -/
def Accepted (text : List Char) (maxLen : Nat) : Prop :=
  ∃ chars, IsBase64 text chars ∧ chars.length * 3 / 4 ≤ maxLen

/-- The number of characters that `b64_to_bin` passes on. -/
def strippedSize (text : List Char) : Nat :=
  if text.length % 4 = 0 ∧ 4 ≤ text.length then
    if charAt text (text.length - 2) = '=' then text.length - 2
    else if charAt text (text.length - 1) = '=' then text.length - 1
    else text.length
  else text.length

/-! ## The alphabet -/

/-- The characters with a code are among the first 128. -/
theorem toNat_lt_of_charToCode {c : Char} {x : BitVec 6} (h : charToCode c = some x) :
    c.toNat < 128 := by
  rw [charToCode] at h
  split_ifs at h with hupper hlower hdigit hplus hslash
  · exact Nat.lt_of_le_of_lt (show c.toNat ≤ 90 from hupper.2) (by decide)
  · exact Nat.lt_of_le_of_lt (show c.toNat ≤ 122 from hlower.2) (by decide)
  · exact Nat.lt_of_le_of_lt (show c.toNat ≤ 57 from hdigit.2) (by decide)
  · rw [hplus]
    decide
  · rw [hslash]
    decide

theorem codeToChar_of_charToCode {c : Char} {x : BitVec 6} (h : charToCode c = some x) :
    codeToChar x = c := by
  have hall : ∀ n < 128, ∀ x ∈ charToCode (Char.ofNat n), codeToChar x = Char.ofNat n := by
    decide +kernel
  have hx := hall c.toNat (toNat_lt_of_charToCode h)
  rw [Char.ofNat_toNat] at hx
  exact hx x h

/-- The decoder knows the characters of the alphabet and no others. -/
theorem isSome_charToCode_iff {c : Char} : (charToCode c).isSome ↔ IsCode c := by
  constructor
  · intro h
    obtain ⟨x, hx⟩ := Option.isSome_iff_exists.1 h
    exact ⟨x, codeToChar_of_charToCode hx⟩
  · rintro ⟨x, rfl⟩
    rw [charToCode_codeToChar]
    rfl

theorem not_isCode_pad : ¬ IsCode '=' := by
  rintro ⟨x, hx⟩
  exact codeToChar_ne_pad x hx

/-! ## Which characters are decoded -/

theorem forall_lt_add {P : Nat → Prop} {m n : Nat} :
    (∀ j < m + n, P j) ↔ (∀ j < m, P j) ∧ ∀ j < n, P (m + j) := by
  constructor
  · exact fun h => ⟨fun j hj => h j (by omega), fun j hj => h _ (by omega)⟩
  · rintro ⟨hfront, hback⟩ j hj
    by_cases hjm : j < m
    · exact hfront j hjm
    · have hj' := hback (j - m) (by omega)
      rwa [Nat.add_sub_cancel' (Nat.not_lt.1 hjm)] at hj'

theorem isSome_decodeBlock_iff (input : List Char) (i : Nat) :
    (decodeBlock input i).isSome ↔ ∀ j < 4, IsCode (charAt input (4 * i + j)) := by
  simp only [Nat.forall_lt_succ_right, Nat.not_lt_zero, false_imp_iff, implies_true, true_and,
    and_assoc, Nat.add_zero, ← isSome_charToCode_iff, decodeBlock]
  cases charToCode (charAt input (4 * i)) <;> cases charToCode (charAt input (4 * i + 1)) <;>
    cases charToCode (charAt input (4 * i + 2)) <;>
    cases charToCode (charAt input (4 * i + 3)) <;> simp

/-- The first blocks are decoded when all their characters have codes. -/
theorem isSome_decodeFull_iff (input : List Char) (n : Nat) :
    (Base64.decodeFull input n).isSome ↔ ∀ j < 4 * n, IsCode (charAt input j) := by
  induction n with
  | zero => simp [Base64.decodeFull]
  | succ n ih =>
      rw [Nat.mul_succ, forall_lt_add, ← ih, ← isSome_decodeBlock_iff, Base64.decodeFull]
      cases Base64.decodeFull input n <;> cases decodeBlock input n <;> simp

theorem isSome_decodeLast_iff (input : List Char) (i : Nat) {lastChars : Nat}
    (hlast : lastChars = 0 ∨ lastChars = 2 ∨ lastChars = 3) :
    (decodeLast input i lastChars).isSome ↔
      ∀ j < lastChars, IsCode (charAt input (4 * i + j)) := by
  rcases hlast with rfl | rfl | rfl
  · simp [decodeLast]
  · simp only [Nat.forall_lt_succ_right, Nat.not_lt_zero, false_imp_iff, implies_true, true_and,
      Nat.add_zero, ← isSome_charToCode_iff, decodeLast, if_true]
    cases charToCode (charAt input (4 * i)) <;>
      cases charToCode (charAt input (4 * i + 1)) <;> simp
  · simp only [Nat.forall_lt_succ_right, Nat.not_lt_zero, false_imp_iff, implies_true, true_and,
      and_assoc, Nat.add_zero, ← isSome_charToCode_iff, decodeLast, if_true]
    cases charToCode (charAt input (4 * i)) <;> cases charToCode (charAt input (4 * i + 1)) <;>
      cases charToCode (charAt input (4 * i + 2)) <;> simp

/-- All characters are decoded when all of them have codes. -/
theorem isSome_decodeChars_iff (input : List Char) {size : Nat} (hsize : size % 4 ≠ 1) :
    (decodeChars input size).isSome ↔ ∀ j < size, IsCode (charAt input j) := by
  have hlast : size % 4 = 0 ∨ size % 4 = 2 ∨ size % 4 = 3 := by omega
  have hsplit : size = 4 * (size / 4) + size % 4 := (Nat.div_add_mod size 4).symm
  conv_rhs => rw [hsplit]
  rw [forall_lt_add, ← isSome_decodeFull_iff, ← isSome_decodeLast_iff _ _ hlast, decodeChars]
  cases Base64.decodeFull input (size / 4) <;>
    cases decodeLast input (size / 4) (size % 4) <;> simp

/-! ## What the decoder answers -/

theorem byteCount_eq (size : Nat) :
    3 * (size / 4) + lastBytes (size % 4) = size * 3 / 4 := by
  rw [lastBytes]
  split_ifs <;> omega

/-- A text of the wrong length is refused, and one that is too long. -/
theorem b64ToBinNopad_fail {input : List Char} {size maxLen : Nat}
    (h : size % 4 = 1 ∨ maxLen < size * 3 / 4) :
    Base64.b64ToBinNopad input size maxLen = .fail := by
  have hzero : size ≠ 0 := by omega
  rw [Base64.b64ToBinNopad, if_neg hzero]
  by_cases hone : size % 4 = 1
  · rw [if_pos hone]
  · rw [if_neg hone, byteCount_eq, if_pos (h.resolve_left hone)]

/-- Any other text is judged by its characters. -/
theorem b64ToBinNopad_of_fits (input : List Char) {size maxLen : Nat} (hone : size % 4 ≠ 1)
    (hfit : size * 3 / 4 ≤ maxLen) :
    (∃ bytes, Base64.b64ToBinNopad input size maxLen = .ok bytes) ∧
        (∀ j < size, IsCode (charAt input j)) ∨
      Base64.b64ToBinNopad input size maxLen = .exit ∧ ¬ ∀ j < size, IsCode (charAt input j) := by
  by_cases hzero : size = 0
  · left
    refine ⟨⟨[], by rw [Base64.b64ToBinNopad, if_pos hzero]⟩, ?_⟩
    intro j hj
    omega
  · rw [← isSome_decodeChars_iff input hone, Base64.b64ToBinNopad, if_neg hzero, if_neg hone,
      byteCount_eq, if_neg (Nat.not_lt.2 hfit)]
    cases decodeChars input size with
    | none => simp
    | some bytes => simp

theorem b64ToBin_eq_nopad (text : List Char) (maxLen : Nat) :
    Base64.b64ToBin text text.length maxLen =
      Base64.b64ToBinNopad text (strippedSize text) maxLen := by
  rw [Base64.b64ToBin, strippedSize]
  split_ifs <;> rfl

/-! ## The size without padding -/

/-- What is left out is nothing, two characters from a padding character on, or one of them. -/
theorem strippedSize_cases (text : List Char) :
    strippedSize text = text.length ∨
    (strippedSize text + 2 = text.length ∧ strippedSize text % 4 = 2 ∧
      charAt text (strippedSize text) = '=') ∨
    (strippedSize text + 1 = text.length ∧ strippedSize text % 4 = 3 ∧
      charAt text (strippedSize text) = '=') := by
  rw [strippedSize]
  split_ifs with hblocks htwo hone
  · right; left
    exact ⟨by omega, by omega, htwo⟩
  · right; right
    exact ⟨by omega, by omega, hone⟩
  · exact Or.inl rfl
  · exact Or.inl rfl

theorem charAt_eq_getElem {text : List Char} {i : Nat} (hi : i < text.length) :
    charAt text i = text[i] := by
  rw [charAt, List.getD_eq_getElem?_getD, List.getElem?_eq_getElem hi]
  rfl

theorem charAt_ne_pad {chars : List Char} (hcodes : ∀ c ∈ chars, IsCode c) (rest : List Char)
    {i : Nat} (hi : i < chars.length) : charAt (chars ++ rest) i ≠ '=' := by
  intro hpad
  have hlt : i < (chars ++ rest).length := by
    rw [List.length_append]
    omega
  rw [charAt_eq_getElem hlt, List.getElem_append_left hi] at hpad
  exact not_isCode_pad (hpad ▸ hcodes _ (List.getElem_mem hi))

/-- Of a base64 text the characters in front of the padding are passed on. -/
theorem strippedSize_of_isBase64 {text chars : List Char} (h : IsBase64 text chars) :
    strippedSize text = chars.length := by
  obtain ⟨hcodes, hone, htext⟩ := h
  have hmod : chars.length % 4 = 0 ∨ chars.length % 4 = 2 ∨ chars.length % 4 = 3 := by omega
  have hunpadded : text = chars → strippedSize text = chars.length := by
    rintro rfl
    have hpad : ∀ i < text.length, charAt text i ≠ '=' := by
      intro i hi
      have hne := charAt_ne_pad hcodes [] hi
      rwa [List.append_nil] at hne
    rw [strippedSize]
    split_ifs with hblocks htwo hlast
    · exact absurd htwo (hpad _ (by omega))
    · exact absurd hlast (hpad _ (by omega))
    · rfl
    · rfl
  rcases htext with htext | htext
  · exact hunpadded htext
  · rcases hmod with hmod | hmod | hmod
    · rw [hmod] at htext
      exact hunpadded (htext.trans (List.append_nil _))
    · rw [hmod] at htext
      have hlen : text.length = chars.length + 2 := by
        rw [htext, List.length_append, List.length_replicate]
      have hpad : charAt text chars.length = '=' := by
        rw [htext]
        exact charAt_append '=' ['=']
      rw [strippedSize, hlen, if_pos (by omega), Nat.add_sub_cancel, if_pos hpad]
    · rw [hmod] at htext
      have hlen : text.length = chars.length + 1 := by
        rw [htext, List.length_append, List.length_replicate]
      have hfirst : charAt text (chars.length + 1 - 2) ≠ '=' := by
        rw [htext]
        exact charAt_ne_pad hcodes _ (by omega)
      have hpad : charAt text chars.length = '=' := by
        rw [htext]
        exact charAt_append '=' []
      rw [strippedSize, hlen, if_pos (by omega), if_neg hfirst, Nat.add_sub_cancel, if_pos hpad]

/-- A text is a base64 text exactly when the characters that are passed on are one without padding,
and when what follows a padding character that is left out is padding too. -/
theorem accepted_iff (text : List Char) (maxLen : Nat) :
    Accepted text maxLen ↔
      strippedSize text % 4 ≠ 1 ∧ strippedSize text * 3 / 4 ≤ maxLen ∧
        (∀ j < strippedSize text, IsCode (charAt text j)) ∧
        (strippedSize text + 2 = text.length → charAt text (text.length - 1) = '=') := by
  constructor
  · rintro ⟨chars, hbase, hfit⟩
    have hsize := strippedSize_of_isBase64 hbase
    obtain ⟨hcodes, hone, htext⟩ := hbase
    rw [hsize]
    refine ⟨hone, hfit, ?_, ?_⟩
    · intro j hj
      have hfront : charAt text j = chars[j] := by
        rcases htext with rfl | rfl
        · exact charAt_eq_getElem hj
        · rw [charAt_eq_getElem (by rw [List.length_append]; omega), List.getElem_append_left hj]
      rw [hfront]
      exact hcodes _ (List.getElem_mem hj)
    · intro htwo
      rcases htext with rfl | rfl
      · omega
      · rw [List.length_append, List.length_replicate] at htwo ⊢
        have hmod : (4 - chars.length % 4) % 4 = 2 := by omega
        rw [hmod]
        show charAt (chars ++ ['=', '=']) (chars.length + 1) = '='
        simp [charAt]
  · rintro ⟨hone, hfit, hcodes, hlast⟩
    have hle : strippedSize text ≤ text.length := by
      rcases strippedSize_cases text with h | h | h <;> omega
    have hlen : (text.take (strippedSize text)).length = strippedSize text :=
      List.length_take_of_le hle
    refine ⟨text.take (strippedSize text), ⟨?_, ?_, ?_⟩, ?_⟩
    · intro c hc
      obtain ⟨j, hj, rfl⟩ := List.getElem_of_mem hc
      rw [hlen] at hj
      have hcode := hcodes j hj
      rwa [charAt_eq_getElem (by omega), ← List.getElem_take] at hcode
    · rwa [hlen]
    · rw [hlen]
      rcases strippedSize_cases text with hall | ⟨htwo, hmod, hpad⟩ | ⟨hback, hmod, hpad⟩
      · left
        rw [hall, List.take_length]
      · -- two characters are left out, both of them padding
        right
        have hpad' := hlast htwo
        have hdrop : text.drop (strippedSize text) = ['=', '='] := by
          rw [List.drop_eq_getElem_cons (by omega), List.drop_eq_getElem_cons (by omega),
            List.drop_eq_nil_of_le (by omega), ← charAt_eq_getElem, ← charAt_eq_getElem, hpad,
            show strippedSize text + 1 = text.length - 1 by omega, hpad']
        rw [hmod]
        show text = text.take (strippedSize text) ++ ['=', '=']
        rw [← hdrop, List.take_append_drop]
      · right
        have hdrop : text.drop (strippedSize text) = ['='] := by
          rw [List.drop_eq_getElem_cons (by omega), List.drop_eq_nil_of_le (by omega),
            ← charAt_eq_getElem, hpad]
        rw [hmod]
        show text = text.take (strippedSize text) ++ ['=']
        rw [← hdrop, List.take_append_drop]
    · rwa [hlen]

/-! ## The decoder as a judge -/

/-- The decoder stores inside the array, comes back, and its answer is a length for the base64 texts
of at most `maxLen` bytes and `-1` for all other texts. -/
structure AcceptsExactly (text : List Char) (maxLen : Nat) : Prop where
  inside : ∀ out : Vector (BitVec 8) maxLen, ∃ r, b64ToBin text text.length out = .ok r
  returns : ∀ out : Vector (BitVec 8) maxLen, b64ToBin text text.length out ≠ .ok .exit
  accepts : ∀ out : Vector (BitVec 8) maxLen,
    (∃ len out', b64ToBin text text.length out = .ok (.ok len out')) ↔ Accepted text maxLen
  rejects : ¬ Accepted text maxLen → ∀ out : Vector (BitVec 8) maxLen,
    ∃ out', b64ToBin text text.length out = .ok (.fail out')

theorem acceptsExactly_of_ok {text : List Char} {maxLen : Nat} {bytes : List (BitVec 8)}
    (h : Base64.b64ToBin text text.length maxLen = .ok bytes) :
    AcceptsExactly text maxLen ↔ Accepted text maxLen := by
  have hok := fun out : Vector (BitVec 8) maxLen => b64ToBin_of_ok out h
  constructor
  · intro hall
    obtain ⟨out', hcall, -⟩ := hok (Vector.replicate maxLen 0#8)
    exact (hall.accepts _).1 ⟨_, out', hcall⟩
  · intro hacc
    refine ⟨?_, ?_, ?_, ?_⟩
    · intro out
      obtain ⟨out', hcall, -⟩ := hok out
      exact ⟨_, hcall⟩
    · intro out hexit
      obtain ⟨out', hcall, -⟩ := hok out
      rw [hcall] at hexit
      cases hexit
    · intro out
      obtain ⟨out', hcall, -⟩ := hok out
      exact ⟨fun _ => hacc, fun _ => ⟨_, out', hcall⟩⟩
    · exact fun hnot => absurd hacc hnot

theorem acceptsExactly_of_fail {text : List Char} {maxLen : Nat}
    (h : Base64.b64ToBin text text.length maxLen = .fail) :
    AcceptsExactly text maxLen ↔ ¬ Accepted text maxLen := by
  have hfail := fun out : Vector (BitVec 8) maxLen => b64ToBin_of_fail out h
  constructor
  · intro hall hacc
    obtain ⟨len, out', hcall⟩ := (hall.accepts (Vector.replicate maxLen 0#8)).2 hacc
    rw [hfail] at hcall
    cases hcall
  · intro hnot
    refine ⟨?_, ?_, ?_, ?_⟩
    · exact fun out => ⟨_, hfail out⟩
    · intro out hexit
      rw [hfail] at hexit
      cases hexit
    · intro out
      constructor
      · rintro ⟨len, out', hcall⟩
        rw [hfail] at hcall
        cases hcall
      · exact fun hacc => absurd hacc hnot
    · exact fun _ out => ⟨out, hfail out⟩

theorem not_acceptsExactly_of_exit {text : List Char} {maxLen : Nat}
    (h : Base64.b64ToBin text text.length maxLen = .exit) : ¬ AcceptsExactly text maxLen :=
  fun hall => hall.returns (Vector.replicate maxLen 0#8) (b64ToBin_of_exit _ h)

/-- For every text and every capacity: the decoder judges the text as it should exactly when it does
so by the length, or when all characters that are passed on have codes and no character but padding
is left out. -/
theorem acceptsExactly_iff (text : List Char) (maxLen : Nat) :
    AcceptsExactly text maxLen ↔
      strippedSize text % 4 = 1 ∨ maxLen < strippedSize text * 3 / 4 ∨
        (∀ j < strippedSize text, IsCode (charAt text j)) ∧
          (strippedSize text + 2 = text.length → charAt text (text.length - 1) = '=') := by
  have hcall := b64ToBin_eq_nopad text maxLen
  by_cases hlength : strippedSize text % 4 = 1 ∨ maxLen < strippedSize text * 3 / 4
  · rw [b64ToBinNopad_fail hlength] at hcall
    rw [acceptsExactly_of_fail hcall, accepted_iff]
    constructor
    · exact fun _ => hlength.imp_right Or.inl
    · rintro - ⟨hone, hfit, -⟩
      exact hlength.elim hone (Nat.not_lt.2 hfit)
  · rw [not_or, Nat.not_lt] at hlength
    obtain ⟨hone, hfit⟩ := hlength
    rcases b64ToBinNopad_of_fits text hone hfit with
      ⟨⟨bytes, hok⟩, hcodes⟩ | ⟨hexit, hcodes⟩
    · rw [hok] at hcall
      rw [acceptsExactly_of_ok hcall, accepted_iff]
      constructor
      · rintro ⟨-, -, hchars⟩
        exact Or.inr (Or.inr hchars)
      · rintro (h | h | hchars)
        · exact absurd h hone
        · exact absurd h (Nat.not_lt.2 hfit)
        · exact ⟨hone, hfit, hchars⟩
    · rw [hexit] at hcall
      constructor
      · exact fun h => absurd h (not_acceptsExactly_of_exit hcall)
      · rintro (h | h | ⟨h, -⟩)
        · exact absurd h hone
        · exact absurd h (Nat.not_lt.2 hfit)
        · exact absurd h hcodes

/-- A character outside the alphabet in the data of a downlink, which has room for 256 bytes, ends
the process. -/
theorem foreign_character_exits :
    ¬ ∀ (text : List Char) (maxLen : Nat), AcceptsExactly text maxLen := by
  intro h
  exact (h ['!', 'A', 'A', 'A'] 256).returns (Vector.replicate 256 0#8) (b64ToBin_of_exit _ rfl)

end DraginoFwd.Base64.Buffer

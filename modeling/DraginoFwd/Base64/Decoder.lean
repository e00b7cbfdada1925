import DraginoFwd.Base64
import Mathlib

/-!
# The base64 decoder

`b64ToBin` is `b64_to_bin` of `base64.c`: it leaves padding out, decodes whole blocks of four
characters by their index, and then the characters that are left. A character outside the alphabet
ends the process. What the encoder makes of at most `maxLen` bytes is decoded to these bytes
(`b64ToBin_base64`), and no result is longer than `maxLen` (`length_b64ToBin_le`).
-/

set_option autoImplicit false

namespace DraginoFwd.Base64

/-- `char_to_code`, which calls `exit` for a character outside the alphabet. Every call masks its
result to six bits. -/
def charToCode (x : Char) : Option (BitVec 6) :=
  if 'A' ≤ x ∧ x ≤ 'Z' then some (BitVec.ofNat 6 (x.toNat - 65))
  else if 'a' ≤ x ∧ x ≤ 'z' then some (BitVec.ofNat 6 (x.toNat - 97 + 26))
  else if '0' ≤ x ∧ x ≤ '9' then some (BitVec.ofNat 6 (x.toNat - 48 + 52))
  else if x = '+' then some 62#6
  else if x = '/' then some 63#6
  else none

/-- The word `b` of four codes. -/
def codeWord (x0 x1 x2 x3 : BitVec 6) : BitVec 32 :=
  (x0.setWidth 32 <<< 18) ||| (x1.setWidth 32 <<< 12) ||| (x2.setWidth 32 <<< 6) ||| x3.setWidth 32

/-- The three bytes of a word. -/
def wordBytes (b : BitVec 32) : List (BitVec 8) :=
  [(b >>> 16).setWidth 8, (b >>> 8).setWidth 8, b.setWidth 8]

/-- The character at `i`. -/
def charAt (input : List Char) (i : Nat) : Char := input.getD i (Char.ofNat 0)

/-- The bytes of the block at `i`. -/
def decodeBlock (input : List Char) (i : Nat) : Option (List (BitVec 8)) := do
  let x0 ← charToCode (charAt input (4 * i))
  let x1 ← charToCode (charAt input (4 * i + 1))
  let x2 ← charToCode (charAt input (4 * i + 2))
  let x3 ← charToCode (charAt input (4 * i + 3))
  some (wordBytes (codeWord x0 x1 x2 x3))

/-- The loop over the first blocks. -/
def decodeFull (input : List Char) : Nat → Option (List (BitVec 8))
  | 0 => some []
  | i + 1 => do
      let out ← decodeFull input i
      let block ← decodeBlock input i
      some (out ++ block)

/-- The last, partial block at `i`, of which `lastChars` characters are left. -/
def decodeLast (input : List Char) (i lastChars : Nat) : Option (List (BitVec 8)) :=
  if lastChars = 2 then do
    let x0 ← charToCode (charAt input (4 * i))
    let x1 ← charToCode (charAt input (4 * i + 1))
    some ((wordBytes (codeWord x0 x1 0#6 0#6)).take 1)
  else if lastChars = 3 then do
    let x0 ← charToCode (charAt input (4 * i))
    let x1 ← charToCode (charAt input (4 * i + 1))
    let x2 ← charToCode (charAt input (4 * i + 2))
    some ((wordBytes (codeWord x0 x1 x2 0#6)).take 2)
  else some []

/-- What a decoder ends with: the end of the process, the result `-1`, or the bytes. -/
inductive Decoded where
  | exit
  | fail
  | ok (bytes : List (BitVec 8))
  deriving DecidableEq, Repr

/-- All characters of an input. -/
def decodeChars (input : List Char) (size : Nat) : Option (List (BitVec 8)) := do
  let out ← decodeFull input (size / 4)
  let last ← decodeLast input (size / 4) (size % 4)
  some (out ++ last)

/-- The number of bytes in the last characters. -/
def lastBytes (lastChars : Nat) : Nat := if lastChars = 2 then 1 else if lastChars = 3 then 2 else 0

/-- `b64_to_bin_nopad` on the first `size` characters of the input. -/
def b64ToBinNopad (input : List Char) (size maxLen : Nat) : Decoded :=
  if size = 0 then .ok []
  else if size % 4 = 1 then .fail
  else if maxLen < 3 * (size / 4) + lastBytes (size % 4) then .fail
  else
    match decodeChars input size with
    | none => .exit
    | some bytes => .ok bytes

/-- `b64_to_bin` -/
def b64ToBin (input : List Char) (size maxLen : Nat) : Decoded :=
  if size % 4 = 0 ∧ 4 ≤ size then
    if charAt input (size - 2) = '=' then b64ToBinNopad input (size - 2) maxLen
    else if charAt input (size - 1) = '=' then b64ToBinNopad input (size - 1) maxLen
    else b64ToBinNopad input size maxLen
  else b64ToBinNopad input size maxLen

/-! ## The length of a result -/

theorem length_decodeBlock {input : List Char} {i : Nat} {block : List (BitVec 8)}
    (h : decodeBlock input i = some block) : block.length = 3 := by
  simp only [decodeBlock, Option.bind_eq_bind, Option.bind_eq_some_iff, Option.some.injEq] at h
  obtain ⟨x0, -, x1, -, x2, -, x3, -, rfl⟩ := h
  rfl

theorem length_decodeFull {input : List Char} {n : Nat} {out : List (BitVec 8)}
    (h : decodeFull input n = some out) : out.length = 3 * n := by
  induction n generalizing out with
  | zero =>
      cases h
      rfl
  | succ n ih =>
      simp only [decodeFull, Option.bind_eq_bind, Option.bind_eq_some_iff, Option.some.injEq] at h
      obtain ⟨front, hfront, block, hblock, rfl⟩ := h
      rw [List.length_append, ih hfront, length_decodeBlock hblock, Nat.mul_succ]

theorem length_decodeLast {input : List Char} {i lastChars : Nat} {last : List (BitVec 8)}
    (h : decodeLast input i lastChars = some last) :
    last.length = lastBytes lastChars := by
  rw [decodeLast] at h
  rw [lastBytes]
  split_ifs at h ⊢ with htwo hthree
  · simp only [Option.bind_eq_bind, Option.bind_eq_some_iff, Option.some.injEq] at h
    obtain ⟨x0, -, x1, -, rfl⟩ := h
    rfl
  · simp only [Option.bind_eq_bind, Option.bind_eq_some_iff, Option.some.injEq] at h
    obtain ⟨x0, -, x1, -, x2, -, rfl⟩ := h
    rfl
  · cases h
    rfl

theorem length_b64ToBinNopad_le {input : List Char} {size maxLen : Nat} {bytes : List (BitVec 8)}
    (h : b64ToBinNopad input size maxLen = .ok bytes) : bytes.length ≤ maxLen := by
  rw [b64ToBinNopad] at h
  split_ifs at h with hzero hone hlong
  · cases h
    exact Nat.zero_le _
  · cases hchars : decodeChars input size with
    | none =>
        rw [hchars] at h
        cases h
    | some out =>
        rw [hchars] at h
        cases h
        simp only [decodeChars, Option.bind_eq_bind, Option.bind_eq_some_iff,
          Option.some.injEq] at hchars
        obtain ⟨full, hfull, last, hlast, rfl⟩ := hchars
        rw [List.length_append, length_decodeFull hfull, length_decodeLast hlast]
        exact Nat.not_lt.1 hlong

/-- The decoder writes at most `maxLen` bytes. -/
theorem length_b64ToBin_le {input : List Char} {size maxLen : Nat} {bytes : List (BitVec 8)}
    (h : b64ToBin input size maxLen = .ok bytes) : bytes.length ≤ maxLen := by
  rw [b64ToBin] at h
  split_ifs at h <;> exact length_b64ToBinNopad_le h

/-! ## The round trip -/

theorem charToCode_codeToChar (x : BitVec 6) : charToCode (codeToChar x) = some x := by
  have hall : ∀ n < 64, charToCode (codeToChar (BitVec.ofNat 6 n)) = some (BitVec.ofNat 6 n) := by
    decide +kernel
  have hx := hall x.toNat x.isLt
  rwa [BitVec.ofNat_toNat, BitVec.setWidth_eq] at hx

/-- No code is written as padding. -/
theorem codeToChar_ne_pad (x : BitVec 6) : codeToChar x ≠ '=' := by
  intro hpad
  have hcode := charToCode_codeToChar x
  rw [hpad] at hcode
  cases hcode

/-- The codes of a word give back its lower three bytes. -/
theorem wordBytes_codeWord (b0 b1 b2 : BitVec 8) :
    wordBytes (codeWord ((blockWord b0 b1 b2 >>> 18).setWidth 6)
      ((blockWord b0 b1 b2 >>> 12).setWidth 6) ((blockWord b0 b1 b2 >>> 6).setWidth 6)
      ((blockWord b0 b1 b2 >>> 0).setWidth 6)) = [b0, b1, b2] := by
  simp only [wordBytes, List.cons.injEq, and_true]
  refine ⟨?_, ?_, ?_⟩ <;>
  · apply BitVec.eq_of_getLsbD_eq
    intro i hi
    interval_cases i <;> simp [codeWord, blockWord]

theorem decodeBlock_succ (c0 c1 c2 c3 : Char) (rest : List Char) (i : Nat) :
    decodeBlock (c0 :: c1 :: c2 :: c3 :: rest) (i + 1) = decodeBlock rest i := rfl

theorem decodeLast_succ (c0 c1 c2 c3 : Char) (rest : List Char) (i lastChars : Nat) :
    decodeLast (c0 :: c1 :: c2 :: c3 :: rest) (i + 1) lastChars = decodeLast rest i lastChars := rfl

/-- The first block of an input, and the others. -/
theorem decodeFull_succ {c0 c1 c2 c3 : Char} {rest : List Char}
    {block out : List (BitVec 8)} {n : Nat}
    (hblock : decodeBlock (c0 :: c1 :: c2 :: c3 :: rest) 0 = some block)
    (hout : decodeFull rest n = some out) :
    decodeFull (c0 :: c1 :: c2 :: c3 :: rest) (n + 1) = some (block ++ out) := by
  induction n generalizing out with
  | zero =>
      cases hout
      rw [decodeFull, decodeFull, hblock]
      simp
  | succ n ih =>
      simp only [decodeFull, Option.bind_eq_bind, Option.bind_eq_some_iff,
        Option.some.injEq] at hout
      obtain ⟨front, hfront, last, hlast, rfl⟩ := hout
      rw [decodeFull, ih hfront, decodeBlock_succ, hlast]
      simp [List.append_assoc]

/-- A block in front of an input. -/
theorem decodeChars_block {c0 c1 c2 c3 : Char} {rest : List Char} {block out : List (BitVec 8)}
    {size : Nat} (hblock : decodeBlock (c0 :: c1 :: c2 :: c3 :: rest) 0 = some block)
    (hout : decodeChars rest size = some out) :
    decodeChars (c0 :: c1 :: c2 :: c3 :: rest) (size + 4) = some (block ++ out) := by
  simp only [decodeChars, Option.bind_eq_bind, Option.bind_eq_some_iff, Option.some.injEq] at hout
  obtain ⟨full, hfull, last, hlast, rfl⟩ := hout
  rw [decodeChars, Nat.add_div_right _ (by decide : 0 < 4), Nat.add_mod_right,
    decodeFull_succ hblock hfull, decodeLast_succ, hlast]
  simp [List.append_assoc]

/-- Less than a block is decoded by its last characters alone. -/
theorem decodeChars_short (input : List Char) {size : Nat} (h : size < 4) :
    decodeChars input size = decodeLast input 0 size := by
  rw [decodeChars, Nat.div_eq_of_lt h, Nat.mod_eq_of_lt h, decodeFull]
  simp

theorem charToCode_sextet (b : BitVec 32) (shift : Nat) :
    charToCode (sextet b shift) = some ((b >>> shift).setWidth 6) :=
  charToCode_codeToChar _

/-- The characters of a block of three bytes are decoded to these bytes. -/
theorem decodeBlock_blockChars (b0 b1 b2 : BitVec 8) (rest : List Char) :
    decodeBlock (blockChars (blockWord b0 b1 b2) ++ rest) 0 = some [b0, b1, b2] := by
  show (do
    let x0 ← charToCode (sextet (blockWord b0 b1 b2) 18)
    let x1 ← charToCode (sextet (blockWord b0 b1 b2) 12)
    let x2 ← charToCode (sextet (blockWord b0 b1 b2) 6)
    let x3 ← charToCode (sextet (blockWord b0 b1 b2) 0)
    some (wordBytes (codeWord x0 x1 x2 x3))) = some [b0, b1, b2]
  simp only [charToCode_sextet, Option.bind_eq_bind, Option.bind_some, wordBytes_codeWord]

/-- Two characters are enough for one byte. -/
theorem decodeLast_one (b0 : BitVec 8) (rest : List Char) :
    decodeLast ((blockChars (blockWord b0 0#8 0#8)).take 2 ++ rest) 0 2 = some [b0] := by
  have hbyte := wordBytes_codeWord b0 0#8 0#8
  have hlow : ((blockWord b0 0#8 0#8 >>> 6).setWidth 6 : BitVec 6) = 0#6 ∧
      ((blockWord b0 0#8 0#8 >>> 0).setWidth 6 : BitVec 6) = 0#6 := by
    constructor <;>
    · apply BitVec.eq_of_getLsbD_eq
      intro i hi
      interval_cases i <;> simp [blockWord]
  rw [hlow.1, hlow.2] at hbyte
  show (do
    let x0 ← charToCode (sextet (blockWord b0 0#8 0#8) 18)
    let x1 ← charToCode (sextet (blockWord b0 0#8 0#8) 12)
    some ((wordBytes (codeWord x0 x1 0#6 0#6)).take 1)) = some [b0]
  simp only [charToCode_sextet, Option.bind_eq_bind, Option.bind_some, hbyte]
  rfl

/-- Three characters are enough for two bytes. -/
theorem decodeLast_two (b0 b1 : BitVec 8) (rest : List Char) :
    decodeLast ((blockChars (blockWord b0 b1 0#8)).take 3 ++ rest) 0 3 = some [b0, b1] := by
  have hbyte := wordBytes_codeWord b0 b1 0#8
  have hlow : ((blockWord b0 b1 0#8 >>> 0).setWidth 6 : BitVec 6) = 0#6 := by
    apply BitVec.eq_of_getLsbD_eq
    intro i hi
    interval_cases i <;> simp [blockWord]
  rw [hlow] at hbyte
  show (do
    let x0 ← charToCode (sextet (blockWord b0 b1 0#8) 18)
    let x1 ← charToCode (sextet (blockWord b0 b1 0#8) 12)
    let x2 ← charToCode (sextet (blockWord b0 b1 0#8) 6)
    some ((wordBytes (codeWord x0 x1 x2 0#6)).take 2)) = some [b0, b1]
  simp only [charToCode_sextet, Option.bind_eq_bind, Option.bind_some, hbyte]
  rfl

/-- The text of a list of bytes without padding is decoded to these bytes. -/
theorem decodeChars_unpadded (x : List (BitVec 8)) (rest : List Char) :
    decodeChars (unpadded x ++ rest) (unpadded x).length = some x := by
  induction x using unpadded.induct with
  | case1 => rfl
  | case2 b0 =>
      show decodeChars (unpadded [b0] ++ rest) 2 = some [b0]
      rw [decodeChars_short _ (by decide)]
      exact decodeLast_one b0 rest
  | case3 b0 b1 =>
      show decodeChars (unpadded [b0, b1] ++ rest) 3 = some [b0, b1]
      rw [decodeChars_short _ (by decide)]
      exact decodeLast_two b0 b1 rest
  | case4 b0 b1 b2 tail ih =>
      rw [unpadded, List.append_assoc, List.length_append, Nat.add_comm]
      exact decodeChars_block (decodeBlock_blockChars b0 b1 b2 _) ih

/-- No character of the text without padding is padding. -/
theorem ne_pad_of_mem_unpadded {x : List (BitVec 8)} {c : Char} (h : c ∈ unpadded x) : c ≠ '=' := by
  induction x using unpadded.induct with
  | case1 => cases h
  | case2 b0 =>
      obtain ⟨y, -, rfl⟩ : ∃ y, y ∈ [18, 12, 6, 0] ∧ sextet (blockWord b0 0#8 0#8) y = c := by
        simpa [blockChars, eq_comm] using List.mem_of_mem_take h
      exact codeToChar_ne_pad _
  | case3 b0 b1 =>
      obtain ⟨y, -, rfl⟩ : ∃ y, y ∈ [18, 12, 6, 0] ∧ sextet (blockWord b0 b1 0#8) y = c := by
        simpa [blockChars, eq_comm] using List.mem_of_mem_take h
      exact codeToChar_ne_pad _
  | case4 b0 b1 b2 tail ih =>
      rcases List.mem_append.1 h with hblock | htail
      · obtain ⟨y, -, rfl⟩ : ∃ y, y ∈ [18, 12, 6, 0] ∧ sextet (blockWord b0 b1 b2) y = c := by
          simpa [blockChars, eq_comm] using hblock
        exact codeToChar_ne_pad _
      · exact ih htail

/-- The character right behind a text. -/
theorem charAt_append {front : List Char} (c : Char) (rest : List Char) :
    charAt (front ++ c :: rest) front.length = c := by
  simp [charAt]

theorem charAt_unpadded_ne_pad {x : List (BitVec 8)} (rest : List Char) {i : Nat}
    (hi : i < (unpadded x).length) : charAt (unpadded x ++ rest) i ≠ '=' := by
  apply ne_pad_of_mem_unpadded
  rw [charAt, List.getD_eq_getElem?_getD, List.getElem?_append_left hi, List.getElem?_eq_getElem hi]
  exact List.getElem_mem hi

/-- The decoder without padding gives back the bytes when it has room for them. -/
theorem b64ToBinNopad_unpadded (x : List (BitVec 8)) (rest : List Char) (maxLen : Nat) :
    b64ToBinNopad (unpadded x ++ rest) (unpadded x).length maxLen =
      if x.length ≤ maxLen then .ok x else .fail := by
  have hlen := length_unpadded x
  have hmod : x.length % 3 < 3 := Nat.mod_lt _ (by decide)
  have hchars := decodeChars_unpadded x rest
  by_cases hnil : x = []
  · subst hnil
    rfl
  · have hpos : x.length ≠ 0 := fun h0 => hnil (List.length_eq_zero_iff.1 h0)
    have hbytes : 3 * ((unpadded x).length / 4) + lastBytes ((unpadded x).length % 4) =
        x.length := by
      rw [lastBytes, hlen]
      split_ifs <;> omega
    have hone : (unpadded x).length % 4 ≠ 1 := by
      rw [hlen]
      split_ifs <;> omega
    have hzero : (unpadded x).length ≠ 0 := by
      rw [hlen]
      split_ifs <;> omega
    rw [b64ToBinNopad, if_neg hzero, if_neg hone, hbytes, hchars]
    by_cases hfit : x.length ≤ maxLen
    · rw [if_neg (Nat.not_lt.2 hfit), if_pos hfit]
    · rw [if_pos (Nat.not_le.1 hfit), if_neg hfit]

/-- The text without padding, whatever is behind it. -/
theorem b64ToBin_unpadded (x : List (BitVec 8)) (rest : List Char) (maxLen : Nat) :
    b64ToBin (unpadded x ++ rest) (unpadded x).length maxLen =
      if x.length ≤ maxLen then .ok x else .fail := by
  rw [b64ToBin, ← b64ToBinNopad_unpadded x rest]
  by_cases hblocks : (unpadded x).length % 4 = 0 ∧ 4 ≤ (unpadded x).length
  · rw [if_pos hblocks, if_neg (charAt_unpadded_ne_pad _ (by omega)),
      if_neg (charAt_unpadded_ne_pad _ (by omega))]
  · rw [if_neg hblocks]

/-- The text with its padding, whatever is behind it. -/
theorem b64ToBin_padded (x : List (BitVec 8)) (rest : List Char) (maxLen : Nat) :
    b64ToBin (base64 x ++ rest) (base64 x).length maxLen =
      if x.length ≤ maxLen then .ok x else .fail := by
  have hpad := base64_eq x
  have hlen := length_unpadded x
  have hmod : x.length % 3 < 3 := Nat.mod_lt _ (by decide)
  obtain hzero | hone | htwo : x.length % 3 = 0 ∨ x.length % 3 = 1 ∨ x.length % 3 = 2 := by omega
  · rw [hzero] at hpad
    have hsame : base64 x = unpadded x := hpad.trans (List.append_nil _)
    rw [hsame]
    exact b64ToBin_unpadded x rest maxLen
  · rw [hone] at hpad hlen
    have hsame : base64 x = unpadded x ++ ['=', '='] := hpad
    have htwo : (unpadded x).length = 4 * (x.length / 3) + 2 := hlen
    rw [hsame, List.length_append, List.length_cons, List.length_singleton, List.append_assoc,
      b64ToBin, if_pos (by omega), Nat.add_sub_cancel, List.cons_append, if_pos (charAt_append _ _)]
    exact b64ToBinNopad_unpadded x _ maxLen
  · rw [htwo] at hpad hlen
    have hsame : base64 x = unpadded x ++ ['='] := hpad
    have hthree : (unpadded x).length = 4 * (x.length / 3) + 3 := hlen
    rw [hsame, List.length_append, List.length_singleton, List.append_assoc, b64ToBin,
      if_pos (by omega), if_neg (charAt_unpadded_ne_pad _ (by omega)), Nat.add_sub_cancel,
      List.cons_append, if_pos (charAt_append _ _)]
    exact b64ToBinNopad_unpadded x _ maxLen

/-- What the encoder makes of some bytes is decoded to these bytes. -/
theorem b64ToBin_base64 (x : List (BitVec 8)) {maxLen : Nat} (h : x.length ≤ maxLen) :
    b64ToBin (base64 x) (base64 x).length maxLen = .ok x := by
  have hpadded := b64ToBin_padded x [] maxLen
  rwa [List.append_nil, if_pos h] at hpadded

end DraginoFwd.Base64

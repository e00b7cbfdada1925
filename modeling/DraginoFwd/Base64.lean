import DraginoFwd.Lib.JsonReader

/-!
# The base64 encoder

`binToB64` is `bin_to_b64` of `base64.c`: it encodes whole blocks of three bytes by their index,
then the bytes that are left, and pads the text. `base64` is the encoding as it is defined, block by
block on a list. The encoder gives that text, or nothing when it does not fit (`binToB64_eq`), and
its characters are plain ones.
-/

set_option autoImplicit false

namespace DraginoFwd.Base64

open DraginoFwd.Lib.JsonReader

/-- `code_to_char`. Every call masks its argument to six bits. -/
def codeToChar (x : BitVec 6) : Char :=
  if x.toNat ≤ 25 then Char.ofNat (65 + x.toNat)
  else if x.toNat ≤ 51 then Char.ofNat (97 + (x.toNat - 26))
  else if x.toNat ≤ 61 then Char.ofNat (48 + (x.toNat - 52))
  else if x.toNat = 62 then '+'
  else '/'

/-- The word `b` of a block of three bytes. -/
def blockWord (b0 b1 b2 : BitVec 8) : BitVec 32 :=
  (b0.setWidth 32 <<< 16) ||| (b1.setWidth 32 <<< 8) ||| b2.setWidth 32

/-- `code_to_char((b >> shift) & 0x3F)` -/
def sextet (b : BitVec 32) (shift : Nat) : Char := codeToChar ((b >>> shift).setWidth 6)

/-- The four characters of a block. -/
def blockChars (b : BitVec 32) : List Char := [sextet b 18, sextet b 12, sextet b 6, sextet b 0]

/-- `bin_to_b64_nopad` on the first `size` bytes of the input. -/
def binToB64Nopad (input : List (BitVec 8)) (size maxLen : Nat) : Option (List Char) :=
  let byte := fun i => input.getD i 0#8
  if size = 0 then some []
  else
    let fullBlocks := size / 3
    let lastChars := if size % 3 = 0 then 0 else size % 3 + 1
    if maxLen < 4 * fullBlocks + lastChars + 1 then none
    else
      let blocks := (List.range fullBlocks).flatMap fun i =>
        blockChars (blockWord (byte (3 * i)) (byte (3 * i + 1)) (byte (3 * i + 2)))
      let i := fullBlocks
      let last :=
        if lastChars = 0 then []
        else if lastChars = 2 then (blockChars (blockWord (byte (3 * i)) 0#8 0#8)).take 2
        else (blockChars (blockWord (byte (3 * i)) (byte (3 * i + 1)) 0#8)).take 3
      some (blocks ++ last)

/-- The `switch` of `bin_to_b64` on the length of the unpadded text. -/
def addPadding (text : List Char) (maxLen : Nat) : Option (List Char) :=
  match text.length % 4 with
  | 0 => some text
  | 2 => if text.length + 2 + 1 ≤ maxLen then some (text ++ ['=', '=']) else none
  | 3 => if text.length + 1 + 1 ≤ maxLen then some (text ++ ['=']) else none
  | _ => none

/-- `bin_to_b64` -/
def binToB64 (input : List (BitVec 8)) (size maxLen : Nat) : Option (List Char) :=
  match binToB64Nopad input size maxLen with
  | none => none
  | some text => addPadding text maxLen

/-- The base64 text of a list of bytes. -/
def base64 : List (BitVec 8) → List Char
  | [] => []
  | [b0] => (blockChars (blockWord b0 0#8 0#8)).take 2 ++ ['=', '=']
  | [b0, b1] => (blockChars (blockWord b0 b1 0#8)).take 3 ++ ['=']
  | b0 :: b1 :: b2 :: rest => blockChars (blockWord b0 b1 b2) ++ base64 rest

/-! ## Its characters -/

theorem isPlain_codeToChar (x : BitVec 6) : isPlain (codeToChar x) = true := by
  have hall : ∀ n < 64, isPlain (codeToChar (BitVec.ofNat 6 n)) = true := by decide
  have hx := hall x.toNat x.isLt
  rwa [BitVec.ofNat_toNat, BitVec.setWidth_eq] at hx

theorem isPlain_blockChars (b : BitVec 32) : ∀ c ∈ blockChars b, isPlain c = true := by
  intro c hc
  simp only [blockChars, List.mem_cons, List.not_mem_nil, or_false] at hc
  rcases hc with rfl | rfl | rfl | rfl <;> exact isPlain_codeToChar _

theorem isPlain_base64 (x : List (BitVec 8)) : ∀ c ∈ base64 x, isPlain c = true := by
  induction x using base64.induct with
  | case1 =>
    intro c hc
    cases hc
  | case2 b0 =>
    intro c hc
    rcases List.mem_append.1 hc with htake | hpad
    · exact isPlain_blockChars _ c (List.mem_of_mem_take htake)
    · simp only [List.mem_cons, List.not_mem_nil, or_false, or_self] at hpad
      rw [hpad]
      rfl
  | case3 b0 b1 =>
    intro c hc
    rcases List.mem_append.1 hc with htake | hpad
    · exact isPlain_blockChars _ c (List.mem_of_mem_take htake)
    · rw [List.mem_singleton.1 hpad]
      rfl
  | case4 b0 b1 b2 rest ih =>
    intro c hc
    rcases List.mem_append.1 hc with hblock | hrest
    · exact isPlain_blockChars _ c hblock
    · exact ih c hrest

/-- Four characters for three bytes, also for the last ones. -/
theorem length_base64 (x : List (BitVec 8)) : (base64 x).length = 4 * ((x.length + 2) / 3) := by
  induction x using base64.induct with
  | case1 => rfl
  | case2 b0 => simp [base64, blockChars]
  | case3 b0 b1 => simp [base64, blockChars]
  | case4 b0 b1 b2 rest ih =>
    simp only [base64, List.length_append, ih, blockChars, List.length_cons, List.length_nil]
    omega

/-! ## The encoder -/

/-- The text without padding, for all lengths. -/
def unpadded : List (BitVec 8) → List Char
  | [] => []
  | [b0] => (blockChars (blockWord b0 0#8 0#8)).take 2
  | [b0, b1] => (blockChars (blockWord b0 b1 0#8)).take 3
  | b0 :: b1 :: b2 :: rest => blockChars (blockWord b0 b1 b2) ++ unpadded rest

/-- The blocks by their index, and what is left. -/
theorem unpadded_eq (x : List (BitVec 8)) :
    unpadded x = ((List.range (x.length / 3)).flatMap fun i =>
        blockChars (blockWord (x.getD (3 * i) 0#8) (x.getD (3 * i + 1) 0#8)
          (x.getD (3 * i + 2) 0#8))) ++
      unpadded (x.drop (3 * (x.length / 3))) := by
  induction x using unpadded.induct with
  | case1 => rfl
  | case2 b0 => simp [unpadded]
  | case3 b0 b1 => simp [unpadded]
  | case4 b0 b1 b2 rest ih =>
    have hlen : (b0 :: b1 :: b2 :: rest).length / 3 = rest.length / 3 + 1 := by
      simp only [List.length_cons]
      omega
    rw [hlen, List.range_succ_eq_map, List.flatMap_cons, List.flatMap_map, List.append_assoc]
    show blockChars (blockWord b0 b1 b2) ++ unpadded rest = blockChars (blockWord b0 b1 b2) ++ _
    rw [ih]
    rfl

theorem base64_eq (x : List (BitVec 8)) :
    base64 x = unpadded x ++ List.replicate ((3 - x.length % 3) % 3) '=' := by
  induction x using base64.induct with
  | case1 => rfl
  | case2 b0 => rfl
  | case3 b0 b1 => rfl
  | case4 b0 b1 b2 rest ih =>
    have hmod : (b0 :: b1 :: b2 :: rest).length % 3 = rest.length % 3 := by
      simp only [List.length_cons]
      omega
    rw [hmod, base64, unpadded, ih, List.append_assoc]

theorem length_unpadded (x : List (BitVec 8)) :
    (unpadded x).length =
      4 * (x.length / 3) + if x.length % 3 = 0 then 0 else x.length % 3 + 1 := by
  have hlen := length_base64 x
  rw [base64_eq, List.length_append, List.length_replicate] at hlen
  split <;> omega

/-- The bytes behind the whole blocks. -/
theorem unpadded_last (x : List (BitVec 8)) :
    unpadded (x.drop (3 * (x.length / 3))) =
      if x.length % 3 = 0 then []
      else if x.length % 3 + 1 = 2 then
        (blockChars (blockWord (x.getD (3 * (x.length / 3)) 0#8) 0#8 0#8)).take 2
      else
        (blockChars (blockWord (x.getD (3 * (x.length / 3)) 0#8)
          (x.getD (3 * (x.length / 3) + 1) 0#8) 0#8)).take 3 := by
  have hget : ∀ j, x.getD (3 * (x.length / 3) + j) 0#8 =
      (x.drop (3 * (x.length / 3))).getD j 0#8 := by
    intro j
    rw [List.getD_eq_getElem?_getD, List.getD_eq_getElem?_getD, List.getElem?_drop]
  have hlen : (x.drop (3 * (x.length / 3))).length = x.length % 3 := by
    rw [List.length_drop]
    omega
  rw [hget 1, ← Nat.add_zero (3 * (x.length / 3)), hget 0, Nat.add_zero, ← hlen]
  have hlt : (x.drop (3 * (x.length / 3))).length < 3 := by
    rw [hlen]
    exact Nat.mod_lt _ (by decide)
  generalize x.drop (3 * (x.length / 3)) = rest at hlt
  match rest, hlt with
  | [], _ => rfl
  | [b0], _ => rfl
  | [b0, b1], _ => rfl

theorem binToB64Nopad_eq (x : List (BitVec 8)) (maxLen : Nat) :
    binToB64Nopad x x.length maxLen =
      if x = [] ∨ (unpadded x).length + 1 ≤ maxLen then some (unpadded x) else none := by
  have hlen := length_unpadded x
  unfold binToB64Nopad
  by_cases hnil : x = []
  · subst hnil
    rfl
  · have hpos : x.length ≠ 0 := fun h0 => hnil (List.length_eq_zero_iff.1 h0)
    have hlast : (if (if x.length % 3 = 0 then 0 else x.length % 3 + 1) = 0 then []
        else if (if x.length % 3 = 0 then 0 else x.length % 3 + 1) = 2 then
          (blockChars (blockWord (x.getD (3 * (x.length / 3)) 0#8) 0#8 0#8)).take 2
        else
          (blockChars (blockWord (x.getD (3 * (x.length / 3)) 0#8)
            (x.getD (3 * (x.length / 3) + 1) 0#8) 0#8)).take 3) =
        unpadded (x.drop (3 * (x.length / 3))) := by
      rw [unpadded_last]
      by_cases hmod : x.length % 3 = 0
      · simp [hmod]
      · simp [hmod]
    simp only [hpos, if_false, hnil, false_or, hlast, ← unpadded_eq, hlen]
    generalize 4 * (x.length / 3) + (if x.length % 3 = 0 then 0 else x.length % 3 + 1) + 1 = need
    by_cases hfit : need ≤ maxLen
    · rw [if_pos hfit, if_neg (Nat.not_lt.2 hfit)]
    · rw [if_neg hfit, if_pos (Nat.not_le.1 hfit)]

/-- The padding step, by the number of bytes in the last block. -/
theorem addPadding_unpadded (x : List (BitVec 8)) (maxLen : Nat)
    (hfit : (unpadded x).length + 1 ≤ maxLen) :
    addPadding (unpadded x) maxLen =
      if (base64 x).length + 1 ≤ maxLen then some (base64 x) else none := by
  have hlen := length_unpadded x
  have hbase := base64_eq x
  have hlt : x.length % 3 < 3 := Nat.mod_lt _ (by decide)
  obtain hmod | hmod | hmod : x.length % 3 = 0 ∨ x.length % 3 = 1 ∨ x.length % 3 = 2 := by omega
  · rw [hmod] at hlen hbase
    have hmod4 : (unpadded x).length % 4 = 0 := by
      rw [hlen]
      exact Nat.mul_mod_right 4 _
    have hsame : base64 x = unpadded x := hbase.trans (List.append_nil _)
    rw [addPadding, hmod4, hsame, if_pos hfit]
    rfl
  · rw [hmod] at hlen hbase
    have hmod4 : (unpadded x).length % 4 = 2 := by
      rw [hlen]
      exact Nat.mul_add_mod 4 _ 2
    have hpad : base64 x = unpadded x ++ ['=', '='] := hbase
    have hlenBase : (base64 x).length = (unpadded x).length + 2 := by
      rw [hpad, List.length_append]
      rfl
    rw [addPadding, hmod4, hlenBase, hpad]
    rfl
  · rw [hmod] at hlen hbase
    have hmod4 : (unpadded x).length % 4 = 3 := by
      rw [hlen]
      exact Nat.mul_add_mod 4 _ 3
    have hpad : base64 x = unpadded x ++ ['='] := hbase
    have hlenBase : (base64 x).length = (unpadded x).length + 1 := by
      rw [hpad, List.length_append]
      rfl
    rw [addPadding, hmod4, hlenBase, hpad]
    rfl

/-- The encoder reads no byte behind the given size. -/
theorem binToB64_take {input : List (BitVec 8)} {size : Nat} (maxLen : Nat) :
    binToB64 (input.take size) size maxLen = binToB64 input size maxLen := by
  have hbyte : ∀ i < size, (input.take size).getD i 0#8 = input.getD i 0#8 := by
    intro i hi
    rw [List.getD_eq_getElem?_getD, List.getElem?_take_of_lt hi, List.getD_eq_getElem?_getD]
  have hblocks : ((List.range (size / 3)).flatMap fun i => blockChars
        (blockWord ((input.take size).getD (3 * i) 0#8) ((input.take size).getD (3 * i + 1) 0#8)
          ((input.take size).getD (3 * i + 2) 0#8))) =
      (List.range (size / 3)).flatMap fun i => blockChars
        (blockWord (input.getD (3 * i) 0#8) (input.getD (3 * i + 1) 0#8)
          (input.getD (3 * i + 2) 0#8)) := by
    refine List.flatMap_congr fun i hi => ?_
    have hlt : i < size / 3 := List.mem_range.1 hi
    rw [hbyte (3 * i) (by omega), hbyte (3 * i + 1) (by omega), hbyte (3 * i + 2) (by omega)]
  have hnopad : binToB64Nopad (input.take size) size maxLen = binToB64Nopad input size maxLen := by
    unfold binToB64Nopad
    simp only [hblocks]
    by_cases hmod : size % 3 = 0
    · simp only [hmod, if_true]
    · rw [hbyte (3 * (size / 3)) (by omega)]
      by_cases htwo : size % 3 + 1 = 2
      · simp only [hmod, htwo, if_true, if_false]
      · rw [hbyte (3 * (size / 3) + 1) (by omega)]
  rw [binToB64, binToB64, hnopad]

/-- The encoder gives the base64 text of the bytes when it fits with its terminator. -/
theorem binToB64_eq (x : List (BitVec 8)) (maxLen : Nat) :
    binToB64 x x.length maxLen =
      if x = [] ∨ (base64 x).length + 1 ≤ maxLen then some (base64 x) else none := by
  have hlenBase : (base64 x).length = (unpadded x).length + (3 - x.length % 3) % 3 := by
    rw [base64_eq, List.length_append, List.length_replicate]
  rw [binToB64, binToB64Nopad_eq]
  by_cases hnil : x = []
  · subst hnil
    rfl
  · simp only [hnil, false_or]
    by_cases hfit : (unpadded x).length + 1 ≤ maxLen
    · rw [if_pos hfit]
      exact addPadding_unpadded x maxLen hfit
    · rw [if_neg hfit, if_neg (by omega)]

end DraginoFwd.Base64

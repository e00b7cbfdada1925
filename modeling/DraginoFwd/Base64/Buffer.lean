import DraginoFwd.Base64.Decoder
import DraginoFwd.Lib.Memory

/-!
# Base64 in the caller's arrays

The functions of `base64.c` store what they make through a pointer, in an array of which the caller
gives the capacity. `binToB64Nopad`, `binToB64` and `b64ToBin` of this file are these functions with
that array. The encoders store the text and its terminator (`binToB64Nopad_eq`, `binToB64_eq`), the
decoder stores what the decoder on lists gives (`b64ToBin_eq`).

`roundTrips_iff` is the round trip for every list of bytes and every capacity, with the capacities
for which it fails: the encoder terminates the empty text before it looks at the capacity.
-/

set_option autoImplicit false

namespace DraginoFwd.Base64.Buffer

open DraginoFwd.Lib.Memory

/-- The largest `int`. -/
def intMax : Nat := 2147483647

/-- The character that ends a string. -/
def nul : Char := Char.ofNat 0

/-- What C gives no meaning to: an access outside an array, and an `int` that is too large. -/
inductive Undefined where
  | access (error : OutOfBounds)
  | overflow
  deriving DecidableEq, Repr

/-- The accesses of a program as a part of it. -/
def accesses {β : Type} (x : Except OutOfBounds β) : Except Undefined β := x.mapError .access

/-! ## The encoders -/

section Encoder

variable {maxLen : Nat}

/-- The byte at `i`. -/
def byteAt (input : List (BitVec 8)) (i : Nat) : BitVec 8 := input.getD i 0#8

/-- The loop of `bin_to_b64_nopad` over the first blocks. -/
def encodeFull (input : List (BitVec 8)) (out : Vector Char maxLen) :
    Nat → Except OutOfBounds (Vector Char maxLen)
  | 0 => .ok out
  | i + 1 => do
      let out ← encodeFull input out i
      copy out (4 * i) (blockChars
        (blockWord (byteAt input (3 * i)) (byteAt input (3 * i + 1)) (byteAt input (3 * i + 2))))

/-- The last, partial block and the terminator. -/
def encodeLast (input : List (BitVec 8)) (out : Vector Char maxLen) (i lastChars : Nat) :
    Except OutOfBounds (Vector Char maxLen) :=
  if lastChars = 0 then copy out (4 * i) [nul]
  else if lastChars = 2 then
    copy out (4 * i) ((blockChars (blockWord (byteAt input (3 * i)) 0#8 0#8)).take 2 ++ [nul])
  else
    copy out (4 * i) ((blockChars
      (blockWord (byteAt input (3 * i)) (byteAt input (3 * i + 1)) 0#8)).take 3 ++ [nul])

/-- `bin_to_b64_nopad` on the first `size` bytes of the input, with the array `out` of `max_len`
characters. The result `-1` is `none`. -/
def binToB64Nopad (input : List (BitVec 8)) (size : Nat) (out : Vector Char maxLen) :
    Except Undefined (Option Nat × Vector Char maxLen) :=
  if size = 0 then do
    -- in front of the test of `max_len`
    let out ← accesses (write out 0 nul)
    .ok (some 0, out)
  else
    let fullBlocks := size / 3
    let lastChars := if size % 3 = 0 then 0 else size % 3 + 1
    let resultLen := 4 * fullBlocks + lastChars
    if intMax < resultLen + 1 then .error .overflow
    else if maxLen < resultLen + 1 then .ok (none, out)
    else do
      let out ← accesses (encodeFull input out fullBlocks)
      let out ← accesses (encodeLast input out fullBlocks lastChars)
      .ok (some resultLen, out)

/-- One branch of the `switch` of `bin_to_b64`, for `pads` padding characters. -/
def storePadding (out : Vector Char maxLen) (ret pads : Nat) :
    Except Undefined (Option Nat × Vector Char maxLen) :=
  if intMax < ret + pads + 1 then .error .overflow
  else if ret + pads + 1 ≤ maxLen then do
    let out ← accesses (copy out ret (List.replicate pads '=' ++ [nul]))
    .ok (some (ret + pads), out)
  else .ok (none, out)

/-- `bin_to_b64` -/
def binToB64 (input : List (BitVec 8)) (size : Nat) (out : Vector Char maxLen) :
    Except Undefined (Option Nat × Vector Char maxLen) := do
  match ← binToB64Nopad input size out with
  | (none, out) => .ok (none, out)
  | (some ret, out) =>
      match ret % 4 with
      | 0 => .ok (some ret, out)
      | 2 => storePadding out ret 2
      | 3 => storePadding out ret 1
      | _ => .ok (none, out)

/-! ### What they store -/

/-- The text of the first `n` blocks. -/
def blocksText (input : List (BitVec 8)) (n : Nat) : List Char :=
  (List.range n).flatMap fun i => blockChars
    (blockWord (byteAt input (3 * i)) (byteAt input (3 * i + 1)) (byteAt input (3 * i + 2)))

theorem blocksText_succ (input : List (BitVec 8)) (n : Nat) :
    blocksText input (n + 1) = blocksText input n ++ blockChars
      (blockWord (byteAt input (3 * n)) (byteAt input (3 * n + 1)) (byteAt input (3 * n + 2))) := by
  rw [blocksText, List.range_succ, List.flatMap_append, List.flatMap_singleton]
  rfl

theorem length_blocksText (input : List (BitVec 8)) (n : Nat) :
    (blocksText input n).length = 4 * n := by
  induction n with
  | zero => rfl
  | succ n ih =>
      rw [blocksText_succ, List.length_append, ih]
      rfl

/-- The loop stores the blocks one behind the other. -/
theorem encodeFull_eq (input : List (BitVec 8)) (out : Vector Char maxLen) (n : Nat) :
    encodeFull input out n = copy out 0 (blocksText input n) := by
  induction n with
  | zero => rfl
  | succ n ih =>
      rw [encodeFull, ih, blocksText_succ, copy_append, length_blocksText, Nat.zero_add]
      rfl

theorem encodeLast_eq (x : List (BitVec 8)) (out : Vector Char maxLen) :
    encodeLast x out (x.length / 3) (if x.length % 3 = 0 then 0 else x.length % 3 + 1) =
      copy out (4 * (x.length / 3)) (unpadded (x.drop (3 * (x.length / 3))) ++ [nul]) := by
  rw [unpadded_last, encodeLast]
  by_cases hzero : x.length % 3 = 0
  · simp [hzero]
  · simp only [hzero, if_false, Nat.add_eq_zero_iff, one_ne_zero, and_false]
    split_ifs <;> rfl

/-- The loop and the last block store the text without padding and the terminator. -/
theorem encodeFull_encodeLast (x : List (BitVec 8)) (out : Vector Char maxLen) :
    (do
      let out ← encodeFull x out (x.length / 3)
      encodeLast x out (x.length / 3) (if x.length % 3 = 0 then 0 else x.length % 3 + 1)) =
      copy out 0 (unpadded x ++ [nul]) := by
  have hblocks : unpadded x = blocksText x (x.length / 3) ++
      unpadded (x.drop (3 * (x.length / 3))) := unpadded_eq x
  rw [hblocks, List.append_assoc, copy_append, length_blocksText, Nat.zero_add, encodeFull_eq]
  exact congrArg (copy out 0 (blocksText x (x.length / 3)) >>= ·) (funext (encodeLast_eq x))

/-- What an array holds when a text and its terminator are stored at its front. -/
def Holds (out out' : Vector Char maxLen) (text : List Char) : Prop :=
  out'.toList = text ++ nul :: out.toList.drop (text.length + 1)

theorem copy_holds (out : Vector Char maxLen) {text : List Char} (h : text.length < maxLen) :
    ∃ out', copy out 0 (text ++ [nul]) = .ok out' ∧ Holds out out' text := by
  obtain ⟨out', hcopy, hlist⟩ := copy_spec out 0 (text ++ [nul]) (by simpa using h)
  refine ⟨out', hcopy, ?_⟩
  simpa [Holds] using hlist

/-- The encoder without padding, for a list that is not empty. -/
theorem binToB64Nopad_eq {x : List (BitVec 8)} (hx : x ≠ []) (out : Vector Char maxLen) :
    binToB64Nopad x x.length out =
      if intMax < (unpadded x).length + 1 then .error .overflow
      else if maxLen < (unpadded x).length + 1 then .ok (none, out)
      else (do
        let out ← accesses (encodeFull x out (x.length / 3))
        let out ← accesses (encodeLast x out (x.length / 3)
          (if x.length % 3 = 0 then 0 else x.length % 3 + 1))
        .ok (some (unpadded x).length, out)) := by
  have hpos : x.length ≠ 0 := fun h => hx (List.length_eq_zero_iff.1 h)
  simp only [binToB64Nopad, hpos, if_false, ← length_unpadded]

/-- The text without padding is stored when it fits. -/
theorem binToB64Nopad_ok {x : List (BitVec 8)} (out : Vector Char maxLen)
    (hint : (unpadded x).length + 1 ≤ intMax) (hfit : (unpadded x).length < maxLen) :
    ∃ out', binToB64Nopad x x.length out = .ok (some (unpadded x).length, out') ∧
      Holds out out' (unpadded x) := by
  obtain ⟨out', hcopy, hholds⟩ := copy_holds out hfit
  refine ⟨out', ?_, hholds⟩
  by_cases hx : x = []
  · subst hx
    -- the terminator is the whole text
    have hpos : 0 < maxLen := hfit
    have hwrite : write out 0 nul = .ok out' := by
      rw [write_ok out nul hpos]
      change copy out 0 [nul] = .ok out' at hcopy
      rw [copy, write_ok out nul hpos] at hcopy
      exact hcopy
    rw [binToB64Nopad, if_pos List.length_nil, hwrite]
    rfl
  · rw [← encodeFull_encodeLast] at hcopy
    obtain ⟨mid, hfull, hlast⟩ := bind_eq_ok.1 hcopy
    rw [binToB64Nopad_eq hx, if_neg (Nat.not_lt.2 hint), if_neg (Nat.not_lt.2 hfit), hfull]
    show (accesses (encodeLast x mid _ _) >>= _) = _
    rw [hlast]
    rfl

/-- One branch of the padding, behind a text that ends at `ret`. -/
theorem storePadding_ok {out mid : Vector Char maxLen} {text : List Char} (pads : Nat)
    (hmid : Holds out mid text) (hint : text.length + pads + 1 ≤ intMax)
    (hfit : text.length + pads < maxLen) :
    ∃ out', storePadding mid text.length pads = .ok (some (text.length + pads), out') ∧
      Holds out out' (text ++ List.replicate pads '=') := by
  have hlen : (List.replicate pads '=' ++ [nul]).length = pads + 1 := by simp
  obtain ⟨out', hcopy, hlist⟩ :=
    copy_spec mid text.length (List.replicate pads '=' ++ [nul]) (by omega)
  refine ⟨out', ?_, ?_⟩
  · rw [storePadding, if_neg (Nat.not_lt.2 hint), if_pos (Nat.succ_le_of_lt hfit), hcopy]
    rfl
  · -- the padding starts where the terminator was
    have hfront : mid.toList.take text.length = text := by
      rw [hmid, List.take_left' rfl]
    have hback : mid.toList.drop (text.length + (pads + 1)) =
        out.toList.drop (text.length + (pads + 1)) := by
      rw [hmid, ← List.drop_drop, List.drop_left' rfl, List.drop_succ_cons, List.drop_drop]
      congr 1
      omega
    rw [Holds, hlist, hlen, hfront, hback]
    simp [Nat.add_assoc]

/-- The padding, by the number of bytes in the last block. -/
theorem binToB64_of_nopad {x : List (BitVec 8)} {out mid : Vector Char maxLen}
    (h : binToB64Nopad x x.length out = .ok (some (unpadded x).length, mid)) :
    binToB64 x x.length out =
      if x.length % 3 = 0 then .ok (some (unpadded x).length, mid)
      else storePadding mid (unpadded x).length ((3 - x.length % 3) % 3) := by
  have hlen := length_unpadded x
  have hlt : x.length % 3 < 3 := Nat.mod_lt _ (by decide)
  rw [binToB64, h]
  show (match (unpadded x).length % 4 with
    | 0 => _
    | 2 => _
    | 3 => _
    | _ => _) = _
  obtain hmod | hmod | hmod : x.length % 3 = 0 ∨ x.length % 3 = 1 ∨ x.length % 3 = 2 := by omega
  · have hfour : (unpadded x).length % 4 = 0 := by
      rw [hlen, hmod]
      exact Nat.mul_mod_right 4 _
    rw [hfour, hmod]
    rfl
  · have hfour : (unpadded x).length % 4 = 2 := by
      rw [hlen, hmod]
      exact Nat.mul_add_mod 4 _ 2
    rw [hfour, hmod]
    rfl
  · have hfour : (unpadded x).length % 4 = 3 := by
      rw [hlen, hmod]
      exact Nat.mul_add_mod 4 _ 3
    rw [hfour, hmod]
    rfl

/-- The text with its padding is stored when it fits. -/
theorem binToB64_ok {x : List (BitVec 8)} (out : Vector Char maxLen)
    (hint : (base64 x).length + 1 ≤ intMax) (hfit : (base64 x).length < maxLen) :
    ∃ out', binToB64 x x.length out = .ok (some (base64 x).length, out') ∧
      Holds out out' (base64 x) := by
  have hlen : (base64 x).length = (unpadded x).length + (3 - x.length % 3) % 3 := by
    rw [base64_eq, List.length_append, List.length_replicate]
  obtain ⟨mid, hnopad, hmid⟩ := binToB64Nopad_ok (x := x) out (by omega) (by omega)
  rw [binToB64_of_nopad hnopad]
  by_cases hzero : x.length % 3 = 0
  · have hsame : base64 x = unpadded x := by
      rw [base64_eq, hzero]
      exact List.append_nil _
    rw [if_pos hzero, hsame]
    exact ⟨mid, rfl, hmid⟩
  · rw [if_neg hzero, hlen, base64_eq]
    exact storePadding_ok _ hmid (by omega) (by omega)

end Encoder

/-! ## The decoder -/

section Decoder

variable {maxLen : Nat}

/-- What a decoder ends with: the end of the process, the result `-1`, or a length. -/
inductive Returned (maxLen : Nat) where
  | exit
  | fail (out : Vector (BitVec 8) maxLen)
  | ok (len : Nat) (out : Vector (BitVec 8) maxLen)
  deriving DecidableEq, Repr

/-- A piece that is decoded is stored at `i`. Without it the process has ended. -/
def storePiece (out : Vector (BitVec 8) maxLen) (i : Nat) :
    Option (List (BitVec 8)) → Except OutOfBounds (Option (Vector (BitVec 8) maxLen))
  | none => .ok none
  | some bytes => (copy out i bytes).map some

/-- The loop of `b64_to_bin_nopad` over the first blocks. -/
def decodeFull (input : List Char) (out : Vector (BitVec 8) maxLen) :
    Nat → Except OutOfBounds (Option (Vector (BitVec 8) maxLen))
  | 0 => .ok (some out)
  | i + 1 => do
      match ← decodeFull input out i with
      | none => .ok none
      | some out => storePiece out (3 * i) (decodeBlock input i)

/-- `b64_to_bin_nopad` on the first `size` characters of the input, with the array `out` of
`max_len` bytes -/
def b64ToBinNopad (input : List Char) (size : Nat) (out : Vector (BitVec 8) maxLen) :
    Except OutOfBounds (Returned maxLen) :=
  if size = 0 then .ok (.ok 0 out)
  else if size % 4 = 1 then .ok (.fail out)
  else
    let resultLen := 3 * (size / 4) + lastBytes (size % 4)
    if maxLen < resultLen then .ok (.fail out)
    else do
      match ← decodeFull input out (size / 4) with
      | none => .ok .exit
      | some out =>
          match ← storePiece out (3 * (size / 4)) (decodeLast input (size / 4) (size % 4)) with
          | none => .ok .exit
          | some out => .ok (.ok resultLen out)

/-- `b64_to_bin` -/
def b64ToBin (input : List Char) (size : Nat) (out : Vector (BitVec 8) maxLen) :
    Except OutOfBounds (Returned maxLen) :=
  if size % 4 = 0 ∧ 4 ≤ size then
    if charAt input (size - 2) = '=' then b64ToBinNopad input (size - 2) out
    else if charAt input (size - 1) = '=' then b64ToBinNopad input (size - 1) out
    else b64ToBinNopad input size out
  else b64ToBinNopad input size out

/-- Blocks that were decoded are stored at the front of an array with room for them. -/
theorem storePiece_front {input : List Char} (out : Vector (BitVec 8) maxLen) {n : Nat}
    {front : List (BitVec 8)} (hfull : Base64.decodeFull input n = some front)
    (hfit : 3 * n ≤ maxLen) :
    ∃ mid, copy out 0 front = .ok mid ∧ storePiece out 0 (some front) = .ok (some mid) := by
  have hlen := length_decodeFull hfull
  obtain ⟨mid, hcopy, -⟩ := copy_spec out 0 front (by omega)
  refine ⟨mid, hcopy, ?_⟩
  rw [storePiece, hcopy]
  rfl

/-- The first blocks are stored one behind the other, and all of them fit. -/
theorem decodeFull_eq (input : List Char) (out : Vector (BitVec 8) maxLen) {n : Nat}
    (hfit : 3 * n ≤ maxLen) :
    decodeFull input out n = storePiece out 0 (Base64.decodeFull input n) := by
  induction n with
  | zero => rfl
  | succ n ih =>
      rw [decodeFull, ih (by omega), Base64.decodeFull]
      cases hfull : Base64.decodeFull input n with
      | none => rfl
      | some front =>
          obtain ⟨mid, hcopy, hfront⟩ := storePiece_front out hfull (by omega)
          rw [hfront]
          show storePiece mid (3 * n) (decodeBlock input n) = _
          cases decodeBlock input n with
          | none => rfl
          | some block =>
              show (copy mid (3 * n) block).map some = (copy out 0 (front ++ block)).map some
              rw [copy_append_ok hcopy, length_decodeFull hfull, Nat.zero_add]

/-- The decoder stores what the decoder on lists gives, at the front of the array. -/
theorem b64ToBinNopad_eq (input : List Char) (size : Nat) (out : Vector (BitVec 8) maxLen) :
    b64ToBinNopad input size out =
      match Base64.b64ToBinNopad input size maxLen with
      | .exit => .ok .exit
      | .fail => .ok (.fail out)
      | .ok bytes => (copy out 0 bytes).map (.ok bytes.length) := by
  rw [b64ToBinNopad, Base64.b64ToBinNopad]
  split_ifs with hzero hone hlong
  · rfl
  · rfl
  · simp [hlong]
  · simp only [hlong, if_false]
    rw [decodeFull_eq input out (by omega), decodeChars]
    cases hfull : Base64.decodeFull input (size / 4) with
    | none => rfl
    | some front =>
        obtain ⟨mid, hcopy, hfront⟩ := storePiece_front out hfull (by omega)
        rw [hfront]
        cases hlast : decodeLast input (size / 4) (size % 4) with
        | none => rfl
        | some last =>
            show ((copy mid (3 * (size / 4)) last).map some >>= _) =
              (copy out 0 (front ++ last)).map (Returned.ok (front ++ last).length)
            rw [copy_append_ok hcopy, List.length_append, length_decodeFull hfull,
              length_decodeLast hlast, Nat.zero_add]
            cases copy mid (3 * (size / 4)) last with
            | error e => rfl
            | ok out' => rfl

/-- What a result of the decoder on lists means for the array. -/
theorem b64ToBin_eq (input : List Char) (size : Nat) (out : Vector (BitVec 8) maxLen) :
    b64ToBin input size out =
      match Base64.b64ToBin input size maxLen with
      | .exit => .ok .exit
      | .fail => .ok (.fail out)
      | .ok bytes => (copy out 0 bytes).map (.ok bytes.length) := by
  rw [b64ToBin, Base64.b64ToBin]
  split_ifs <;> exact b64ToBinNopad_eq _ _ _

theorem b64ToBin_of_exit {input : List Char} {size : Nat} (out : Vector (BitVec 8) maxLen)
    (h : Base64.b64ToBin input size maxLen = .exit) : b64ToBin input size out = .ok .exit := by
  rw [b64ToBin_eq, h]

theorem b64ToBin_of_fail {input : List Char} {size : Nat} (out : Vector (BitVec 8) maxLen)
    (h : Base64.b64ToBin input size maxLen = .fail) :
    b64ToBin input size out = .ok (.fail out) := by
  rw [b64ToBin_eq, h]

/-- The bytes of a result are stored in the array, and nothing behind them. -/
theorem b64ToBin_of_ok {input : List Char} {size : Nat} (out : Vector (BitVec 8) maxLen)
    {bytes : List (BitVec 8)} (h : Base64.b64ToBin input size maxLen = .ok bytes) :
    ∃ out', b64ToBin input size out = .ok (.ok bytes.length out') ∧
      out'.toList = bytes ++ out.toList.drop bytes.length := by
  have hlen := length_b64ToBin_le h
  obtain ⟨out', hcopy, hlist⟩ := copy_spec out 0 bytes (by omega)
  refine ⟨out', ?_, ?_⟩
  · rw [b64ToBin_eq, h]
    show (copy out 0 bytes).map (Returned.ok bytes.length) = _
    rw [hcopy]
    rfl
  · simpa using hlist

end Decoder

/-! ## The round trip -/

section RoundTrip

variable {maxLen : Nat}

/-- A call of an encoder of `x`, whose text is `text`: it answers `-1` because the text and its
terminator do not fit, or it stores these characters and the terminator alone, and the decoder gives
back `x` for every array that has room for it. -/
def Encodes (x : List (BitVec 8)) (text : List Char) (out : Vector Char maxLen)
    (call : Except Undefined (Option Nat × Vector Char maxLen)) : Prop :=
  ∃ ret out', call = .ok (ret, out') ∧
    match ret with
    | none => maxLen < text.length + 1
    | some len => len = text.length ∧ len < maxLen ∧ Holds out out' text ∧
        ∀ (cap : Nat) (dst : Vector (BitVec 8) cap), x.length ≤ cap →
          ∃ dst', b64ToBin out'.toList len dst = .ok (.ok x.length dst') ∧
            dst'.toList = x ++ dst.toList.drop x.length

/-- Both encoders keep their promise for the array, and the decoder makes no difference between the
text with its padding and the one without. -/
structure RoundTrips (x : List (BitVec 8)) (maxLen : Nat) : Prop where
  padded : ∀ out : Vector Char maxLen, Encodes x (base64 x) out (binToB64 x x.length out)
  nopad : ∀ out : Vector Char maxLen, Encodes x (unpadded x) out (binToB64Nopad x x.length out)
  same : ∀ (cap : Nat) (dst : Vector (BitVec 8) cap),
    b64ToBin (base64 x) (base64 x).length dst = b64ToBin (unpadded x) (unpadded x).length dst

/-- A text that is stored in front of something decodes like the text. -/
theorem encodes_of_holds {x : List (BitVec 8)} {text : List Char} {out out' : Vector Char maxLen}
    {call : Except Undefined (Option Nat × Vector Char maxLen)}
    (hcall : call = .ok (some text.length, out')) (hfit : text.length < maxLen)
    (hholds : Holds out out' text)
    (hdecode : ∀ (rest : List Char) (cap : Nat), x.length ≤ cap →
      Base64.b64ToBin (text ++ rest) text.length cap = .ok x) : Encodes x text out call := by
  refine ⟨some text.length, out', hcall, rfl, hfit, hholds, ?_⟩
  intro cap dst hcap
  have hdst := hdecode (nul :: out.toList.drop (text.length + 1)) cap hcap
  rw [← hholds] at hdst
  exact b64ToBin_of_ok dst hdst

theorem encodes_nopad_of_ok {x : List (BitVec 8)} {out : Vector Char maxLen}
    {r : Option Nat × Vector Char maxLen} (h : binToB64Nopad x x.length out = .ok r) :
    (x = [] → 0 < maxLen) ∧ (unpadded x).length + 1 ≤ intMax := by
  by_cases hx : x = []
  · subst hx
    refine ⟨?_, by decide⟩
    intro _
    by_contra hzero
    -- the terminator of the empty text is stored without a look at the capacity
    have hwrite : write out 0 nul = .error ⟨0, maxLen⟩ := dif_neg hzero
    rw [binToB64Nopad, if_pos List.length_nil, hwrite] at h
    cases h
  · refine ⟨fun hnil => absurd hnil hx, ?_⟩
    by_contra hint
    rw [binToB64Nopad_eq hx, if_pos (Nat.not_le.1 hint)] at h
    cases h

/-- The encoder without padding keeps its promise unless the array has no cell for the terminator of
the empty text, or the length is not an `int`. -/
theorem encodes_nopad_iff (x : List (BitVec 8)) (out : Vector Char maxLen) :
    Encodes x (unpadded x) out (binToB64Nopad x x.length out) ↔
      (x = [] → 0 < maxLen) ∧ (unpadded x).length + 1 ≤ intMax := by
  constructor
  · rintro ⟨ret, out', hcall, -⟩
    exact encodes_nopad_of_ok hcall
  · rintro ⟨hnil, hint⟩
    by_cases hfit : (unpadded x).length < maxLen
    · obtain ⟨out', hcall, hholds⟩ := binToB64Nopad_ok out hint hfit
      refine encodes_of_holds hcall hfit hholds ?_
      intro rest cap hcap
      rw [b64ToBin_unpadded, if_pos hcap]
    · have hx : x ≠ [] := by
        rintro rfl
        exact hfit (hnil rfl)
      have hshort : maxLen < (unpadded x).length + 1 := Nat.lt_succ_of_le (Nat.not_lt.1 hfit)
      refine ⟨none, out, ?_, hshort⟩
      rw [binToB64Nopad_eq hx, if_neg (Nat.not_lt.2 hint), if_pos hshort]

theorem length_base64_eq (x : List (BitVec 8)) :
    (base64 x).length = (unpadded x).length + (3 - x.length % 3) % 3 := by
  rw [base64_eq, List.length_append, List.length_replicate]

/-- The encoder with padding fails like the one without, and when its own length is no `int`. -/
theorem encodes_padded_iff (x : List (BitVec 8)) (out : Vector Char maxLen) :
    Encodes x (base64 x) out (binToB64 x x.length out) ↔
      ((x = [] → 0 < maxLen) ∧ (unpadded x).length + 1 ≤ intMax) ∧
        ((unpadded x).length < maxLen → (base64 x).length + 1 ≤ intMax) := by
  have hlen := length_base64_eq x
  constructor
  · rintro ⟨ret, out', hcall, -⟩
    have hnopad : (x = [] → 0 < maxLen) ∧ (unpadded x).length + 1 ≤ intMax := by
      cases hret : binToB64Nopad x x.length out with
      | error e =>
          rw [binToB64, hret] at hcall
          cases hcall
      | ok r => exact encodes_nopad_of_ok hret
    refine ⟨hnopad, ?_⟩
    intro hfit
    by_contra hint
    obtain ⟨mid, hmid, -⟩ := binToB64Nopad_ok out hnopad.2 hfit
    rw [binToB64_of_nopad hmid] at hcall
    by_cases hzero : x.length % 3 = 0
    · rw [hzero] at hlen
      exact hint (hlen ▸ hnopad.2)
    · rw [if_neg hzero, storePadding, ← hlen, if_pos (Nat.not_le.1 hint)] at hcall
      cases hcall
  · rintro ⟨⟨hnil, hint⟩, hpadded⟩
    by_cases hfit : (base64 x).length < maxLen
    · obtain ⟨out', hcall, hholds⟩ := binToB64_ok out (hpadded (by omega)) hfit
      refine encodes_of_holds hcall hfit hholds ?_
      intro rest cap hcap
      rw [b64ToBin_padded, if_pos hcap]
    · have hshort : maxLen < (base64 x).length + 1 := Nat.lt_succ_of_le (Nat.not_lt.1 hfit)
      by_cases hmid : (unpadded x).length < maxLen
      · -- the padding does not fit, the text in front of it stays in the array
        obtain ⟨mid, hcall, -⟩ := binToB64Nopad_ok out hint hmid
        have hzero : x.length % 3 ≠ 0 := by
          intro hzero
          rw [hzero] at hlen
          omega
        refine ⟨none, mid, ?_, hshort⟩
        rw [binToB64_of_nopad hcall, if_neg hzero, storePadding, ← hlen,
          if_neg (Nat.not_lt.2 (hpadded hmid)), if_neg (Nat.not_le.2 hshort)]
      · have hx : x ≠ [] := by
          rintro rfl
          exact hmid (hnil rfl)
        refine ⟨none, out, ?_, hshort⟩
        rw [binToB64, binToB64Nopad_eq hx, if_neg (Nat.not_lt.2 hint),
          if_pos (Nat.lt_succ_of_le (Nat.not_lt.1 hmid))]
        rfl

/-- The lengths of which the text without padding is an `int` with its terminator. -/
theorem length_unpadded_le_iff (x : List (BitVec 8)) :
    (unpadded x).length + 1 ≤ intMax ↔ x.length ≤ 1610612734 := by
  show (unpadded x).length + 1 ≤ 2147483647 ↔ _
  rw [length_unpadded]
  split_ifs <;> omega

/-- The longest of these texts is the only one that is too long with its padding. -/
theorem length_base64_le_iff {x : List (BitVec 8)} (h : x.length ≤ 1610612734) :
    ((unpadded x).length < maxLen → (base64 x).length + 1 ≤ intMax) ↔
      (x.length = 1610612734 → maxLen ≤ 2147483646) := by
  show (_ → (base64 x).length + 1 ≤ 2147483647) ↔ _
  rw [length_base64, length_unpadded]
  split_ifs <;> omega

/-- For every list of bytes and every capacity: the encoders and the decoder keep the promise
exactly when the empty text has a cell for its terminator and the length of the text is an `int`. -/
theorem roundTrips_iff (x : List (BitVec 8)) (maxLen : Nat) :
    RoundTrips x maxLen ↔
      (x = [] → 0 < maxLen) ∧ x.length ≤ 1610612734 ∧
        (x.length = 1610612734 → maxLen ≤ 2147483646) := by
  constructor
  · intro h
    obtain ⟨⟨hnil, hint⟩, hpad⟩ :=
      (encodes_padded_iff x (Vector.replicate maxLen nul)).1 (h.padded _)
    have hle := (length_unpadded_le_iff x).1 hint
    exact ⟨hnil, hle, (length_base64_le_iff hle).1 hpad⟩
  · rintro ⟨hnil, hle, hmax⟩
    have hint := (length_unpadded_le_iff x).2 hle
    have hpad := (length_base64_le_iff hle).2 hmax
    refine ⟨?_, ?_, ?_⟩
    · exact fun out => (encodes_padded_iff x out).2 ⟨⟨hnil, hint⟩, hpad⟩
    · exact fun out => (encodes_nopad_iff x out).2 ⟨hnil, hint⟩
    · intro cap dst
      have hpadded := b64ToBin_padded x [] cap
      have hunpadded := b64ToBin_unpadded x [] cap
      rw [List.append_nil] at hpadded hunpadded
      rw [b64ToBin_eq, b64ToBin_eq, hpadded, hunpadded]

/-- Without room for a single character the encoder stores the terminator of the empty text. -/
theorem empty_text_without_room :
    ¬ ∀ (x : List (BitVec 8)) (maxLen : Nat), RoundTrips x maxLen := by
  intro h
  obtain ⟨ret, out', hcall, -⟩ := (h [] 0).nopad (Vector.replicate 0 nul)
  cases hcall

end RoundTrip

end DraginoFwd.Base64.Buffer

import DraginoFwd.Lib.BinaryPoly

/-!
# Rijndael with blocks of 128 bits

The cipher in its own terms: bytes are the residues modulo `x^8 + x^4 + x^3 + x + 1`, a state has
four rows and four columns of them, and a key schedule is a sequence of words. `cipher nr w` is a
permutation of the states for every schedule, with the inverse `invCipher nr w` (`invCipher_cipher`,
`cipher_invCipher`). `expand` is the schedule of a key.
-/

set_option autoImplicit false

namespace DraginoFwd.Lib.Rijndael

open DraginoFwd.Lib.BinaryPoly

/-- A byte, which is a polynomial of degree less than 8 over the field of two elements. -/
abbrev Byte : Type := BitVec 8

/-- The lower coefficients of `x^8 + x^4 + x^3 + x + 1`. -/
abbrev modulus : Byte := 0x1B#8

/-- The product of bytes. -/
def mul (x y : Byte) : Byte := mulMod modulus x y

/-- `x ^ 254` -/
def inverse (x : Byte) : Byte :=
  let x3 := mul (mul x x) x
  let x6 := mul x3 x3
  let x12 := mul x6 x6
  let x15 := mul x12 x3
  let x30 := mul x15 x15
  let x60 := mul x30 x30
  let x120 := mul x60 x60
  let x127 := mul (mul x120 x6) x
  mul x127 x127

/-- The substitution of a byte: the inverse, and an affine map of its bits. -/
def subByte (x : Byte) : Byte :=
  let y := inverse x
  y ^^^ y.rotateLeft 1 ^^^ y.rotateLeft 2 ^^^ y.rotateLeft 3 ^^^ y.rotateLeft 4 ^^^ 0x63#8

/-- The inverse substitution: the inverse of the affine map, and the inverse. -/
def invSubByte (x : Byte) : Byte :=
  inverse (x.rotateLeft 1 ^^^ x.rotateLeft 3 ^^^ x.rotateLeft 6 ^^^ 0x05#8)

example : subByte 0x53#8 = 0xED#8 := by decide +kernel

theorem invSubByte_subByte : ∀ x : Byte, invSubByte (subByte x) = x := by decide +kernel

/-! ## States -/

/-- The byte in a row and a column. -/
abbrev State : Type := Fin 4 → Fin 4 → Byte

/-- Four bytes. -/
abbrev Word : Type := Fin 4 → Byte

/-- Each byte is substituted. -/
def subBytes (s : State) : State := fun r c => subByte (s r c)

/-- Each byte is substituted back. -/
def invSubBytes (s : State) : State := fun r c => invSubByte (s r c)

/-- Row `r` moves to the left by `r` columns. -/
def shiftRows (s : State) : State := fun r c => s r (c + r)

/-- Row `r` moves back to the right. -/
def invShiftRows (s : State) : State := fun r c => s r (c - r)

/-- Each column is multiplied by a circulant matrix. -/
def mixColumns (s : State) : State := fun r c =>
  mul 2#8 (s r c) ^^^ mul 3#8 (s (r + 1) c) ^^^ s (r + 2) c ^^^ s (r + 3) c

/-- Each column is multiplied by the inverse matrix. -/
def invMixColumns (s : State) : State := fun r c =>
  mul 14#8 (s r c) ^^^ mul 11#8 (s (r + 1) c) ^^^ mul 13#8 (s (r + 2) c) ^^^ mul 9#8 (s (r + 3) c)

/-- The round key `n` is the words `4 n, .., 4 n + 3`, one for each column. -/
def addRoundKey (w : Nat → Word) (n : Nat) (s : State) : State := fun r c =>
  s r c ^^^ w (4 * n + c.val) r

theorem invSubBytes_subBytes (s : State) : invSubBytes (subBytes s) = s := by
  funext r c
  exact invSubByte_subByte (s r c)

theorem invShiftRows_shiftRows (s : State) : invShiftRows (shiftRows s) = s := by
  funext r c
  exact congrArg (s r) (sub_add_cancel c r)

theorem addRoundKey_addRoundKey (w : Nat → Word) (n : Nat) (s : State) :
    addRoundKey w n (addRoundKey w n s) = s := by
  funext r c
  rw [addRoundKey, addRoundKey, BitVec.xor_assoc, BitVec.xor_self, BitVec.xor_zero]

/-- The coefficients of the two matrices are polynomials in the residue of `2`. -/
theorem residue_coefficients :
    residue modulus 3#8 = residue modulus 2#8 + 1 ∧
      residue modulus 9#8 = residue modulus 2#8 ^ 3 + 1 ∧
      residue modulus 11#8 = residue modulus 2#8 ^ 3 + residue modulus 2#8 + 1 ∧
      residue modulus 13#8 = residue modulus 2#8 ^ 3 + residue modulus 2#8 ^ 2 + 1 ∧
      residue modulus 14#8 =
        residue modulus 2#8 ^ 3 + residue modulus 2#8 ^ 2 + residue modulus 2#8 := by
  have hone : residue modulus 1#8 = 1 := by
    rw [residue, show poly 1#8 = 1 from ?_, map_one]
    rw [poly, Finset.sum_eq_single_of_mem 0 (by simp)]
    · simp
    · intro i _ hne
      rw [BitVec.getLsbD_one, decide_eq_false hne]
      rfl
  have hfour : residue modulus 4#8 = residue modulus 2#8 ^ 2 := by
    rw [sq, ← residue_mulMod]
    exact congrArg _ (by decide)
  have height : residue modulus 8#8 = residue modulus 2#8 ^ 3 := by
    rw [pow_succ, ← hfour, ← residue_mulMod]
    exact congrArg _ (by decide)
  rw [← hone, ← hfour, ← height]
  simp only [← residue_xor]
  exact ⟨congrArg _ (by decide), congrArg _ (by decide), congrArg _ (by decide),
    congrArg _ (by decide), congrArg _ (by decide)⟩

theorem invMixColumns_mixColumns (s : State) : invMixColumns (mixColumns s) = s := by
  obtain ⟨h3, h9, h11, h13, h14⟩ := residue_coefficients
  have hrow : ∀ r : Fin 4, r + 1 + 1 = r + 2 ∧ r + 1 + 2 = r + 3 ∧ r + 1 + 3 = r ∧
    r + 2 + 1 = r + 3 ∧
      r + 2 + 2 = r ∧ r + 2 + 3 = r + 1 ∧ r + 3 + 1 = r ∧ r + 3 + 2 = r + 1 ∧
      r + 3 + 3 = r + 2 := by decide
  funext r c
  obtain ⟨h1, h2, h4, h5, h6, h7, h8, h10, h12⟩ := hrow r
  apply residue_injective modulus
  simp only [invMixColumns, mixColumns, mul, residue_xor, residue_mulMod, h1, h2, h4, h5,
    h6, h7, h8,
    h10, h12, h3, h9, h11, h13, h14]
  generalize residue modulus 2#8 = t
  linear_combination
    (residue modulus (s r c) * (t ^ 4 + 2 * t ^ 3 + t ^ 2 + t + 1) +
      residue modulus (s (r + 1) c) * (t ^ 4 + 2 * t ^ 3 + 2 * t ^ 2 + t + 1) +
      residue modulus (s (r + 2) c) * (t ^ 4 + 2 * t ^ 3 + t ^ 2 + 2 * t + 1) +
      residue modulus (s (r + 3) c) * (t ^ 4 + 2 * t ^ 3 + t ^ 2 + 2 * t + 1)) * two_eq_zero modulus

/-! ## The cipher -/

/-- The first `n` rounds, with the key that comes in front of them. -/
def rounds (w : Nat → Word) : Nat → State → State
  | 0, s => addRoundKey w 0 s
  | n + 1, s => addRoundKey w (n + 1) (mixColumns (shiftRows (subBytes (rounds w n s))))

/-- The last of the `nr` rounds does not mix the columns. -/
def cipher (nr : Nat) (w : Nat → Word) (s : State) : State :=
  addRoundKey w nr (shiftRows (subBytes (rounds w (nr - 1) s)))

/-- The first `n` rounds backwards. -/
def invRounds (w : Nat → Word) : Nat → State → State
  | 0, s => addRoundKey w 0 s
  | n + 1, s =>
      invRounds w n (invSubBytes (invShiftRows (invMixColumns (addRoundKey w (n + 1) s))))

/-- The cipher backwards, from its last round on. -/
def invCipher (nr : Nat) (w : Nat → Word) (s : State) : State :=
  invRounds w (nr - 1) (invSubBytes (invShiftRows (addRoundKey w nr s)))

theorem invRounds_rounds (w : Nat → Word) (n : Nat) (s : State) :
    invRounds w n (rounds w n s) = s := by
  induction n with
  | zero => exact addRoundKey_addRoundKey w 0 s
  | succ n ih =>
    rw [rounds, invRounds, addRoundKey_addRoundKey, invMixColumns_mixColumns,
      invShiftRows_shiftRows, invSubBytes_subBytes, ih]

/-- **Deciphering undoes ciphering**, for every schedule. -/
theorem invCipher_cipher (nr : Nat) (w : Nat → Word) (s : State) :
    invCipher nr w (cipher nr w s) = s := by
  rw [invCipher, cipher, addRoundKey_addRoundKey, invShiftRows_shiftRows, invSubBytes_subBytes,
    invRounds_rounds]

theorem cipher_invCipher (nr : Nat) (w : Nat → Word) (s : State) :
    cipher nr w (invCipher nr w s) = s := by
  have hleft : Function.LeftInverse (invCipher nr w) (cipher nr w) := invCipher_cipher nr w
  exact hleft.rightInverse_of_surjective (Finite.surjective_of_injective hleft.injective) s

/-- The cipher reads the first words of the schedule only. -/
theorem rounds_congr {w w' : Nat → Word} {n : Nat} (h : ∀ i < 4 * (n + 1), w i = w' i) (s : State) :
    rounds w n s = rounds w' n s := by
  induction n with
  | zero =>
    funext r c
    rw [rounds, rounds, addRoundKey, addRoundKey, h (4 * 0 + c.val) (by omega)]
  | succ n ih =>
    rw [rounds, rounds, ih fun i hi => h i (by omega)]
    funext r c
    rw [addRoundKey, addRoundKey, h (4 * (n + 1) + c.val) (by omega)]

theorem cipher_congr {w w' : Nat → Word} {nr : Nat} (h : ∀ i < 4 * (nr + 1), w i = w' i)
    (s : State) : cipher nr w s = cipher nr w' s := by
  rw [cipher, cipher, rounds_congr fun i hi => h i (by omega)]
  funext r c
  rw [addRoundKey, addRoundKey, h (4 * nr + c.val) (by omega)]

/-! ## The schedule -/

/-- Each byte of a word is substituted. -/
def subWord (x : Word) : Word := fun r => subByte (x r)

/-- The first byte moves behind the others. -/
def rotWord (x : Word) : Word := fun r => x (r + 1)

/-- The constant of the `n`-th step is `2 ^ (n - 1)`. -/
def roundConstant (n : Nat) : Byte := (xtimes modulus)^[n - 1] 1#8

/-- The constant is added to the first byte. -/
def addConstant (k : Byte) (x : Word) : Word := fun r => if r = 0 then x r ^^^ k else x r

/-- Word `i` of the schedule of the key with the words `key 0, .., key (nk - 1)`. -/
def expand (nk : Nat) (key : Nat → Word) (i : Nat) : Word :=
  if i < nk ∨ nk = 0 then key i
  else
    let temp := expand nk key (i - 1)
    let temp :=
      if i % nk = 0 then addConstant (roundConstant (i / nk)) (subWord (rotWord temp))
      else if 6 < nk ∧ i % nk = 4 then subWord temp
      else temp
    fun r => expand nk key (i - nk) r ^^^ temp r
termination_by i
decreasing_by all_goals omega

end DraginoFwd.Lib.Rijndael

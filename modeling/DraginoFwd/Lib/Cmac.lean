import DraginoFwd.Lib.BinaryPoly

/-!
# Authentication by a chain of blocks

The code `cmac` of a message for a block cipher `E` on blocks of `n` bytes: a chain through all
blocks but the last, which is masked with one of two subkeys, the second for a block that had to be
padded. The subkeys are the encrypted zero block times `X` and `X ^ 2` modulo a polynomial. `absorb`
is the same chain over a message that comes in pieces: it keeps back the last one to `n` bytes, and
what it has taken does not depend on where the message was cut (`absorb_append`, `cmac_eq_absorb`).
-/

set_option autoImplicit false

namespace DraginoFwd.Lib.Cmac

open DraginoFwd.Lib.BinaryPoly

variable {n : Nat}

/-! ## Blocks as residues -/

/-- The number that a block writes, the first byte on top. -/
def ofBytes (b : Vector (BitVec 8) n) : BitVec (8 * n) :=
  BitVec.ofFnLE fun i => (b.get ⟨n - 1 - i.val / 8, by omega⟩).getLsbD (i.val % 8)

theorem getLsbD_ofBytes (b : Vector (BitVec 8) n) {i : Nat} (h : i < 8 * n) :
    (ofBytes b).getLsbD i = (b.get ⟨n - 1 - i / 8, by omega⟩).getLsbD (i % 8) := by
  rw [ofBytes, BitVec.getLsbD_ofFnLE, dif_pos h]

theorem ofBytes_injective : Function.Injective (ofBytes (n := n)) := by
  intro x y h
  apply Vector.ext
  intro k hk
  apply BitVec.eq_of_getLsbD_eq
  intro j hj
  have hbit := congrArg (fun z => z.getLsbD (8 * (n - 1 - k) + j)) h
  simp only [getLsbD_ofBytes _ (show 8 * (n - 1 - k) + j < 8 * n by omega),
    show n - 1 - (8 * (n - 1 - k) + j) / 8 = k by omega,
    show (8 * (n - 1 - k) + j) % 8 = j by omega] at hbit
  exact hbit

/-- The block of a number. -/
def toBytes (x : BitVec (8 * n)) : Vector (BitVec 8) n :=
  Vector.ofFn fun k => BitVec.ofFnLE fun j => x.getLsbD (8 * (n - 1 - k.val) + j.val)

theorem ofBytes_toBytes (x : BitVec (8 * n)) : ofBytes (toBytes x) = x := by
  apply BitVec.eq_of_getLsbD_eq
  intro i hi
  have hlast : 8 * (n - 1 - (n - 1 - i / 8)) + i % 8 = i := by omega
  rw [getLsbD_ofBytes _ hi, toBytes, Vector.get_ofFn, BitVec.getLsbD_ofFnLE,
    dif_pos (Nat.mod_lt i (by decide))]
  simp only [hlast]

/-- A block times `X` modulo the polynomial of `p`. -/
def double (p : BitVec (8 * n)) (b : Vector (BitVec 8) n) : Vector (BitVec 8) n :=
  toBytes (xtimes p (ofBytes b))

/-! ## The code of a message -/

/-- The sum of two blocks. -/
def add (x y : Vector (BitVec 8) n) : Vector (BitVec 8) n := Vector.zipWith (fun a b => a ^^^ b) x y

/-- Block `k` of a message. -/
def blockAt (n : Nat) (m : List (BitVec 8)) (k : Nat) : Vector (BitVec 8) n :=
  Vector.ofFn fun i => m.getD (n * k + i.val) 0#8

theorem getElem_blockAt (m : List (BitVec 8)) (k : Nat) {i : Nat} (h : i < n) :
    (blockAt n m k)[i] = m[n * k + i]?.getD 0#8 := by
  rw [blockAt, Vector.getElem_ofFn, List.getD_eq_getElem?_getD]

/-- A short block is closed with a one bit and zeros. -/
def padded (n : Nat) (l : List (BitVec 8)) : Vector (BitVec 8) n :=
  blockAt n (l ++ [0x80#8]) 0

section Chain

variable (p : BitVec (8 * n)) (E : Vector (BitVec 8) n → Vector (BitVec 8) n)

/-- The chain through the first `k` blocks of a message. -/
def chain (m : List (BitVec 8)) : Nat → Vector (BitVec 8) n
  | 0 => Vector.replicate n 0#8
  | k + 1 => E (add (chain m k) (blockAt n m k))

/-- The mask of a whole last block. -/
def subkey1 : Vector (BitVec 8) n := double p (E (Vector.replicate n 0#8))

/-- The mask of a padded one. -/
def subkey2 : Vector (BitVec 8) n := double p (subkey1 p E)

/-- The last block with its mask. -/
def lastBlock (l : List (BitVec 8)) : Vector (BitVec 8) n :=
  if l.length = n then add (blockAt n l 0) (subkey1 p E) else add (padded n l) (subkey2 p E)

/-- The blocks in front of the last. An empty message has one block. -/
def frontBlocks (n : Nat) (m : List (BitVec 8)) : Nat := (m.length - 1) / n

/-- The code of a message. -/
def cmac (m : List (BitVec 8)) : Vector (BitVec 8) n :=
  E (add (chain E m (frontBlocks n m)) (lastBlock p E (m.drop (n * frontBlocks n m))))

/-! ## Piece by piece -/

/-- The chain goes on from `x` through a message, and keeps back its last bytes. -/
def absorb (x : Vector (BitVec 8) n) (m : List (BitVec 8)) :
    Vector (BitVec 8) n × List (BitVec 8) :=
  if 0 < n ∧ n < m.length then absorb (E (add x (blockAt n m 0))) (m.drop n) else (x, m)
termination_by m.length
decreasing_by
  rw [List.length_drop]
  omega

variable {E}

theorem absorb_of_le {x : Vector (BitVec 8) n} {m : List (BitVec 8)} (h : m.length ≤ n) :
    absorb E x m = (x, m) := by
  rw [absorb, if_neg (by omega)]

theorem absorb_of_lt (hn : 0 < n) {x : Vector (BitVec 8) n} {m : List (BitVec 8)}
    (h : n < m.length) :
    absorb E x m = absorb E (E (add x (blockAt n m 0))) (m.drop n) := by
  rw [absorb, if_pos ⟨hn, h⟩]

theorem length_absorb_le (hn : 0 < n) (x : Vector (BitVec 8) n) (m : List (BitVec 8)) :
    (absorb E x m).2.length ≤ n := by
  induction x, m using absorb.induct (n := n) (E := E) with
  | case1 x m h ih => rwa [absorb_of_lt h.1 h.2]
  | case2 x m h =>
    rw [absorb, if_neg h]
    show m.length ≤ n
    omega

theorem blockAt_append {m d : List (BitVec 8)} {k : Nat} (h : n * k + n ≤ m.length) :
    blockAt n (m ++ d) k = blockAt n m k := by
  apply Vector.ext
  intro i hi
  rw [getElem_blockAt _ _ hi, getElem_blockAt _ _ hi, List.getElem?_append_left (by omega)]

theorem blockAt_drop (m : List (BitVec 8)) (k j : Nat) :
    blockAt n (m.drop (n * j)) k = blockAt n m (j + k) := by
  apply Vector.ext
  intro i hi
  have hindex : n * (j + k) + i = n * j + (n * k + i) := by rw [Nat.mul_add, Nat.add_assoc]
  rw [getElem_blockAt _ _ hi, getElem_blockAt _ _ hi, List.getElem?_drop, hindex]

/-- **It does not matter where a message is cut.** -/
theorem absorb_append (hn : 0 < n) (x : Vector (BitVec 8) n) (m d : List (BitVec 8)) :
    absorb E x (m ++ d) = absorb E (absorb E x m).1 ((absorb E x m).2 ++ d) := by
  induction x, m using absorb.induct (n := n) (E := E) with
  | case1 x m h ih =>
    have hblock : blockAt n (m ++ d) 0 = blockAt n m 0 := blockAt_append (by omega)
    rw [absorb_of_lt hn (by rw [List.length_append]; omega), hblock,
      List.drop_append_of_le_length h.2.le, ih, ← absorb_of_lt hn h.2]
  | case2 x m h => rw [absorb_of_le (m := m) (by omega)]

theorem absorb_chain (hn : 0 < n) (m : List (BitVec 8)) {k : Nat} (h : k ≤ frontBlocks n m) :
    absorb E (chain E m k) (m.drop (n * k)) =
      (chain E m (frontBlocks n m), m.drop (n * frontBlocks n m)) := by
  have hfront : n * frontBlocks n m ≤ m.length - 1 := Nat.mul_div_le _ _
  have hrest : m.length - 1 < n * frontBlocks n m + n := Nat.lt_mul_div_succ _ hn
  induction hj : frontBlocks n m - k generalizing k with
  | zero =>
    obtain rfl : k = frontBlocks n m := by omega
    rw [absorb_of_le (by rw [List.length_drop]; omega)]
  | succ j ih =>
    have hstep : n * k + n ≤ n * frontBlocks n m := by
      rw [← Nat.mul_succ]
      exact Nat.mul_le_mul_left n (show k + 1 ≤ frontBlocks n m by omega)
    rw [absorb_of_lt hn (by rw [List.length_drop]; omega), blockAt_drop, List.drop_drop,
      Nat.add_zero,
      ← Nat.mul_succ]
    exact ih (k := k + 1) (by omega) (by omega)

/-- The code of a message from what has been taken of it and what is kept back. -/
theorem cmac_eq_absorb (hn : 0 < n) (m : List (BitVec 8)) :
    cmac p E m = E (add (absorb E (Vector.replicate n 0#8) m).1
      (lastBlock p E (absorb E (Vector.replicate n 0#8) m).2)) := by
  have hchain := absorb_chain (E := E) hn m (k := 0) (Nat.zero_le _)
  rw [Nat.mul_zero, List.drop_zero] at hchain
  rw [cmac, ← chain.eq_1 E m, hchain]

/-! ## A change within one block -/

theorem add_right_injective (x : Vector (BitVec 8) n) : Function.Injective (add x) := by
  intro y z h
  apply Vector.ext
  intro i hi
  have hbyte := congrArg (fun b => b[i]) h
  simpa [add, BitVec.xor_right_inj] using hbyte

theorem add_left_injective (y : Vector (BitVec 8) n) : Function.Injective fun x => add x y := by
  intro x z h
  apply Vector.ext
  intro i hi
  have hbyte := congrArg (fun b => b[i]) h
  simpa [add, BitVec.xor_left_inj] using hbyte

theorem blockAt_inj {l l' : List (BitVec 8)} (hlen : l.length = l'.length) (hle : l.length ≤ n)
    (h : blockAt n l 0 = blockAt n l' 0) : l = l' := by
  apply List.ext_getElem hlen
  intro i hi hi'
  have hbyte := congrArg (fun b => b[i]?) h
  simpa only [Vector.getElem?_eq_getElem (show i < n by omega), getElem_blockAt, Nat.mul_zero,
    Nat.zero_add, List.getElem?_eq_getElem hi, List.getElem?_eq_getElem hi', Option.getD_some,
    Option.some.injEq] using hbyte

/-- The last block tells the bytes in it. -/
theorem lastBlock_inj {l l' : List (BitVec 8)} (hlen : l.length = l'.length) (hle : l.length ≤ n)
    (h : lastBlock p E l = lastBlock p E l') : l = l' := by
  rw [lastBlock, lastBlock, hlen] at h
  split at h
  · exact blockAt_inj hlen hle (add_left_injective _ h)
  · have hpadded := blockAt_inj (by rw [List.length_append, List.length_append, hlen])
      (by rw [List.length_append, List.length_singleton]; omega) (add_left_injective _ h)
    exact (List.append_inj hpadded hlen).1

theorem chain_congr {m m' : List (BitVec 8)} {k : Nat}
    (h : ∀ i, i < n * k → m[i]? = m'[i]?) : chain E m k = chain E m' k := by
  induction k with
  | zero => rfl
  | succ k ih =>
    have hblock : blockAt n m k = blockAt n m' k := by
      apply Vector.ext
      intro i hi
      rw [getElem_blockAt _ _ hi, getElem_blockAt _ _ hi, h _ (by rw [Nat.mul_succ]; omega)]
    rw [chain, chain, hblock, ih fun i hi => h i (by rw [Nat.mul_succ]; omega)]

section Change

variable {m m' : List (BitVec 8)} {k : Nat} (hlen : m.length = m'.length)
  (hbefore : ∀ i, i < n * k → m[i]? = m'[i]?) (hbehind : ∀ i, n * (k + 1) ≤ i → m[i]? = m'[i]?)

include hlen hbefore hbehind

theorem eq_of_blockAt (hin : n * (k + 1) ≤ m.length) (h : blockAt n m k = blockAt n m' k) :
    m = m' := by
  apply List.ext_getElem?
  intro i
  rcases Nat.lt_or_ge i (n * k) with hlow | hlow
  · exact hbefore i hlow
  · rcases Nat.lt_or_ge i (n * (k + 1)) with hmid | hhigh
    · have hbyte := congrArg (fun b => b[i - n * k]?) h
      have hoffset : i - n * k < n := by
        rw [Nat.mul_succ] at hmid
        omega
      simp only [Vector.getElem?_eq_getElem hoffset, getElem_blockAt, Nat.add_sub_cancel' hlow,
        Option.some.injEq] at hbyte
      rw [List.getElem?_eq_getElem (show i < m.length by omega),
        List.getElem?_eq_getElem (show i < m'.length by omega)] at hbyte ⊢
      exact congrArg some hbyte
    · exact hbehind i hhigh

/-- A changed block changes the chain, and no block behind it undoes that. -/
theorem chain_ne (hE : Function.Injective E) (hne : m ≠ m') (hin : n * (k + 1) ≤ m.length) {j : Nat}
    (hj : k < j) : chain E m j ≠ chain E m' j := by
  induction j, hj using Nat.le_induction with
  | base =>
    intro heq
    have hsum := hE heq
    rw [chain_congr hbefore] at hsum
    exact hne (eq_of_blockAt hlen hbefore hbehind hin (add_right_injective _ hsum))
  | succ j hj ih =>
    intro heq
    have hmul : n * (k + 1) ≤ n * j := Nat.mul_le_mul_left n hj
    have hblock : blockAt n m j = blockAt n m' j := by
      apply Vector.ext
      intro i hi
      rw [getElem_blockAt _ _ hi, getElem_blockAt _ _ hi, hbehind _ (by omega)]
    have hsum := hE heq
    rw [hblock] at hsum
    exact ih (add_left_injective _ hsum)

end Change

/-- **Two messages of one length that differ within one block have different codes.** -/
theorem cmac_ne (hn : 0 < n) (hE : Function.Injective E) {m m' : List (BitVec 8)}
    (hlen : m.length = m'.length) (hne : m ≠ m') {k : Nat}
    (h : ∀ i, i / n ≠ k → m[i]? = m'[i]?) : cmac p E m ≠ cmac p E m' := by
  intro hsame
  have hle : n * frontBlocks n m ≤ m.length - 1 := Nat.mul_div_le _ _
  have hrest : m.length - 1 < n * frontBlocks n m + n := Nat.lt_mul_div_succ _ hn
  rw [cmac, cmac, frontBlocks, frontBlocks, ← hlen, ← frontBlocks] at hsame
  have hlast := hE hsame
  have hbefore : ∀ i, i < n * k → m[i]? = m'[i]? := fun i hi =>
    h i (Nat.ne_of_lt (Nat.div_lt_of_lt_mul hi))
  have hbehind : ∀ i, n * (k + 1) ≤ i → m[i]? = m'[i]? := fun i hi =>
    h i (Nat.ne_of_gt ((Nat.le_div_iff_mul_le hn).2 (by rwa [Nat.mul_comm])))
  rcases Nat.lt_or_ge k (frontBlocks n m) with hfront | hfront
  · -- the block is in front: the last blocks agree, and the chains do not
    have hmul : n * (k + 1) ≤ n * frontBlocks n m := Nat.mul_le_mul_left n hfront
    have hdrop : m.drop (n * frontBlocks n m) = m'.drop (n * frontBlocks n m) := by
      apply List.ext_getElem?
      intro i
      rw [List.getElem?_drop, List.getElem?_drop, hbehind _ (by omega)]
    rw [hdrop] at hlast
    exact chain_ne hlen hbefore hbehind hE hne (by omega) hfront (add_left_injective _ hlast)
  · -- the block is the last: the chains agree, and the last block tells its bytes
    have hmul : n * frontBlocks n m ≤ n * k := Nat.mul_le_mul_left n hfront
    rw [chain_congr fun i hi => hbefore i (Nat.lt_of_lt_of_le hi hmul)] at hlast
    have hdrop := lastBlock_inj p (by rw [List.length_drop, List.length_drop, hlen])
      (by rw [List.length_drop]; omega) (add_right_injective _ hlast)
    apply hne
    apply List.ext_getElem?
    intro i
    rcases Nat.lt_or_ge i (n * frontBlocks n m) with hlow | hhigh
    · exact hbefore i (Nat.lt_of_lt_of_le hlow hmul)
    · have hbyte := congrArg (fun l => l[i - n * frontBlocks n m]?) hdrop
      simpa only [List.getElem?_drop, Nat.add_sub_cancel' hhigh] using hbyte

end Chain

end DraginoFwd.Lib.Cmac

import DraginoFwd.Lib.Cmac
import DraginoFwd.Mac.AesSchedule

/-!
# The message code

Model of `cmac.c`. A context holds the chain so far and keeps back the last one to sixteen bytes.
However the bytes come in, the digest is the code of `Lib.Cmac` for the cipher of `Lib.Rijndael`
with the key (`aesCmacFinal_eq`).

`aes` is the cipher that `Mac.Crypto` leaves open, and `loRaMacComputeMicWith` and
`loRaMacPayloadEncryptWith` are the functions of `loramac-crypto.c` down to the table steps of the
block cipher: they are those of `Mac.Crypto` for `aes`.
-/

set_option autoImplicit false

namespace DraginoFwd.Mac

open DraginoFwd.Lib.BinaryPoly
open DraginoFwd.Lib.Cmac
open DraginoFwd.Lib.CounterMode
open DraginoFwd.Lib.Memory
open DraginoFwd.Lib.Rijndael

/-! ## The context -/

/-- `AES_CMAC_CTX` -/
structure AesCmacCtx where
  rijndael : AesContext
  x : Block
  mLast : Block
  mN : Nat

/-- `AES_CMAC_Init` -/
def aesCmacInit (ctx : AesCmacCtx) : AesCmacCtx :=
  { ctx with
    x := Vector.replicate 16 0#8
    mN := 0
    rijndael := { ctx.rijndael with ksch := Vector.replicate kschSize 0#8 } }

/-- `AES_CMAC_SetKey` -/
def aesCmacSetKey (ctx : AesCmacCtx) (key : Key) : Except OutOfBounds AesCmacCtx := do
  let (_, rijndael) ← aesSetKey key 16#8 ctx.rijndael
  return { ctx with rijndael }

/-- `aes_encrypt` into a block that stays as it is without a schedule. -/
def encryptInto (out inp : Block) (ctx : AesContext) : Except OutOfBounds Block := do
  let result ← aesEncrypt inp ctx
  return result.getD out

/-- `XOR` of sixteen bytes of a message into a block. -/
def xorData (data : List (BitVec 8)) (r : Block) : Block :=
  Vector.ofFn fun i => r.get i ^^^ data.getD i.val 0#8

/-- The loop of `AES_CMAC_Update` with the copy behind it. -/
def updateLoop {n : Nat} (data : Vector (BitVec 8) n) (i len : Nat) (ctx : AesCmacCtx) :
    Except OutOfBounds AesCmacCtx := do
  if 16 < len then
    let block ← slice data i 16
    let summed := xorData block ctx.x
    let x ← encryptInto summed summed ctx.rijndael
    updateLoop data (i + 16) (len - 16) { ctx with x }
  else
    let last ← slice data i len
    let mLast ← copy ctx.mLast 0 last
    return { ctx with mLast, mN := len }
termination_by len

/-- `AES_CMAC_Update` -/
def aesCmacUpdate {n : Nat} (ctx : AesCmacCtx) (data : Vector (BitVec 8) n) (len : BitVec 32) :
    Except OutOfBounds AesCmacCtx := do
  if 0 < ctx.mN then
    let mlen := min (16 - ctx.mN) len.toNat
    let front ← slice data 0 mlen
    let mLast ← copy ctx.mLast ctx.mN front
    let mN := ctx.mN + mlen
    if mN < 16 ∨ len.toNat = mlen then return { ctx with mLast, mN }
    else
      let summed := xorBlocks ctx.x mLast
      let x ← encryptInto summed summed ctx.rijndael
      updateLoop data mlen (len.toNat - mlen) { ctx with x, mLast, mN }
  else updateLoop data 0 len.toNat ctx

/-! ## The digest -/

/-- `LSHIFT` -/
def lshift (v : Block) : Block :=
  Vector.ofFn fun i =>
    if h : i.val < 15 then v.get i <<< 1 ||| v.get ⟨i.val + 1, by omega⟩ >>> 7 else v.get i <<< 1

theorem zero_lt_block : 0 < 16 := by decide

/-- A subkey from the one before it. -/
def nextSubkey (k : Block) : Block :=
  if k.get ⟨0, zero_lt_block⟩ &&& 0x80#8 ≠ 0#8 then
    (lshift k).set 15 ((lshift k).get (Fin.last 15) ^^^ 0x87#8)
  else lshift k

/-- The loop that fills `M_last` up, from `++ctx->M_n` on. -/
def padLoop (mN : Nat) (mLast : Block) : Except OutOfBounds (Block × Nat) := do
  if mN < 16 then
    let mLast ← write mLast mN 0#8
    padLoop (mN + 1) mLast
  else return (mLast, mN)
termination_by 16 - mN

/-- `AES_CMAC_Final` with the digest and the context that it leaves -/
def aesCmacFinal (digest : Block) (ctx : AesCmacCtx) : Except OutOfBounds (Block × AesCmacCtx) := do
  let zero := Vector.replicate 16 0#8
  let l ← encryptInto zero zero ctx.rijndael
  let k1 := nextSubkey l
  let (mLast, mN) ←
    if ctx.mN = 16 then pure (xorBlocks ctx.mLast k1, ctx.mN)
    else do
      let k2 := nextSubkey k1
      let closed ← write ctx.mLast ctx.mN 0x80#8
      let (filled, mN) ← padLoop (ctx.mN + 1) closed
      pure (xorBlocks filled k2, mN)
  let x := xorBlocks ctx.x mLast
  let digest ← encryptInto digest x ctx.rijndael
  return (digest, { ctx with x, mLast, mN })

/-! ## The cipher with a key -/

/-- The block of a state. -/
def ofState (s : State) : Block :=
  Vector.ofFn fun i => s ⟨i.val % 4, by omega⟩ ⟨i.val / 4, by omega⟩

theorem state_ofState (s : State) : state (ofState s) = s := by
  funext r c
  have hrow : (r.val + 4 * c.val) % 4 = r.val := by omega
  have hcol : (r.val + 4 * c.val) / 4 = c.val := by omega
  simp only [state, ofState, Vector.get_ofFn, hrow, hcol]

/-- AES with a key of 16 bytes. -/
def aes128 (key : Key) (b : Block) : Block :=
  ofState (cipher 10 (expand 4 (keyWords key)) (state b))

/-- A context that encrypts with a key. -/
def Encrypts (ctx : AesContext) (key : Key) : Prop :=
  ∀ inp, aesEncrypt inp ctx = .ok (some (aes128 key inp))

theorem aesSetKey_encrypts (key : Key) (ctx : AesContext) :
    ∃ ctx', aesSetKey key 16#8 ctx = .ok (true, ctx') ∧ Encrypts ctx' key := by
  obtain ⟨nk, ctx', hset, hnk4, hnk8, hkeylen, hrnd, hwords⟩ :=
    aesSetKey_spec key 16#8 (.inl rfl) le_rfl ctx
  obtain rfl : nk = 4 := by
    have h16 : 4 * 4 = 4 * nk := hkeylen
    omega
  refine ⟨ctx', hset, ?_⟩
  intro inp
  obtain ⟨out, henc, hout⟩ := aesEncrypt_eq (show ctx'.Keyed from ⟨by omega, by omega⟩) inp
  have hstate : state out = state (aes128 key inp) := by
    rw [hout, hrnd, aes128, state_ofState]
    exact cipher_congr (fun i hi => hwords i (by omega)) _
  rw [henc, state_injective hstate]

theorem Encrypts.into {ctx : AesContext} {key : Key} (h : Encrypts ctx key) (out inp : Block) :
    encryptInto out inp ctx = .ok (aes128 key inp) := by
  rw [encryptInto, h inp, ok_bind]
  rfl

/-! ## The context keeps the chain -/

/-- A context with the chain and the bytes kept back. -/
structure Holds (ctx : AesCmacCtx) (key : Key) (kept : Block × List (BitVec 8)) : Prop where
  encrypts : Encrypts ctx.rijndael key
  x : ctx.x = kept.1
  mN : ctx.mN = kept.2.length
  mLast : HoldsAt ctx.mLast 0 kept.2

/-- What is copied behind what stands at the front extends it. -/
theorem copy_extends {m : Block} {l : List (BitVec 8)} (h : HoldsAt m 0 l) (l' : List (BitVec 8))
    (hfit : l.length + l'.length ≤ 16) :
    ∃ m', copy m l.length l' = .ok m' ∧ HoldsAt m' 0 (l ++ l') := by
  obtain ⟨m', hcopy, hnew, hkept⟩ := copy_holdsAt m (i := l.length) (l := l') hfit
  refine ⟨m', hcopy, (hkept 0 l h (.inl (Nat.zero_add _).le)).append ?_⟩
  rwa [Nat.zero_add]

theorem write_extends {m : Block} {l : List (BitVec 8)} (h : HoldsAt m 0 l) (v : BitVec 8)
    (hfit : l.length < 16) : ∃ m', write m l.length v = .ok m' ∧ HoldsAt m' 0 (l ++ [v]) := by
  obtain ⟨m', hcopy, hholds⟩ := copy_extends h [v] hfit
  refine ⟨m', ?_, hholds⟩
  rw [copy, write_ok m v hfit] at hcopy
  rw [write_ok m v hfit]
  exact hcopy

/-- Sixteen bytes at the front are the block. -/
theorem eq_blockAt {m : Block} {l : List (BitVec 8)} (h : HoldsAt m 0 l) (hlen : l.length = 16) :
    m = blockAt 16 l 0 := by
  apply Vector.ext
  intro i hi
  have hcell := h.getElem? (k := i) (hlen.symm ▸ hi)
  rw [Nat.zero_add, List.getElem?_eq_getElem (by rw [Vector.length_toList]; exact hi),
    Vector.getElem_toList] at hcell
  rw [getElem_blockAt _ _ hi, Nat.mul_zero, Nat.zero_add, ← hcell]
  rfl

theorem xorData_eq (data : List (BitVec 8)) (r : Block) :
    xorData data r = add r (blockAt 16 data 0) := by
  apply Vector.ext
  intro i hi
  simp [xorData, add, blockAt, Vector.get_eq_getElem]

theorem blockAt_take {l : List (BitVec 8)} {k : Nat} (h : 16 ≤ k) :
    blockAt 16 (l.take k) 0 = blockAt 16 l 0 := by
  apply Vector.ext
  intro i hi
  rw [getElem_blockAt _ _ hi, getElem_blockAt _ _ hi, List.getElem?_take_of_lt (by omega)]

section Update

variable {n : Nat} {data : Vector (BitVec 8) n} {key : Key}

theorem updateLoop_spec {i len : Nat} (hfit : i + len ≤ n) (ctx : AesCmacCtx)
    (h : Encrypts ctx.rijndael key) :
    ∃ ctx', updateLoop data i len ctx = .ok ctx' ∧
      Holds ctx' key (absorb (aes128 key) ctx.x ((data.toList.drop i).take len)) := by
  induction len using Nat.strong_induction_on generalizing i ctx with
  | _ len ih =>
    have hlen : ((data.toList.drop i).take len).length = len := by
      rw [List.length_take, List.length_drop, Vector.length_toList]
      omega
    rcases Nat.lt_or_ge 16 len with hlong | hshort
    · -- a block goes into the chain, since it is not the last
      have hblock : slice data i 16 = .ok ((data.toList.drop i).take 16) :=
        slice_ok data i 16 (by omega)
      have hfirst : blockAt 16 ((data.toList.drop i).take 16) 0 =
          blockAt 16 ((data.toList.drop i).take len) 0 := by
        rw [blockAt_take le_rfl, blockAt_take hlong.le]
      have hrest : ((data.toList.drop i).take len).drop 16 =
          (data.toList.drop (i + 16)).take (len - 16) := by
        rw [List.drop_take, List.drop_drop]
      obtain ⟨ctx', hrun, hholds⟩ := ih (len - 16) (by omega) (i := i + 16) (by omega)
        { ctx with x := aes128 key (add ctx.x (blockAt 16 ((data.toList.drop i).take len) 0)) } h
      refine ⟨ctx', ?_, ?_⟩
      · rw [updateLoop, if_pos hlong, hblock, ok_bind]
        dsimp only
        rw [xorData_eq, hfirst, h.into, ok_bind]
        exact hrun
      · rwa [absorb_of_lt (by decide) (by rw [hlen]; exact hlong), hrest]
    · obtain ⟨mLast, hcopy, hholds, -⟩ := copy_holdsAt ctx.mLast (i := 0)
        (l := (data.toList.drop i).take len) (by omega)
      rw [absorb_of_le (by rw [hlen]; exact hshort)]
      refine ⟨{ ctx with mLast, mN := len }, ?_, h, rfl, hlen.symm, hholds⟩
      rw [updateLoop, if_neg (Nat.not_lt.2 hshort), slice_ok data i len hfit, ok_bind, hcopy]
      rfl

/-- **What comes in goes behind what was kept back.** -/
theorem aesCmacUpdate_spec {ctx : AesCmacCtx} {kept : Block × List (BitVec 8)}
    (h : Holds ctx key kept) (hkept : kept.2.length ≤ 16) {len : BitVec 32} (hfit : len.toNat ≤ n) :
    ∃ ctx', aesCmacUpdate ctx data len = .ok ctx' ∧
      Holds ctx' key (absorb (aes128 key) kept.1 (kept.2 ++ data.toList.take len.toNat)) := by
  rcases Nat.eq_zero_or_pos kept.2.length with hempty | hpos
  · obtain ⟨ctx', hrun, hholds⟩ := updateLoop_spec
      (show 0 + len.toNat ≤ n by omega) ctx h.encrypts
    rw [h.x, List.drop_zero] at hholds
    refine ⟨ctx', ?_, ?_⟩
    · rw [aesCmacUpdate, if_neg (by rw [h.mN]; omega), hrun]
    · rwa [List.eq_nil_of_length_eq_zero hempty, List.nil_append]
  · have hlen : (data.toList.take len.toNat).length = len.toNat := by
      rw [List.length_take, Vector.length_toList]
      omega
    have hlenMin : (data.toList.take (min (16 - kept.2.length) len.toNat)).length =
        min (16 - kept.2.length) len.toNat := by
      rw [List.length_take, Vector.length_toList]
      omega
    have hfront : slice data 0 ((min (16 - kept.2.length) len.toNat : Nat) : Int) =
        .ok (data.toList.take (min (16 - kept.2.length) len.toNat)) :=
      slice_ok data 0 _ (by omega)
    obtain ⟨mLast, hcopy, hholds⟩ := copy_extends h.mLast
      (data.toList.take (min (16 - kept.2.length) len.toNat)) (by omega)
    rw [aesCmacUpdate, if_pos (by rw [h.mN]; exact hpos), h.mN]
    dsimp only
    rw [hfront, ok_bind, hcopy, ok_bind]
    by_cases hall : kept.2.length + min (16 - kept.2.length) len.toNat < 16 ∨
        len.toNat = min (16 - kept.2.length) len.toNat
    · -- all the bytes are kept back
      have hmin : min (16 - kept.2.length) len.toNat = len.toNat := by omega
      rw [hmin] at hholds
      rw [if_pos hall, absorb_of_le (by rw [List.length_append]; omega)]
      refine ⟨_, rfl, h.encrypts, h.x, ?_, hholds⟩
      rw [List.length_append, hlen, hmin]
    · -- the block that was kept back is complete and not the last
      have hmin : min (16 - kept.2.length) len.toNat = 16 - kept.2.length := by omega
      rw [hmin] at hholds hlenMin
      have hblock : mLast = blockAt 16 (kept.2 ++ data.toList.take len.toNat) 0 := by
        rw [eq_blockAt hholds (by rw [List.length_append]; omega),
          ← blockAt_take (l := kept.2 ++ data.toList.take len.toNat) le_rfl, List.take_append,
          List.take_of_length_le hkept, List.take_take, Nat.min_eq_left (by omega)]
      have hrest : (kept.2 ++ data.toList.take len.toNat).drop 16 =
          (data.toList.drop (16 - kept.2.length)).take (len.toNat - (16 - kept.2.length)) := by
        rw [List.drop_append, List.drop_of_length_le hkept, List.nil_append, List.drop_take]
      rw [if_neg hall, h.encrypts.into, ok_bind, hmin,
        absorb_of_lt (by decide) (by rw [List.length_append]; omega), hrest, ← hblock, ← h.x]
      exact updateLoop_spec (by omega)
        { ctx with x := aes128 key (xorBlocks ctx.x mLast), mLast, mN := _ } h.encrypts

end Update

/-! ## The subkeys and the last block -/

theorem ofBytes_lshift (v : Block) : ofBytes (lshift v) = ofBytes v <<< 1 := by
  apply BitVec.eq_of_getLsbD_eq
  intro i hi
  rw [getLsbD_ofBytes _ hi, BitVec.getLsbD_shiftLeft, decide_eq_true hi, Bool.true_and]
  rcases Nat.eq_zero_or_pos i with rfl | hpos
  · simp [lshift]
  · rw [decide_eq_false (by omega), Bool.not_false, Bool.true_and,
      getLsbD_ofBytes _ (show i - 1 < 8 * 16 by omega), lshift, Vector.get_ofFn]
    rcases Nat.eq_zero_or_pos (i % 8) with hzero | hbit
    · -- the lowest bit of a byte is the highest one of the byte behind it
      rw [dif_pos (by show 16 - 1 - i / 8 < 15; omega), BitVec.getLsbD_or, BitVec.getLsbD_shiftLeft,
        BitVec.getLsbD_ushiftRight, hzero, show (i - 1) % 8 = 7 by omega]
      simp [show 16 - 1 - (i - 1) / 8 = 16 - 1 - i / 8 + 1 by omega]
    · have hbyte : (i - 1) / 8 = i / 8 := by omega
      have hlow : (i - 1) % 8 = i % 8 - 1 := by omega
      have hshift : (v.get ⟨16 - 1 - i / 8, by omega⟩ <<< 1).getLsbD (i % 8) =
          (v.get ⟨16 - 1 - i / 8, by omega⟩).getLsbD (i % 8 - 1) := by
        rw [BitVec.getLsbD_shiftLeft, decide_eq_true (Nat.mod_lt i (by decide)),
          decide_eq_false (by omega)]
        rfl
      simp only [hbyte, hlow]
      split
      · rw [BitVec.getLsbD_or, hshift, BitVec.getLsbD_ushiftRight,
          BitVec.getLsbD_of_ge (v.get ⟨16 - 1 - i / 8 + 1, by omega⟩) _ (by omega), Bool.or_false]
      · exact hshift

theorem ofBytes_set_last (v : Block) :
    ofBytes (v.set 15 (v.get (Fin.last 15) ^^^ 0x87#8)) = ofBytes v ^^^ 0x87#128 := by
  apply BitVec.eq_of_getLsbD_eq
  intro i hi
  rw [BitVec.getLsbD_xor, getLsbD_ofBytes _ hi, getLsbD_ofBytes _ hi]
  rcases Nat.lt_or_ge i 8 with hlow | hhigh
  · have hdiv : i / 8 = 0 := by omega
    have hmod : i % 8 = i := by omega
    simp only [hdiv, hmod]
    have hconstant : (0x87#8).getLsbD i = (0x87#128).getLsbD i := by
      interval_cases i <;> rfl
    rw [← hconstant, ← BitVec.getLsbD_xor, Vector.get_eq_getElem, Vector.getElem_set_self]
    rfl
  · have hconstant : (0x87#128).getLsbD i = false := by
      have hsmall : (0x87#128).toNat < 2 ^ i := by
        refine Nat.lt_of_lt_of_le (m := 2 ^ 8) (by decide) (Nat.pow_le_pow_right (by decide) hhigh)
      rw [BitVec.getLsbD, Nat.testBit_lt_two_pow hsmall]
    have hbyte : (v.set 15 (v.get (Fin.last 15) ^^^ 0x87#8)).get ⟨16 - 1 - i / 8, by omega⟩ =
        v.get ⟨16 - 1 - i / 8, by omega⟩ := by
      simp only [Vector.get_eq_getElem]
      exact Vector.getElem_set_ne _ _ (by omega)
    rw [hconstant, Bool.xor_false, hbyte]

/-- A subkey is the one before it times `X`. -/
theorem nextSubkey_eq (k : Block) : nextSubkey k = double 0x87#128 k := by
  have hmsb : (ofBytes k).msb = (k.get ⟨0, zero_lt_block⟩).getLsbD 7 := by
    rw [BitVec.msb_eq_getLsbD_last, getLsbD_ofBytes _ (by decide)]
  have hbit : ∀ b : BitVec 8, b &&& 0x80#8 ≠ 0#8 ↔ b.getLsbD 7 = true := by decide +kernel
  apply ofBytes_injective
  rw [double, ofBytes_toBytes, xtimes, nextSubkey, hmsb]
  by_cases htop : k.get ⟨0, zero_lt_block⟩ &&& 0x80#8 ≠ 0#8
  · rw [if_pos htop, if_pos ((hbit _).1 htop), ofBytes_set_last, ofBytes_lshift]
  · rw [if_neg htop, if_neg fun h => htop ((hbit _).2 h), ofBytes_lshift]

theorem blockAt_append_zero (l : List (BitVec 8)) :
    blockAt 16 (l ++ [0#8]) 0 = blockAt 16 l 0 := by
  apply Vector.ext
  intro i hi
  rw [getElem_blockAt _ _ hi, getElem_blockAt _ _ hi]
  rcases Nat.lt_trichotomy (16 * 0 + i) l.length with hlt | heq | hgt
  · rw [List.getElem?_append_left hlt]
  · rw [List.getElem?_append_right heq.ge, heq, Nat.sub_self, List.getElem?_eq_none le_rfl]
    rfl
  · rw [List.getElem?_eq_none (l := l) (by omega), List.getElem?_eq_none (by
      rw [List.length_append, List.length_singleton]
      omega)]

theorem padLoop_spec {l : List (BitVec 8)} (hlen : l.length ≤ 16) {mLast : Block}
    (h : HoldsAt mLast 0 l) : padLoop l.length mLast = .ok (blockAt 16 l 0, 16) := by
  induction hk : 16 - l.length generalizing l mLast with
  | zero =>
    have h16 : l.length = 16 := by omega
    rw [padLoop, if_neg (by omega), ← eq_blockAt h h16, h16]
    rfl
  | succ k ih =>
    obtain ⟨m', hwrite, hholds⟩ := write_extends h 0#8 (by omega)
    have hrest := ih (by rw [List.length_append, List.length_singleton]; omega) hholds (by
      rw [List.length_append, List.length_singleton]
      omega)
    rw [List.length_append, List.length_singleton, blockAt_append_zero] at hrest
    rw [padLoop, if_pos (by omega), hwrite, ok_bind, hrest]

/-- **The digest closes the chain** with the bytes that were kept back. -/
theorem aesCmacFinal_spec {ctx : AesCmacCtx} {key : Key} {kept : Block × List (BitVec 8)}
    (h : Holds ctx key kept) (hkept : kept.2.length ≤ 16) (digest : Block) :
    ∃ ctx', aesCmacFinal digest ctx =
      .ok (aes128 key (add kept.1 (lastBlock 0x87#128 (aes128 key) kept.2)), ctx') := by
  rw [aesCmacFinal]
  dsimp only
  rw [h.encrypts.into, ok_bind, h.mN, nextSubkey_eq, nextSubkey_eq, lastBlock]
  by_cases hwhole : kept.2.length = 16
  · rw [if_pos hwhole, if_pos hwhole, eq_blockAt h.mLast hwhole, pure_bind]
    dsimp only
    rw [h.encrypts.into, ok_bind, h.x]
    exact ⟨_, rfl⟩
  · obtain ⟨closed, hwrite, hclosed⟩ := write_extends h.mLast 0x80#8 (by omega)
    have hpad := padLoop_spec (by rw [List.length_append, List.length_singleton]; omega) hclosed
    rw [List.length_append, List.length_singleton] at hpad
    rw [if_neg hwhole, if_neg hwhole, hwrite, ok_bind, hpad, ok_bind]
    dsimp only
    rw [pure_bind]
    dsimp only
    rw [h.encrypts.into, ok_bind, h.x]
    exact ⟨_, rfl⟩

/-! ## Messages in pieces -/

/-- A buffer with the number of its bytes that are passed on. -/
structure Piece where
  size : Nat
  data : Vector (BitVec 8) size
  len : BitVec 32
  fits : len.toNat ≤ size

/-- The bytes that are passed on. -/
def Piece.bytes (p : Piece) : List (BitVec 8) := p.data.toList.take p.len.toNat

/-- An `AES_CMAC_Update` for each piece. -/
def updates (ctx : AesCmacCtx) (pieces : List Piece) : Except OutOfBounds AesCmacCtx :=
  pieces.foldlM (fun ctx p => aesCmacUpdate ctx p.data p.len) ctx

theorem holds_init (ctx : AesCmacCtx) {key : Key} (h : Encrypts ctx.rijndael key)
    (hx : ctx.x = Vector.replicate 16 0#8) (hmN : ctx.mN = 0) :
    Holds ctx key (absorb (aes128 key) (Vector.replicate 16 0#8) []) := by
  rw [absorb_of_le (Nat.zero_le 16)]
  exact ⟨h, hx, hmN, rfl⟩

theorem updates_spec {ctx : AesCmacCtx} {key : Key} {m : List (BitVec 8)}
    (h : Holds ctx key (absorb (aes128 key) (Vector.replicate 16 0#8) m)) (pieces : List Piece) :
    ∃ ctx', updates ctx pieces = .ok ctx' ∧ Holds ctx' key
      (absorb (aes128 key) (Vector.replicate 16 0#8) (m ++ pieces.flatMap Piece.bytes)) := by
  induction pieces generalizing ctx m with
  | nil => exact ⟨ctx, rfl, by rwa [List.flatMap_nil, List.append_nil]⟩
  | cons p pieces ih =>
    obtain ⟨ctx1, hstep, hholds⟩ :=
      aesCmacUpdate_spec h (length_absorb_le (by decide) _ m) p.fits
    rw [← absorb_append (by decide)] at hholds
    obtain ⟨ctx2, hrun, hdone⟩ := ih hholds
    refine ⟨ctx2, ?_, ?_⟩
    · rw [updates, List.foldlM_cons, hstep, ok_bind]
      exact hrun
    · rwa [List.append_assoc] at hdone

/-- `AES_CMAC_Init`, `AES_CMAC_SetKey`, the updates and `AES_CMAC_Final` -/
def aesCmac (ctx : AesCmacCtx) (key : Key) (pieces : List Piece) (digest : Block) :
    Except OutOfBounds (Block × AesCmacCtx) := do
  let ctx ← aesCmacSetKey (aesCmacInit ctx) key
  let ctx ← updates ctx pieces
  aesCmacFinal digest ctx

theorem aesCmac_run (ctx : AesCmacCtx) (key : Key) (pieces : List Piece) (digest : Block) :
    ∃ ctx', aesCmac ctx key pieces digest =
      .ok (cmac 0x87#128 (aes128 key) (pieces.flatMap Piece.bytes), ctx') := by
  obtain ⟨rijndael, hset, henc⟩ := aesSetKey_encrypts key (aesCmacInit ctx).rijndael
  have hkey : aesCmacSetKey (aesCmacInit ctx) key = .ok { aesCmacInit ctx with rijndael } := by
    rw [aesCmacSetKey, hset, ok_bind]
    rfl
  obtain ⟨ctx1, hupdates, hholds⟩ := updates_spec
    (holds_init { aesCmacInit ctx with rijndael } henc rfl rfl) pieces
  rw [List.nil_append] at hholds
  obtain ⟨ctx2, hfinal⟩ := aesCmacFinal_spec hholds (length_absorb_le (by decide) _ _) digest
  refine ⟨ctx2, ?_⟩
  rw [aesCmac, hkey, ok_bind, hupdates, ok_bind, hfinal, cmac_eq_absorb _ (by decide)]

/-- **The digest is the code of the bytes in order**, however they are cut into pieces, empty ones
included, and whatever the context and the digest held. -/
theorem aesCmac_eq (ctx : AesCmacCtx) (key : Key) (pieces : List Piece) (digest : Block) :
    (aesCmac ctx key pieces digest).map Prod.fst =
      .ok (cmac 0x87#128 (aes128 key) (pieces.flatMap Piece.bytes)) := by
  obtain ⟨ctx', hrun⟩ := aesCmac_run ctx key pieces digest
  rw [hrun]
  rfl

theorem aes128_injective (key : Key) : Function.Injective (aes128 key) := by
  intro x y h
  have hstate := congrArg (fun b => invCipher 10 (expand 4 (keyWords key)) (state b)) h
  simp only [aes128, state_ofState, invCipher_cipher] at hstate
  exact state_injective hstate

/-- **A change within one block of sixteen bytes changes the digest.** -/
theorem aesCmac_ne (pieces pieces' : List Piece)
    (hlen : (pieces.flatMap Piece.bytes).length = (pieces'.flatMap Piece.bytes).length)
    (hne : pieces.flatMap Piece.bytes ≠ pieces'.flatMap Piece.bytes) {k : Nat}
    (h : ∀ i, i / 16 ≠ k → (pieces.flatMap Piece.bytes)[i]? = (pieces'.flatMap Piece.bytes)[i]?)
    (ctx ctx' : AesCmacCtx) (key : Key) (digest digest' : Block) :
    ∃ d d', (aesCmac ctx key pieces digest).map Prod.fst = .ok d ∧
      (aesCmac ctx' key pieces' digest').map Prod.fst = .ok d' ∧ d ≠ d' := by
  obtain ⟨left, hrun⟩ := aesCmac_run ctx key pieces digest
  obtain ⟨left', hrun'⟩ := aesCmac_run ctx' key pieces' digest'
  rw [hrun, hrun']
  exact ⟨_, _, rfl, rfl, cmac_ne _ (by decide) (aes128_injective key) hlen hne h⟩

/-- A context with zeros. -/
def zeroCtx : AesCmacCtx :=
  ⟨⟨Vector.replicate kschSize 0#8, 0#8⟩, Vector.replicate 16 0#8, Vector.replicate 16 0#8, 0⟩

/-- A message of forty bytes, cut behind its first block. -/
def wholeBlocks : List Piece :=
  [⟨16, Vector.replicate 16 0x11#8, 16#32, le_rfl⟩, ⟨24, Vector.replicate 24 0x22#8, 24#32, le_rfl⟩]

/-- The message with another byte 25, cut within its second block. -/
def cutBlock : List Piece :=
  [⟨16 + 4, Vector.replicate 16 0x11#8 ++ Vector.replicate 4 0x22#8, 20#32, le_rfl⟩,
    ⟨5 + 1 + 14, Vector.replicate 5 0x22#8 ++ #v[0x99#8] ++ Vector.replicate 14 0x22#8,
      20#32, le_rfl⟩]

theorem aesCmac_ne_byte :
    ∃ d d', (aesCmac zeroCtx (Vector.range 16 |>.map (BitVec.ofNat 8)) wholeBlocks
        (Vector.replicate 16 0#8)).map Prod.fst = .ok d ∧
      (aesCmac zeroCtx (Vector.range 16 |>.map (BitVec.ofNat 8)) cutBlock
        (Vector.replicate 16 0#8)).map Prod.fst = .ok d' ∧ d ≠ d' := by
  have hlen : (wholeBlocks.flatMap Piece.bytes).length = 40 := by decide +kernel
  have hlen' : (cutBlock.flatMap Piece.bytes).length = 40 := by decide +kernel
  have hsame : ∀ i < 40, i / 16 ≠ 1 →
      (wholeBlocks.flatMap Piece.bytes)[i]? = (cutBlock.flatMap Piece.bytes)[i]? := by
    decide +kernel
  refine aesCmac_ne wholeBlocks cutBlock (hlen.trans hlen'.symm) (by decide +kernel) (k := 1) ?_
    zeroCtx zeroCtx _ _ _
  intro i hi
  rcases Nat.lt_or_ge i 40 with hlt | hge
  · exact hsame i hlt hi
  · rw [List.getElem?_eq_none (hlen.le.trans hge), List.getElem?_eq_none (hlen'.le.trans hge)]

/-! ## The functions of `loramac-crypto.c` -/

/-- The cipher that `Mac.Crypto` leaves open. -/
def aes : Cipher where
  aesEncrypt := aes128
  aesCmac key := cmac 0x87#128 (aes128 key)

/-- `MicBlockB0` as a piece. -/
def micPiece (address : BitVec 32) (dir : BitVec 8) (sequenceCounter : BitVec 32)
    (size : BitVec 16) : Piece where
  size := 16
  data := ⟨(micBlockB0 address dir sequenceCounter size).toArray, rfl⟩
  len := 16#32
  fits := le_rfl

/-- `LoRaMacComputeMic` with the CMAC of `cmac.c`: `AesCmacCtx` and `Mic` keep what the last call
left. -/
def loRaMacComputeMicWith {n : Nat} (aesCmacCtx : AesCmacCtx) (mic : Block)
    (buffer : Vector (BitVec 8) n) (size : BitVec 16) (key : Key) (address : BitVec 32)
    (dir : BitVec 8) (sequenceCounter : BitVec 32) : Except OutOfBounds (BitVec 32) := do
  let ctx ← aesCmacSetKey (aesCmacInit aesCmacCtx) key
  let b0 := micPiece address dir sequenceCounter size
  let ctx ← aesCmacUpdate ctx b0.data b0.len
  let ctx ← aesCmacUpdate ctx buffer ((size &&& 0xFF#16).setWidth 32)
  let (mic, _) ← aesCmacFinal mic ctx
  return le32 (← read mic 0) (← read mic 1) (← read mic 2) (← read mic 3)

/-- **The MIC that the code computes is the one of `Mac.Crypto`**, for every frame in its buffer. -/
theorem loRaMacComputeMicWith_eq {n : Nat} (aesCmacCtx : AesCmacCtx) (mic : Block)
    (buffer : Vector (BitVec 8) n) {size : BitVec 16} (hfit : (size &&& 0xFF#16).toNat ≤ n)
    (key : Key) (address : BitVec 32) (dir : BitVec 8) (sequenceCounter : BitVec 32) :
    loRaMacComputeMicWith aesCmacCtx mic buffer size key address dir sequenceCounter =
      loRaMacComputeMic aes buffer size key address dir sequenceCounter := by
  have hwidth : ((size &&& 0xFF#16).setWidth 32).toNat = (size &&& 0xFF#16).toNat :=
    BitVec.toNat_setWidth_of_le (by decide)
  let frame : Piece := ⟨n, buffer, (size &&& 0xFF#16).setWidth 32, hwidth.trans_le hfit⟩
  obtain ⟨ctx', hrun⟩ := aesCmac_run aesCmacCtx key
    [micPiece address dir sequenceCounter size, frame] mic
  have hbytes : [micPiece address dir sequenceCounter size, frame].flatMap Piece.bytes =
      micBlockB0 address dir sequenceCounter size ++
        buffer.toList.take (size &&& 0xFF#16).toNat := by
    rw [List.flatMap_cons, List.flatMap_cons, List.flatMap_nil, List.append_nil, ← hwidth]
    rfl
  have hsame : loRaMacComputeMicWith aesCmacCtx mic buffer size key address dir sequenceCounter =
      (aesCmac aesCmacCtx key [micPiece address dir sequenceCounter size, frame] mic).bind
        fun r => do
          return le32 (← read r.1 0) (← read r.1 1) (← read r.1 2) (← read r.1 3) := by
    show loRaMacComputeMicWith aesCmacCtx mic buffer size key address dir sequenceCounter =
      aesCmac aesCmacCtx key _ mic >>= _
    rw [loRaMacComputeMicWith, aesCmac]
    simp only [updates, List.foldlM_cons, List.foldlM_nil, bind_pure, bind_assoc]
    rfl
  rw [hsame, hrun, hbytes, loRaMacComputeMic, slice_ok buffer 0 _ (by omega), List.drop_zero]
  rfl

theorem loRaMacComputeMicWith_eq_three :
    loRaMacComputeMicWith zeroCtx (Vector.replicate 16 0#8) #v[1#8, 2#8, 3#8] 3#16
        (Vector.replicate 16 0#8) 5#32 up 7#32 =
      loRaMacComputeMic aes #v[1#8, 2#8, 3#8] 3#16 (Vector.replicate 16 0#8) 5#32 up 7#32 :=
  loRaMacComputeMicWith_eq _ _ _ (by decide) _ _ _ _

/-- The blocks of `LoRaMacPayloadEncrypt`, with `AesContext` and `sBlock`. -/
def encryptBlocksWith {m n : Nat} (aesContext : AesContext) (aBlock : BitVec 16 → Block)
    (buffer : Vector (BitVec 8) m) (size : Nat) (bufferIndex : BitVec 8) (ctr : BitVec 16)
    (sBlock : Block) (encBuffer : Vector (BitVec 8) n) :
    Except OutOfBounds (Vector (BitVec 8) n) := do
  if 16 ≤ size then
    let sBlock ← encryptInto sBlock (aBlock ctr) aesContext
    let src ← slice buffer bufferIndex.toNat 16
    let encBuffer ← copy encBuffer bufferIndex.toNat (xorBlock sBlock src)
    encryptBlocksWith aesContext aBlock buffer (size - 16) (bufferIndex + 16#8) (ctr + 1#16) sBlock
      encBuffer
  else if 0 < size then
    let sBlock ← encryptInto sBlock (aBlock ctr) aesContext
    let src ← slice buffer bufferIndex.toNat size
    copy encBuffer bufferIndex.toNat (xorBlock sBlock src)
  else return encBuffer
termination_by size

/-- `LoRaMacPayloadEncrypt` with the block cipher of `aes.c` -/
def loRaMacPayloadEncryptWith {m n : Nat} (aesContext : AesContext) (sBlock : Block)
    (buffer : Vector (BitVec 8) m) (size : BitVec 16) (key : Key) (address : BitVec 32)
    (dir : BitVec 8) (sequenceCounter : BitVec 32) (encBuffer : Vector (BitVec 8) n) :
    Except OutOfBounds (Vector (BitVec 8) n) := do
  let (_, aesContext) ←
    aesSetKey key 16#8 { aesContext with ksch := Vector.replicate kschSize 0#8 }
  encryptBlocksWith aesContext (aBlock address dir sequenceCounter) buffer size.toNat 0#8
    1#16 sBlock
    encBuffer

theorem encryptBlocksWith_eq {m n : Nat} {aesContext : AesContext} {key : Key}
    (h : Encrypts aesContext key) (aBlock : BitVec 16 → Block) (buffer : Vector (BitVec 8) m)
    (size : Nat) (bufferIndex : BitVec 8) (ctr : BitVec 16) (sBlock : Block)
    (encBuffer : Vector (BitVec 8) n) :
    encryptBlocksWith aesContext aBlock buffer size bufferIndex ctr sBlock encBuffer =
      encryptBlocks (fun ctr => aes128 key (aBlock ctr)) buffer size bufferIndex ctr encBuffer := by
  induction size using Nat.strong_induction_on generalizing bufferIndex ctr sBlock encBuffer with
  | _ size ih =>
    rw [encryptBlocksWith, encryptBlocks]
    split
    · next hwhole =>
      rw [h.into, ok_bind]
      apply bind_congr
      intro src
      apply bind_congr
      intro enc
      exact ih (size - 16) (by omega) _ _ _ _
    · split
      · rw [h.into, ok_bind]
        rfl
      · rfl

/-- **The encryption of the code is the one of `Mac.Crypto`**, where it fails too. -/
theorem loRaMacPayloadEncryptWith_eq {m n : Nat} (aesContext : AesContext) (sBlock : Block)
    (buffer : Vector (BitVec 8) m) (size : BitVec 16) (key : Key) (address : BitVec 32)
    (dir : BitVec 8) (sequenceCounter : BitVec 32) (encBuffer : Vector (BitVec 8) n) :
    loRaMacPayloadEncryptWith aesContext sBlock buffer size key address dir sequenceCounter
      encBuffer =
      loRaMacPayloadEncrypt aes buffer size key address dir sequenceCounter encBuffer := by
  obtain ⟨ctx, hset, henc⟩ :=
    aesSetKey_encrypts key { aesContext with ksch := Vector.replicate kschSize 0#8 }
  rw [loRaMacPayloadEncryptWith, hset, ok_bind]
  exact encryptBlocksWith_eq henc _ buffer _ _ _ _ _

end DraginoFwd.Mac

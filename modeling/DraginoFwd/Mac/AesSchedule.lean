import DraginoFwd.Mac.Aes

/-!
# The schedule of a key

`aes_set_key` expands a key of 16, 24 or 32 bytes in place, four bytes a turn. What it leaves are
the words of `Lib.Rijndael.expand`, as many as the rounds need (`aesSetKey_spec`), so that
encryption with a key is the cipher of its length (`aesSetKey_encrypt`).
-/

set_option autoImplicit false

namespace DraginoFwd.Mac

open DraginoFwd.Lib.BinaryPoly
open DraginoFwd.Lib.Memory
open DraginoFwd.Lib.Rijndael

/-! ## The words of a key -/

/-- The words of a key, four bytes each. -/
def keyWords {n : Nat} (key : Vector (BitVec 8) n) (i : Nat) : Word := fun r =>
  key.toList.getD (4 * i + r.val) 0#8

/-- The first `n` words of the schedule are those of the key with `nk` words. -/
def Scheduled (ksch : Vector (BitVec 8) kschSize) (nk : Nat) (key : Nat → Word) (n : Nat) : Prop :=
  ∀ i < n, words ksch i = expand nk key i

/-- The bytes of a word. -/
def wordBytes (x : Word) : List (BitVec 8) := List.ofFn x

theorem holdsAt_words (ksch : Vector (BitVec 8) kschSize) {i : Nat} (h : 4 * i + 4 ≤ kschSize) :
    HoldsAt ksch (4 * i) (wordBytes (words ksch i)) := by
  have hlen : ksch.toList.length = kschSize := Vector.length_toList
  apply List.ext_getElem
  · rw [List.length_take, List.length_drop, hlen]
    exact Nat.min_eq_left (by show 4 ≤ _; omega)
  · intro k hk hk'
    have hk4 : k < 4 := hk'
    have hin : 4 * i + k < ksch.toList.length := by omega
    have hword : words ksch i ⟨k, hk4⟩ = ksch.toList[4 * i + k] := List.getD_eq_getElem _ _ hin
    rw [List.getElem_take, List.getElem_drop, ← hword]
    interval_cases k <;> rfl

theorem words_of_holdsAt {ksch : Vector (BitVec 8) kschSize} {i : Nat} {x : Word}
    (h : HoldsAt ksch (4 * i) (wordBytes x)) : words ksch i = x := by
  have hlen : (wordBytes x).length = 4 := rfl
  funext r
  have hcell := h.getElem? (k := r.val) (by rw [hlen]; exact r.isLt)
  rw [words, List.getD_eq_getElem?_getD, hcell]
  fin_cases r <;> rfl

/-- The word that is added to the one a key before. -/
def addedWord (nk i : Nat) (temp : Word) : Word :=
  if i % nk = 0 then addConstant (roundConstant (i / nk)) (subWord (rotWord temp))
  else if 6 < nk ∧ i % nk = 4 then subWord temp
  else temp

theorem expand_of_le {nk i : Nat} (hnk : 0 < nk) (h : nk ≤ i) (key : Nat → Word) :
    expand nk key i = fun r =>
      expand nk key (i - nk) r ^^^ addedWord nk i (expand nk key (i - 1)) r := by
  rw [expand, if_neg (by omega)]
  rfl

/-- The constant for word `i`, or for the next word that takes one. -/
def constantAt (nk i : Nat) : Byte := roundConstant ((i + nk - 1) / nk)

theorem f2_eq_xtimes : ∀ x : BitVec 8, (f2 (x.setWidth 32)).setWidth 8 = xtimes modulus x := by
  decide +kernel

theorem nextWord_eq {nk i : Nat} (hnk : 0 < nk) (hi : nk ≤ i) (x : Word) :
    nextWord (4 * nk) (4 * i) (constantAt nk i) (x 0) (x 1) (x 2) (x 3) =
      (wordBytes (addedWord nk i x), constantAt nk (i + 1)) := by
  have hmod : 4 * i % (4 * nk) = 4 * (i % nk) := Nat.mul_mod_mul_left 4 i nk
  have hsplit := Nat.div_add_mod i nk
  have hlt := Nat.mod_lt i hnk
  rw [nextWord, hmod, addedWord]
  by_cases hzero : i % nk = 0
  · have hnow : (i + nk - 1) / nk = i / nk := by
      rw [show i + nk - 1 = nk * (i / nk) + (nk - 1) by omega, Nat.mul_add_div hnk,
        Nat.div_eq_of_lt (Nat.sub_lt hnk Nat.one_pos), Nat.add_zero]
    have hnext : (i + 1 + nk - 1) / nk = i / nk + 1 := by
      rw [show i + 1 + nk - 1 = i + nk by omega, Nat.add_div_right i hnk]
    have hpos : 0 < i / nk := Nat.div_pos hi hnk
    have hconstant : roundConstant (i / nk + 1) = xtimes modulus (roundConstant (i / nk)) := by
      rw [roundConstant, roundConstant, Nat.add_sub_cancel,
        ← Function.iterate_succ_apply' (xtimes modulus)]
      congr 2
      omega
    rw [if_pos (by omega), if_pos hzero, constantAt, constantAt, hnow, hnext, hconstant,
      f2_eq_xtimes]
    simp only [sBox_eq]
    rfl
  · have hnow : (i + nk - 1) / nk = i / nk + 1 := by
      have hsmall : (i % nk - 1) / nk = 0 := Nat.div_eq_of_lt (by omega)
      rw [show i + nk - 1 = nk * (i / nk + 1) + (i % nk - 1) by rw [Nat.mul_add]; omega,
        Nat.mul_add_div hnk, hsmall, Nat.add_zero]
    have hsame : (i + nk - 1) / nk = (i + 1 + nk - 1) / nk := by
      rw [hnow, show i + 1 + nk - 1 = i + nk by omega, Nat.add_div_right i hnk]
    rw [if_neg (by omega), if_neg hzero, constantAt, constantAt, hsame]
    by_cases hfour : 6 < nk ∧ i % nk = 4
    · rw [if_pos (by omega), if_pos hfour]
      simp only [sBox_eq]
      rfl
    · rw [if_neg (by omega), if_neg hfour]
      rfl

/-- One turn of the loop adds a word to the schedule. -/
theorem scheduleLoop_spec {nk : Nat} (hnk : 0 < nk) (hnk8 : nk ≤ 8) {key : Nat → Word} {n i : Nat}
    (hn : 4 * n ≤ kschSize) (hi : nk ≤ i) (hin : i ≤ n) {ksch : Vector (BitVec 8) kschSize}
    (h : Scheduled ksch nk key i) :
    ∃ ksch', scheduleLoop (4 * nk) (4 * n) (4 * i) (constantAt nk i) ksch = .ok ksch' ∧
      Scheduled ksch' nk key n := by
  induction hk : n - i generalizing i ksch with
  | zero =>
    obtain rfl : i = n := by omega
    rw [scheduleLoop, if_neg (Nat.lt_irrefl _)]
    exact ⟨ksch, rfl, h⟩
  | succ k ih =>
    have hbefore := holdsAt_words ksch (i := i - 1) (by omega)
    have hread0 : read ksch (((4 * i : Nat) : Int) - 4) = .ok (words ksch (i - 1) 0) := by
      have hget := hbefore.read (k := 0) rfl
      rwa [show ((4 * (i - 1) + 0 : Nat) : Int) = ((4 * i : Nat) : Int) - 4 by omega] at hget
    have hread1 : read ksch (((4 * i : Nat) : Int) - 3) = .ok (words ksch (i - 1) 1) := by
      have hget := hbefore.read (k := 1) rfl
      rwa [show ((4 * (i - 1) + 1 : Nat) : Int) = ((4 * i : Nat) : Int) - 3 by omega] at hget
    have hread2 : read ksch (((4 * i : Nat) : Int) - 2) = .ok (words ksch (i - 1) 2) := by
      have hget := hbefore.read (k := 2) rfl
      rwa [show ((4 * (i - 1) + 2 : Nat) : Int) = ((4 * i : Nat) : Int) - 2 by omega] at hget
    have hread3 : read ksch (((4 * i : Nat) : Int) - 1) = .ok (words ksch (i - 1) 3) := by
      have hget := hbefore.read (k := 3) rfl
      rwa [show ((4 * (i - 1) + 3 : Nat) : Int) = ((4 * i : Nat) : Int) - 1 by omega] at hget
    have hold : slice ksch (4 * i - 4 * nk) 4 = .ok (wordBytes (words ksch (i - nk))) := by
      have hslice := (holdsAt_words ksch (i := i - nk) (by omega)).slice (by
        show 4 * (i - nk) + 4 ≤ _
        omega)
      rwa [show 4 * (i - nk) = 4 * i - 4 * nk by omega] at hslice
    -- the new word is written behind the others
    obtain ⟨ksch1, hcopy, hnew, hkept⟩ := copy_holdsAt ksch (i := 4 * i)
      (l := wordBytes (expand nk key i)) (by show 4 * i + 4 ≤ _; omega)
    have hscheduled : Scheduled ksch1 nk key (i + 1) := by
      intro j hj
      rcases Nat.eq_or_lt_of_le (Nat.le_of_lt_succ hj) with rfl | hlt
      · exact words_of_holdsAt hnew
      · rw [← h j hlt]
        exact words_of_holdsAt (hkept _ _ (holdsAt_words ksch (by omega)) (.inl (by
          show 4 * j + 4 ≤ _
          omega)))
    have hsum : List.zipWith (fun x y => x ^^^ y) (wordBytes (words ksch (i - nk)))
        (wordBytes (addedWord nk i (words ksch (i - 1)))) = wordBytes (expand nk key i) := by
      rw [h (i - nk) (by omega), h (i - 1) (by omega), expand_of_le hnk hi]
      rfl
    obtain ⟨ksch2, hloop, hdone⟩ := ih (by omega) (by omega) hscheduled (by omega)
    refine ⟨ksch2, ?_, hdone⟩
    rw [scheduleLoop, if_pos (by omega), hread0, ok_bind, hread1, ok_bind, hread2, ok_bind, hread3,
      ok_bind, nextWord_eq hnk hi]
    dsimp only
    rw [hold, ok_bind, hsum, hcopy, ok_bind]
    exact hloop

/-- The lengths of a key: four, six or eight words. -/
theorem keylen_cases {keylen : BitVec 8} (h : keylen = 16#8 ∨ keylen = 24#8 ∨ keylen = 32#8) :
    ∃ nk, 4 ≤ nk ∧ nk ≤ 8 ∧ keylen.toNat = 4 * nk ∧
      ((keylen + 28#8) <<< 2).toNat = 4 * (4 * (nk + 7)) ∧
      ((keylen + 28#8) <<< 2 >>> 4 - 1#8).toNat = nk + 6 := by
  rcases h with rfl | rfl | rfl
  · exact ⟨4, by decide⟩
  · exact ⟨6, by decide⟩
  · exact ⟨8, by decide⟩

/-- The words of the schedule that `aes_set_key` leaves. -/
theorem aesSetKey_spec {n : Nat} (key : Vector (BitVec 8) n) (keylen : BitVec 8)
    (h : keylen = 16#8 ∨ keylen = 24#8 ∨ keylen = 32#8) (hfit : keylen.toNat ≤ n)
    (ctx : AesContext) :
    ∃ nk ctx', aesSetKey key keylen ctx = .ok (true, ctx') ∧ 4 ≤ nk ∧ nk ≤ 8 ∧
      keylen.toNat = 4 * nk ∧ ctx'.rnd.toNat = nk + 6 ∧
      ∀ i < 4 * (nk + 7), words ctx'.ksch i = expand nk (keyWords key) i := by
  obtain ⟨nk, hnk4, hnk8, hkeylen, hhi, hrnd⟩ := keylen_cases h
  rw [hkeylen] at hfit
  have hlen : ((key.toList.drop 0).take (4 * nk)).length = 4 * nk := by
    rw [List.length_take, List.length_drop, Vector.length_toList]
    omega
  have hslice : slice key 0 ((4 * nk : Nat) : Int) = .ok ((key.toList.drop 0).take (4 * nk)) :=
    slice_ok key 0 (4 * nk) (by omega)
  obtain ⟨ksch, hcopy, hholds, -⟩ := copy_holdsAt ctx.ksch (i := 0)
    (l := (key.toList.drop 0).take (4 * nk)) (by rw [hlen, kschSize]; omega)
  have hkey : Scheduled ksch nk (keyWords key) nk := by
    intro i hi
    rw [expand, if_pos (.inl hi)]
    funext r
    have hcell := hholds.getElem? (k := 4 * i + r.val) (by omega)
    rw [Nat.zero_add, List.getElem?_take_of_lt (by omega), List.drop_zero] at hcell
    rw [words, keyWords, List.getD_eq_getElem?_getD, hcell, ← List.getD_eq_getElem?_getD]
  obtain ⟨ksch', hloop, hdone⟩ := scheduleLoop_spec (show 0 < nk by omega) hnk8
    (n := 4 * (nk + 7)) (by rw [kschSize]; omega) le_rfl (by omega) hkey
  have hconstant : constantAt nk nk = 1#8 := by
    rw [constantAt, show nk + nk - 1 = nk * 1 + (nk - 1) by omega, Nat.mul_add_div (by omega),
      Nat.div_eq_of_lt (by omega)]
    rfl
  rw [hconstant] at hloop
  refine ⟨nk, ⟨ksch', (keylen + 28#8) <<< 2 >>> 4 - 1#8⟩, ?_, hnk4, hnk8, hkeylen, hrnd, hdone⟩
  rw [aesSetKey, if_pos h, hkeylen, hslice, ok_bind, hcopy, ok_bind]
  dsimp only
  rw [hhi, hloop]
  rfl

/-- **Encryption with a key of 16, 24 or 32 bytes is the cipher of that length**, and decryption
undoes it. -/
theorem aesSetKey_encrypt {n : Nat} (key : Vector (BitVec 8) n) (keylen : BitVec 8)
    (h : keylen = 16#8 ∨ keylen = 24#8 ∨ keylen = 32#8) (hfit : keylen.toNat ≤ n)
    (ctx : AesContext) :
    ∃ ctx', aesSetKey key keylen ctx = .ok (true, ctx') ∧ ∀ inp, ∃ out,
      aesEncrypt inp ctx' = .ok (some out) ∧ aesDecrypt out ctx' = .ok (some inp) ∧
      state out = cipher (keylen.toNat / 4 + 6) (expand (keylen.toNat / 4) (keyWords key))
        (state inp) := by
  obtain ⟨nk, ctx', hset, hnk4, hnk8, hkeylen, hrnd, hwords⟩ := aesSetKey_spec key keylen h hfit ctx
  have hkeyed : ctx'.Keyed := ⟨by omega, by omega⟩
  refine ⟨ctx', hset, ?_⟩
  intro inp
  obtain ⟨out, henc, hdec⟩ := aesDecrypt_of_aesEncrypt hkeyed inp
  obtain ⟨out', henc', hout⟩ := aesEncrypt_eq hkeyed inp
  obtain rfl : out' = out := by
    rw [henc] at henc'
    cases henc'
    rfl
  refine ⟨_, henc, hdec, ?_⟩
  rw [hout, hrnd, hkeylen, Nat.mul_div_cancel_left nk (by decide)]
  exact cipher_congr (fun i hi => hwords i (by omega)) _

theorem aesSetKey_encrypt_zero :
    ∃ ctx', aesSetKey (Vector.replicate 16 0#8) 16#8 ⟨Vector.replicate kschSize 0#8, 0#8⟩ =
        .ok (true, ctx') ∧ ∀ inp, ∃ out,
      aesEncrypt inp ctx' = .ok (some out) ∧ aesDecrypt out ctx' = .ok (some inp) ∧
      state out = cipher 10 (expand 4 (keyWords (Vector.replicate 16 0#8))) (state inp) :=
  aesSetKey_encrypt (Vector.replicate 16 0#8) 16#8 (.inl rfl) le_rfl _

end DraginoFwd.Mac

import Mathlib.Tactic

/-!
# Numbers in base 128

`encode` writes a number in base 128, the lowest digit first, with the top bit set in all bytes but
the last. `decode` reads at most `limit` bytes from a source that may stop. From a source that feeds
the bytes of a number that fits, it gets the number and takes no other byte (`decode_encode`).
-/

set_option autoImplicit false

namespace DraginoFwd.Lib.Varint

universe u v

/-! ## Writing -/

/-- The digits to the base 128, the lowest first: all but the last one have the highest bit set. -/
def encode (n : Nat) : List (BitVec 8) :=
  if n < 128 then [BitVec.ofNat 8 n] else BitVec.ofNat 8 (n % 128 + 128) :: encode (n / 128)
termination_by n
decreasing_by omega

theorem encode_of_lt {n : Nat} (h : n < 128) : encode n = [BitVec.ofNat 8 n] := by
  rw [encode, if_pos h]

theorem encode_of_le {n : Nat} (h : 128 ≤ n) :
    encode n = BitVec.ofNat 8 (n % 128 + 128) :: encode (n / 128) := by
  rw [encode, if_neg (Nat.not_lt.2 h)]

theorem length_encode_pos (n : Nat) : 0 < (encode n).length := by
  rw [encode]
  split <;> simp

/-- A number needs one byte for each digit. -/
theorem length_encode_le_iff (n k : Nat) : (encode n).length ≤ k + 1 ↔ n < 128 ^ (k + 1) := by
  induction k generalizing n with
  | zero =>
    rcases Nat.lt_or_ge n 128 with hlt | hge
    · simp [encode_of_lt hlt, hlt]
    · have hpos := length_encode_pos (n / 128)
      rw [encode_of_le hge, List.length_cons]
      omega
  | succ k ih =>
    rcases Nat.lt_or_ge n 128 with hlt | hge
    · have hpow : 128 ≤ 128 ^ (k + 1 + 1) := Nat.le_self_pow (Nat.succ_ne_zero _) 128
      rw [encode_of_lt hlt, List.length_singleton]
      omega
    · rw [encode_of_le hge, List.length_cons, Nat.add_le_add_iff_right, ih,
        Nat.div_lt_iff_lt_mul (by decide), ← Nat.pow_succ]

/-! ## Reading -/

/-- How a number ends: with its last byte, at the limit, or where the source stops. -/
inductive Ending where
  | complete
  | tooLong
  | stopped
  deriving DecidableEq, Repr

section Decode

variable {σ : Type u} {ε : Type u} (next : σ → Except ε (Option (BitVec 8) × σ))

/-- The number from `value` on, with the bytes that were asked for and the source behind them. -/
def decode (limit : Nat) (st : σ) (len multiplier value : Nat) :
    Except ε (Ending × Nat × Nat × σ) :=
  if limit ≤ len then .ok (.tooLong, len + 1, value, st)
  else
    (next st).bind fun r =>
      match r.1 with
      | none => .ok (.stopped, len + 1, value, r.2)
      | some c =>
          if c &&& 128#8 ≠ 0#8 then
            decode limit r.2 (len + 1) (multiplier * 128) (value + (c &&& 127#8).toNat * multiplier)
          else .ok (.complete, len + 1, value + (c &&& 127#8).toNat * multiplier, r.2)
termination_by limit - len

/-- The source gives the bytes of the list, and then is `st'`. -/
inductive Feeds : σ → List (BitVec 8) → σ → Prop where
  | nil (st : σ) : Feeds st [] st
  | cons {st st1 st' : σ} {c : BitVec 8} {l : List (BitVec 8)} :
      next st = .ok (some c, st1) → Feeds st1 l st' → Feeds st (c :: l) st'

variable {next}

theorem low_bits : ∀ c : BitVec 8, (c &&& 127#8).toNat = c.toNat % 128 ∧
    (c &&& 128#8 ≠ 0#8 ↔ 128 ≤ c.toNat) := by decide +kernel

theorem decode_encode_from {limit n len multiplier value : Nat} {st st' : σ}
    (hfeeds : Feeds next st (encode n) st') (hlen : len + (encode n).length ≤ limit) :
    decode next limit st len multiplier value =
      .ok (.complete, len + (encode n).length, value + n * multiplier, st') := by
  induction n using Nat.strong_induction_on generalizing len multiplier value st with
  | _ n ih =>
    have hpos := length_encode_pos n
    rw [decode, if_neg (by omega)]
    rcases Nat.lt_or_ge n 128 with hlt | hge
    · have hbyte : (BitVec.ofNat 8 n).toNat = n := Nat.mod_eq_of_lt (by omega)
      obtain ⟨hdigit, hmore⟩ := low_bits (BitVec.ofNat 8 n)
      rw [hbyte] at hdigit hmore
      rw [encode_of_lt hlt] at hfeeds ⊢
      cases hfeeds with
      | cons hnext hrest =>
        cases hrest
        rw [hnext]
        simp only [Except.bind]
        rw [if_neg (fun h => absurd (hmore.1 h) (by omega)), hdigit, Nat.mod_eq_of_lt hlt,
          List.length_singleton]
    · have hbyte : (BitVec.ofNat 8 (n % 128 + 128)).toNat = n % 128 + 128 :=
        Nat.mod_eq_of_lt (by omega)
      obtain ⟨hdigit, hmore⟩ := low_bits (BitVec.ofNat 8 (n % 128 + 128))
      rw [hbyte] at hdigit hmore
      rw [encode_of_le hge] at hfeeds hlen ⊢
      rw [List.length_cons] at hlen ⊢
      cases hfeeds with
      | cons hnext hrest =>
        have hvalue : value + (n % 128 + 128) % 128 * multiplier + n / 128 * (multiplier * 128) =
            value + n * multiplier := by
          have hsplit := Nat.div_add_mod n 128
          calc value + (n % 128 + 128) % 128 * multiplier + n / 128 * (multiplier * 128)
              = value + (128 * (n / 128) + n % 128) * multiplier := by
                rw [show (n % 128 + 128) % 128 = n % 128 by omega]
                ring
            _ = value + n * multiplier := by rw [hsplit]
        rw [hnext]
        simp only [Except.bind]
        rw [if_pos (hmore.2 (by omega)), hdigit, ih (n / 128) (by omega) hrest (by omega), hvalue,
          Nat.add_assoc, Nat.add_comm 1]

/-- **A number that fits is read back**, and no byte behind it. -/
theorem decode_encode {limit n : Nat} {st st' : σ} (hfeeds : Feeds next st (encode n) st')
    (hlen : (encode n).length ≤ limit) :
    decode next limit st 0 1 0 = .ok (.complete, (encode n).length, n, st') := by
  rw [decode_encode_from hfeeds (by omega), Nat.zero_add, Nat.zero_add, Nat.mul_one]

end Decode

end DraginoFwd.Lib.Varint

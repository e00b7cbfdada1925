import Mathlib.Data.BitVec
import Mathlib.Tactic

/-!
# Counter mode

A keystream is a function from byte positions to bytes. Encryption adds it to a text bytewise
(`xorStream`); doing so twice gives the text back (`xorStream_xorStream`), and a text can be
encrypted piece by piece (`xorStream_append`). `blockStream` is the keystream that a sequence of
16-byte blocks makes.
-/

set_option autoImplicit false

namespace DraginoFwd.Lib.CounterMode

/-- Add the keystream to a text. -/
def xorStream (ks : Nat → BitVec 8) (l : List (BitVec 8)) : List (BitVec 8) :=
  l.mapIdx fun i b => b ^^^ ks i

@[simp] theorem xorStream_nil (ks : Nat → BitVec 8) : xorStream ks [] = [] := rfl

@[simp] theorem length_xorStream (ks : Nat → BitVec 8) (l : List (BitVec 8)) :
    (xorStream ks l).length = l.length := List.length_mapIdx

theorem xorStream_xorStream (ks : Nat → BitVec 8) (l : List (BitVec 8)) :
    xorStream ks (xorStream ks l) = l := by
  apply List.ext_getElem
  · simp
  · intro i h1 h2
    have hget : (xorStream ks (xorStream ks l))[i] = l[i] ^^^ ks i ^^^ ks i := by
      simp only [xorStream, List.getElem_mapIdx]
    rw [hget, BitVec.xor_assoc, BitVec.xor_self, BitVec.xor_zero]

/-- The text behind a first part meets the keystream from there on. -/
theorem xorStream_append (ks : Nat → BitVec 8) (l l' : List (BitVec 8)) :
    xorStream ks (l ++ l') = xorStream ks l ++ xorStream (fun i => ks (l.length + i)) l' := by
  simp only [xorStream, List.mapIdx_append, Nat.add_comm]

/-- The front of an encrypted text is the encrypted front. -/
theorem take_xorStream (ks : Nat → BitVec 8) (l : List (BitVec 8)) (len : Nat) :
    (xorStream ks l).take len = xorStream ks (l.take len) := by
  apply List.ext_getElem?
  intro k
  rw [xorStream, xorStream, List.getElem?_take, List.getElem?_mapIdx, List.getElem?_mapIdx,
    List.getElem?_take]
  split <;> rfl

/-- The keystream of the blocks `block 0`, `block 1` and so on. -/
def blockStream (block : Nat → Vector (BitVec 8) 16) (i : Nat) : BitVec 8 :=
  (block (i / 16)).get ⟨i % 16, Nat.mod_lt i (by decide)⟩

/-- One block is added to at most 16 bytes. -/
def xorBlock (b : Vector (BitVec 8) 16) (l : List (BitVec 8)) : List (BitVec 8) :=
  List.zipWith (fun x y => x ^^^ y) l b.toList

theorem length_xorBlock {b : Vector (BitVec 8) 16} {l : List (BitVec 8)} (h : l.length ≤ 16) :
    (xorBlock b l).length = l.length := by
  simp [xorBlock, h]

theorem length_xorBlock_le (b : Vector (BitVec 8) 16) (l : List (BitVec 8)) :
    (xorBlock b l).length ≤ 16 := by
  rw [xorBlock, List.length_zipWith, Vector.length_toList]
  exact Nat.min_le_right _ _

theorem xorBlock_eq (block : Nat → Vector (BitVec 8) 16) (k : Nat) {l : List (BitVec 8)}
    (h : l.length ≤ 16) :
    xorBlock (block k) l = xorStream (fun i => blockStream block (16 * k + i)) l := by
  apply List.ext_getElem
  · simp [length_xorBlock h]
  · intro i h1 h2
    rw [length_xorBlock h] at h1
    have hdiv : (16 * k + i) / 16 = k := by omega
    have hmod : i % 16 = i := Nat.mod_eq_of_lt (by omega)
    simp [xorBlock, xorStream, blockStream, hdiv, hmod, Vector.get]

end DraginoFwd.Lib.CounterMode

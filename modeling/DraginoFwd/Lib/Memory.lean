import Mathlib

/-!
# Arrays with checked accesses

An access outside an array has no value in C. The functions of this file return the offending
index instead (`OutOfBounds`), so that a program that cannot make such an access is one that
returns `.ok`. `read` and `slice` take cells out of an array, `write` and `copy` put cells into it,
and the contents of arrays are compared as lists.

The bytes of words in little-endian order are at the end of the file.
-/

set_option autoImplicit false

namespace DraginoFwd.Lib.Memory

universe u

variable {α : Type u} {n : Nat}

/-- An access at `index` of an array that has `size` cells. -/
structure OutOfBounds where
  index : Int
  size : Nat
  deriving DecidableEq, Repr

@[simp] theorem ok_bind {β γ : Type u} (b : β) (f : β → Except OutOfBounds γ) :
    (Except.ok b >>= f) = f b := rfl

@[simp] theorem error_bind {β γ : Type u} (e : OutOfBounds) (f : β → Except OutOfBounds γ) :
    ((Except.error e : Except OutOfBounds β) >>= f) = .error e := rfl

/-- A sequence of two programs returns when the first one does and the second one after it. -/
theorem bind_eq_ok {β γ : Type u} {x : Except OutOfBounds β}
    {f : β → Except OutOfBounds γ} {c : γ} :
    (x >>= f) = .ok c ↔ ∃ b, x = .ok b ∧ f b = .ok c := by
  cases x with
  | error e => simp
  | ok b => simp

/-- The cell at `i`. -/
def read (m : Vector α n) (i : Int) : Except OutOfBounds α :=
  if h : 0 ≤ i ∧ i < n then .ok (m.get ⟨i.toNat, by omega⟩) else .error ⟨i, n⟩

/-- The `len` cells from `i` on. A negative length is one beyond every array, as it is after its
conversion to `size_t`. -/
def slice (m : Vector α n) (i : Nat) (len : Int) : Except OutOfBounds (List α) :=
  if 0 ≤ len ∧ i + len ≤ n then .ok ((m.toList.drop i).take len.toNat) else .error ⟨i + len, n⟩

/-- Store `v` at `i`. -/
def write (m : Vector α n) (i : Nat) (v : α) : Except OutOfBounds (Vector α n) :=
  if h : i < n then .ok (m.set i v) else .error ⟨i, n⟩

/-- Store the cells of a list from `i` on. -/
def copy (m : Vector α n) (i : Nat) : List α → Except OutOfBounds (Vector α n)
  | [] => .ok m
  | v :: vs => (write m i v).bind fun m' => copy m' (i + 1) vs

theorem read_ok {m : Vector α n} {l : List α} (hm : m.toList = l) {i : Nat} {v : α}
    (h : l[i]? = some v) : read m (i : Int) = .ok v := by
  subst hm
  obtain ⟨hi, hv⟩ := List.getElem?_eq_some_iff.1 h
  have hin : i < n := by simpa using hi
  rw [read, dif_pos ⟨Int.natCast_nonneg i, Int.ofNat_lt.2 hin⟩, ← hv]
  simp [Vector.get]

theorem read_neg (m : Vector α n) {i : Int} (h : i < 0) : read m i = .error ⟨i, n⟩ := by
  rw [read, dif_neg]
  rintro ⟨h0, -⟩
  exact absurd h0 (Int.not_le.2 h)

theorem slice_ok (m : Vector α n) (i len : Nat) (h : i + len ≤ n) :
    slice m i (len : Int) = .ok ((m.toList.drop i).take len) := by
  rw [slice, if_pos ⟨Int.natCast_nonneg len, by exact_mod_cast h⟩, Int.toNat_natCast]

theorem slice_neg (m : Vector α n) (i : Nat) {len : Int} (h : len < 0) :
    slice m i len = .error ⟨i + len, n⟩ := by
  rw [slice, if_neg]
  rintro ⟨h0, -⟩
  exact absurd h0 (Int.not_le.2 h)

/-- A list is stored by storing a first part and then the rest behind it. -/
theorem copy_append (m : Vector α n) (i : Nat) (l l' : List α) :
    copy m i (l ++ l') = (copy m i l).bind fun m' => copy m' (i + l.length) l' := by
  induction l generalizing m i with
  | nil => rfl
  | cons v vs ih =>
    rw [List.cons_append, copy, copy]
    cases write m i v with
    | error e => rfl
    | ok m' =>
      show copy m' (i + 1) (vs ++ l') = (copy m' (i + 1) vs).bind _
      rw [ih, List.length_cons, Nat.add_assoc, Nat.add_comm 1]

theorem copy_append_ok {m m' : Vector α n} {i : Nat} {l : List α} (h : copy m i l = .ok m')
    (l' : List α) : copy m i (l ++ l') = copy m' (i + l.length) l' := by
  rw [copy_append, h]
  rfl

theorem write_ok (m : Vector α n) {i : Nat} (v : α) (h : i < n) :
    write m i v = .ok (m.set i v) := dif_pos h

/-- What an array holds after a copy that fits it. -/
theorem copy_spec (m : Vector α n) (i : Nat) (l : List α) (h : i + l.length ≤ n) :
    ∃ m', copy m i l = .ok m' ∧
      m'.toList = m.toList.take i ++ l ++ m.toList.drop (i + l.length) := by
  induction l generalizing m i with
  | nil => exact ⟨m, rfl, by simp⟩
  | cons v vs ih =>
    rw [List.length_cons] at h
    have hi : i < n := by omega
    obtain ⟨m', hcopy, hlist⟩ := ih (m.set i v) (i + 1) (by omega)
    refine ⟨m', ?_, ?_⟩
    · rw [copy, write, dif_pos hi]
      exact hcopy
    · rw [hlist, Vector.toList_set, List.length_cons, List.drop_set_of_lt (by omega),
        List.take_add_one, List.take_set_of_le le_rfl, List.getElem?_set_self (by simpa using hi),
        show i + 1 + vs.length = i + (vs.length + 1) by omega]
      simp

/-- What is copied into a list leaves its front in place. -/
theorem take_splice {l mid : List α} {i : Nat} (h : i ≤ l.length) :
    (l.take i ++ mid ++ l.drop (i + mid.length)).take (i + mid.length) = l.take i ++ mid := by
  apply List.take_left'
  rw [List.length_append, List.length_take, Nat.min_eq_left h]

/-- What is copied into a list leaves the rest in place. -/
theorem drop_splice {l mid : List α} {i : Nat} (h : i ≤ l.length) (k : Nat) :
    (l.take i ++ mid ++ l.drop (i + mid.length)).drop (i + mid.length + k) =
      l.drop (i + mid.length + k) := by
  have hlen : (l.take i ++ mid).length = i + mid.length := by
    rw [List.length_append, List.length_take, Nat.min_eq_left h]
  rw [← hlen, List.drop_length_add_append, List.drop_drop]

/-- A copy changes no cells but its own. -/
theorem copy_window {m m' : Vector α n} {i : Nat} {l : List α} (hcopy : copy m i l = .ok m')
    (hfit : i + l.length ≤ n) {k len : Nat} (hout : k + len ≤ i ∨ i + l.length ≤ k) :
    (m'.toList.drop k).take len = (m.toList.drop k).take len := by
  obtain ⟨m'', heq, hlist⟩ := copy_spec m i l hfit
  rw [hcopy] at heq
  cases heq
  have hi : i ≤ m.toList.length := by
    rw [Vector.length_toList]
    omega
  apply List.ext_getElem?
  intro x
  rw [List.getElem?_take, List.getElem?_take, List.getElem?_drop, List.getElem?_drop]
  split
  · next hx =>
    rcases hout with hbefore | hbehind
    · -- in front of the copy
      have hlen : (m.toList.take i).length = i := List.length_take_of_le hi
      rw [hlist, List.append_assoc, List.getElem?_append_left (by omega), List.getElem?_take,
        if_pos (by omega)]
    · -- behind the copy
      have hlen : (m.toList.take i ++ l).length = i + l.length := by
        rw [List.length_append, List.length_take_of_le hi]
      rw [hlist, List.getElem?_append_right (by omega), hlen, List.getElem?_drop]
      congr 1
      omega
  · rfl

/-- A copy in front of a cell leaves the cell. -/
theorem copy_getElem?_of_le {m m' : Vector α n} {i : Nat} {l : List α} (h : copy m i l = .ok m')
    {k : Nat} (hk : i + l.length ≤ k) : m'.toList[k]? = m.toList[k]? := by
  induction l generalizing m i with
  | nil =>
    rw [copy] at h
    rw [Except.ok.inj h]
  | cons v vs ih =>
      rw [List.length_cons] at hk
      rw [copy, write] at h
      split at h
      · next hi =>
        rw [ih h (by omega), Vector.toList_set, List.getElem?_set_ne (by omega)]
      · cases h

/-- A copy holds what was copied. -/
theorem copy_self {m m' : Vector α n} {i : Nat} {l : List α} (hcopy : copy m i l = .ok m')
    (hfit : i + l.length ≤ n) : (m'.toList.drop i).take l.length = l := by
  obtain ⟨m'', heq, hlist⟩ := copy_spec m i l hfit
  rw [hcopy] at heq
  cases heq
  have hlen : (m.toList.take i).length = i := by
    rw [List.length_take_of_le]
    rw [Vector.length_toList]
    omega
  rw [hlist, List.append_assoc, List.drop_left' hlen, List.take_left' rfl]

/-- A copy that does not fit leaves the array. -/
theorem copy_error (m : Vector α n) (i : Nat) (l : List α) (hne : l ≠ []) (h : n < i + l.length) :
    ∃ e, copy m i l = .error e := by
  induction l generalizing m i with
  | nil => exact absurd rfl hne
  | cons v vs ih =>
    rw [copy]
    by_cases hi : i < n
    · rw [write, dif_pos hi]
      rw [List.length_cons] at h
      have hvs : vs ≠ [] := by
        rintro rfl
        simp at h
        omega
      exact ih (m.set i v) (i + 1) hvs (by omega)
    · rw [write, dif_neg hi]
      exact ⟨_, rfl⟩

/-! ## What stands where -/

/-- The cells of the list stand in the array from `i` on. -/
def HoldsAt (m : Vector α n) (i : Nat) (l : List α) : Prop := (m.toList.drop i).take l.length = l

theorem HoldsAt.append {m : Vector α n} {i : Nat} {l l' : List α} (h : HoldsAt m i l)
    (h' : HoldsAt m (i + l.length) l') : HoldsAt m i (l ++ l') := by
  rw [HoldsAt, List.drop_drop.symm] at h'
  rw [HoldsAt, List.length_append, List.take_add, h, h']

theorem HoldsAt.getElem? {m : Vector α n} {i : Nat} {l : List α} (h : HoldsAt m i l) {k : Nat}
    (hk : k < l.length) : m.toList[i + k]? = l[k]? := by
  have hcell := congrArg (fun cells => cells[k]?) h
  rwa [List.getElem?_take_of_lt hk, List.getElem?_drop] at hcell

theorem HoldsAt.left {m : Vector α n} {i : Nat} {l l' : List α} (h : HoldsAt m i (l ++ l')) :
    HoldsAt m i l := by
  have hfront := congrArg (List.take l.length) h
  rw [List.take_take, List.length_append, Nat.min_eq_left (Nat.le_add_right _ _),
    List.take_left' rfl] at hfront
  exact hfront

theorem HoldsAt.right {m : Vector α n} {i : Nat} {l l' : List α} (h : HoldsAt m i (l ++ l')) :
    HoldsAt m (i + l.length) l' := by
  have hback := congrArg (List.drop l.length) h
  rw [List.drop_take, List.drop_drop, List.length_append, Nat.add_sub_cancel_left,
    List.drop_left' rfl] at hback
  exact hback

theorem HoldsAt.slice {m : Vector α n} {i : Nat} {l : List α} (h : HoldsAt m i l)
    (hfit : i + l.length ≤ n) : slice m i (l.length : Int) = .ok l := by
  rw [slice_ok m i l.length hfit, h]

theorem HoldsAt.read {m : Vector α n} {i : Nat} {l : List α} (h : HoldsAt m i l) {k : Nat} {v : α}
    (hk : l[k]? = some v) : read m ((i + k : Nat) : Int) = .ok v :=
  read_ok rfl ((h.getElem? (List.getElem?_eq_some_iff.1 hk).1).trans hk)

/-- What is copied stands where it was copied to, and what stands elsewhere stays. -/
theorem copy_holdsAt (m : Vector α n) {i : Nat} {l : List α} (hfit : i + l.length ≤ n) :
    ∃ m', copy m i l = .ok m' ∧ HoldsAt m' i l ∧
      ∀ k other, HoldsAt m k other → k + other.length ≤ i ∨ i + l.length ≤ k →
        HoldsAt m' k other := by
  obtain ⟨m', hcopy, -⟩ := copy_spec m i l hfit
  refine ⟨m', hcopy, copy_self hcopy hfit, ?_⟩
  intro k other hother hout
  rw [HoldsAt, copy_window hcopy hfit hout]
  exact hother

/-! ## Longer arrays -/

theorem read_get (m : Vector α n) {i : Nat} (h : i < n) :
    read m (i : Int) = .ok (m.get ⟨i, h⟩) := by
  rw [read, dif_pos ⟨Int.natCast_nonneg i, Int.ofNat_lt.2 h⟩]
  simp

theorem lt_of_read {m : Vector α n} {i : Nat} {v : α} (h : read m (i : Int) = .ok v) : i < n := by
  rw [read] at h
  split at h
  · next hin => exact Int.ofNat_lt.1 hin.2
  · cases h

theorem getElem?_of_read {m : Vector α n} {i : Nat} {v : α} (h : read m (i : Int) = .ok v) :
    m.toList[i]? = some v := by
  have hlt := lt_of_read h
  rw [read_get m hlt] at h
  cases h
  have hlen : i < m.toList.length := by simpa using hlt
  rw [List.getElem?_eq_getElem hlen]
  simp [Vector.get]

/-- What the first program returns is what the second one returns. -/
def Persists {β : Type u} (x y : Except OutOfBounds β) : Prop := ∀ b, x = .ok b → y = .ok b

theorem Persists.refl {β : Type u} (x : Except OutOfBounds β) : Persists x x := fun _ h => h

theorem Persists.bind {β γ : Type u} {x y : Except OutOfBounds β}
    {f g : β → Except OutOfBounds γ} (h : Persists x y) (hnext : ∀ b, Persists (f b) (g b)) :
    Persists (x >>= f) (y >>= g) := by
  intro c hc
  obtain ⟨b, hb, hf⟩ := bind_eq_ok.1 hc
  exact bind_eq_ok.2 ⟨b, h b hb, hnext b c hf⟩

theorem Persists.ite {β : Type u} {c : Prop} [Decidable c] {x y x' y' : Except OutOfBounds β}
    (h : Persists x y) (h' : Persists x' y') :
    Persists (if c then x else x') (if c then y else y') := by
  split
  · exact h
  · exact h'

/-- A cell of an array is the same in a longer one. -/
theorem persists_read {k : Nat} (m : Vector α n) (rest : Vector α k) (i : Int) :
    Persists (read m i) (read (m ++ rest) i) := by
  intro v h
  rw [read] at h
  split at h
  · next hin =>
    rw [read, dif_pos ⟨hin.1, by omega⟩, ← h]
    have hlt : i.toNat < n := by omega
    exact congrArg Except.ok (Vector.getElem_append_left hlt)
  · cases h

theorem persists_slice {k : Nat} (m : Vector α n) (rest : Vector α k) (i : Nat) (len : Int) :
    Persists (slice m i len) (slice (m ++ rest) i len) := by
  intro l h
  rw [slice] at h
  split at h
  · next hin =>
    rw [slice, if_pos ⟨hin.1, by omega⟩, ← h, Vector.toList_append]
    have hlen : m.toList.length = n := by simp
    rw [List.drop_append_of_le_length (by omega), List.take_append_of_le_length]
    rw [List.length_drop]
    omega
  · cases h

/-! ## Bytes of words -/

/-- Byte `k` of a word, the lowest first. -/
def byteOf (x : BitVec 32) (k : Nat) : BitVec 8 := (x >>> (8 * k)).setWidth 8

/-- The word of four bytes, the lowest first. -/
def le32 (b0 b1 b2 b3 : BitVec 8) : BitVec 32 :=
  b0.setWidth 32 ||| b1.setWidth 32 <<< 8 ||| b2.setWidth 32 <<< 16 ||| b3.setWidth 32 <<< 24

/-- The half word of two bytes, the lowest first. -/
def le16 (b0 b1 : BitVec 8) : BitVec 16 := b0.setWidth 16 ||| b1.setWidth 16 <<< 8

theorem le32_byteOf (x : BitVec 32) :
    le32 (byteOf x 0) (byteOf x 1) (byteOf x 2) (byteOf x 3) = x := by
  apply BitVec.eq_of_getLsbD_eq
  intro i hi
  interval_cases i <;> simp [le32, byteOf]

theorem le16_byteOf (x : BitVec 32) : le16 (byteOf x 0) (byteOf x 1) = x.setWidth 16 := by
  apply BitVec.eq_of_getLsbD_eq
  intro i hi
  interval_cases i <;> simp [le16, byteOf]

end DraginoFwd.Lib.Memory

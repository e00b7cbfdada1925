import DraginoFwd.Lib.Memory

/-!
# Writing one part behind the other

A `Cursor` is an array with the place where the next cells go. What one `put` leaves another one
goes on from (`put_bind_put`), so that a program that writes part after part writes the parts
joined, and needs the room that they take together (`put_ok_iff`).
-/

set_option autoImplicit false

namespace DraginoFwd.Lib.Memory

universe u

/-- An array, and where the next cell is written. -/
structure Cursor (α : Type u) (n : Nat) where
  buf : Vector α n
  ptr : Nat

namespace Cursor

variable {α : Type u} {n : Nat}

/-- Store the cells of a list and move behind them. -/
def put (w : Cursor α n) (l : List α) : Except OutOfBounds (Cursor α n) :=
  (copy w.buf w.ptr l).map fun m => ⟨m, w.ptr + l.length⟩

@[simp] theorem put_nil (w : Cursor α n) : w.put [] = .ok w := rfl

theorem put_append (w : Cursor α n) (l l' : List α) :
    w.put (l ++ l') = (w.put l).bind fun w' => w'.put l' := by
  rw [put, put, copy_append]
  cases copy w.buf w.ptr l with
  | error e => rfl
  | ok m =>
    show (copy m (w.ptr + l.length) l').map _ = (copy m (w.ptr + l.length) l').map _
    rw [List.length_append, Nat.add_assoc]

/-- Two parts, one behind the other. -/
theorem put_bind_put (w : Cursor α n) (l l' : List α) :
    (w.put l >>= fun w' => w'.put l') = w.put (l ++ l') := (put_append w l l').symm

/-- Two parts in front of the rest of a program. -/
theorem put_bind_put_bind {γ : Type u} (w : Cursor α n) (l l' : List α)
    (f : Cursor α n → Except OutOfBounds γ) :
    (w.put l >>= fun w' => w'.put l' >>= f) = w.put (l ++ l') >>= f := by
  rw [put_append]
  cases w.put l with
  | error e => rfl
  | ok w' => rfl

theorem put_ok {w w' : Cursor α n} {l : List α} (h : w.put l = .ok w') :
    copy w.buf w.ptr l = .ok w'.buf ∧ w'.ptr = w.ptr + l.length := by
  rw [put] at h
  cases hcopy : copy w.buf w.ptr l with
  | error e =>
    rw [hcopy] at h
    cases h
  | ok m =>
    rw [hcopy] at h
    cases h
    exact ⟨rfl, rfl⟩

/-- What the array holds after parts that fit. -/
theorem put_spec (w : Cursor α n) {l : List α} (h : w.ptr + l.length ≤ n) :
    ∃ m, w.put l = .ok ⟨m, w.ptr + l.length⟩ ∧
      m.toList = w.buf.toList.take w.ptr ++ l ++ w.buf.toList.drop (w.ptr + l.length) := by
  obtain ⟨m, hcopy, hlist⟩ := copy_spec w.buf w.ptr l h
  refine ⟨m, ?_, hlist⟩
  rw [put, hcopy]
  rfl

end Cursor

end DraginoFwd.Lib.Memory

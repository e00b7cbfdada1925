import Mathlib

/-!
# Handles that are acquired and released

A table holds one entry for each handle that was ever acquired: what it was acquired as, and how
often it was released. `Held l m` says that the handles of `m` are the ones not released yet, that
each of them is held once, and that every other handle was released exactly once. It is kept by
every acquisition that notes its handle and every release of a held one, so that a program has no
double release and no lost handle as long as `m` can be read off its variables.
-/

set_option autoImplicit false

namespace DraginoFwd.Lib.Handles

universe u

variable {κ : Type u}

/-- What a handle was acquired as, and the number of its releases. -/
structure Handle (κ : Type u) where
  kind : κ
  releases : Nat
  deriving DecidableEq

/-- The table behind an acquisition, whose handle is the length of the table. -/
def acquire (l : List (Handle κ)) (k : κ) : List (Handle κ) := l ++ [⟨k, 0⟩]

/-- The table behind a release. -/
def release (l : List (Handle κ)) (i : Nat) : List (Handle κ) :=
  l.modify i fun h => { h with releases := h.releases + 1 }

/-- The handles in `m` are held, and all others were released once. -/
structure Held (l : List (Handle κ)) (m : Multiset (Nat × κ)) : Prop where
  nodup : (m.map Prod.fst).Nodup
  held : ∀ p ∈ m, l[p.1]? = some ⟨p.2, 0⟩
  others : ∀ i h, l[i]? = some h → i ∉ m.map Prod.fst → h.releases = 1

theorem held_nil : Held ([] : List (Handle κ)) 0 where
  nodup := Multiset.nodup_zero
  held := by
    intro p hp
    cases Multiset.notMem_zero p hp
  others := by
    intro i h hi
    cases hi

variable {l : List (Handle κ)} {m : Multiset (Nat × κ)} {i : Nat} {k : κ}

theorem Held.lt_length (h : Held l m) {p : Nat × κ} (hp : p ∈ m) : p.1 < l.length :=
  (List.getElem?_eq_some_iff.1 (h.held p hp)).1

theorem Held.congr {m' : Multiset (Nat × κ)} (h : Held l m) (heq : m = m') : Held l m' :=
  heq ▸ h

/-- The new handle is held by nobody yet. -/
theorem Held.acquire (h : Held l m) (k : κ) : Held (acquire l k) ((l.length, k) ::ₘ m) where
  nodup := by
    rw [Multiset.map_cons, Multiset.nodup_cons]
    refine ⟨fun hmem => ?_, h.nodup⟩
    obtain ⟨p, hp, heq⟩ := Multiset.mem_map.1 hmem
    exact absurd (h.lt_length hp) (by rw [heq]; exact lt_irrefl _)
  held := by
    intro p hp
    rcases Multiset.mem_cons.1 hp with rfl | hp
    · exact List.getElem?_concat_length
    · rw [Handles.acquire, List.getElem?_append_left (h.lt_length hp)]
      exact h.held p hp
  others := by
    intro j e hj hmem
    rw [Multiset.map_cons, Multiset.mem_cons, not_or] at hmem
    have hlt : j < l.length := by
      have hle := (List.getElem?_eq_some_iff.1 hj).1
      rw [Handles.acquire, List.length_append, List.length_singleton] at hle
      exact lt_of_le_of_ne (Nat.lt_succ_iff.1 hle) hmem.1
    rw [Handles.acquire, List.getElem?_append_left hlt] at hj
    exact h.others j e hj hmem.2

/-- A held handle can be released. -/
theorem Held.release (h : Held l ((i, k) ::ₘ m)) : Held (release l i) m := by
  have hnodup := h.nodup
  rw [Multiset.map_cons, Multiset.nodup_cons] at hnodup
  refine ⟨hnodup.2, fun p hp => ?_, fun j e hj hmem => ?_⟩
  · have hne : i ≠ p.1 := by
      rintro rfl
      have hmem : p.1 ∈ m.map Prod.fst := Multiset.mem_map_of_mem Prod.fst hp
      exact hnodup.1 hmem
    rw [Handles.release, List.getElem?_modify_ne _ _ hne]
    exact h.held p (Multiset.mem_cons_of_mem hp)
  -- the released handle leaves `m` with one release, and the others keep theirs
  · by_cases heq : j = i
    · subst heq
      rw [Handles.release, List.getElem?_modify_eq,
        h.held (j, k) (Multiset.mem_cons_self _ _)] at hj
      obtain rfl := Option.some.inj hj
      rfl
    · rw [Handles.release, List.getElem?_modify_ne _ _ (Ne.symm heq)] at hj
      refine h.others j e hj ?_
      rw [Multiset.map_cons, Multiset.mem_cons, not_or]
      exact ⟨heq, hmem⟩

/-- No handle is released twice. -/
theorem Held.releases_le (h : Held l m) : ∀ e ∈ l, e.releases ≤ 1 := by
  intro e he
  obtain ⟨j, hj⟩ := List.mem_iff_getElem?.1 he
  by_cases hmem : j ∈ m.map Prod.fst
  · obtain ⟨p, hp, rfl⟩ := Multiset.mem_map.1 hmem
    obtain rfl := Option.some.inj ((h.held p hp).symm.trans hj)
    exact Nat.zero_le 1
  · exact (h.others j e hj hmem).le

/-- Where nothing is held, nothing is left open. -/
theorem Held.releases_eq (h : Held l 0) : ∀ e ∈ l, e.releases = 1 := by
  intro e he
  obtain ⟨j, hj⟩ := List.mem_iff_getElem?.1 he
  exact h.others j e hj (Multiset.notMem_zero j)

/-- What is held is all that is held. -/
theorem Held.eq_zero {m' : Multiset (Nat × κ)} (h : Held l m) (h' : Held l (m + m')) : m' = 0 := by
  by_contra hne
  -- a handle of `m'` is open, but by `h` it was released unless it is one of `m` too
  obtain ⟨p, hp⟩ := Multiset.exists_mem_of_ne_zero hne
  have hentry := h'.held p (Multiset.mem_add.2 (Or.inr hp))
  have hmem' : p.1 ∈ m'.map Prod.fst := Multiset.mem_map_of_mem Prod.fst hp
  by_cases hmem : p.1 ∈ m.map Prod.fst
  · have hnodup := h'.nodup
    rw [Multiset.map_add, Multiset.nodup_add] at hnodup
    exact Multiset.disjoint_left.1 hnodup.2.2 hmem hmem'
  · exact absurd (h.others p.1 _ hentry hmem) Nat.zero_ne_one

/-! ## Variables with a handle or none -/

/-- What a variable holds that was filled with a handle of the kind `k`, if with any. -/
def slot (o : Option Nat) (k : κ) : Multiset (Nat × κ) :=
  match o with
  | none => 0
  | some i => {(i, k)}

@[simp] theorem slot_none (k : κ) : slot none k = 0 := rfl

@[simp] theorem slot_some (i : Nat) (k : κ) : slot (some i) k = {(i, k)} := rfl

/-- An acquisition that may fail. -/
def tryAcquire (l : List (Handle κ)) (ok : Bool) (k : κ) : Option Nat × List (Handle κ) :=
  if ok then (some l.length, acquire l k) else (none, l)

/-- A release that does nothing where there is no handle. -/
def releaseSlot (l : List (Handle κ)) : Option Nat → List (Handle κ)
  | none => l
  | some i => release l i

theorem slot_eq_zero {o : Option Nat} {k : κ} : slot o k = 0 ↔ o = none := by
  cases o with
  | none => exact iff_of_true rfl rfl
  | some i => exact iff_of_false (Multiset.singleton_ne_zero _) (Option.some_ne_none i)

theorem tryAcquire_isSome (l : List (Handle κ)) (ok : Bool) (k : κ) :
    (tryAcquire l ok k).1.isSome = ok := by
  cases ok with
  | false => rfl
  | true => rfl

theorem Held.tryAcquire (h : Held l m) (ok : Bool) (k : κ) :
    Held (tryAcquire l ok k).2 (slot (tryAcquire l ok k).1 k + m) := by
  cases ok with
  | false =>
    have hzero : slot none k + m = m := zero_add m
    rw [Handles.tryAcquire, if_neg Bool.false_ne_true, hzero]
    exact h
  | true => exact h.acquire k

theorem Held.releaseSlot {o : Option Nat} (h : Held l (slot o k + m)) :
    Held (releaseSlot l o) m := by
  cases o with
  | none =>
    have hzero : slot none k + m = m := zero_add m
    rw [hzero] at h
    exact h
  | some i => exact h.release

end DraginoFwd.Lib.Handles

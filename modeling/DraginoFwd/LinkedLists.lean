import DraginoFwd.Lib.Chain
import DraginoFwd.Lib.Transition

/-!
# The intrusive lists

The macros of `linkedlists.h` over a memory of elements with one `next` each, where an access
through NULL or to memory that is no element fails. Loops have a number of rounds.

An event is a macro with what its users put around it: `lgw_malloc`, which clears the element, the
adjustment of `size` behind `LGW_LIST_REMOVE_HEAD` and `LGW_LIST_REMOVE_CURRENT`, and `lgw_free`.
`Consistent` ties the memory to the list of the elements that were inserted and not removed, and
every event keeps it (`Consistent.event`).
-/

set_option autoImplicit false

namespace DraginoFwd.LinkedLists

open DraginoFwd.Lib.Chain
open DraginoFwd.Lib.Transition

universe u

variable {α : Type u}

/-- `LGW_LIST_HEAD`, and the `next` of every element. -/
structure ListMem (α : Type u) where
  first : Option α
  last : Option α
  size : Int
  next : Links α

/-- `LGW_LIST_HEAD_INIT_VALUE`, with no element in memory -/
def ListMem.init : ListMem α := ⟨none, none, 0, fun _ => none⟩

/-! ## The macros -/

section Macros

variable [DecidableEq α]

/-- `LGW_LIST_INSERT_HEAD` -/
def insertHead (s : ListMem α) (elm : α) : Option (ListMem α) := do
  let next ← setLink s.next elm s.first
  some { first := some elm
         last := if s.last = none then some elm else s.last
         size := s.size + 1
         next := next }

/-- `LGW_LIST_INSERT_TAIL`, which leaves the `next` of the element -/
def insertTail (s : ListMem α) (elm : α) : Option (ListMem α) :=
  if s.first = none then
    some { s with first := some elm, last := some elm, size := s.size + 1 }
  else do
    let last ← s.last
    let next ← setLink s.next last (some elm)
    some { s with last := some elm, size := s.size + 1, next := next }

/-- `LGW_LIST_REMOVE_HEAD` -/
def removeHead (s : ListMem α) : Option (Option α × ListMem α) :=
  match s.first with
  | none => some (none, s)
  | some cur => do
      let first ← s.next cur
      let next ← setLink s.next cur none
      some (some cur, { s with
        first := first
        last := if s.last = some cur then none else s.last
        next := next })

/-- The search for the element in front of `elm`, from `prev` on. -/
def searchPrev (next : Links α) (elm : α) : Nat → Option α → Option (Option α)
  | 0, _ => none
  | _ + 1, none => some none
  | rounds + 1, some prev => do
      let n ← next prev
      if n = some elm then some (some prev) else searchPrev next elm rounds n

/-- `LGW_LIST_REMOVE` -/
def remove (rounds : Nat) (s : ListMem α) (elm : α) : Option (Option α × ListMem α) :=
  if s.first = some elm then do
    let first ← s.next elm
    let next ← setLink s.next elm none
    some (some elm, { first := first
                      last := if s.last = some elm then none else s.last
                      size := s.size - 1
                      next := next })
  else do
    let prev ← searchPrev s.next elm rounds s.first
    match prev with
    | none => some (none, s)
    | some prev => do
        let n ← s.next elm
        let next ← setLink s.next prev n
        let next ← setLink next elm none
        some (some elm, { s with
          last := if s.last = some elm then some prev else s.last
          size := s.size - 1
          next := next })

/-- The variables of a traversal: `var`, `__list_prev`, `__list_current` and `__list_next`. -/
structure Cursor (α : Type u) where
  var : Option α
  prev : Option α
  current : Option α
  next : Option α

/-- `(var) ? (var)->field.next : NULL` -/
def nextOf (s : ListMem α) : Option α → Option (Option α)
  | none => some none
  | some a => s.next a

/-- `LGW_LIST_TRAVERSE_SAFE_BEGIN`: the start of the loop. -/
def safeBegin (s : ListMem α) : Option (Cursor α) := do
  let next ← nextOf s s.first
  some ⟨s.first, none, s.first, next⟩

/-- `LGW_LIST_TRAVERSE_SAFE_BEGIN`: what stands behind its body. -/
def safeNext (s : ListMem α) (c : Cursor α) : Option (Cursor α) := do
  let next ← nextOf s c.next
  some ⟨c.next, c.current, c.next, next⟩

/-- `LGW_LIST_REMOVE_CURRENT` -/
def removeCurrent (s : ListMem α) (c : Cursor α) : Option (ListMem α × Cursor α) := do
  let cur ← c.current
  let next ← setLink s.next cur none
  let next ← match c.prev with
    | none => some next
    | some prev => setLink next prev c.next
  some ({ s with
          first := if c.prev = none then c.next else s.first
          last := if c.next = none then c.prev else s.last
          next := next },
        { c with current := c.prev })

/-- `LGW_LIST_TRAVERSE`: the visited elements. -/
def traverse (next : Links α) : Nat → Option α → Option (List α)
  | 0, _ => none
  | _ + 1, none => some []
  | rounds + 1, some a => do
      let n ← next a
      let rest ← traverse next rounds n
      some (a :: rest)

/-! ## The users -/

/-- `lgw_free` -/
def free (s : ListMem α) (a : α) : ListMem α := { s with next := Function.update s.next a none }

/-- What the body of a safe traversal does with an element. -/
structure Decision where
  removes : Bool
  frees : Bool
  breaks : Bool

/-- The body: `LGW_LIST_REMOVE_CURRENT` with `size--`, and `lgw_free` if it is wanted. -/
def safeBody (d : Decision) (a : α) (s : ListMem α) (c : Cursor α) :
    Option (ListMem α × Cursor α) :=
  if d.removes then do
    let (s, c) ← removeCurrent s c
    let s := { s with size := s.size - 1 }
    some (if d.frees then free s a else s, c)
  else some (s, c)

/-- The rounds of a safe traversal. -/
def safeLoop (decision : α → Decision) : Nat → ListMem α → Cursor α → Option (ListMem α)
  | 0, _, _ => none
  | rounds + 1, s, c =>
      match c.var with
      | none => some s
      | some a => do
          let (s, c) ← safeBody (decision a) a s c
          if (decision a).breaks then some s
          else do
            let c ← safeNext s c
            safeLoop decision rounds s c

/-- What happens to a list: an element is allocated or freed outside of the list, or a macro runs.
`removeHead` is followed by `size--` if there was an element, `traverse` has `size--` in its
body. -/
inductive ListEvent (α : Type u) where
  | alloc (a : α)
  | free (a : α)
  | insertHead (a : α)
  | insertTail (a : α)
  | removeHead
  | remove (a : α)
  | traverse (decision : α → Decision)

/-- The event with some number of rounds for its loop. -/
def listEvent (rounds : Nat) (s : ListMem α) : ListEvent α → Option (ListMem α)
  | .alloc a => some { s with next := Function.update s.next a (some none) }
  | .free a => some (LinkedLists.free s a)
  | .insertHead a => LinkedLists.insertHead s a
  | .insertTail a => LinkedLists.insertTail s a
  | .removeHead => do
      let (element, s) ← LinkedLists.removeHead s
      some (if element = none then s else { s with size := s.size - 1 })
  | .remove a => (LinkedLists.remove rounds s a).map Prod.snd
  | .traverse decision => do
      let c ← safeBegin s
      safeLoop decision rounds s c

end Macros

/-! ## The consistent lists -/

/-- The memory holds the list `l`, and an element outside of it has no successor. -/
structure Consistent (s : ListMem α) (l : List α) : Prop where
  nodup : l.Nodup
  linked : Linked s.next s.first l none
  last : s.last = l.getLast?
  size : s.size = l.length
  loose : ∀ a, a ∉ l → ∀ n, s.next a = some n → n = none

theorem consistent_init : Consistent (ListMem.init : ListMem α) [] where
  nodup := List.nodup_nil
  linked := rfl
  last := rfl
  size := rfl
  loose := by
    intro a _ n hn
    cases hn

section Reading

variable {s : ListMem α} {l front back : List α} {a : α}

theorem Consistent.first (h : Consistent s l) : s.first = l.head? := h.linked.head

theorem Consistent.next (h : Consistent s (front ++ a :: back)) : s.next a = some back.head? := by
  obtain ⟨_, -, -, n, hn, hback⟩ := (linked_append _ _ _ _ _).1 h.linked
  rw [hn, hback.head]

theorem Consistent.nextOf (h : Consistent s (front ++ back)) :
    nextOf s back.head? = some back.tail.head? := by
  cases back with
  | nil => rfl
  | cons a back => exact h.next

/-- The list is empty where one of the two ends is NULL. -/
theorem Consistent.first_eq_none_iff (h : Consistent s l) : s.first = none ↔ l = [] := by
  rw [h.first, List.head?_eq_none_iff]

theorem Consistent.last_eq_none_iff (h : Consistent s l) : s.last = none ↔ l = [] := by
  rw [h.last, List.getLast?_eq_none_iff]

/-- `LGW_LIST_TRAVERSE` visits the list. -/
theorem traverse_linked {next : Links α} {p : Option α} {l : List α} (h : Linked next p l none)
    {rounds : Nat} (hrounds : l.length < rounds) : traverse next rounds p = some l := by
  -- one round for each element, and one for the end
  induction rounds generalizing p l with
  | zero => cases hrounds
  | succ rounds ih =>
    cases l with
    | nil =>
      obtain rfl : p = none := h
      rfl
    | cons a l =>
      obtain ⟨rfl, n, hn, hrest⟩ := h
      have hvisit := ih hrest (Nat.lt_of_succ_lt_succ hrounds)
      rw [traverse, hn, Option.bind_eq_bind, Option.bind_some, hvisit]
      rfl

end Reading

/-! ### Insertion -/

section Insertion

variable [DecidableEq α] {s : ListMem α} {l : List α} {a : α} {n : Option α}

theorem Consistent.insertHead (h : Consistent s l) (ha : a ∉ l) (hn : s.next a = some n) :
    ∃ s', insertHead s a = some s' ∧ Consistent s' (a :: l) := by
  rw [LinkedLists.insertHead, setLink_ok hn]
  refine ⟨_, rfl, List.nodup_cons.2 ⟨ha, h.nodup⟩, ⟨rfl, s.first, Function.update_self _ _ _, ?_⟩,
    ?_, ?_, ?_⟩
  · exact h.linked.frame fun b hb => Function.update_of_ne (ne_of_mem_of_not_mem hb ha) _ _
  · -- `last` is set only where it was NULL, that is in an empty list.
    by_cases hl : l = []
    · subst hl
      exact if_pos h.last
    · rw [if_neg fun hlast => hl (h.last_eq_none_iff.1 hlast), h.last,
        List.getLast?_cons_of_ne_nil hl]
  · rw [h.size, List.length_cons, Nat.cast_succ]
  · intro b hb m hm
    rw [List.mem_cons, not_or] at hb
    exact h.loose b hb.2 m ((Function.update_of_ne hb.1 _ _).symm.trans hm)

/-- The link of the new last element is NULL already, for it is of no list. -/
theorem Consistent.insertTail (h : Consistent s l) (ha : a ∉ l) (hn : s.next a = some n) :
    ∃ s', insertTail s a = some s' ∧ Consistent s' (l ++ [a]) := by
  obtain rfl : n = none := h.loose a ha n hn
  have hnodup : (l ++ [a]).Nodup :=
    List.nodup_append.2 ⟨h.nodup, List.nodup_singleton a, fun b hb c hc => by
      obtain rfl := List.mem_singleton.1 hc
      exact ne_of_mem_of_not_mem hb ha⟩
  have hsize : s.size + 1 = (l ++ [a]).length := by
    rw [h.size, List.length_append, List.length_singleton, Nat.cast_succ]
  -- the macro has a branch for the empty list, and reads `last` otherwise
  rcases List.eq_nil_or_concat l with rfl | ⟨front, b, rfl⟩
  · rw [LinkedLists.insertTail, if_pos (h.first_eq_none_iff.2 rfl)]
    refine ⟨_, rfl, hnodup, ⟨rfl, none, hn, rfl⟩, rfl, hsize, ?_⟩
    exact fun c _ => h.loose c List.not_mem_nil
  · rw [List.concat_eq_append] at h ha hnodup hsize ⊢
    have hb : s.next b = some none := h.next
    have hfirst : s.first ≠ none := fun hfirst =>
      List.concat_ne_nil b front (h.first_eq_none_iff.1 hfirst)
    have hlast : s.last = some b := by rw [h.last, List.getLast?_concat]
    rw [LinkedLists.insertTail, if_neg hfirst, hlast, Option.bind_eq_bind, Option.bind_some,
      setLink_ok hb]
    -- only the link of the old last element changes
    have hother : ∀ c, c ≠ b → Function.update s.next b (some (some a)) c = s.next c :=
      fun c hc => Function.update_of_ne hc _ _
    refine ⟨_, rfl, hnodup, (linked_append _ _ _ _ _).2 ⟨some a, ?_, rfl, none, ?_, rfl⟩, ?_, hsize,
      ?_⟩
    · refine h.linked.relink (fun c hc => hother c ?_) (Function.update_self _ _ _)
      exact (List.nodup_append.1 h.nodup).2.2 c hc b (List.mem_singleton_self b)
    · rw [← hn]
      refine hother a fun hab => ha ?_
      rw [hab]
      exact List.mem_append_right front (List.mem_singleton_self b)
    · rw [List.getLast?_concat]
    · intro c hc m hm
      have hcl : c ∉ front ++ [b] := fun hmem => hc (List.mem_append_left [a] hmem)
      have hcb : c ≠ b := by
        rintro rfl
        exact hcl (List.mem_append_right front (List.mem_singleton_self c))
      exact h.loose c hcl m ((hother c hcb).symm.trans hm)

end Insertion

/-! ### Removal -/

/-- The effect of taking `a` out between `front` and `back`, with the decrement of `size`. -/
structure Removed (s s' : ListMem α) (front : List α) (a : α) (back : List α) : Prop where
  self : s'.next a = some none
  relinked : ∀ b, front.getLast? = some b → s'.next b = some back.head?
  others : ∀ b, b ≠ a → front.getLast? ≠ some b → s'.next b = s.next b
  first : s'.first = if front = [] then back.head? else s.first
  last : s'.last = if back = [] then front.getLast? else s.last
  size : s'.size = s.size - 1

section Removal

variable {s s' : ListMem α} {l front back : List α} {a : α}

theorem Consistent.not_mem_parts (h : Consistent s (front ++ a :: back)) :
    a ∉ front ∧ a ∉ back ∧ ∀ b ∈ front, b ∉ back := by
  obtain ⟨-, hback, hdisjoint⟩ := List.nodup_append.1 h.nodup
  refine ⟨fun ha => hdisjoint a ha a List.mem_cons_self rfl, (List.nodup_cons.1 hback).1, ?_⟩
  exact fun b hb hmem => hdisjoint b hb b (List.mem_cons_of_mem a hmem) rfl

/-- The last element is the only one with nothing behind it. -/
theorem Consistent.last_eq_iff (h : Consistent s (front ++ a :: back)) :
    s.last = some a ↔ back = [] := by
  rw [h.last, List.getLast?_append_of_ne_nil _ (List.cons_ne_nil a back)]
  constructor
  · intro hlast
    by_contra hback
    rw [List.getLast?_cons_of_ne_nil hback] at hlast
    exact h.not_mem_parts.2.1 (List.mem_of_getLast? hlast)
  · rintro rfl
    rfl

theorem Consistent.removed_linked (h : Consistent s (front ++ a :: back))
    (hr : Removed s s' front a back) : Linked s'.next s'.first (front ++ back) none := by
  obtain ⟨hafront, haback, hdisjoint⟩ := h.not_mem_parts
  have hnext := h.next
  have hlinked := h.linked
  have hback : ∀ c ∈ back, front.getLast? ≠ some c → s'.next c = s.next c :=
    fun c hc hlast => hr.others c (ne_of_mem_of_not_mem hc haback) hlast
  rcases List.eq_nil_or_concat front with rfl | ⟨front, b, rfl⟩
  · -- `first` leads to what the removed element led to.
    obtain ⟨-, n, hn, hrest⟩ := hlinked
    obtain rfl : n = back.head? := Option.some.inj (hn.symm.trans hnext)
    rw [hr.first, if_pos rfl]
    exact hrest.frame fun c hc => hback c hc (by simp)
  · -- The element in front of it does.
    rw [List.concat_eq_append] at *
    have hlast : (front ++ [b]).getLast? = some b := List.getLast?_concat
    rw [hr.first, if_neg (List.concat_ne_nil b front)]
    rw [List.append_assoc] at hlinked ⊢
    refine hlinked.unlink hnext (fun c hc => ?_) (hr.relinked b hlast) fun c hc => ?_
    · have hca : c ≠ a := ne_of_mem_of_not_mem (List.mem_append_left [b] hc) hafront
      refine hr.others c hca fun hcb => ?_
      obtain rfl : b = c := Option.some.inj (hlast.symm.trans hcb)
      exact (List.nodup_append.1 (List.nodup_append.1 h.nodup).1).2.2 b hc b
        (List.mem_singleton_self b) rfl
    · exact hback c hc fun hcb => hdisjoint c (List.mem_of_getLast? hcb) hc

theorem Consistent.removed_last (h : Consistent s (front ++ a :: back))
    (hr : Removed s s' front a back) : s'.last = (front ++ back).getLast? := by
  rw [hr.last]
  by_cases hback : back = []
  · rw [if_pos hback, hback, List.append_nil]
  · rw [if_neg hback, h.last, List.getLast?_append_of_ne_nil _ (List.cons_ne_nil a back),
      List.getLast?_cons_of_ne_nil hback, List.getLast?_append_of_ne_nil _ hback]

/-- The removal of an element keeps the list consistent. -/
theorem Consistent.removed (h : Consistent s (front ++ a :: back))
    (hr : Removed s s' front a back) : Consistent s' (front ++ back) := by
  have hsub : (front ++ back).Sublist (front ++ a :: back) :=
    List.Sublist.append_left (List.sublist_cons_self a back) front
  refine ⟨h.nodup.sublist hsub, h.removed_linked hr, h.removed_last hr, ?_, ?_⟩
  · rw [hr.size, h.size]
    simp only [List.length_append, List.length_cons]
    omega
  · -- What is outside now is the removed element, whose link was cleared, or was outside before.
    intro c hc m hm
    by_cases hca : c = a
    · rw [hca, hr.self] at hm
      exact (Option.some.inj hm).symm
    · have hcl : c ∉ front ++ a :: back := by
        intro hmem
        rcases List.mem_append.1 hmem with hmem | hmem
        · exact hc (List.mem_append_left back hmem)
        · exact hc (List.mem_append_right front ((List.mem_cons.1 hmem).resolve_left hca))
      refine h.loose c hcl m ((hr.others c hca fun hlast => ?_).symm.trans hm)
      exact hc (List.mem_append_left back (List.mem_of_getLast? hlast))

variable [DecidableEq α]

/-- What `LGW_LIST_REMOVE_HEAD` and `LGW_LIST_REMOVE` do with the first element. -/
theorem Consistent.removed_first (h : Consistent s ([] ++ a :: l)) :
    Removed s ⟨l.head?, if s.last = some a then none else s.last, s.size - 1,
      Function.update s.next a (some none)⟩ [] a l where
  self := Function.update_self _ _ _
  relinked := by
    intro b hb
    cases hb
  others := fun b hb _ => Function.update_of_ne hb _ _
  first := rfl
  last := by
    simp only [h.last_eq_iff]
    rfl
  size := rfl

theorem Consistent.removeHead (h : Consistent s ([] ++ a :: l)) :
    ∃ s', removeHead s = some (some a, s') ∧ Consistent { s' with size := s'.size - 1 } l := by
  have hfirst : s.first = some a := h.first
  rw [LinkedLists.removeHead, hfirst]
  dsimp only
  rw [h.next, Option.bind_eq_bind, Option.bind_some, setLink_ok h.next]
  exact ⟨_, rfl, h.removed h.removed_first⟩

theorem Consistent.removeHead_nil (h : Consistent s []) :
    LinkedLists.removeHead s = some (none, s) := by
  rw [LinkedLists.removeHead, h.first]
  rfl

/-! ### `LGW_LIST_REMOVE` -/

/-- The search stops in front of the element. -/
theorem searchPrev_found {next : Links α} {elm b : α} (front : List α) {p : Option α}
    (h : Linked next p (front ++ b :: elm :: back) none) (hfresh : elm ∉ front ++ [b])
    {rounds : Nat} (hrounds : front.length < rounds) :
    searchPrev next elm rounds p = some (some b) := by
  induction front generalizing p rounds with
  | nil =>
    -- the first element is the one in front of `elm`
    obtain ⟨rounds, rfl⟩ := Nat.exists_eq_succ_of_ne_zero (Nat.ne_of_gt hrounds)
    obtain ⟨rfl, n, hn, rfl, -⟩ := h
    rw [searchPrev, hn, Option.bind_eq_bind, Option.bind_some, if_pos rfl]
  | cons c front ih =>
    obtain ⟨rounds, rfl⟩ := Nat.exists_eq_succ_of_ne_zero (Nat.ne_zero_of_lt hrounds)
    obtain ⟨rfl, n, hn, hrest⟩ := h
    rw [List.cons_append, List.mem_cons, not_or] at hfresh
    -- the next element is one of the rest in front of `elm`
    have hne : n ≠ some elm := by
      rintro rfl
      cases front with
      | nil => exact hfresh.2 (List.mem_singleton.2 (Option.some.inj hrest.1))
      | cons d front =>
        exact hfresh.2 (List.mem_cons.2 (Or.inl (Option.some.inj hrest.1)))
    rw [searchPrev, hn, Option.bind_eq_bind, Option.bind_some, if_neg hne]
    exact ih hrest hfresh.2 (Nat.lt_of_succ_lt_succ hrounds)

/-- The search comes to the end where the element is not in the list. -/
theorem searchPrev_missing {next : Links α} {elm : α} {p : Option α} (h : Linked next p l none)
    (hfresh : elm ∉ l) {rounds : Nat} (hrounds : l.length < rounds) :
    searchPrev next elm rounds p = some none := by
  induction l generalizing p rounds with
  | nil =>
    obtain ⟨rounds, rfl⟩ := Nat.exists_eq_succ_of_ne_zero (Nat.ne_of_gt hrounds)
    obtain rfl : p = none := h
    rfl
  | cons c l ih =>
    obtain ⟨rounds, rfl⟩ := Nat.exists_eq_succ_of_ne_zero (Nat.ne_zero_of_lt hrounds)
    obtain ⟨rfl, n, hn, hrest⟩ := h
    rw [List.mem_cons, not_or] at hfresh
    have hne : n ≠ some elm := by
      rintro rfl
      exact hfresh.2 (List.mem_of_head? hrest.head.symm)
    rw [searchPrev, hn, Option.bind_eq_bind, Option.bind_some, if_neg hne]
    exact ih hrest hfresh.2 (Nat.lt_of_succ_lt_succ hrounds)

/-- `LGW_LIST_REMOVE` of an element with another one in front of it. -/
theorem Consistent.remove_behind {b : α} (h : Consistent s (front ++ [b] ++ a :: back)) :
    ∃ s', (∀ rounds > front.length, LinkedLists.remove rounds s a = some (some a, s')) ∧
      Consistent s' (front ++ [b] ++ back) := by
  have hsplit : Consistent s (front ++ b :: a :: back) := by
    rw [List.append_assoc] at h
    exact h
  have hb : s.next b = some (some a) := hsplit.next
  have hafront := h.not_mem_parts.1
  have hab : a ≠ b := (ne_of_mem_of_not_mem (List.mem_append_right front List.mem_cons_self)
    hafront).symm
  have hfirst : s.first ≠ some a := by
    intro hfirst
    refine hafront (List.mem_of_head? ?_)
    rw [← hfirst, h.first]
    exact (List.head?_append_of_ne_nil _ (List.concat_ne_nil b front)).symm
  have hnext : Function.update s.next b (some back.head?) a = some back.head? :=
    (Function.update_of_ne hab _ _).trans h.next
  -- the link of `b` gets that of `a`, and then the link of `a` is cleared
  refine ⟨⟨s.first, if s.last = some a then some b else s.last, s.size - 1, Function.update
    (Function.update s.next b (some back.head?)) a (some none)⟩, fun rounds hrounds => ?_,
    h.removed ⟨Function.update_self _ _ _, ?_, ?_, ?_, ?_, rfl⟩⟩
  · rw [LinkedLists.remove, if_neg hfirst, searchPrev_found front hsplit.linked hafront hrounds,
      Option.bind_eq_bind, Option.bind_some]
    dsimp only
    rw [h.next, Option.bind_some, setLink_ok hb, Option.bind_eq_bind, Option.bind_some,
      setLink_ok hnext]
    rfl
  · intro c hc
    obtain rfl : b = c := Option.some.inj (List.getLast?_concat.symm.trans hc)
    exact (Function.update_of_ne hab.symm _ _).trans (Function.update_self _ _ _)
  · intro c hca hc
    have hcb : c ≠ b := by
      rintro rfl
      exact hc List.getLast?_concat
    exact (Function.update_of_ne hca _ _).trans (Function.update_of_ne hcb _ _)
  · rw [if_neg (List.concat_ne_nil b front)]
  · simp only [h.last_eq_iff, List.getLast?_concat]

/-- `LGW_LIST_REMOVE` takes out the element, wherever it is. -/
theorem Consistent.remove (h : Consistent s (front ++ a :: back)) :
    ∃ s', (∀ rounds > front.length, LinkedLists.remove rounds s a = some (some a, s')) ∧
      Consistent s' (front ++ back) := by
  rcases List.eq_nil_or_concat front with rfl | ⟨front, b, rfl⟩
  · have hfirst : s.first = some a := h.first
    refine ⟨_, fun rounds _ => ?_, h.removed h.removed_first⟩
    rw [LinkedLists.remove, if_pos hfirst, h.next, Option.bind_eq_bind, Option.bind_some,
      setLink_ok h.next]
    rfl
  · rw [List.concat_eq_append] at *
    obtain ⟨s', hs', hconsistent⟩ := h.remove_behind
    refine ⟨s', fun rounds hrounds => hs' rounds ?_, hconsistent⟩
    rw [List.length_append] at hrounds
    exact Nat.lt_of_le_of_lt (Nat.le_add_right _ _) hrounds

theorem Consistent.remove_missing (h : Consistent s l) (ha : a ∉ l) {rounds : Nat}
    (hrounds : l.length < rounds) : LinkedLists.remove rounds s a = some (none, s) := by
  have hfirst : s.first ≠ some a := fun hfirst =>
    ha (List.mem_of_head? (h.first.symm.trans hfirst))
  rw [LinkedLists.remove, if_neg hfirst, searchPrev_missing h.linked ha hrounds]
  rfl

/-- An element outside of the list can be freed. -/
theorem Consistent.free (h : Consistent s l) (ha : a ∉ l) :
    Consistent (LinkedLists.free s a) l := by
  refine ⟨h.nodup, h.linked.frame fun b hb => ?_, h.last, h.size, fun b hb n hn => ?_⟩
  · exact Function.update_of_ne (ne_of_mem_of_not_mem hb ha) _ _
  · by_cases hba : b = a
    · have hfreed : Function.update s.next a none b = some n := hn
      rw [hba, Function.update_self] at hfreed
      cases hfreed
    · exact h.loose b hb n ((Function.update_of_ne hba _ _).symm.trans hn)

end Removal

/-! ### Safe traversals -/

section Traversals

variable {s : ListMem α} {front back : List α} {a : α}

/-- The cursor where `front` is behind it and `back` is left. -/
def cursorAt (front back : List α) : Cursor α :=
  ⟨back.head?, front.getLast?, back.head?, back.tail.head?⟩

theorem Consistent.safeBegin (h : Consistent s ([] ++ back)) :
    LinkedLists.safeBegin s = some (cursorAt [] back) := by
  have hfirst : s.first = back.head? := h.first
  rw [LinkedLists.safeBegin, hfirst, h.nextOf]
  rfl

theorem Consistent.safeNext (h : Consistent s (front ++ back)) (v p : Option α) :
    LinkedLists.safeNext s ⟨v, p, front.getLast?, back.head?⟩ = some (cursorAt front back) := by
  rw [LinkedLists.safeNext, h.nextOf]
  rfl

variable [DecidableEq α]

/-- `LGW_LIST_REMOVE_CURRENT` takes out the current element and goes back by one. -/
theorem Consistent.removeCurrent (h : Consistent s (front ++ a :: back)) :
    ∃ s', LinkedLists.removeCurrent s (cursorAt front (a :: back)) =
        some (s', ⟨some a, front.getLast?, front.getLast?, back.head?⟩) ∧
      Consistent { s' with size := s'.size - 1 } (front ++ back) := by
  have hlast : (if back.head? = none then front.getLast? else s.last) =
      if back = [] then front.getLast? else s.last := by
    simp only [List.head?_eq_none_iff]
  have hfirst : (if front.getLast? = none then back.head? else s.first) =
      if front = [] then back.head? else s.first := by
    simp only [List.getLast?_eq_none_iff]
  rcases List.eq_nil_or_concat front with rfl | ⟨front, b, rfl⟩
  · -- There is no `__list_prev`.
    refine ⟨⟨_, _, s.size, Function.update s.next a (some none)⟩, ?_, h.removed ⟨?_, ?_, ?_, hfirst,
      hlast, rfl⟩⟩
    · rw [LinkedLists.removeCurrent, cursorAt, List.head?_cons, Option.bind_eq_bind,
        Option.bind_some, setLink_ok h.next]
      rfl
    · exact Function.update_self _ _ _
    · intro b hb
      cases hb
    · exact fun b hb _ => Function.update_of_ne hb _ _
  · rw [List.concat_eq_append] at *
    have hprev : (front ++ [b]).getLast? = some b := List.getLast?_concat
    have hsplit : Consistent s (front ++ b :: a :: back) := by
      rw [List.append_assoc] at h
      exact h
    have hba : b ≠ a := ne_of_mem_of_not_mem (List.mem_append_right front List.mem_cons_self)
      h.not_mem_parts.1
    -- the link of `a` is cleared first, and that of `__list_prev` is `__list_next` afterwards
    have hb : Function.update s.next a (some none) b = some (some a) :=
      (Function.update_of_ne hba _ _).trans hsplit.next
    refine ⟨⟨_, _, s.size, Function.update (Function.update s.next a (some none)) b
      (some back.head?)⟩, ?_, h.removed ⟨?_, ?_, ?_, hfirst, hlast, rfl⟩⟩
    · rw [LinkedLists.removeCurrent, cursorAt, List.head?_cons, Option.bind_eq_bind,
        Option.bind_some, setLink_ok h.next, Option.bind_eq_bind, Option.bind_some, hprev]
      dsimp only
      rw [setLink_ok hb]
      rfl
    · exact (Function.update_of_ne hba.symm _ _).trans (Function.update_self _ _ _)
    · intro c hc
      obtain rfl : b = c := Option.some.inj (hprev.symm.trans hc)
      exact Function.update_self _ _ _
    · intro c hca hc
      have hcb : c ≠ b := fun hcb => hc (hprev.trans (congrArg some hcb.symm))
      exact (Function.update_of_ne hcb _ _).trans (Function.update_of_ne hca _ _)

/-- What a body leaves of the element it runs for. -/
def kept (d : Decision) (a : α) : List α := if d.removes then [] else [a]

theorem Consistent.safeBody (h : Consistent s (front ++ a :: back)) (d : Decision) :
    ∃ s', LinkedLists.safeBody d a s (cursorAt front (a :: back)) =
        some (s', ⟨some a, front.getLast?, (front ++ kept d a).getLast?, back.head?⟩) ∧
      Consistent s' (front ++ kept d a ++ back) := by
  by_cases hremoves : d.removes
  · obtain ⟨s', hs', hconsistent⟩ := h.removeCurrent
    have hnot : a ∉ front ++ back := by
      rw [List.mem_append, not_or]
      exact ⟨h.not_mem_parts.1, h.not_mem_parts.2.1⟩
    rw [LinkedLists.safeBody, if_pos hremoves, hs', kept, if_pos hremoves, List.append_nil]
    by_cases hfrees : d.frees
    · refine ⟨_, rfl, ?_⟩
      rw [if_pos hfrees]
      exact hconsistent.free hnot
    · refine ⟨_, rfl, ?_⟩
      rw [if_neg hfrees]
      exact hconsistent
  · rw [LinkedLists.safeBody, if_neg hremoves, kept, if_neg hremoves, List.append_assoc,
      List.getLast?_concat]
    exact ⟨s, rfl, h⟩

/-- What a safe traversal leaves of a list. -/
def swept (decision : α → Decision) : List α → List α
  | [] => []
  | a :: l =>
      if (decision a).breaks then kept (decision a) a ++ l
      else kept (decision a) a ++ swept decision l

theorem safeLoop_succ (decision : α → Decision) (rounds : Nat) (s : ListMem α) {c : Cursor α}
    (hvar : c.var = some a) :
    safeLoop decision (rounds + 1) s c = (safeBody (decision a) a s c).bind fun r =>
      if (decision a).breaks then some r.1
      else (safeNext r.1 r.2).bind (safeLoop decision rounds r.1) := by
  rw [safeLoop, hvar]
  rfl

/-- A safe traversal ends, in a consistent list of the elements it leaves. -/
theorem Consistent.safeLoop (decision : α → Decision) (h : Consistent s (front ++ back)) :
    ∃ s', (∀ rounds > back.length,
        LinkedLists.safeLoop decision rounds s (cursorAt front back) = some s') ∧
      Consistent s' (front ++ swept decision back) := by
  -- what is in front of the cursor has been decided, so that the list is split there
  induction back generalizing s front with
  | nil =>
    refine ⟨s, fun rounds hrounds => ?_, h⟩
    obtain ⟨rounds, rfl⟩ := Nat.exists_eq_succ_of_ne_zero (Nat.ne_of_gt hrounds)
    rfl
  | cons a back ih =>
    obtain ⟨s', hs', hconsistent⟩ := h.safeBody (decision a)
    -- the state behind the body goes on with the rest of the list, unless the body breaks
    obtain ⟨s'', hs'', hend⟩ : ∃ s'', (∀ rounds > back.length,
        (if (decision a).breaks then some s'
          else LinkedLists.safeLoop decision rounds s'
            (cursorAt (front ++ kept (decision a) a) back)) = some s'') ∧
        Consistent s'' (front ++ swept decision (a :: back)) := by
      rw [swept]
      by_cases hbreaks : (decision a).breaks
      · simp only [if_pos hbreaks, ← List.append_assoc]
        exact ⟨s', fun _ _ => rfl, hconsistent⟩
      · simp only [if_neg hbreaks, ← List.append_assoc]
        exact ih hconsistent
    refine ⟨s'', fun rounds hrounds => ?_, hend⟩
    obtain ⟨rounds, rfl⟩ := Nat.exists_eq_succ_of_ne_zero (Nat.ne_zero_of_lt hrounds)
    rw [safeLoop_succ decision rounds s rfl, hs', Option.bind_some, hconsistent.safeNext]
    exact hs'' rounds (Nat.lt_of_succ_lt_succ hrounds)

end Traversals

/-! ## Runs -/

section Runs

variable [DecidableEq α] {s : ListMem α} {l : List α}

/-- What an event does to the list. -/
def listSpec (l : List α) : ListEvent α → List α
  | .alloc _ => l
  | .free _ => l
  | .insertHead a => a :: l
  | .insertTail a => l ++ [a]
  | .removeHead => l.tail
  | .remove a => l.erase a
  | .traverse decision => swept decision l

/-- The use of the events: only memory of no element is allocated, and an element of the list is
neither freed nor inserted. -/
def Legal (s : ListMem α) (l : List α) : ListEvent α → Prop
  | .alloc a => s.next a = none
  | .free a => a ∉ l
  | .insertHead a => a ∉ l ∧ (s.next a).isSome
  | .insertTail a => a ∉ l ∧ (s.next a).isSome
  | _ => True

/-- The event succeeds, with any number of rounds from some number on. -/
def ListStep (s : ListMem α) (e : ListEvent α) (s' : ListMem α) : Prop :=
  ∃ n, ∀ rounds ≥ n, listEvent rounds s e = some s'

theorem ListStep.unique {e : ListEvent α} {s₁ s₂ : ListMem α} (h₁ : ListStep s e s₁)
    (h₂ : ListStep s e s₂) : s₁ = s₂ := by
  obtain ⟨n₁, h₁⟩ := h₁
  obtain ⟨n₂, h₂⟩ := h₂
  have heq := (h₁ (max n₁ n₂) (le_max_left _ _)).symm.trans (h₂ (max n₁ n₂) (le_max_right _ _))
  exact Option.some.inj heq

theorem Consistent.alloc {a : α} (h : Consistent s l) (ha : s.next a = none) :
    Consistent { s with next := Function.update s.next a (some none) } l := by
  have hmem : a ∉ l := fun hmem => by
    obtain ⟨n, hn⟩ := h.linked.mem hmem
    rw [ha] at hn
    cases hn
  refine ⟨h.nodup, h.linked.frame fun b hb => ?_, h.last, h.size, fun b hb n hn => ?_⟩
  · exact Function.update_of_ne (ne_of_mem_of_not_mem hb hmem) _ _
  · by_cases hba : b = a
    · have hnew : Function.update s.next a (some none) b = some n := hn
      rw [hba, Function.update_self] at hnew
      exact (Option.some.inj hnew).symm
    · exact h.loose b hb n ((Function.update_of_ne hba _ _).symm.trans hn)

/-- A legal event succeeds, and the list it leaves is consistent. -/
theorem Consistent.event {e : ListEvent α} (h : Consistent s l) (hlegal : Legal s l e) :
    ∃ s', ListStep s e s' ∧ Consistent s' (listSpec l e) := by
  cases e with
  | alloc a => exact ⟨_, ⟨0, fun _ _ => rfl⟩, h.alloc hlegal⟩
  | free a => exact ⟨_, ⟨0, fun _ _ => rfl⟩, h.free hlegal⟩
  | insertHead a =>
    obtain ⟨n, hn⟩ := Option.isSome_iff_exists.1 hlegal.2
    obtain ⟨s', hs', hconsistent⟩ := h.insertHead hlegal.1 hn
    exact ⟨s', ⟨0, fun _ _ => hs'⟩, hconsistent⟩
  | insertTail a =>
    obtain ⟨n, hn⟩ := Option.isSome_iff_exists.1 hlegal.2
    obtain ⟨s', hs', hconsistent⟩ := h.insertTail hlegal.1 hn
    exact ⟨s', ⟨0, fun _ _ => hs'⟩, hconsistent⟩
  | removeHead =>
    cases l with
    | nil =>
      -- `size` is decremented only behind a test of the element
      refine ⟨s, ⟨0, fun _ _ => ?_⟩, h⟩
      rw [listEvent, h.removeHead_nil]
      rfl
    | cons a l =>
      obtain ⟨s', hs', hconsistent⟩ := Consistent.removeHead h
      refine ⟨_, ⟨0, fun _ _ => ?_⟩, hconsistent⟩
      rw [listEvent, hs']
      rfl
  | remove a =>
    by_cases ha : a ∈ l
    · obtain ⟨front, back, rfl⟩ := List.append_of_mem ha
      obtain ⟨s', hs', hconsistent⟩ := h.remove
      refine ⟨s', ⟨front.length + 1, fun rounds hrounds => ?_⟩, ?_⟩
      · rw [listEvent, hs' rounds hrounds]
        rfl
      · rw [listSpec, List.erase_append_right _ h.not_mem_parts.1, List.erase_cons_head]
        exact hconsistent
    · refine ⟨s, ⟨l.length + 1, fun rounds hrounds => ?_⟩, ?_⟩
      · rw [listEvent, h.remove_missing ha hrounds]
        rfl
      · rw [listSpec, List.erase_of_not_mem ha]
        exact h
  | traverse decision =>
    have hall : Consistent s ([] ++ l) := h
    obtain ⟨s', hs', hconsistent⟩ := hall.safeLoop decision
    refine ⟨s', ⟨l.length + 1, fun rounds hrounds => ?_⟩, hconsistent⟩
    rw [listEvent, hall.safeBegin]
    exact hs' rounds hrounds

/-- The list and what it stands for after an event. -/
def listRun (p : ListMem α × List α) (e : ListEvent α) (p' : ListMem α × List α) : Prop :=
  Legal p.1 p.2 e ∧ ListStep p.1 e p'.1 ∧ p'.2 = listSpec p.2 e

/-- In every run of legal events the memory and the list agree. -/
theorem reachable_consistent {p : ListMem α × List α}
    (h : Reachable (fun p => p = (ListMem.init, [])) listRun p) : Consistent p.1 p.2 := by
  refine h.invariant (P := fun p => Consistent p.1 p.2) (fun p hp => ?_) fun p e p' hp hstep => ?_
  · subst hp
    exact consistent_init
  · obtain ⟨hlegal, hevent, hlist⟩ := hstep
    obtain ⟨s', hs', hconsistent⟩ := hp.event hlegal
    rw [hlist, hevent.unique hs']
    exact hconsistent

/-- The lists of `linkedlists.h` in any run: following `next` from `first` visits exactly the
elements that were inserted and not removed, in order, to `last`, `size` counts them, and no macro
fails. -/
theorem lists_consistent {p : ListMem α × List α}
    (h : Reachable (fun p => p = (ListMem.init, [])) listRun p) :
    (∀ rounds > p.2.length, traverse p.1.next rounds p.1.first = some p.2) ∧
      p.1.last = p.2.getLast? ∧ (p.1.last = none ↔ p.1.first = none) ∧
      p.1.size = p.2.length ∧ ∀ e, Legal p.1 p.2 e → ∃ s', ListStep p.1 e s' := by
  have hc := reachable_consistent h
  refine ⟨fun rounds hrounds => traverse_linked hc.linked hrounds, hc.last, ?_, hc.size, ?_⟩
  · rw [hc.last_eq_none_iff, hc.first_eq_none_iff]
  · intro e hlegal
    obtain ⟨s', hs', -⟩ := hc.event hlegal
    exact ⟨s', hs'⟩

/-- One event behind a run, where eight rounds are enough for its loop. -/
theorem reachable_next {s s' : ListMem α} {l : List α}
    (h : Reachable (fun p => p = (ListMem.init, [])) listRun (s, l)) (e : ListEvent α)
    (hlegal : Legal s l e) (hevent : ∀ rounds, listEvent (rounds + 8) s e = some s') :
    Reachable (fun p => p = (ListMem.init, [])) listRun (s', listSpec l e) := by
  refine h.next (e := e) ⟨hlegal, ⟨8, fun rounds hrounds => ?_⟩, rfl⟩
  obtain ⟨k, rfl⟩ := Nat.exists_eq_add_of_le' hrounds
  exact hevent k

/-- Three packets queued, the one in the middle removed, and the first one by a traversal. -/
theorem lists_consistent_queue : ∃ s : ListMem Nat,
    (∀ rounds > 1, traverse s.next rounds s.first = some [3]) ∧
      s.last = some 3 ∧ (s.last = none ↔ s.first = none) ∧ s.size = 1 ∧
      ∀ e, Legal s [3] e → ∃ s', ListStep s e s' := by
  have h0 : Reachable (fun p => p = ((ListMem.init : ListMem Nat), [])) listRun (_, _) :=
    Reachable.start rfl
  have h1 := reachable_next h0 (.alloc 1) rfl fun _ => rfl
  have h2 := reachable_next h1 (.insertTail 1) ⟨List.not_mem_nil, rfl⟩ fun _ => rfl
  have h3 := reachable_next h2 (.alloc 2) rfl fun _ => rfl
  have h4 := reachable_next h3 (.insertTail 2) ⟨by decide, rfl⟩ fun _ => rfl
  have h5 := reachable_next h4 (.alloc 3) rfl fun _ => rfl
  have h6 := reachable_next h5 (.insertTail 3) ⟨by decide, rfl⟩ fun _ => rfl
  have h7 := reachable_next h6 (.remove 2) trivial fun _ => rfl
  have h8 := reachable_next h7 (.traverse fun a => ⟨a = 1, true, false⟩) trivial fun _ => rfl
  exact ⟨_, lists_consistent h8⟩

end Runs

end DraginoFwd.LinkedLists

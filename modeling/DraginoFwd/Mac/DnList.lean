import DraginoFwd.Lib.Transition
import Mathlib.Data.List.Nodup
import Mathlib.Data.List.Perm.Basic

/-!
# The list of pending custom downlinks

`pkt_prepare_downlink` puts a downlink for a device into `dn_list`, and `pkt_deal_up` takes it out
when the device has sent something. The lock of the list is held inside the search, inside the
removal and inside the section that evicts, replaces and inserts, but not from the search to the
removal: there `pkt_deal_up` works with a bare pointer.

A pointer is an address together with the number of the allocation that it was taken to, so that a
stale pointer is told from a new object at the same address. As long as the inserting section takes
away no element that `pkt_deal_up` holds, everything that it holds is linked and nothing is freed
twice (`reachable_heldLinked`). A second file for the same device frees the held element
(`replaced_while_held`).
-/

set_option autoImplicit false

namespace DraginoFwd.Mac

open DraginoFwd.Lib.Transition

/-- A `struct _dn_pkt` with its address and the number of its allocation. Of its contents the list
operations read `devaddr` only. -/
structure DnElem where
  address : Nat
  serial : Nat
  devaddr : List Char
  deriving DecidableEq

/-- Where `pkt_deal_up` is: between two uplinks, behind a search that has found an element, or
behind a `custom_rx2dn` of it that the transmit queue has accepted. -/
inductive DealUp where
  | idle
  | found (dnelem : DnElem)
  | queued (dnelem : DnElem)
  deriving DecidableEq

/-- `dn_list` with its `size`, the `entry` of `pkt_prepare_downlink` that is not linked yet, and
`pkt_deal_up`. `freed` records the allocations in the order of their `lgw_free`, and `serial` counts
the calls of `lgw_malloc`. -/
structure DnState where
  linked : List DnElem
  size : Int
  entry : Option DnElem
  dealUp : DealUp
  freed : List Nat
  serial : Nat
  deriving DecidableEq

/-- `lgw_free` -/
def DnState.free (s : DnState) (element : DnElem) : DnState :=
  { s with freed := element.serial :: s.freed }

/-- `strcasecmp` gives zero. -/
def sameIgnoringCase (a b : List Char) : Bool := a.map Char.toLower == b.map Char.toLower

/-- `search_dn_list` -/
def searchDnList (linked : List DnElem) (addr : List Char) : Option DnElem :=
  linked.find? fun entry => sameIgnoringCase entry.devaddr addr

/-- `LGW_LIST_REMOVE`: unlink the element at the address, if there is one. -/
def DnState.remove (s : DnState) (elm : DnElem) : DnState :=
  if s.linked.any fun e => e.address == elm.address then
    { s with linked := s.linked.eraseP fun e => e.address == elm.address, size := s.size - 1 }
  else s

/-- A list of more than 16 elements loses its head. -/
def DnState.evict (s : DnState) : DnState :=
  if 16 < s.size then
    match s.linked with
    | element :: rest => { s with linked := rest, size := s.size - 1 }.free element
    | [] => s
  else s

/-- The traversal that drops the elements of the device. -/
def DnState.replace (s : DnState) (devaddr : List Char) : DnState :=
  let same := s.linked.filter fun element => element.devaddr == devaddr
  { s with
    linked := s.linked.filter fun element => !(element.devaddr == devaddr)
    size := s.size - same.length
    freed := (same.map DnElem.serial).reverse ++ s.freed }

/-- `LGW_LIST_INSERT_TAIL` -/
def DnState.insertTail (s : DnState) (entry : DnElem) : DnState :=
  { s with linked := s.linked ++ [entry], size := s.size + 1, entry := none }

/-- The critical sections and the unlocked steps of the two threads. -/
inductive DnEvent where
  /-- `pkt_deal_up` searches for the device of an uplink. -/
  | search (addr : List Char)
  /-- `custom_rx2dn` reads a field of the element. -/
  | read
  /-- `custom_rx2dn` reads the last one and returns the code of `jit_enqueue`. -/
  | rx2dn (jitOk : Bool)
  /-- `pkt_deal_up` removes and frees the element. -/
  | remove
  /-- `pkt_prepare_downlink` allocates an entry at an address and fills it from a file. -/
  | alloc (address : Nat) (devaddr : List Char)
  /-- `pkt_prepare_downlink` frees its entry after a format error or an immediate downlink. -/
  | discard
  /-- `pkt_prepare_downlink` links its entry. -/
  | insert
  deriving DecidableEq

/-- One step, where it can happen. -/
def dnStep (s : DnState) : DnEvent → Option DnState
  | .search addr =>
      match s.dealUp with
      | .idle =>
          match searchDnList s.linked addr with
          | some dnelem => some { s with dealUp := .found dnelem }
          | none => some s
      | _ => none
  | .read =>
      match s.dealUp with
      | .found _ => some s
      | _ => none
  | .rx2dn jitOk =>
      match s.dealUp with
      | .found dnelem => some { s with dealUp := if jitOk then .queued dnelem else .idle }
      | _ => none
  | .remove =>
      match s.dealUp with
      | .queued dnelem => some { (s.remove dnelem).free dnelem with dealUp := .idle }
      | _ => none
  | .alloc address devaddr =>
      match s.entry with
      | some _ => none
      | none =>
          if address ∈ s.linked.map DnElem.address then none
          else
            let entry := ⟨address, s.serial, devaddr⟩
            some { s with entry := some entry, serial := s.serial + 1 }
  | .discard => s.entry.map fun entry => { s.free entry with entry := none }
  | .insert => s.entry.map fun entry => (s.evict.replace entry.devaddr).insertTail entry

/-- An empty list and nothing under way. -/
def dnStart : DnState := ⟨[], 0, none, .idle, [], 0⟩

/-! ## The condition and the property -/

/-- The element that `pkt_deal_up` is going to read, remove or free. -/
def DealUp.held : DealUp → Option DnElem
  | .idle => none
  | .found dnelem => some dnelem
  | .queued dnelem => some dnelem

/-- What `pkt_deal_up` holds is linked, and no allocation is freed twice. -/
structure DnState.HeldLinked (s : DnState) : Prop where
  linked : ∀ dnelem, s.dealUp.held = some dnelem → dnelem ∈ s.linked
  freedOnce : s.freed.Nodup

/-- The inserting section takes away no element that `pkt_deal_up` holds: neither as the head of a
list of more than 16 elements nor as an element of the same device. -/
def SparesHeld (s : DnState) (e : DnEvent) : Prop :=
  e = .insert → ∀ dnelem ∈ s.dealUp.held,
    ¬ (16 < s.size ∧ s.linked.head? = some dnelem) ∧
      ∀ entry ∈ s.entry, dnelem.devaddr ≠ entry.devaddr

instance (s : DnState) (e : DnEvent) : Decidable (SparesHeld s e) :=
  inferInstanceAs (Decidable (_ → _))

/-! ## Every allocation is in one place -/

/-- The elements that `lgw_malloc` has given and `lgw_free` has not taken back. -/
def DnState.live (s : DnState) : List DnElem := s.linked ++ s.entry.toList

/-- The allocations that live or have been freed. -/
def DnState.allocations (s : DnState) : List Nat := s.live.map DnElem.serial ++ s.freed

/-- What a run keeps: every allocation so far is linked, the entry, or freed, and only one of these,
and only once; live elements have different addresses; and what `pkt_deal_up` holds is linked. -/
structure DnInv (s : DnState) : Prop where
  held : ∀ dnelem, s.dealUp.held = some dnelem → dnelem ∈ s.linked
  allocations : s.allocations.Nodup
  allocated : ∀ n ∈ s.allocations, n < s.serial
  addresses : (s.live.map DnElem.address).Nodup

theorem dnInv_dnStart : DnInv dnStart where
  held := by simp [dnStart, DealUp.held]
  allocations := by simp [dnStart, DnState.allocations, DnState.live]
  allocated := by simp [dnStart, DnState.allocations, DnState.live]
  addresses := by simp [dnStart, DnState.live]

theorem DnInv.heldLinked {s : DnState} (h : DnInv s) : s.HeldLinked :=
  ⟨h.held, (List.nodup_append.1 h.allocations).2.1⟩

/-- A step that only moves allocations from one place to another keeps the invariant. -/
theorem DnInv.of_perm {s s' : DnState} (h : DnInv s)
    (hperm : s'.allocations.Perm s.allocations) (hserial : s'.serial = s.serial)
    (haddr : (s'.live.map DnElem.address).Nodup)
    (hheld : ∀ dnelem, s'.dealUp.held = some dnelem → dnelem ∈ s'.linked) : DnInv s' where
  held := hheld
  allocations := hperm.nodup_iff.2 h.allocations
  allocated := by
    intro n hn
    rw [hserial]
    exact h.allocated n (hperm.mem_iff.1 hn)
  addresses := haddr

theorem searchDnList_mem {linked : List DnElem} {addr : List Char} {dnelem : DnElem}
    (h : searchDnList linked addr = some dnelem) : dnelem ∈ linked :=
  List.mem_of_find?_eq_some h

/-- Live elements with one address are the same element. -/
theorem DnInv.eq_of_address {s : DnState} (h : DnInv s) {a b : DnElem} (ha : a ∈ s.linked)
    (hb : b ∈ s.linked) (haddr : a.address = b.address) : a = b := by
  apply List.inj_on_of_nodup_map h.addresses
  · exact List.mem_append_left _ ha
  · exact List.mem_append_left _ hb
  · exact haddr

/-- The removal of a linked element unlinks that element and no other one. -/
theorem DnInv.remove_spec {s : DnState} (h : DnInv s) {dnelem : DnElem} (hmem : dnelem ∈ s.linked) :
    ∃ rest, s.remove dnelem = { s with linked := rest, size := s.size - 1 } ∧
      s.linked.Perm (dnelem :: rest) ∧ rest.Sublist s.linked := by
  have hany : s.linked.any (fun e => e.address == dnelem.address) = true :=
    List.any_eq_true.2 ⟨dnelem, hmem, by simp⟩
  rw [DnState.remove, if_pos hany]
  refine ⟨_, rfl, ?_, List.eraseP_sublist⟩
  obtain ⟨a, l₁, l₂, -, ha, heq, herase⟩ := List.exists_of_eraseP
    (p := fun e : DnElem => e.address == dnelem.address) hmem (by simp)
  have hself : a = dnelem := by
    apply h.eq_of_address _ hmem (by simpa using ha)
    simp [heq]
  rw [herase, heq, hself]
  exact List.perm_middle

/-! ## The inserting section -/

/-- The eviction moves the head from the list to the freed ones, or changes nothing. -/
theorem evict_cases (s : DnState) :
    (s.evict = s ∧ ¬ (16 < s.size ∧ s.linked ≠ [])) ∨
    (16 < s.size ∧ ∃ element rest, s.linked = element :: rest ∧
      s.evict = { s with
        linked := rest, size := s.size - 1, freed := element.serial :: s.freed }) := by
  unfold DnState.evict
  split
  · next hsize =>
    cases hlinked : s.linked with
    | nil => exact Or.inl ⟨rfl, by simp⟩
    | cons element rest => exact Or.inr ⟨hsize, element, rest, rfl, rfl⟩
  · next hsize => exact Or.inl ⟨rfl, fun hboth => hsize hboth.1⟩

theorem evict_entry (s : DnState) : s.evict.entry = s.entry := by
  rcases evict_cases s with ⟨heq, -⟩ | ⟨-, element, rest, -, heq⟩ <;> rw [heq]

theorem evict_dealUp (s : DnState) : s.evict.dealUp = s.dealUp := by
  rcases evict_cases s with ⟨heq, -⟩ | ⟨-, element, rest, -, heq⟩ <;> rw [heq]

theorem evict_sublist (s : DnState) : s.evict.linked.Sublist s.linked := by
  rcases evict_cases s with ⟨heq, -⟩ | ⟨-, element, rest, hlinked, heq⟩
  · rw [heq]
  · rw [heq, hlinked]
    exact List.sublist_cons_self element rest

theorem evict_serial (s : DnState) : s.evict.serial = s.serial := by
  rcases evict_cases s with ⟨heq, -⟩ | ⟨-, element, rest, -, heq⟩ <;> rw [heq]

theorem evict_allocations (s : DnState) : s.evict.allocations.Perm s.allocations := by
  rcases evict_cases s with ⟨heq, -⟩ | ⟨-, element, rest, hlinked, heq⟩
  · rw [heq]
  · rw [heq]
    simp only [DnState.allocations, DnState.live, hlinked, List.cons_append, List.map_cons]
    exact List.perm_middle

theorem replace_allocations (s : DnState) (devaddr : List Char) :
    (s.replace devaddr).allocations.Perm s.allocations := by
  have hsplit := (List.filter_append_perm (fun e : DnElem => e.devaddr == devaddr) s.linked).map
    DnElem.serial
  rw [List.perm_iff_count] at hsplit ⊢
  intro n
  have hn := hsplit n
  simp only [List.map_append, List.count_append] at hn
  simp only [DnState.allocations, DnState.live, DnState.replace, List.map_append,
    List.count_append, List.count_reverse]
  omega

theorem insertTail_allocations {s : DnState} {entry : DnElem} (h : s.entry = some entry) :
    (s.insertTail entry).allocations = s.allocations := by
  simp [DnState.allocations, DnState.live, DnState.insertTail, h]

/-- The elements that are linked after the inserting section: the entry, and those of other devices
that the eviction has spared. -/
theorem mem_insert_linked {s : DnState} {entry element : DnElem} :
    element ∈ ((s.evict.replace entry.devaddr).insertTail entry).linked ↔
      (element ∈ s.evict.linked ∧ element.devaddr ≠ entry.devaddr) ∨ element = entry := by
  simp [DnState.insertTail, DnState.replace]

/-- An element survives the eviction when it is not the head of a list of more than 16. -/
theorem DnInv.mem_evict_iff {s : DnState} (h : DnInv s) {element : DnElem}
    (hmem : element ∈ s.linked) :
    element ∈ s.evict.linked ↔ ¬ (16 < s.size ∧ s.linked.head? = some element) := by
  rcases evict_cases s with ⟨heq, hno⟩ | ⟨hsize, e, rest, hlinked, heq⟩
  · rw [heq]
    have hne : s.linked ≠ [] := List.ne_nil_of_mem hmem
    exact ⟨fun _ hboth => hno ⟨hboth.1, hne⟩, fun _ => hmem⟩
  · rw [heq, hlinked]
    have hnd : e ∉ rest := by
      have haddr := h.addresses
      simp only [DnState.live, hlinked, List.cons_append, List.map_cons, List.nodup_cons] at haddr
      intro he
      exact haddr.1 (List.mem_map_of_mem (List.mem_append_left _ he))
    constructor
    · rintro hin ⟨-, hhead⟩
      cases hhead
      exact hnd hin
    · intro hno
      rw [hlinked] at hmem
      rcases List.mem_cons.1 hmem with rfl | hrest
      · exact absurd ⟨hsize, rfl⟩ hno
      · exact hrest

/-- The inserting section leaves what `pkt_deal_up` holds linked exactly when it spares it. -/
theorem DnInv.insert_held_iff {s : DnState} (h : DnInv s) {entry : DnElem}
    (hentry : s.entry = some entry) :
    (∀ dnelem, s.dealUp.held = some dnelem →
      dnelem ∈ ((s.evict.replace entry.devaddr).insertTail entry).linked) ↔
      SparesHeld s .insert := by
  have hone : ∀ dnelem, s.dealUp.held = some dnelem →
      (dnelem ∈ ((s.evict.replace entry.devaddr).insertTail entry).linked ↔
        ¬ (16 < s.size ∧ s.linked.head? = some dnelem) ∧ dnelem.devaddr ≠ entry.devaddr) := by
    intro dnelem hheld
    have hmem := h.held dnelem hheld
    -- the entry is not linked yet
    have hne : dnelem ≠ entry := by
      rintro rfl
      have haddr := h.addresses
      simp only [DnState.live, hentry, List.map_append, List.nodup_append] at haddr
      exact haddr.2.2 _ (List.mem_map_of_mem hmem) _ (by simp) rfl
    rw [mem_insert_linked, h.mem_evict_iff hmem]
    simp [hne]
  constructor
  · intro hall _ dnelem hheld
    obtain ⟨hhead, hdev⟩ := (hone dnelem hheld).1 (hall dnelem hheld)
    refine ⟨hhead, ?_⟩
    intro e he
    rw [hentry] at he
    cases he
    exact hdev
  · intro hok dnelem hheld
    obtain ⟨hhead, hdev⟩ := hok rfl dnelem hheld
    exact (hone dnelem hheld).2 ⟨hhead, hdev entry hentry⟩

/-! ## Steps and runs -/

/-- Fewer linked elements and the same entry have different addresses still. -/
theorem DnInv.addresses_of_sublist {s : DnState} (h : DnInv s) {linked : List DnElem}
    (hsub : linked.Sublist s.linked) :
    ((linked ++ s.entry.toList).map DnElem.address).Nodup :=
  ((hsub.append_right _).map _).nodup h.addresses

theorem DnInv.remove {s s' : DnState} (h : DnInv s) (hstep : dnStep s .remove = some s') :
    DnInv s' := by
  cases hdeal : s.dealUp with
  | queued dnelem =>
    have hmem := h.held dnelem (by rw [hdeal]; rfl)
    obtain ⟨rest, heq, hperm, hsub⟩ := h.remove_spec hmem
    simp only [dnStep, hdeal, heq] at hstep
    cases hstep
    apply h.of_perm
    · -- the element moves from the list to the freed ones
      have hserials := (hperm.map DnElem.serial).symm
      simp only [DnState.allocations, DnState.live, DnState.free, List.map_append,
        List.append_assoc]
      refine List.Perm.trans ?_ (hserials.append_right _)
      rw [List.map_cons, List.cons_append, ← List.append_assoc, ← List.append_assoc]
      exact List.perm_middle
    · rfl
    · exact h.addresses_of_sublist hsub
    · intro _ hheld
      cases hheld
  | idle => simp [dnStep, hdeal] at hstep
  | found dnelem => simp [dnStep, hdeal] at hstep

theorem DnInv.alloc {s s' : DnState} (h : DnInv s) {address : Nat} {devaddr : List Char}
    (hstep : dnStep s (.alloc address devaddr) = some s') : DnInv s' := by
  cases hentry : s.entry with
  | some entry => simp [dnStep, hentry] at hstep
  | none =>
    simp only [dnStep, hentry] at hstep
    split at hstep
    · cases hstep
    · next haddr =>
      cases hstep
      -- the new allocation has a number and an address of its own
      have hperm : (s.serial :: s.allocations).Perm
          ((s.linked ++ [(⟨address, s.serial, devaddr⟩ : DnElem)]).map DnElem.serial ++
            s.freed) := by
        simp only [DnState.allocations, DnState.live, hentry, Option.toList_none, List.append_nil,
          List.map_append, List.map_cons, List.map_nil, List.append_assoc, List.singleton_append]
        exact List.perm_middle.symm
      have hnew : s.serial ∉ s.allocations := fun hin => Nat.lt_irrefl _ (h.allocated _ hin)
      refine ⟨h.held, ?_, ?_, ?_⟩
      · exact hperm.nodup_iff.1 (List.nodup_cons.2 ⟨hnew, h.allocations⟩)
      · intro n hn
        rcases List.mem_cons.1 (hperm.mem_iff.2 hn) with rfl | hold
        · exact Nat.lt_succ_self _
        · exact Nat.lt_succ_of_lt (h.allocated n hold)
      · have hold := h.addresses
        simp only [DnState.live, hentry, Option.toList_none, List.append_nil] at hold
        simp only [DnState.live, Option.toList_some, List.map_append, List.map_cons, List.map_nil]
        rw [List.nodup_append]
        refine ⟨hold, by simp, ?_⟩
        intro a ha b hb heq
        rw [List.mem_singleton] at hb
        exact haddr (hb ▸ heq ▸ ha)

theorem DnInv.discard {s s' : DnState} (h : DnInv s) (hstep : dnStep s .discard = some s') :
    DnInv s' := by
  cases hentry : s.entry with
  | none => simp [dnStep, hentry] at hstep
  | some entry =>
    simp only [dnStep, hentry, Option.map_some, Option.some.injEq] at hstep
    subst hstep
    apply h.of_perm
    · simp [DnState.allocations, DnState.live, DnState.free, hentry]
    · rfl
    · have hsub : (s.linked ++ []).Sublist s.live := (List.nil_sublist _).append_left _
      exact (hsub.map _).nodup h.addresses
    · exact h.held

theorem DnInv.insert {s : DnState} (h : DnInv s) {entry : DnElem} (hentry : s.entry = some entry)
    (hok : SparesHeld s .insert) : DnInv ((s.evict.replace entry.devaddr).insertTail entry) := by
  apply h.of_perm
  · rw [insertTail_allocations (by rw [← hentry, ← evict_entry s]; rfl)]
    exact (replace_allocations _ _).trans (evict_allocations s)
  · exact evict_serial s
  · have hsub : ((s.evict.linked.filter fun e => !(e.devaddr == entry.devaddr))).Sublist s.linked :=
      List.filter_sublist.trans (evict_sublist s)
    have haddr := h.addresses_of_sublist hsub
    rw [hentry] at haddr
    simpa [DnState.live, DnState.insertTail, DnState.replace] using haddr
  · intro dnelem hheld
    refine (h.insert_held_iff hentry).2 hok dnelem ?_
    rw [← evict_dealUp s]
    exact hheld

theorem DnInv.step {s s' : DnState} {e : DnEvent} (h : DnInv s) (hok : SparesHeld s e)
    (hstep : dnStep s e = some s') : DnInv s' := by
  cases e with
  | search addr =>
    cases hdeal : s.dealUp with
    | idle =>
      simp only [dnStep, hdeal] at hstep
      split at hstep
      · next dnelem hfound =>
        cases hstep
        refine h.of_perm (List.Perm.refl _) rfl h.addresses ?_
        intro _ hheld
        cases hheld
        exact searchDnList_mem hfound
      · cases hstep
        exact h
    | _ => simp [dnStep, hdeal] at hstep
  | read =>
    cases hdeal : s.dealUp with
    | found dnelem =>
      simp only [dnStep, hdeal, Option.some.injEq] at hstep
      exact hstep ▸ h
    | _ => simp [dnStep, hdeal] at hstep
  | rx2dn jitOk =>
    cases hdeal : s.dealUp with
    | found dnelem =>
      simp only [dnStep, hdeal] at hstep
      cases hstep
      refine h.of_perm (List.Perm.refl _) rfl h.addresses ?_
      intro d hheld
      -- queued or not: the element is kept for the removal, or let go
      cases jitOk with
      | true =>
        cases hheld
        exact h.held dnelem (by rw [hdeal]; rfl)
      | false => cases hheld
    | _ => simp [dnStep, hdeal] at hstep
  | remove => exact h.remove hstep
  | alloc address devaddr => exact h.alloc hstep
  | discard => exact h.discard hstep
  | insert =>
    obtain ⟨entry, hentry, rfl⟩ := Option.map_eq_some_iff.1 hstep
    exact h.insert hentry hok

/-- In every run in which the inserting section spares what `pkt_deal_up` holds, all that it holds
is linked and nothing is freed twice; and the condition is exact, for a step that breaks it leaves
`pkt_deal_up` with an element that is not linked. -/
theorem reachable_heldLinked :
    ∀ s, Reachable (· = dnStart) (Guarded SparesHeld (Steps dnStep)) s →
      s.HeldLinked ∧ ∀ e s', dnStep s e = some s' → (s'.HeldLinked ↔ SparesHeld s e) := by
  intro s hreach
  have hinv : DnInv s := by
    apply hreach.invariant
    · rintro s rfl
      exact dnInv_dnStart
    · rintro s e t hs ⟨hok, hstep⟩
      exact hs.step hok hstep
  refine ⟨hinv.heldLinked, ?_⟩
  intro e s' hstep
  refine ⟨?_, fun hok => (hinv.step hok hstep).heldLinked⟩
  rintro hafter rfl
  obtain ⟨entry, hentry, rfl⟩ := Option.map_eq_some_iff.1 hstep
  refine (hinv.insert_held_iff hentry).1 ?_ rfl
  intro dnelem hheld
  apply hafter.linked dnelem
  show s.evict.dealUp.held = some dnelem
  rw [evict_dealUp, hheld]

/-- The address of a device as a file may spell it. -/
def lowerAddr : List Char := "2601126a".toList

/-- The address as `pkt_deal_up` prints it. -/
def upperAddr : List Char := "2601126A".toList

/-- The address of another device. -/
def otherAddr : List Char := "2601127B".toList

/-- A file for a device, and an uplink of it that finds the element. -/
def fileThenUplink : List DnEvent :=
  [.alloc 64 lowerAddr, .insert, .search upperAddr, .read]

/-- The element is queued, removed and freed while a file for another device comes in. -/
theorem reachable_heldLinked_other :
    ∃ s, exec (guardedBy SparesHeld dnStep) dnStart
        (fileThenUplink ++ [.alloc 128 otherAddr, .insert, .rx2dn true, .remove]) = some s ∧
      s.freed = [0] ∧ s.linked.map DnElem.serial = [1] ∧ s.HeldLinked := by
  have hrun : (exec (guardedBy SparesHeld dnStep) dnStart
      (fileThenUplink ++ [.alloc 128 otherAddr, .insert, .rx2dn true, .remove])).map
        (fun s => (s.freed, s.linked.map DnElem.serial)) = some ([0], [1]) := by
    decide +kernel
  obtain ⟨s, hs, hend⟩ := Option.map_eq_some_iff.1 hrun
  obtain ⟨hfreed, hlinked⟩ := Prod.mk.inj hend
  have hreach := (Run.of_exec_guardedBy hs).reachable
  exact ⟨s, hs, hfreed, hlinked, (reachable_heldLinked s hreach).1⟩

/-- A second file for the device comes in between the search and the end of `custom_rx2dn`: the
element is freed while `pkt_deal_up` reads it, and freed again when the removal does not find it. -/
theorem replaced_while_held :
    ¬ ∀ s, Reachable (· = dnStart) (Steps dnStep) s → s.HeldLinked := by
  intro h
  have hrun : (exec dnStep dnStart
      (fileThenUplink ++ [.alloc 128 lowerAddr, .insert, .rx2dn true, .remove])).map
        (fun s => s.freed) = some [0, 0] := by
    decide +kernel
  obtain ⟨s, hs, hfreed⟩ := Option.map_eq_some_iff.1 hrun
  have honce := (h s (Run.of_exec hs).reachable).freedOnce
  rw [hfreed] at honce
  exact absurd honce (by decide)

end DraginoFwd.Mac

import DraginoFwd.Mac.DnList

/-!
# One pending downlink for a device, the newest

`search_dn_list` compares device addresses without regard to case, the section that replaces the
element of a device compares them character by character. `DnHistory` keeps beside the list what has
been queued and what `custom_rx2dn` has sent, so that `NewestPending` can say that the element found
for a device is the newest one that has not been sent.

`reachable_newestPending` is for all runs in which every file spells its device like the element of
the device that is linked, and the inserting section spares what `pkt_deal_up` holds. The condition
on the spelling is exact for every step.
-/

set_option autoImplicit false

namespace DraginoFwd.Mac

open DraginoFwd.Lib.Transition

/-- The list with the elements that have been linked so far, in order, and the allocations that
`custom_rx2dn` has sent. -/
structure DnHistory where
  dn : DnState
  queued : List DnElem
  sent : List Nat

/-- What a step adds to the elements that have been linked. -/
def DnState.queues (s : DnState) : DnEvent → List DnElem
  | .insert => s.entry.toList
  | _ => []

/-- What a step adds to the allocations that have been sent. -/
def DnState.sends (s : DnState) : DnEvent → List Nat
  | .rx2dn true => (s.dealUp.held.map DnElem.serial).toList
  | _ => []

/-- One step of the list, with what it adds to the history. -/
def dnHistoryStep (h : DnHistory) (e : DnEvent) : Option DnHistory :=
  (dnStep h.dn e).map fun dn => ⟨dn, h.queued ++ h.dn.queues e, h.dn.sends e ++ h.sent⟩

/-- The list at the start, and nothing queued or sent. -/
def dnHistoryStart : DnHistory := ⟨dnStart, [], []⟩

/-! ## The condition and the property -/

/-- The element of a device that was queued last, of those that have not been sent. -/
def DnHistory.newestUnsent (h : DnHistory) (addr : List Char) : Option DnElem :=
  (h.queued.filter fun e => sameIgnoringCase e.devaddr addr && !(e.serial ∈ h.sent)).getLast?

/-- No two linked elements are of one device, what a search finds is the newest element of its
device that has not been sent, and `size` counts the linked elements, at most 17 of them. -/
structure NewestPending (h : DnHistory) : Prop where
  distinct : h.dn.linked.Pairwise fun a b => sameIgnoringCase a.devaddr b.devaddr = false
  newest : h.dn.dealUp = .idle → ∀ addr dnelem, searchDnList h.dn.linked addr = some dnelem →
    h.newestUnsent addr = some dnelem
  size : h.dn.size = h.dn.linked.length
  bounded : h.dn.size ≤ 17

/-- The entry that is inserted is spelled like every element of its device that the eviction
leaves. -/
def SameSpelling (s : DnState) (e : DnEvent) : Prop :=
  e = .insert → ∀ entry ∈ s.entry, ∀ element ∈ s.evict.linked,
    sameIgnoringCase element.devaddr entry.devaddr → element.devaddr = entry.devaddr

instance (s : DnState) (e : DnEvent) : Decidable (SameSpelling s e) :=
  inferInstanceAs (Decidable (_ → _))

/-- Both conditions on a step. -/
def QueuesCleanly (h : DnHistory) (e : DnEvent) : Prop :=
  SparesHeld h.dn e ∧ SameSpelling h.dn e

instance (h : DnHistory) (e : DnEvent) : Decidable (QueuesCleanly h e) :=
  inferInstanceAs (Decidable (_ ∧ _))

/-! ## Devices -/

theorem sameIgnoringCase_iff {a b : List Char} :
    sameIgnoringCase a b = true ↔ a.map Char.toLower = b.map Char.toLower := by
  simp [sameIgnoringCase]

theorem sameIgnoringCase_refl (a : List Char) : sameIgnoringCase a a = true := by
  rw [sameIgnoringCase_iff]

theorem sameIgnoringCase_symm {a b : List Char} (h : sameIgnoringCase a b = true) :
    sameIgnoringCase b a = true := by
  rw [sameIgnoringCase_iff] at h ⊢
  exact h.symm

/-- Two spellings of one device select the same elements. -/
theorem sameIgnoringCase_congr {a b : List Char} (h : sameIgnoringCase a b = true)
    (c : List Char) : sameIgnoringCase c a = sameIgnoringCase c b := by
  rw [sameIgnoringCase_iff] at h
  rw [sameIgnoringCase, sameIgnoringCase, h]

/-- The last element that passes a test is the last one that passes both tests when it does. -/
theorem getLast?_filter_and {α : Type} {l : List α} {p q : α → Bool} {x : α}
    (h : (l.filter p).getLast? = some x) (hq : q x = true) :
    (l.filter fun a => p a && q a).getLast? = some x := by
  obtain ⟨front, hfront⟩ := List.getLast?_eq_some_iff.1 h
  have hfilter : (l.filter fun a => p a && q a) = (l.filter p).filter q := by
    rw [List.filter_filter]
    congr 1
    funext a
    exact Bool.and_comm _ _
  rw [hfilter, hfront, List.filter_append, List.filter_singleton, hq]
  exact List.getLast?_concat

/-! ## The invariant -/

/-- Beside the invariant of the list: the linked elements are of different devices, each of them is
the newest one of its device, and what has been sent has been freed or is about to be removed. -/
structure NewestInv (h : DnHistory) : Prop where
  list : DnInv h.dn
  distinct : h.dn.linked.Pairwise fun a b => sameIgnoringCase a.devaddr b.devaddr = false
  last : ∀ e ∈ h.dn.linked,
    (h.queued.filter fun d => sameIgnoringCase d.devaddr e.devaddr).getLast? = some e
  size : h.dn.size = h.dn.linked.length
  bounded : h.dn.size ≤ 17
  sent : ∀ n ∈ h.sent, n ∈ h.dn.freed ∨ ∃ e, h.dn.dealUp = .queued e ∧ e.serial = n

theorem newestInv_dnHistoryStart : NewestInv dnHistoryStart where
  list := dnInv_dnStart
  distinct := List.Pairwise.nil
  last := by simp [dnHistoryStart, dnStart]
  size := rfl
  bounded := by decide
  sent := by simp [dnHistoryStart]

/-- Nothing that is linked has been freed. -/
theorem DnInv.serial_notMem_freed {s : DnState} (h : DnInv s) {e : DnElem} (he : e ∈ s.linked) :
    e.serial ∉ s.freed := by
  intro hfreed
  have hlive : e.serial ∈ s.live.map DnElem.serial :=
    List.mem_map_of_mem (List.mem_append_left _ he)
  exact (List.nodup_append.1 h.allocations).2.2 _ hlive _ hfreed rfl

/-- What a search finds between two uplinks is the newest element that has not been sent. -/
theorem NewestInv.newest {h : DnHistory} (hinv : NewestInv h) (hidle : h.dn.dealUp = .idle)
    {addr : List Char} {dnelem : DnElem} (hfound : searchDnList h.dn.linked addr = some dnelem) :
    h.newestUnsent addr = some dnelem := by
  have hmem := searchDnList_mem hfound
  have hsame : sameIgnoringCase dnelem.devaddr addr = true :=
    List.find?_some (p := fun e : DnElem => sameIgnoringCase e.devaddr addr) hfound
  have hlast := hinv.last dnelem hmem
  have hunsent : (!decide (dnelem.serial ∈ h.sent)) = true := by
    rw [Bool.not_eq_true', decide_eq_false_iff_not]
    intro hsent
    rcases hinv.sent _ hsent with hfreed | ⟨e, hqueued, -⟩
    · exact hinv.list.serial_notMem_freed hmem hfreed
    · rw [hidle] at hqueued
      cases hqueued
  have hdevice : (fun d : DnElem => sameIgnoringCase d.devaddr dnelem.devaddr) =
      fun d => sameIgnoringCase d.devaddr addr :=
    funext fun d => sameIgnoringCase_congr hsame d.devaddr
  rw [hdevice] at hlast
  exact getLast?_filter_and hlast hunsent

theorem NewestInv.newestPending {h : DnHistory} (hinv : NewestInv h) : NewestPending h where
  distinct := hinv.distinct
  newest := fun hidle _ _ hfound => hinv.newest hidle hfound
  size := hinv.size
  bounded := hinv.bounded

/-! ## The inserting section -/

/-- The eviction leaves at most 16 elements, and counts them. -/
theorem evict_size {s : DnState} (hsize : s.size = s.linked.length) (hbounded : s.size ≤ 17) :
    s.evict.size = s.evict.linked.length ∧ s.evict.size ≤ 16 := by
  rcases evict_cases s with ⟨heq, hno⟩ | ⟨-, element, rest, hlinked, heq⟩
  · rw [heq]
    refine ⟨hsize, ?_⟩
    by_contra hlarge
    apply hno
    refine ⟨Int.not_le.1 hlarge, ?_⟩
    rintro hnil
    rw [hnil] at hsize
    simp [hsize] at hlarge
  · rw [heq]
    rw [hlinked, List.length_cons] at hsize
    show s.size - 1 = (rest.length : Int) ∧ s.size - 1 ≤ 16
    omega

theorem evict_freed (s : DnState) : ∀ n ∈ s.freed, n ∈ s.evict.freed := by
  intro n hn
  rcases evict_cases s with ⟨heq, -⟩ | ⟨-, element, rest, -, heq⟩
  · rw [heq]
    exact hn
  · rw [heq]
    exact List.mem_cons_of_mem _ hn

/-- The list is counted again after the elements of the device have been dropped. -/
theorem replace_size {s : DnState} (hsize : s.size = s.linked.length) (devaddr : List Char) :
    (s.replace devaddr).size = (s.replace devaddr).linked.length := by
  have hsplit := List.length_eq_length_filter_add (l := s.linked)
    (fun e : DnElem => e.devaddr == devaddr)
  simp only [DnState.replace]
  omega

/-- The section that evicts, replaces and inserts keeps the invariant when the entry is spelled like
the element that it replaces. -/
theorem NewestInv.insert {h : DnHistory} (hinv : NewestInv h) {entry : DnElem}
    (hentry : h.dn.entry = some entry) (hok : QueuesCleanly h .insert) :
    NewestInv ⟨(h.dn.evict.replace entry.devaddr).insertTail entry, h.queued ++ [entry],
      h.sent⟩ := by
  obtain ⟨hspares, hspelling⟩ := hok
  have hevict := evict_size hinv.size hinv.bounded
  have hreplace := replace_size hevict.1 entry.devaddr
  -- what stays beside the entry is of other devices
  have hother : ∀ e ∈ h.dn.evict.linked, e.devaddr ≠ entry.devaddr →
      sameIgnoringCase e.devaddr entry.devaddr = false := by
    intro e he hne
    rw [Bool.eq_false_iff]
    intro hsame
    exact hne (hspelling rfl entry hentry e he hsame)
  constructor
  · exact hinv.list.insert hentry hspares
  · show List.Pairwise _ ((h.dn.evict.linked.filter _) ++ [entry])
    rw [List.pairwise_append]
    refine ⟨?_, List.pairwise_singleton _ _, ?_⟩
    · exact (hinv.distinct.sublist (evict_sublist h.dn)).sublist List.filter_sublist
    · intro a ha b hb
      rw [List.mem_singleton.1 hb]
      obtain ⟨hmem, hne⟩ := List.mem_filter.1 ha
      exact hother a hmem (by simpa using hne)
  · intro e he
    show (List.filter _ (h.queued ++ [entry])).getLast? = some e
    rw [List.filter_append]
    rcases mem_insert_linked.1 he with ⟨hmem, hne⟩ | rfl
    · have hfalse : sameIgnoringCase entry.devaddr e.devaddr = false := by
        rw [Bool.eq_false_iff]
        intro hsame
        exact Bool.eq_false_iff.1 (hother e hmem hne) (sameIgnoringCase_symm hsame)
      rw [List.filter_singleton, hfalse]
      simpa using hinv.last e ((evict_sublist h.dn).subset hmem)
    · rw [List.filter_singleton, sameIgnoringCase_refl]
      exact List.getLast?_concat
  · show (h.dn.evict.replace entry.devaddr).size + 1 = ((_ ++ [entry] : List DnElem).length : Int)
    rw [hreplace, List.length_append, List.length_singleton]
    rfl
  · show (h.dn.evict.replace entry.devaddr).size + 1 ≤ 17
    have hle : ((h.dn.evict.replace entry.devaddr).linked.length : Int) ≤
        h.dn.evict.linked.length :=
      Int.ofNat_le.2 (List.filter_sublist.length_le)
    omega
  · intro n hn
    rcases hinv.sent n hn with hfreed | ⟨e, hqueued, hserial⟩
    · exact Or.inl (List.mem_append_right _ (evict_freed h.dn n hfreed))
    · exact Or.inr ⟨e, (evict_dealUp h.dn).trans hqueued, hserial⟩

/-! ## Steps and runs -/

/-- A step that leaves the list and what has been queued keeps the invariant. -/
theorem NewestInv.of_same_list {h : DnHistory} (hinv : NewestInv h) {dn : DnState}
    {queued : List DnElem} {sent : List Nat} (hlist : DnInv dn) (hqueued : queued = h.queued)
    (hlinked : dn.linked = h.dn.linked) (hsize : dn.size = h.dn.size)
    (hsent : ∀ n ∈ sent, n ∈ dn.freed ∨ ∃ e, dn.dealUp = .queued e ∧ e.serial = n) :
    NewestInv ⟨dn, queued, sent⟩ where
  list := hlist
  distinct := hlinked ▸ hinv.distinct
  last := by
    rw [hqueued, hlinked]
    exact hinv.last
  size := by
    rw [hsize, hlinked]
    exact hinv.size
  bounded := hsize ▸ hinv.bounded
  sent := hsent

/-- Outside of the removal, what has been sent has been freed. -/
theorem NewestInv.freed_of_sent {h : DnHistory} (hinv : NewestInv h)
    (hdeal : ∀ e, h.dn.dealUp ≠ .queued e) : ∀ n ∈ h.sent, n ∈ h.dn.freed := by
  intro n hn
  rcases hinv.sent n hn with hfreed | ⟨e, hqueued, -⟩
  · exact hfreed
  · exact absurd hqueued (hdeal e)

/-- The removal takes one element out of the list and frees what has been sent. -/
theorem NewestInv.remove {h : DnHistory} (hinv : NewestInv h) {dn : DnState}
    (hstep : dnStep h.dn .remove = some dn) : NewestInv ⟨dn, h.queued, h.sent⟩ := by
  have hlist := hinv.list.remove hstep
  cases hdeal : h.dn.dealUp with
  | queued dnelem =>
      have hmem := hinv.list.held dnelem (by rw [hdeal]; rfl)
      obtain ⟨rest, heq, hperm, hsub⟩ := hinv.list.remove_spec hmem
      simp only [dnStep, hdeal, heq] at hstep
      cases hstep
      have hlen := hperm.length_eq
      rw [List.length_cons] at hlen
      have hsize := hinv.size
      have hbounded := hinv.bounded
      refine ⟨hlist, hinv.distinct.sublist hsub, ?_, ?_, ?_, ?_⟩
      · exact fun e he => hinv.last e (hsub.subset he)
      · show h.dn.size - 1 = (rest.length : Int)
        omega
      · show h.dn.size - 1 ≤ 17
        omega
      · intro n hn
        left
        rcases hinv.sent n hn with hfreed | ⟨e, hqueued, rfl⟩
        · exact List.mem_cons_of_mem _ hfreed
        · rw [hdeal] at hqueued
          cases hqueued
          exact List.mem_cons_self
  | idle => simp [dnStep, hdeal] at hstep
  | found dnelem => simp [dnStep, hdeal] at hstep

theorem NewestInv.step {h h' : DnHistory} {e : DnEvent} (hinv : NewestInv h)
    (hok : QueuesCleanly h e) (hstep : dnHistoryStep h e = some h') : NewestInv h' := by
  obtain ⟨dn, hdn, rfl⟩ := Option.map_eq_some_iff.1 hstep
  have hlist := hinv.list.step hok.1 hdn
  cases e with
  | search addr =>
      cases hdeal : h.dn.dealUp with
      | idle =>
          have hfreed := hinv.freed_of_sent (by simp [hdeal])
          simp only [dnStep, hdeal] at hdn
          split at hdn
          · cases hdn
            exact hinv.of_same_list hlist (List.append_nil _) rfl rfl fun n hn =>
              Or.inl (hfreed n hn)
          · cases hdn
            exact hinv.of_same_list hlist (List.append_nil _) rfl rfl fun n hn =>
              Or.inl (hfreed n hn)
      | _ => simp [dnStep, hdeal] at hdn
  | read =>
      cases hdeal : h.dn.dealUp with
      | found dnelem =>
          simp only [dnStep, hdeal, Option.some.injEq] at hdn
          subst hdn
          exact hinv.of_same_list hlist (List.append_nil _) rfl rfl hinv.sent
      | _ => simp [dnStep, hdeal] at hdn
  | rx2dn jitOk =>
      cases hdeal : h.dn.dealUp with
      | found dnelem =>
          have hfreed := hinv.freed_of_sent (by simp [hdeal])
          simp only [dnStep, hdeal] at hdn
          cases hdn
          apply hinv.of_same_list hlist (List.append_nil _) rfl rfl
          intro n hn
          cases jitOk with
          | true =>
              rw [DnState.sends, hdeal] at hn
              rcases List.mem_cons.1 hn with rfl | hold
              · exact Or.inr ⟨dnelem, rfl, rfl⟩
              · exact Or.inl (hfreed n hold)
          | false => exact Or.inl (hfreed n hn)
      | _ => simp [dnStep, hdeal] at hdn
  | remove =>
      have hqueued : h.queued ++ h.dn.queues .remove = h.queued := List.append_nil _
      rw [hqueued]
      exact hinv.remove hdn
  | alloc address devaddr =>
      cases hentry : h.dn.entry with
      | some entry => simp [dnStep, hentry] at hdn
      | none =>
          simp only [dnStep, hentry] at hdn
          split at hdn
          · cases hdn
          · cases hdn
            exact hinv.of_same_list hlist (List.append_nil _) rfl rfl hinv.sent
  | discard =>
      cases hentry : h.dn.entry with
      | none => simp [dnStep, hentry] at hdn
      | some entry =>
          simp only [dnStep, hentry, Option.map_some, Option.some.injEq] at hdn
          subst hdn
          apply hinv.of_same_list hlist (List.append_nil _) rfl rfl
          intro n hn
          exact (hinv.sent n hn).imp_left (List.mem_cons_of_mem _)
  | insert =>
      obtain ⟨entry, hentry, rfl⟩ := Option.map_eq_some_iff.1 hdn
      have hqueues : h.dn.queues .insert = [entry] := by
        rw [DnState.queues, hentry]
        rfl
      rw [hqueues]
      exact hinv.insert hentry hok

/-- An entry that is spelled differently is linked beside the element of its device. -/
theorem sameSpelling_of_distinct {s : DnState} {entry : DnElem} (hentry : s.entry = some entry)
    (hdistinct : ((s.evict.replace entry.devaddr).insertTail entry).linked.Pairwise
      fun a b => sameIgnoringCase a.devaddr b.devaddr = false) : SameSpelling s .insert := by
  intro _ e he element hmem hsame
  rw [hentry] at he
  cases he
  by_contra hne
  have hpair := (List.pairwise_append.1 hdistinct).2.2 element
    (List.mem_filter.2 ⟨hmem, by simpa using hne⟩) entry (List.mem_singleton_self _)
  rw [hsame] at hpair
  cases hpair

/-- In every run in which each file spells its device like the linked element, and spares what
`pkt_deal_up` holds, the list holds one element for a device, the newest; and the condition on the
spelling is exact for every step. -/
theorem reachable_newestPending :
    ∀ h, Reachable (· = dnHistoryStart) (Guarded QueuesCleanly (Steps dnHistoryStep)) h →
      NewestPending h ∧ ∀ e h', SparesHeld h.dn e → dnHistoryStep h e = some h' →
        (NewestPending h' ↔ SameSpelling h.dn e) := by
  intro h hreach
  have hinv : NewestInv h := by
    apply hreach.invariant
    · rintro h rfl
      exact newestInv_dnHistoryStart
    · rintro h e h' hs ⟨hok, hstep⟩
      exact hs.step hok hstep
  refine ⟨hinv.newestPending, ?_⟩
  intro e h' hspares hstep
  refine ⟨?_, fun hspelling => (hinv.step ⟨hspares, hspelling⟩ hstep).newestPending⟩
  rintro hafter rfl
  obtain ⟨dn, hdn, rfl⟩ := Option.map_eq_some_iff.1 hstep
  obtain ⟨entry, hentry, rfl⟩ := Option.map_eq_some_iff.1 hdn
  exact sameSpelling_of_distinct hentry hafter.distinct rfl

/-- A file replaces the element of its device, the newer element is found and sent. -/
theorem reachable_newestPending_replaced :
    ∃ h, h.sent = [1] ∧ NewestPending h := by
  have hrun : (exec (guardedBy QueuesCleanly dnHistoryStep) dnHistoryStart
      [.alloc 64 upperAddr, .insert, .alloc 128 upperAddr, .insert,
        .search upperAddr, .rx2dn true, .remove]).map (fun h => h.sent) = some [1] := by
    decide +kernel
  obtain ⟨h, hs, hsent⟩ := Option.map_eq_some_iff.1 hrun
  exact ⟨h, hsent, (reachable_newestPending h (Run.of_exec_guardedBy hs).reachable).1⟩

/-- A second file that spells the device in lower case is linked beside the first one, which is the
one that is found. -/
theorem spelled_twice :
    ¬ ∀ h, Reachable (· = dnHistoryStart) (Steps dnHistoryStep) h → NewestPending h := by
  intro hall
  have hrun : (exec dnHistoryStep dnHistoryStart
      [.alloc 64 upperAddr, .insert, .alloc 128 lowerAddr, .insert]).map
        (fun h => (h.dn.dealUp, (searchDnList h.dn.linked upperAddr).map DnElem.serial,
          (h.newestUnsent upperAddr).map DnElem.serial)) =
      some (.idle, some 0, some 1) := by
    decide +kernel
  obtain ⟨h, hs, hend⟩ := Option.map_eq_some_iff.1 hrun
  simp only [Prod.mk.injEq] at hend
  obtain ⟨hidle, hfound, hnewest⟩ := hend
  obtain ⟨e, he, hserial⟩ := Option.map_eq_some_iff.1 hfound
  rw [(hall h (Run.of_exec hs).reachable).newest hidle _ e he, Option.map_some, hserial] at hnewest
  cases hnewest

end DraginoFwd.Mac

import DraginoFwd.Jit.Entries

/-!
# Producers and the consumer on one queue

`jit_enqueue` tests for a full queue in one critical section and inserts in a second one, and the
lock is free in between. The state of this module is the queue with the calls that are between
their sections: any number of producers, and the one thread that peeks and dequeues. Each section
is one step (`concStep`), and a section that leaves the array is an error.

The capacity holds in every run in which a call passes the full test only while the packets and the
calls between their sections leave room for it (`reachable_capacity`). Nothing in the source keeps
two producers from passing the test together at the last free node, and then the second one writes
behind the array (`two_producers_overflow`).
-/

set_option autoImplicit false

namespace DraginoFwd.Jit

open DraginoFwd.Hal
open DraginoFwd.Lib.Memory
open DraginoFwd.Lib.Transition

/-- Where the consuming thread is. -/
inductive Consumer where
  | idle
  | peeking (timeUs : BitVec 32)
  | dequeuing (index : Fin jitQueueMax)

/-- The queue and the calls between their critical sections. -/
structure ConcState where
  queue : JitQueue
  producers : List EnqueueCall
  consumer : Consumer

/-- A critical section and whose it is: a producer that arrives, the `k`-th of the producers that
passed the full test, or the consumer. -/
inductive ConcEvent where
  | enqueueTest (call : EnqueueCall)
  | enqueueInsert (k : Nat)
  | peekTest (timeUs : BitVec 32)
  | peekScan
  | dequeueTest (index : Int)
  | dequeueRemove

/-- The result of a section: the code of the call, when it ends, and the state. -/
abbrev ConcResult := Except OutOfBounds (Option JitError × ConcState)

/-- One critical section, where it can run. -/
def concStep (tgt : Target) (s : ConcState) : ConcEvent → Option ConcResult
  | .enqueueTest call =>
      if jitQueueIsFull s.queue then some (.ok (some .full, s))
      else some (.ok (none, { s with producers := call :: s.producers }))
  | .enqueueInsert k =>
      s.producers[k]?.map fun call =>
        (jitEnqueueSection tgt s.queue call.timeUs call.packet call.pktType).map fun r =>
          (some r.1, { s with queue := r.2.2, producers := s.producers.eraseIdx k })
  | .peekTest timeUs =>
      match s.consumer with
      | .idle =>
          if jitQueueIsEmpty s.queue then some (.ok (some .empty, s))
          else some (.ok (none, { s with consumer := .peeking timeUs }))
      | _ => none
  | .peekScan =>
      match s.consumer with
      | .peeking timeUs =>
          some (.ok (some .ok,
            { s with queue := (jitPeekSection s.queue timeUs).2, consumer := .idle }))
      | _ => none
  | .dequeueTest index =>
      match s.consumer with
      | .idle =>
          if h : index < 0 ∨ (jitQueueMax : Int) ≤ index then some (.ok (some .invalid, s))
          else if jitQueueIsEmpty s.queue then some (.ok (some .empty, s))
          else some (.ok (none, { s with consumer := .dequeuing (queueIndex index h) }))
      | _ => none
  | .dequeueRemove =>
      match s.consumer with
      | .dequeuing index =>
          some ((jitDequeueSection s.queue index).map fun r =>
            (some .ok, { s with queue := r.2.2, consumer := .idle }))
      | _ => none

/-- A section that stays inside the array. -/
def ConcStep (tgt : Target) (s : ConcState) (e : ConcEvent) (s' : ConcState) : Prop :=
  ∃ code, concStep tgt s e = some (.ok (code, s'))

/-- What a section can be, and what it leaves: a test that ends its call changes nothing, a test
that passes puts the call between its sections, and a second section takes it from there. -/
inductive ConcSection (tgt : Target) (s : ConcState) : ConcEvent → ConcResult → Prop where
  | ends (e : ConcEvent) (code : JitError) : ConcSection tgt s e (.ok (some code, s))
  | arrives (call : EnqueueCall) (hfull : ¬ jitQueueIsFull s.queue = true) :
      ConcSection tgt s (.enqueueTest call)
        (.ok (none, { s with producers := call :: s.producers }))
  | inserts (k : Nat) (call : EnqueueCall) (hk : s.producers[k]? = some call) :
      ConcSection tgt s (.enqueueInsert k)
        ((jitEnqueueSection tgt s.queue call.timeUs call.packet call.pktType).map fun r =>
          (some r.1, { s with queue := r.2.2, producers := s.producers.eraseIdx k }))
  | looks (timeUs : BitVec 32) :
      ConcSection tgt s (.peekTest timeUs) (.ok (none, { s with consumer := .peeking timeUs }))
  | scans (timeUs : BitVec 32) (hc : s.consumer = .peeking timeUs) :
      ConcSection tgt s .peekScan (.ok (some .ok,
        { s with queue := (jitPeekSection s.queue timeUs).2, consumer := .idle }))
  | chooses (index : Int) (i : Fin jitQueueMax) (hne : ¬ jitQueueIsEmpty s.queue = true) :
      ConcSection tgt s (.dequeueTest index) (.ok (none, { s with consumer := .dequeuing i }))
  | removes (index : Fin jitQueueMax) (hc : s.consumer = .dequeuing index) :
      ConcSection tgt s .dequeueRemove ((jitDequeueSection s.queue index).map fun r =>
        (some .ok, { s with queue := r.2.2, consumer := .idle }))

/-- Every step is one of these sections. -/
theorem concStep_section {tgt : Target} {s : ConcState} {e : ConcEvent} {r : ConcResult}
    (hstep : concStep tgt s e = some r) : ConcSection tgt s e r := by
  cases e with
  | enqueueTest call =>
      rw [concStep] at hstep
      split at hstep
      · cases hstep
        exact .ends _ _
      · next hfull =>
        cases hstep
        exact .arrives call hfull
  | enqueueInsert k =>
      obtain ⟨call, hk, rfl⟩ := Option.map_eq_some_iff.1 hstep
      exact .inserts k call hk
  | peekTest timeUs =>
      cases hc : s.consumer with
      | idle =>
          simp only [concStep, hc] at hstep
          split at hstep
          · cases hstep
            exact .ends _ _
          · cases hstep
            exact .looks timeUs
      | _ => simp [concStep, hc] at hstep
  | peekScan =>
      cases hc : s.consumer with
      | peeking timeUs =>
          simp only [concStep, hc] at hstep
          cases hstep
          exact .scans timeUs hc
      | _ => simp [concStep, hc] at hstep
  | dequeueTest index =>
      cases hc : s.consumer with
      | idle =>
          simp only [concStep, hc] at hstep
          split at hstep
          · cases hstep
            exact .ends _ _
          · split at hstep
            · cases hstep
              exact .ends _ _
            · next hne =>
              cases hstep
              exact .chooses index _ hne
      | _ => simp [concStep, hc] at hstep
  | dequeueRemove =>
      cases hc : s.consumer with
      | dequeuing index =>
          simp only [concStep, hc] at hstep
          cases hstep
          exact .removes index hc
      | _ => simp [concStep, hc] at hstep

/-- The initial queue, with no call under way. -/
def concStart : ConcState := ⟨jitQueueInit, [], .idle⟩

/-- A call passes the full test only when the packets and the calls between their sections leave
room for one more. -/
def RoomForAll (s : ConcState) (e : ConcEvent) : Prop :=
  ∀ call, e = .enqueueTest call → jitQueueIsFull s.queue = false →
    s.queue.numPkt.toNat + s.producers.length < jitQueueMax

/-- What a state promises: the counter fits the array, no section that can run leaves the array,
and a section of `jit_enqueue` that finds the queue full ends the call with `JIT_ERROR_FULL` and
changes nothing. -/
structure WithinCapacity (tgt : Target) (s : ConcState) : Prop where
  bounded : s.queue.Bounded
  inside : ∀ e r, concStep tgt s e = some r → ∃ out, r = .ok out
  fullTest : ∀ call, s.queue.numPkt.toNat = jitQueueMax →
    concStep tgt s (.enqueueTest call) = some (.ok (some .full, s))
  fullInsert : ∀ k r, s.queue.numPkt.toNat = jitQueueMax →
    concStep tgt s (.enqueueInsert k) = some r → ∃ s', r = .ok (some .full, s') ∧ s'.queue = s.queue

/-- What a run with room for all keeps: a node for every call that passed the full test, and a
node to remove for a dequeue that passed the empty test. -/
structure ConcInv (s : ConcState) : Prop where
  room : s.queue.numPkt.toNat + s.producers.length ≤ jitQueueMax
  toRemove : ∀ index, s.consumer = .dequeuing index → 0 < s.queue.numPkt.toNat

theorem concInv_concStart : ConcInv concStart := ⟨Nat.zero_le _, by rintro _ ⟨⟩⟩

theorem ConcInv.bounded {s : ConcState} (h : ConcInv s) : s.queue.Bounded :=
  le_trans (Nat.le_add_right _ _) h.room

/-- A producer between its sections finds a free node. -/
theorem ConcInv.producer_room {s : ConcState} (h : ConcInv s) {k : Nat} {call : EnqueueCall}
    (hk : s.producers[k]? = some call) : s.queue.numPkt.toNat < jitQueueMax := by
  have hroom := h.room
  have hlt : k < s.producers.length := (List.getElem?_eq_some_iff.1 hk).1
  omega

/-- The insertion of a producer adds at most one node and stays inside the array. -/
theorem ConcInv.insert (tgt : Target) {s : ConcState} (h : ConcInv s) {k : Nat}
    {call : EnqueueCall} (hk : s.producers[k]? = some call) :
    ∃ code s', concStep tgt s (.enqueueInsert k) = some (.ok (some code, s')) ∧ ConcInv s' := by
  have hfree := h.producer_room hk
  have hroom := h.room
  have hlt : k < s.producers.length := (List.getElem?_eq_some_iff.1 hk).1
  have hlen := List.length_eraseIdx_of_lt hlt
  rw [concStep, hk]
  rcases jitEnqueueSection_spec tgt call.timeUs call.packet call.pktType hfree with
    ⟨e, pkt', -, heq⟩ | ⟨-, pkt', q', heq, hins⟩
  · refine ⟨e, { s with producers := s.producers.eraseIdx k }, ?_, ?_, h.toRemove⟩
    · rw [Option.map_some, heq]
      rfl
    · show s.queue.numPkt.toNat + (s.producers.eraseIdx k).length ≤ jitQueueMax
      omega
  · refine ⟨.ok, { s with queue := q', producers := s.producers.eraseIdx k }, ?_, ?_, ?_⟩
    · rw [Option.map_some, heq]
      rfl
    · show q'.numPkt.toNat + (s.producers.eraseIdx k).length ≤ jitQueueMax
      rw [hins.numPkt]
      omega
    · intro index hindex
      show 0 < q'.numPkt.toNat
      rw [hins.numPkt]
      exact Nat.succ_pos _

/-- The removal of the consumer takes one node and stays inside the array. -/
theorem ConcInv.remove (tgt : Target) {s : ConcState} (h : ConcInv s) {index : Fin jitQueueMax}
    (hc : s.consumer = .dequeuing index) :
    ∃ s', concStep tgt s .dequeueRemove = some (.ok (some .ok, s')) ∧ ConcInv s' := by
  have hpos := h.toRemove index hc
  have hroom := h.room
  have hlast := toNat_sub_one hpos
  have hlt : (s.queue.numPkt - 1#8).toNat < jitQueueMax := by
    have hmax : jitQueueMax = 32 := rfl
    omega
  refine ⟨{ s with
    queue := jitRemoveAt s.queue index ⟨(s.queue.numPkt - 1#8).toNat, hlt⟩
    consumer := .idle }, ?_, ?_, ?_⟩
  · simp only [concStep, hc, jitDequeueSection, dif_pos hlt]
    rfl
  · show (jitRemoveAt s.queue index _).numPkt.toNat + s.producers.length ≤ jitQueueMax
    rw [jitRemoveAt_numPkt]
    omega
  · rintro _ ⟨⟩

theorem jitPeekScan_numPkt_le (timeUs : BitVec 32) {q : JitQueue} (i : Nat)
    (idx : Option (Fin jitQueueMax)) :
    (jitPeekScan timeUs q i idx).1.numPkt.toNat ≤ q.numPkt.toNat := by
  fun_induction jitPeekScan timeUs q i idx with
  | case1 q i idx h n hout ih =>
    refine le_trans ih ?_
    rw [jitRemoveAt_numPkt, toNat_sub_one (by omega)]
    exact Nat.sub_le _ _
  | case2 q i idx h n hout ih => exact ih
  | case3 => exact le_rfl

/-- Every section that can run in a state with the invariant stays inside the array and keeps it,
given room for the call that passes the full test. -/
theorem ConcInv.step {tgt : Target} {s : ConcState} (h : ConcInv s) {e : ConcEvent}
    {r : ConcResult} (hstep : concStep tgt s e = some r) :
    ∃ code s', r = .ok (code, s') ∧ (RoomForAll s e → ConcInv s') := by
  cases concStep_section hstep with
  | ends => exact ⟨_, s, rfl, fun _ => h⟩
  | arrives call hfull =>
      refine ⟨_, _, rfl, fun hok => ⟨?_, h.toRemove⟩⟩
      have hlt := hok call rfl (Bool.eq_false_iff.2 hfull)
      show s.queue.numPkt.toNat + (call :: s.producers).length ≤ jitQueueMax
      rw [List.length_cons]
      omega
  | inserts k call hk =>
      obtain ⟨code, s', heq, hinv⟩ := h.insert tgt hk
      rw [hstep] at heq
      exact ⟨_, s', Option.some.inj heq, fun _ => hinv⟩
  | looks => exact ⟨_, _, rfl, fun _ => ⟨h.room, by rintro _ ⟨⟩⟩⟩
  | scans timeUs =>
      refine ⟨_, _, rfl, fun _ => ⟨?_, by rintro _ ⟨⟩⟩⟩
      have hle := jitPeekScan_numPkt_le timeUs (q := s.queue) 0 none
      exact le_trans (Nat.add_le_add_right hle _) h.room
  | chooses index i hne =>
      have hpos := jitQueueIsEmpty_eq_false_iff.1 (Bool.eq_false_iff.2 hne)
      exact ⟨_, _, rfl, fun _ => ⟨h.room, fun _ _ => hpos⟩⟩
  | removes index hc =>
      obtain ⟨s', heq, hinv⟩ := h.remove tgt hc
      rw [hstep] at heq
      exact ⟨_, s', Option.some.inj heq, fun _ => hinv⟩

theorem ConcInv.withinCapacity (tgt : Target) {s : ConcState} (h : ConcInv s) :
    WithinCapacity tgt s := by
  refine ⟨h.bounded, ?_, ?_, ?_⟩
  · intro e r hstep
    obtain ⟨code, s', rfl, -⟩ := h.step hstep
    exact ⟨_, rfl⟩
  · intro call hfull
    rw [concStep, if_pos]
    rw [jitQueueIsFull, hfull]
    rfl
  · -- a full queue has no producer between its sections
    intro k r hfull hstep
    cases hk : s.producers[k]? with
    | none =>
      rw [concStep, hk] at hstep
      cases hstep
    | some call => exact absurd hfull (Nat.ne_of_lt (h.producer_room hk))

/-- Every run in which a call passes the full test only while there is room for it and for all
calls between their sections stays within the capacity. -/
theorem reachable_capacity (tgt : Target) :
    ∀ s, Reachable (· = concStart) (Guarded RoomForAll (ConcStep tgt)) s →
      WithinCapacity tgt s := by
  intro s hreach
  have hinv : ConcInv s := by
    refine hreach.invariant ?_ ?_
    · rintro s rfl
      exact concInv_concStart
    · rintro s e t hs ⟨hok, code, hstep⟩
      obtain ⟨code', s', heq, hkeep⟩ := hs.step hstep
      cases heq
      exact hkeep hok
  exact hinv.withinCapacity tgt

/-- The state after the sections `es`, where each of them can run and stays inside the array. -/
def concRun (tgt : Target) (s : ConcState) : List ConcEvent → Option ConcState
  | [] => some s
  | e :: es =>
      match concStep tgt s e with
      | some (.ok (_, s')) => concRun tgt s' es
      | _ => none

theorem concRun_cons {tgt : Target} {s s' : ConcState} {e : ConcEvent} {es : List ConcEvent}
    {code : Option JitError} (h : concStep tgt s e = some (.ok (code, s'))) :
    concRun tgt s (e :: es) = concRun tgt s' es := by
  rw [concRun, h]

theorem run_concRun {tgt : Target} {s t : ConcState} {es : List ConcEvent}
    (h : concRun tgt s es = some t) : Run (ConcStep tgt) s es t := by
  induction es generalizing s with
  | nil =>
    cases h
    exact Run.nil _
  | cons e es ih =>
    rw [concRun] at h
    split at h
    · next code s' heq => exact Run.cons ⟨code, heq⟩ (ih h)
    · cases h

/-- The call that enqueues a class A packet of a few milliseconds for `0.1 (k + 1)` s. -/
def spacedCall (k : Nat) : EnqueueCall :=
  ⟨0#32, fskPacket 50000#32 5#16 20#16 (BitVec.ofNat 32 (100000 * (k + 1))), .downlinkClassA⟩

/-- Two producers pass the full test and the first of them goes on. -/
theorem reachable_capacity_two :
    ∃ s, concRun fskTarget concStart
        [.enqueueTest (spacedCall 0), .enqueueTest (spacedCall 1), .enqueueInsert 1] = some s ∧
      s.queue.numPkt = 1#8 ∧ WithinCapacity fskTarget s := by
  let s1 : ConcState := ⟨jitQueueInit, [spacedCall 0], .idle⟩
  let s2 : ConcState := ⟨jitQueueInit, [spacedCall 1, spacedCall 0], .idle⟩
  have h1 : concStep fskTarget concStart (.enqueueTest (spacedCall 0)) = some (.ok (none, s1)) :=
    rfl
  have h2 : concStep fskTarget s1 (.enqueueTest (spacedCall 1)) = some (.ok (none, s2)) := rfl
  have hinv : ConcInv s2 := ⟨by decide, by rintro _ ⟨⟩⟩
  obtain ⟨code, s3, h3, -⟩ := hinv.insert fskTarget (show s2.producers[1]? = some _ from rfl)
  have hrun : Run (Guarded RoomForAll (ConcStep fskTarget)) concStart _ s3 :=
    Run.cons ⟨fun _ _ _ => by decide, _, h1⟩ (Run.cons ⟨fun _ _ _ => by decide, _, h2⟩
      (Run.cons ⟨by rintro _ ⟨⟩, _, h3⟩ (Run.nil s3)))
  have hcount : (concRun fskTarget concStart
      [.enqueueTest (spacedCall 0), .enqueueTest (spacedCall 1), .enqueueInsert 1]).map
        (fun s => s.queue.numPkt) = some 1#8 := by decide +kernel
  have hs3 : concRun fskTarget concStart
      [.enqueueTest (spacedCall 0), .enqueueTest (spacedCall 1), .enqueueInsert 1] = some s3 := by
    rw [concRun_cons h1, concRun_cons h2, concRun_cons h3, concRun]
  rw [hs3, Option.map_some, Option.some.injEq] at hcount
  exact ⟨s3, hs3, hcount, reachable_capacity fskTarget s3 hrun.reachable⟩

/-- The sections that fill 31 nodes one call after the other, then the full tests of two producers
and the insertion of the later one. -/
def twoAtLastNode : List ConcEvent :=
  (List.range 31).flatMap (fun k => [.enqueueTest (spacedCall k), .enqueueInsert 0]) ++
    [.enqueueTest (spacedCall 31), .enqueueTest (spacedCall 32), .enqueueInsert 0]

/-- Two producers pass the full test at the last free node, and the second one writes node 32. -/
theorem two_producers_overflow :
    ¬ ∀ s, Reachable (· = concStart) (ConcStep fskTarget) s → WithinCapacity fskTarget s := by
  intro h
  have hfault : ((concRun fskTarget concStart twoAtLastNode).bind fun s =>
      (concStep fskTarget s (.enqueueInsert 0)).map fun r => r.toOption.isNone) = some true := by
    decide +kernel
  obtain ⟨s, hs, hr⟩ := Option.bind_eq_some_iff.1 hfault
  obtain ⟨r, hstep, hnone⟩ := Option.map_eq_some_iff.1 hr
  obtain ⟨out, rfl⟩ := (h s (run_concRun hs).reachable).inside _ r hstep
  cases hnone

end DraginoFwd.Jit

import DraginoFwd.Uplink.Fanout

/-!
# The age of a batch

`thread_rxpkt_recycle` drops a batch when every service has it, or when more than three seconds of
concentrator time lie between its counter and `cur_hal_time`, the counter as `thread_jit` has last
sampled it. The state of this module is the list of batches together with the real concentrator
time, which does not wrap; the counter is its low 32 bits.

The difference of the two counters is the age at the time of the sample, provided that the batch
carries the counter of its reception and the sample is no older than it (`unsigned_age_le`). Then no
batch is dropped too early (`recycle_keepsYoung`). A batch that is newer than the sample has an age
of more than an hour (`newer_than_sample_dropped`).
-/

set_option autoImplicit false

namespace DraginoFwd.Uplink

open DraginoFwd.Hal
open DraginoFwd.Lib.Transition

/-- The counter of the concentrator at a time in microseconds. -/
def counterAt (time : Nat) : BitVec 32 := BitVec.ofNat 32 time

/-- `rxpkt[0].count_us` -/
def RxBatch.entryUs (batch : RxBatch) : BitVec 32 := (batch.packets.head batch.nonempty).countUs

/-- The batches, the time, the time of the last sample of `cur_hal_time`, and the time of reception
of each batch by its serial number. -/
structure RecycleState where
  fan : FanState
  now : Nat
  sampledAt : Nat
  receivedAt : Nat → Nat

/-- `cur_hal_time` -/
def RecycleState.curHalTime (s : RecycleState) : BitVec 32 := counterAt s.sampledAt

/-- Time passes, `thread_jit` samples the counter, `thread_up` inserts a batch whose first packet
comes from the radio or from the ghost stream, a service takes a batch, or the recycler passes. -/
inductive RecycleEvent where
  | elapse (us : Nat)
  | sample
  | radio (receivedAt : Nat) (batch : RxBatch)
  | ghost (batch : RxBatch)
  | getRxpkt (service : Service)
  | recycle

/-- The insertion of `thread_up`. -/
def RecycleState.threadUp (services : List Service) (s : RecycleState) (receivedAt : Nat)
    (batch : RxBatch) : Option RecycleState :=
  (fanStep services s.fan (.threadUp batch.entryUs batch)).map fun fan =>
    { s with
      fan := fan
      receivedAt := Function.update s.receivedAt s.fan.inserted receivedAt }

/-- One step, for the services in the list. A packet from the radio has the counter of its
reception. -/
def recycleStep (services : List Service) (s : RecycleState) : RecycleEvent → Option RecycleState
  | .elapse us => some { s with now := s.now + us }
  | .sample => some { s with sampledAt := s.now }
  | .radio receivedAt batch =>
      if receivedAt ≤ s.now ∧ batch.entryUs = counterAt receivedAt then
        s.threadUp services receivedAt batch
      else none
  | .ghost batch => s.threadUp services s.now batch
  | .getRxpkt service =>
      (fanStep services s.fan (.getRxpkt service)).map fun fan => { s with fan := fan }
  | .recycle =>
      (fanStep services s.fan (.recycle s.curHalTime)).map fun fan => { s with fan := fan }

/-- Nothing received, and the counter at zero. -/
def recycleStart : RecycleState := ⟨fanStart, 0, 0, fun _ => 0⟩

/-! ## The condition and the property -/

/-- Every service has obtained the batch. -/
def ObtainedByAll (services : List Service) (s : RecycleState) (entry : Rxpkts) : Prop :=
  ∀ service ∈ services, (service, entry.serial) ∈ s.fan.log

instance (services : List Service) (s : RecycleState) (entry : Rxpkts) :
    Decidable (ObtainedByAll services s entry) :=
  inferInstanceAs (Decidable (∀ service ∈ services, _))

/-- More than three seconds have elapsed since the reception. -/
def Elapsed (s : RecycleState) (entry : Rxpkts) : Prop :=
  s.receivedAt entry.serial + 3000000 < s.now

instance (s : RecycleState) (entry : Rxpkts) : Decidable (Elapsed s entry) :=
  inferInstanceAs (Decidable (_ < _))

/-- A batch that a step takes from the list has been obtained by every service, or is more than
three seconds old. -/
def KeepsYoung (services : List Service) (s t : RecycleState) : Prop :=
  ∀ entry ∈ s.fan.rxpktsList, entry.serial ∉ t.fan.rxpktsList.map Rxpkts.serial →
    ObtainedByAll services s entry ∨ Elapsed s entry

/-- When a pass of the recycler runs over the list, every young batch that some service lacks
carries the counter of its reception, and `cur_hal_time` has been sampled since. -/
def SampledSince (services : List Service) (s : RecycleState) : RecycleEvent → Prop
  | .recycle => rxpktsListSize < s.fan.rxpktsList.length → ∀ entry ∈ s.fan.rxpktsList,
      ObtainedByAll services s entry ∨ Elapsed s entry ∨
        (entry.entryUs = counterAt (s.receivedAt entry.serial) ∧
          s.receivedAt entry.serial ≤ s.sampledAt)
  | _ => True

instance (services : List Service) (s : RecycleState) :
    ∀ e, Decidable (SampledSince services s e)
  | .recycle => inferInstanceAs (Decidable (_ → ∀ entry ∈ _, _))
  | .elapse _ | .sample | .radio _ _ | .ghost _ | .getRxpkt _ => inferInstanceAs (Decidable True)

/-- `bind` starts at the number of services, or so far above the number of those that can take a
batch that it never comes down to zero. -/
def BindHolds (services : List Service) : Prop :=
  services.length < 256 ∨
    (services.countP fun service => service.number < 8) < services.length % 256

/-! ## Ages -/

/-- The difference of the two counters is at most the time from the reception to the sample. -/
theorem unsigned_age_le {receivedAt sampledAt : Nat} (h : receivedAt ≤ sampledAt) :
    (counterAt sampledAt - counterAt receivedAt).toNat ≤ sampledAt - receivedAt := by
  simp only [counterAt, BitVec.toNat_sub, BitVec.toNat_ofNat]
  omega

/-- A `bind` of zero means that every service has obtained the batch. -/
theorem BatchInv.obtainedByAll {services : List Service} (hbind : BindHolds services)
    {s : FanState} (h : BatchInv services s) {entry : Rxpkts} (hentry : entry ∈ s.rxpktsList)
    (hzero : entry.bind = 0#8) : ∀ service ∈ services, (service, entry.serial) ∈ s.log := by
  have hmod : waiting services s.log entry.serial % 256 = 0 := by
    have hval := congrArg BitVec.toNat ((h.entries entry hentry).bind.symm.trans hzero)
    simpa [BitVec.toNat_ofNat] using hval
  have hle : waiting services s.log entry.serial ≤ services.length := List.countP_le_length
  rcases hbind with hfew | hmany
  · -- the count has not wrapped
    have hnone : waiting services s.log entry.serial = 0 := by omega
    rw [waiting, List.countP_eq_zero] at hnone
    intro service hmem
    simpa using hnone service hmem
  · -- those that have obtained the batch have a bit, and there are too few of them
    exfalso
    have hsplit : services.length = waiting services s.log entry.serial +
        services.countP fun service => (service, entry.serial) ∈ s.log := by
      rw [waiting, List.length_eq_countP_add_countP fun service =>
        decide ((service, entry.serial) ∉ s.log)]
      congr 1
      apply List.countP_congr
      simp
    have hbits : (services.countP fun service => (service, entry.serial) ∈ s.log) ≤
        services.countP fun service => service.number < 8 := by
      apply List.countP_mono_left
      intro service _ hmem
      have hlog : (service, entry.serial) ∈ s.log := by simpa using hmem
      simpa using h.logBit service entry.serial hlog
    omega

/-! ## Steps and runs -/

/-- What a run keeps: the records of the batches, and a sample that is not ahead of the time. -/
structure RecycleInv (services : List Service) (s : RecycleState) : Prop where
  batches : BatchInv services s.fan
  sampled : s.sampledAt ≤ s.now

theorem recycleInv_start (services : List Service) : RecycleInv services recycleStart :=
  ⟨batchInv_start services, le_rfl⟩

/-- A step of the list keeps the invariant. -/
theorem RecycleInv.of_fanStep {services : List Service} (hnodup : services.Nodup)
    {s t : RecycleState} (h : RecycleInv services s) {e : FanEvent}
    (hstep : fanStep services s.fan e = some t.fan) (hnow : t.now = s.now)
    (hsampled : t.sampledAt = s.sampledAt) : RecycleInv services t := by
  refine ⟨batchInv_step hnodup h.batches hstep, ?_⟩
  rw [hnow, hsampled]
  exact h.sampled

theorem RecycleInv.step {services : List Service} (hnodup : services.Nodup) {s t : RecycleState}
    {e : RecycleEvent} (h : RecycleInv services s) (hstep : recycleStep services s e = some t) :
    RecycleInv services t := by
  cases e with
  | elapse us =>
    cases hstep
    exact ⟨h.batches, le_trans h.sampled (Nat.le_add_right _ _)⟩
  | sample =>
    cases hstep
    exact ⟨h.batches, le_rfl⟩
  | radio receivedAt batch =>
    rw [recycleStep] at hstep
    split at hstep
    · cases hstep
      exact h.of_fanStep hnodup (e := .threadUp batch.entryUs batch) rfl rfl rfl
    · cases hstep
  | ghost batch =>
    cases hstep
    exact h.of_fanStep hnodup (e := .threadUp batch.entryUs batch) rfl rfl rfl
  | getRxpkt service =>
    obtain ⟨fan, hfan, rfl⟩ := Option.map_eq_some_iff.1 hstep
    exact h.of_fanStep hnodup hfan rfl rfl
  | recycle =>
    cases hstep
    exact h.of_fanStep hnodup (e := .recycle s.curHalTime) rfl rfl rfl

/-- A pass drops nothing too early when the counters can be compared. -/
theorem RecycleInv.recycle {services : List Service} (hbind : BindHolds services)
    {s : RecycleState} (h : RecycleInv services s) (hok : SampledSince services s .recycle)
    {entry : Rxpkts} (hentry : entry ∈ s.fan.rxpktsList)
    (hgone : entry ∉ recycle s.curHalTime s.fan.rxpktsList) :
    ObtainedByAll services s entry ∨ Elapsed s entry := by
  rw [Uplink.recycle] at hgone
  split at hgone
  · next hsize =>
    -- the batch fails one of the two tests of the pass
    have hdrop : 3000000#32 < s.curHalTime - entry.entryUs ∨ entry.bind < 1#8 := by
      by_contra hkeep
      apply hgone
      rw [List.mem_filter]
      exact ⟨hentry, by simpa using hkeep⟩
    rcases hok hsize entry hentry with hall | hold | ⟨hstamp, hsince⟩
    · exact Or.inl hall
    · exact Or.inr hold
    · rcases hdrop with hage | hnone
      · -- the age at the sample bounds the age now from below
        right
        have hle := unsigned_age_le hsince
        have hsampled := h.sampled
        rw [hstamp, RecycleState.curHalTime] at hage
        have hage' : 3000000 < (counterAt s.sampledAt -
            counterAt (s.receivedAt entry.serial)).toNat := hage
        unfold Elapsed
        omega
      · left
        have hzero : entry.bind = 0#8 := by bv_omega
        exact h.batches.obtainedByAll hbind hentry hzero
  · exact absurd hentry hgone

/-- Only a pass of the recycler takes batches from the list. -/
theorem serial_mem_of_step {services : List Service} {s t : RecycleState} {e : RecycleEvent}
    (hstep : recycleStep services s e = some t) (hne : e ≠ .recycle) {entry : Rxpkts}
    (hentry : entry ∈ s.fan.rxpktsList) : entry.serial ∈ t.fan.rxpktsList.map Rxpkts.serial := by
  have hmem := List.mem_map_of_mem (f := Rxpkts.serial) hentry
  cases e with
  | elapse us =>
    cases hstep
    exact hmem
  | sample =>
    cases hstep
    exact hmem
  | radio receivedAt batch =>
    rw [recycleStep] at hstep
    split at hstep
    · cases hstep
      exact List.mem_cons_of_mem _ hmem
    · cases hstep
  | ghost batch =>
    cases hstep
    exact List.mem_cons_of_mem _ hmem
  | getRxpkt service =>
    obtain ⟨fan, hfan, rfl⟩ := Option.map_eq_some_iff.1 hstep
    rw [fanStep] at hfan
    split at hfan
    · cases hfan
      show entry.serial ∈ (getRxpkt service s.fan.rxpktsList).2.2.map Rxpkts.serial
      rw [getRxpkt_serials]
      exact hmem
    · cases hfan
  | recycle => exact absurd rfl hne

/-- In every run whose recycler passes meet the condition, no step takes a batch from the list too
early. -/
theorem recycle_keepsYoung (confs : List ServerConf) (hbind : BindHolds (servList confs)) :
    ∀ s, Reachable (· = recycleStart)
        (Guarded (SampledSince (servList confs)) (Steps (recycleStep (servList confs)))) s →
      ∀ e t, Guarded (SampledSince (servList confs)) (Steps (recycleStep (servList confs))) s e t →
        KeepsYoung (servList confs) s t := by
  intro s hreach e t ⟨hok, hstep⟩ entry hentry hgone
  have hinv : RecycleInv (servList confs) s := by
    apply hreach.invariant
    · rintro s rfl
      exact recycleInv_start _
    · rintro s e t hs ⟨-, hst⟩
      exact hs.step (nodup_servList confs) hst
  by_cases hevent : e = .recycle
  · subst hevent
    cases hstep
    apply hinv.recycle hbind hok hentry
    intro hmem
    exact hgone (List.mem_map_of_mem hmem)
  · exact absurd (serial_mem_of_step hstep hevent hentry) hgone

/-- A configuration of one server. -/
def oneServer : List ServerConf := [⟨true, some "server", some "address"⟩]

/-- A batch of one packet that the radio received at the given time. -/
def batchAt (receivedAt : Nat) : RxBatch :=
  ⟨[{ LgwPktRx.ofBytes [] with countUs := counterAt receivedAt }], List.cons_ne_nil _ _, by simp⟩

/-- Batches at distances of ten milliseconds, behind the given time. -/
def batchesFrom (start count : Nat) : List RecycleEvent :=
  (List.range count).flatMap fun k =>
    [.elapse 10000, .radio (start + 10000 * (k + 1)) (batchAt (start + 10000 * (k + 1)))]

/-- One batch, and eight more from four seconds later on, with a sample behind them. -/
def oneOldBatch : List RecycleEvent :=
  [.elapse 1000, .radio 1000 (batchAt 1000), .elapse 4000000] ++ batchesFrom 4001000 8 ++
    [.elapse 10, .sample]

/-- The pass drops the old batch and keeps the others. -/
theorem recycle_keepsYoung_old :
    BindHolds (servList oneServer) ∧ ∃ s t,
      exec (guardedBy (SampledSince (servList oneServer)) (recycleStep (servList oneServer)))
        recycleStart oneOldBatch = some s ∧
      guardedBy (SampledSince (servList oneServer)) (recycleStep (servList oneServer)) s .recycle =
        some t ∧
      t.fan.rxpktsList.map Rxpkts.serial = [8, 7, 6, 5, 4, 3, 2, 1] ∧
      KeepsYoung (servList oneServer) s t := by
  have hbind : BindHolds (servList oneServer) := Or.inl (by decide)
  have hrun : ((exec (guardedBy (SampledSince (servList oneServer))
      (recycleStep (servList oneServer))) recycleStart oneOldBatch).bind fun s =>
        (guardedBy (SampledSince (servList oneServer)) (recycleStep (servList oneServer)) s
          .recycle).map fun t => t.fan.rxpktsList.map Rxpkts.serial) =
      some [8, 7, 6, 5, 4, 3, 2, 1] := by
    decide +kernel
  obtain ⟨s, hs, hnext⟩ := Option.bind_eq_some_iff.1 hrun
  obtain ⟨t, ht, hserials⟩ := Option.map_eq_some_iff.1 hnext
  refine ⟨hbind, s, t, hs, ht, hserials, ?_⟩
  exact recycle_keepsYoung oneServer hbind s (Run.of_exec_guardedBy hs).reachable .recycle t
    (Guarded.of_guardedBy ht)

/-- Nine batches within a tenth of a second of the last sample. -/
def nineNewBatches : List RecycleEvent := .sample :: batchesFrom 0 9

/-- Batches that are newer than the sample are dropped at once, and nobody has obtained them. -/
theorem newer_than_sample_dropped :
    ¬ ∀ s, Reachable (· = recycleStart) (Steps (recycleStep (servList oneServer))) s →
      ∀ e t, Steps (recycleStep (servList oneServer)) s e t →
        KeepsYoung (servList oneServer) s t := by
  intro h
  have hrun : ((exec (recycleStep (servList oneServer)) recycleStart nineNewBatches).bind fun s =>
      (recycleStep (servList oneServer) s .recycle).map fun t =>
        ((s.fan.rxpktsList.map Rxpkts.serial).contains 0, t.fan.rxpktsList.map Rxpkts.serial,
          s.fan.log, s.receivedAt 0, s.now)) = some (true, [], [], 10000, 90000) := by
    decide +kernel
  obtain ⟨s, hs, hnext⟩ := Option.bind_eq_some_iff.1 hrun
  obtain ⟨t, ht, hend⟩ := Option.map_eq_some_iff.1 hnext
  simp only [Prod.mk.injEq] at hend
  obtain ⟨hlisted, hdropped, hlog, hreceived, hnow⟩ := hend
  obtain ⟨entry, hentry, hserial⟩ := List.mem_map.1 (List.contains_iff_mem.1 hlisted)
  have hkeep := h s (Run.of_exec hs).reachable .recycle t ht entry hentry (by simp [hdropped])
  rcases hkeep with hall | hold
  · have hpkt := hall .pkt (by decide)
    rw [hlog] at hpkt
    cases hpkt
  · unfold Elapsed at hold
    rw [hserial, hreceived, hnow] at hold
    omega

end DraginoFwd.Uplink

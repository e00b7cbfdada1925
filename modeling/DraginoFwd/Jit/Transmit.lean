import DraginoFwd.Jit.Lbt

/-!
# What becomes of a dequeued packet

`transmitStep` is `thread_jit`: it goes from one radio chain to the next, and on each it peeks,
dequeues, asks `lgw_status`, looks up the channel and calls `lgw_send`. The other threads may change
the queues and the slots of the channel scan between any two of its steps, and fetch and clear the
counters.

Every packet that is taken out of a queue is to be sent or refused, and to be counted once in
`tx_ok` or `tx_fail` (`Accounted`). `accounted_iff` says of any run that this is so just when
`lgw_status` has reported `TX_EMITTING` for no packet: that path drops the packet without a count.
-/

set_option autoImplicit false

namespace DraginoFwd.Jit

open DraginoFwd.Hal
open DraginoFwd.Lib.Memory
open DraginoFwd.Lib.Transition

/-- `TX_SCHEDULED` -/
def txScheduled : BitVec 8 := 3#8
/-- `TX_EMITTING` -/
def txEmitting : BitVec 8 := 4#8

/-- `LGW_HAL_ERROR` -/
def lgwHalError : Int := -1
/-- `LGW_LBT_ISSUE` -/
def lgwLbtIssue : Int := 1

/-- What `thread_jit` does with a packet: `lgw_send`, no call because the channel is not free, and
the count in `meas_nb_tx_ok` or `meas_nb_tx_fail`. -/
inductive TxAction where
  | send (pkt : LgwPktTx)
  | refuse
  | countOk
  | countFail
  deriving DecidableEq

namespace TxAction

/-- The packet is handed over or refused. -/
def handles : TxAction → Bool
  | .send _ | .refuse => true
  | .countOk | .countFail => false

/-- The packet is counted. -/
def counts : TxAction → Bool
  | .send _ | .refuse => false
  | .countOk | .countFail => true

end TxAction

/-- What the thread finds outside during one transmission. `status` is what `lgw_status` reports,
`none` if it fails, and `sendResult` what `lgw_send` would return. -/
structure TxEnv where
  status : Option (BitVec 8)
  lbtTtyEnabled : Bool
  sendResult : Int

/-- The count for a result. -/
def txCount (result : Int) : TxAction :=
  if result = lgwHalError then .countFail
  else if result = lgwLbtIssue then .countFail
  else .countOk

/-- The variable `chanisfree` of `thread_jit`, which lives across the packets: without the channel
scan it is left as it is. -/
def channelFree (env : TxEnv) (lbtStat : LbtStat) (chanIsFree : Bool) (pkt : LgwPktTx) : Bool :=
  if env.lbtTtyEnabled then (lbtLookup lbtStat pkt.countUs).getD false else chanIsFree

/-- `thread_jit` behind a `jit_dequeue`: `chanisfree`, and what is done. -/
def transmit (env : TxEnv) (lbtStat : LbtStat) (chanIsFree : Bool) (pkt : LgwPktTx) :
    Bool × List TxAction :=
  -- a failure of `lgw_status` is logged and ignored, and so is `TX_SCHEDULED`
  if env.status = some txEmitting then (chanIsFree, [])
  else
    (channelFree env lbtStat chanIsFree pkt,
      if channelFree env lbtStat chanIsFree pkt then [.send pkt, txCount env.sendResult]
      else [.refuse, txCount lgwLbtIssue])

/-- A packet that has been dealt with: as it was in the queue, the status that was reported, and
what was done. -/
structure Fate where
  pkt : LgwPktTx
  status : Option (BitVec 8)
  actions : List TxAction

/-- Where `thread_jit` is: at a radio chain, behind the peek, or behind the dequeue, with the packet
as it was in the queue and as it is to be sent. -/
inductive TransmitPhase where
  | atChain (i : Fin lgwRfChainNb)
  | peeked (i : Fin lgwRfChainNb) (pktIndex : Fin jitQueueMax)
  | dequeued (i : Fin lgwRfChainNb) (removed pkt : LgwPktTx)

/-- The queues, the slots, the thread with its variable, and the counters. `fetchedOk` and
`fetchedFail` are what the statistics have fetched so far; `removed` are the packets that
`jit_dequeue` has given out, and `fates` those that are done. -/
structure TransmitState where
  queues : Fin lgwRfChainNb → JitQueue
  lbtStat : LbtStat
  phase : TransmitPhase
  chanIsFree : Bool
  txOk : BitVec 32
  txFail : BitVec 32
  beaconSent : BitVec 32
  fetchedOk : BitVec 32
  fetchedFail : BitVec 32
  removed : List LgwPktTx
  fates : List Fate

/-- A step: of another thread on the queues and the slots, of the statistics, or of `thread_jit`.
`xtalCorrect` is the correction of a frequency. -/
inductive TransmitEvent where
  | others (queues : Fin lgwRfChainNb → JitQueue) (lbtStat : LbtStat)
  | fetch
  | peek (timeUs : BitVec 32)
  | dequeue (xtalCorrect : BitVec 32 → BitVec 32)
  | transmit (env : TxEnv)

/-- Behind a peek: with no packet that is due the thread goes on to the next chain. -/
def behindPeek (i : Fin lgwRfChainNb) : Option (Fin jitQueueMax) → TransmitPhase
  | some pktIndex => .peeked i pktIndex
  | none => .atChain (i + 1)

/-- The number of times an action occurs. -/
def countAction (action : TxAction) (actions : List TxAction) : BitVec 32 :=
  BitVec.ofNat 32 (actions.count action)

/-- One step, where it can happen and stays inside the array of the queue. -/
def transmitStep (s : TransmitState) : TransmitEvent → Option TransmitState
  | .others queues lbtStat => some { s with queues := queues, lbtStat := lbtStat }
  | .fetch =>
      some { s with
        fetchedOk := s.fetchedOk + s.txOk
        fetchedFail := s.fetchedFail + s.txFail
        txOk := 0#32
        txFail := 0#32
        beaconSent := 0#32 }
  | .peek timeUs =>
      match s.phase with
      | .atChain i =>
          let (_, pktIndex, q) := jitPeek (s.queues i) timeUs
          some { s with
            queues := Function.update s.queues i q
            phase := behindPeek i pktIndex }
      | _ => none
  | .dequeue xtalCorrect =>
      match s.phase with
      | .peeked i pktIndex =>
          match jitDequeue (s.queues i) pktIndex.val with
          | .ok (_, some (pkt, pktType), q) =>
              let beacon := pktType = .beacon
              some { s with
                queues := Function.update s.queues i q
                phase := .dequeued i pkt
                  (if beacon then { pkt with freqHz := xtalCorrect pkt.freqHz } else pkt)
                beaconSent := if beacon then s.beaconSent + 1#32 else s.beaconSent
                removed := s.removed ++ [pkt] }
          | .ok (_, none, q) =>
              some { s with queues := Function.update s.queues i q, phase := .atChain (i + 1) }
          | .error _ => none
      | _ => none
  | .transmit env =>
      match s.phase with
      | .dequeued i removed pkt =>
          let (chanIsFree, actions) := transmit env s.lbtStat s.chanIsFree pkt
          some { s with
            phase := .atChain (i + 1)
            chanIsFree := chanIsFree
            txOk := s.txOk + countAction .countOk actions
            txFail := s.txFail + countAction .countFail actions
            fates := s.fates ++ [⟨removed, env.status, actions⟩] }
      | _ => none

/-- The thread starts, with any queues and slots. -/
def transmitStart (queues : Fin lgwRfChainNb → JitQueue) (lbtStat : LbtStat) : TransmitState where
  queues := queues
  lbtStat := lbtStat
  phase := .atChain 0
  chanIsFree := true
  txOk := 0#32
  txFail := 0#32
  beaconSent := 0#32
  fetchedOk := 0#32
  fetchedFail := 0#32
  removed := []
  fates := []

/-! ## The condition and the property -/

/-- The packet that has been dequeued and is not done. -/
def TransmitState.inFlight (s : TransmitState) : List LgwPktTx :=
  match s.phase with
  | .dequeued _ removed _ => [removed]
  | _ => []

/-- All that has been done. -/
def TransmitState.actions (s : TransmitState) : List TxAction := s.fates.flatMap fun f => f.actions

/-- The packet has been handed to `lgw_send`, but for the frequency of a beacon as it was in the
queue, or refused, and has been counted once; and it has not been sent while the concentrator was
emitting. -/
structure Fate.Accounted (f : Fate) : Prop where
  handled : f.actions.countP TxAction.handles = 1
  counted : f.actions.countP TxAction.counts = 1
  same : ∀ pkt, TxAction.send pkt ∈ f.actions → { pkt with freqHz := f.pkt.freqHz } = f.pkt
  notEmitting : f.status = some txEmitting → ∀ pkt, TxAction.send pkt ∉ f.actions

/-- Every packet that was removed is on its way or accounted for, and the counters are the numbers
of packets. -/
structure TransmitState.Accounted (s : TransmitState) : Prop where
  complete : s.removed = s.fates.map (fun f => f.pkt) ++ s.inFlight
  fates : ∀ f ∈ s.fates, f.Accounted
  txOk : s.fetchedOk + s.txOk = countAction .countOk s.actions
  txFail : s.fetchedFail + s.txFail = countAction .countFail s.actions

/-- The status that a step reports. -/
def TransmitEvent.status : TransmitEvent → Option (Option (BitVec 8))
  | .transmit env => some env.status
  | _ => none

/-! ## What a step can be -/

/-- The packet is as it was in the queue, but for its frequency. -/
def SamePacket (removed pkt : LgwPktTx) : Prop := { pkt with freqHz := removed.freqHz } = removed

/-- A step, with the state of the thread that it needs. -/
inductive TransmitCase (s : TransmitState) : TransmitEvent → TransmitState → Prop where
  | others (queues : Fin lgwRfChainNb → JitQueue) (lbtStat : LbtStat) :
      TransmitCase s (.others queues lbtStat) { s with queues := queues, lbtStat := lbtStat }
  | fetch :
      TransmitCase s .fetch
        { s with
          fetchedOk := s.fetchedOk + s.txOk
          fetchedFail := s.fetchedFail + s.txFail
          txOk := 0#32
          txFail := 0#32
          beaconSent := 0#32 }
  | peek (timeUs : BitVec 32) (i : Fin lgwRfChainNb) (hphase : s.phase = .atChain i) :
      TransmitCase s (.peek timeUs)
        { s with
          queues := Function.update s.queues i (jitPeek (s.queues i) timeUs).2.2
          phase := behindPeek i (jitPeek (s.queues i) timeUs).2.1 }
  | removes (xtalCorrect : BitVec 32 → BitVec 32) (i : Fin lgwRfChainNb)
      (pktIndex : Fin jitQueueMax) (hphase : s.phase = .peeked i pktIndex) (code : JitError)
      (removed pkt : LgwPktTx) (pktType : JitPktType) (q : JitQueue) (beaconSent : BitVec 32)
      (hdequeue : jitDequeue (s.queues i) pktIndex.val = .ok (code, some (removed, pktType), q))
      (hsame : SamePacket removed pkt) :
      TransmitCase s (.dequeue xtalCorrect)
        { s with
          queues := Function.update s.queues i q
          phase := .dequeued i removed pkt
          beaconSent := beaconSent
          removed := s.removed ++ [removed] }
  | misses (xtalCorrect : BitVec 32 → BitVec 32) (i : Fin lgwRfChainNb)
      (pktIndex : Fin jitQueueMax) (hphase : s.phase = .peeked i pktIndex) (code : JitError)
      (q : JitQueue) (hdequeue : jitDequeue (s.queues i) pktIndex.val = .ok (code, none, q)) :
      TransmitCase s (.dequeue xtalCorrect)
        { s with queues := Function.update s.queues i q, phase := .atChain (i + 1) }
  | transmit (env : TxEnv) (i : Fin lgwRfChainNb) (removed pkt : LgwPktTx)
      (hphase : s.phase = .dequeued i removed pkt) :
      TransmitCase s (.transmit env)
        { s with
          phase := .atChain (i + 1)
          chanIsFree := (transmit env s.lbtStat s.chanIsFree pkt).1
          txOk := s.txOk + countAction .countOk (transmit env s.lbtStat s.chanIsFree pkt).2
          txFail := s.txFail + countAction .countFail (transmit env s.lbtStat s.chanIsFree pkt).2
          fates := s.fates ++
            [⟨removed, env.status, (transmit env s.lbtStat s.chanIsFree pkt).2⟩] }

theorem transmitStep_case {s t : TransmitState} {e : TransmitEvent}
    (hstep : transmitStep s e = some t) : TransmitCase s e t := by
  cases e with
  | others queues lbtStat =>
      cases hstep
      exact .others queues lbtStat
  | fetch =>
      cases hstep
      exact .fetch
  | peek timeUs =>
      cases hphase : s.phase with
      | atChain i =>
          simp only [transmitStep, hphase] at hstep
          cases hstep
          exact .peek timeUs i hphase
      | _ => simp [transmitStep, hphase] at hstep
  | dequeue xtalCorrect =>
      cases hphase : s.phase with
      | peeked i pktIndex =>
          rw [transmitStep, hphase] at hstep
          simp only at hstep
          split at hstep
          · next code removed pktType q hdequeue =>
            cases hstep
            refine .removes xtalCorrect i pktIndex hphase code removed _ pktType q _ hdequeue ?_
            -- only the frequency of a beacon is corrected
            rw [SamePacket]
            split_ifs <;> rfl
          · next code q hdequeue =>
            cases hstep
            exact .misses xtalCorrect i pktIndex hphase code q hdequeue
          · cases hstep
      | _ => simp [transmitStep, hphase] at hstep
  | transmit env =>
      cases hphase : s.phase with
      | dequeued i removed pkt =>
          simp only [transmitStep, hphase] at hstep
          cases hstep
          exact .transmit env i removed pkt hphase
      | _ => simp [transmitStep, hphase] at hstep

/-! ## One packet -/

theorem counts_txCount (result : Int) : (txCount result).counts = true := by
  rw [txCount]
  split_ifs <;> rfl

theorem handles_txCount (result : Int) : (txCount result).handles = false := by
  rw [txCount]
  split_ifs <;> rfl

theorem txCount_ne_send (result : Int) (pkt : LgwPktTx) : TxAction.send pkt ≠ txCount result := by
  rw [txCount]
  split_ifs <;> exact TxAction.noConfusion

/-- A packet is left alone while the concentrator is emitting. -/
theorem transmit_emitting {env : TxEnv} (h : env.status = some txEmitting) (lbtStat : LbtStat)
    (chanIsFree : Bool) (pkt : LgwPktTx) : (transmit env lbtStat chanIsFree pkt).2 = [] := by
  rw [transmit, if_pos h]

/-- Otherwise it is sent or refused, and counted. -/
theorem transmit_actions {env : TxEnv} (h : env.status ≠ some txEmitting) (lbtStat : LbtStat)
    (chanIsFree : Bool) (pkt : LgwPktTx) :
    ∃ handling result, (handling = TxAction.send pkt ∨ handling = .refuse) ∧
      (transmit env lbtStat chanIsFree pkt).2 = [handling, txCount result] := by
  rw [transmit, if_neg h]
  by_cases hfree : channelFree env lbtStat chanIsFree pkt = true
  · exact ⟨_, _, Or.inl rfl, if_pos hfree⟩
  · exact ⟨_, _, Or.inr rfl, if_neg hfree⟩

/-- A packet is accounted for just when the concentrator was not emitting. -/
theorem accounted_fate_iff {removed pkt : LgwPktTx} (hsame : SamePacket removed pkt) (env : TxEnv)
    (lbtStat : LbtStat) (chanIsFree : Bool) :
    (Fate.mk removed env.status (transmit env lbtStat chanIsFree pkt).2).Accounted ↔
      env.status ≠ some txEmitting := by
  constructor
  · intro hacc hemitting
    have hhandled := hacc.handled
    rw [transmit_emitting hemitting] at hhandled
    cases hhandled
  · intro h
    obtain ⟨handling, result, hwhich, hactions⟩ := transmit_actions h lbtStat chanIsFree pkt
    have hhandles : handling.handles = true ∧ handling.counts = false := by
      rcases hwhich with rfl | rfl <;> exact ⟨rfl, rfl⟩
    rw [hactions]
    refine ⟨?_, ?_, ?_, fun hemitting => absurd hemitting h⟩
    · simp [hhandles.1, handles_txCount]
    · simp [hhandles.2, counts_txCount]
    · intro sent hsent
      rcases List.mem_cons.1 hsent with heq | hrest
      · rcases hwhich with rfl | rfl
        · cases heq
          exact hsame
        · cases heq
      · exact absurd (List.mem_singleton.1 hrest) (txCount_ne_send result sent)

/-! ## The invariant -/

/-- What holds in every run: no packet is lost from sight, the packet on its way is the one from the
queue, a packet is accounted for just when the concentrator was not emitting, and the counters are
right. -/
structure TransmitInv (s : TransmitState) : Prop where
  complete : s.removed = s.fates.map (fun f => f.pkt) ++ s.inFlight
  same : ∀ i removed pkt, s.phase = .dequeued i removed pkt → SamePacket removed pkt
  fates : ∀ f ∈ s.fates, (f.Accounted ↔ f.status ≠ some txEmitting)
  txOk : s.fetchedOk + s.txOk = countAction .countOk s.actions
  txFail : s.fetchedFail + s.txFail = countAction .countFail s.actions

theorem transmitInv_start (queues : Fin lgwRfChainNb → JitQueue) (lbtStat : LbtStat) :
    TransmitInv (transmitStart queues lbtStat) where
  complete := rfl
  same := by
    intro i removed pkt hphase
    cases hphase
  fates := by
    intro f hf
    cases hf
  txOk := rfl
  txFail := rfl

theorem countAction_append (action : TxAction) (l l' : List TxAction) :
    countAction action (l ++ l') = countAction action l + countAction action l' := by
  rw [countAction, List.count_append, BitVec.ofNat_add]
  rfl

theorem behindPeek_ne_dequeued (i i' : Fin lgwRfChainNb) (pktIndex : Option (Fin jitQueueMax))
    (removed pkt : LgwPktTx) : behindPeek i pktIndex ≠ .dequeued i' removed pkt := by
  cases pktIndex <;> exact TransmitPhase.noConfusion

theorem inFlight_behindPeek {s : TransmitState} {i : Fin lgwRfChainNb}
    {pktIndex : Option (Fin jitQueueMax)} (h : s.phase = behindPeek i pktIndex) :
    s.inFlight = [] := by
  rw [TransmitState.inFlight, h]
  cases pktIndex <;> rfl

/-- A step that removes nothing and finishes nothing keeps the invariant. -/
theorem TransmitInv.of_same {s t : TransmitState} (h : TransmitInv s)
    (hremoved : t.removed = s.removed) (hfates : t.fates = s.fates)
    (hflight : t.inFlight = s.inFlight)
    (hsame : ∀ i removed pkt, t.phase = .dequeued i removed pkt → SamePacket removed pkt)
    (hok : t.fetchedOk + t.txOk = s.fetchedOk + s.txOk)
    (hfail : t.fetchedFail + t.txFail = s.fetchedFail + s.txFail) : TransmitInv t where
  complete := by
    rw [hremoved, hfates, hflight]
    exact h.complete
  same := hsame
  fates := by
    rw [hfates]
    exact h.fates
  txOk := by
    rw [hok, TransmitState.actions, hfates]
    exact h.txOk
  txFail := by
    rw [hfail, TransmitState.actions, hfates]
    exact h.txFail

/-- The end of a transmission. -/
theorem TransmitInv.transmit {s : TransmitState} (h : TransmitInv s) (env : TxEnv)
    {i : Fin lgwRfChainNb} {removed pkt : LgwPktTx} (hphase : s.phase = .dequeued i removed pkt) :
    TransmitInv { s with
      phase := .atChain (i + 1)
      chanIsFree := (transmit env s.lbtStat s.chanIsFree pkt).1
      txOk := s.txOk + countAction .countOk (transmit env s.lbtStat s.chanIsFree pkt).2
      txFail := s.txFail + countAction .countFail (transmit env s.lbtStat s.chanIsFree pkt).2
      fates := s.fates ++
        [⟨removed, env.status, (transmit env s.lbtStat s.chanIsFree pkt).2⟩] } := by
  have hsame := h.same i removed pkt hphase
  have hflight : s.inFlight = [removed] := by rw [TransmitState.inFlight, hphase]
  refine ⟨?_, ?_, ?_, ?_, ?_⟩
  · -- the packet on its way is the one that is done
    show s.removed = (s.fates ++ [_]).map _ ++ []
    rw [h.complete, hflight, List.map_append, List.append_nil]
    rfl
  · intro i' removed' pkt' hphase'
    cases hphase'
  · intro f hf
    rcases List.mem_append.1 hf with hold | hnew
    · exact h.fates f hold
    · rw [List.mem_singleton.1 hnew]
      exact accounted_fate_iff hsame env s.lbtStat s.chanIsFree
  · show s.fetchedOk + (s.txOk + _) = countAction _ ((s.fates ++ [_]).flatMap _)
    rw [List.flatMap_append, countAction_append, ← BitVec.add_assoc, h.txOk, List.flatMap_singleton]
    rfl
  · show s.fetchedFail + (s.txFail + _) = countAction _ ((s.fates ++ [_]).flatMap _)
    rw [List.flatMap_append, countAction_append, ← BitVec.add_assoc, h.txFail,
      List.flatMap_singleton]
    rfl

/-- Every step keeps the invariant. -/
theorem TransmitInv.step {s t : TransmitState} {e : TransmitEvent} (h : TransmitInv s)
    (hstep : transmitStep s e = some t) : TransmitInv t := by
  cases transmitStep_case hstep with
  | others queues lbtStat => exact h.of_same rfl rfl rfl h.same rfl rfl
  | fetch => exact h.of_same rfl rfl rfl h.same (BitVec.add_zero _) (BitVec.add_zero _)
  | peek timeUs i hphase =>
      have hflight : s.inFlight = [] := by rw [TransmitState.inFlight, hphase]
      refine h.of_same rfl rfl ?_ ?_ rfl rfl
      · rw [hflight]
        exact inFlight_behindPeek rfl
      · intro i' removed pkt hdequeued
        exact absurd hdequeued (behindPeek_ne_dequeued _ _ _ _ _)
  | removes xtalCorrect i pktIndex hphase code removed pkt pktType q beaconSent hdequeue hsame =>
      -- a packet joins those that were removed, and is on its way
      have hflight : s.inFlight = [] := by rw [TransmitState.inFlight, hphase]
      refine ⟨?_, ?_, h.fates, h.txOk, h.txFail⟩
      · show s.removed ++ [removed] = s.fates.map _ ++ [removed]
        rw [h.complete, hflight, List.append_nil]
      · intro i' removed' pkt' hdequeued
        cases hdequeued
        exact hsame
  | misses xtalCorrect i pktIndex hphase code q hdequeue =>
      have hflight : s.inFlight = [] := by rw [TransmitState.inFlight, hphase]
      refine h.of_same rfl rfl hflight.symm ?_ rfl rfl
      intro i' removed pkt hdequeued
      cases hdequeued
  | transmit env i removed pkt hphase => exact h.transmit env hphase

/-! ## Runs -/

/-- A step adds the status that it reports. -/
theorem statuses_step {s t : TransmitState} {e : TransmitEvent}
    (hstep : transmitStep s e = some t) :
    t.fates.map (fun f => f.status) = s.fates.map (fun f => f.status) ++ e.status.toList := by
  cases transmitStep_case hstep with
  | transmit env i removed pkt hphase => exact List.map_append
  | _ => exact (List.append_nil _).symm

/-- The packets that are done have the statuses that were reported in the run. -/
theorem statuses_run {s t : TransmitState} {es : List TransmitEvent}
    (h : Run (Steps transmitStep) s es t) :
    t.fates.map (fun f => f.status) =
      s.fates.map (fun f => f.status) ++ es.filterMap TransmitEvent.status := by
  induction h with
  | nil s => exact (List.append_nil _).symm
  | @cons s u t e es hstep hrun ih =>
      rw [ih, statuses_step hstep, List.append_assoc, List.filterMap_cons]
      cases e.status <;> rfl

section Run

variable {queues : Fin lgwRfChainNb → JitQueue} {lbtStat : LbtStat} {es : List TransmitEvent}
  {s : TransmitState}

theorem TransmitInv.of_run (h : Run (Steps transmitStep) (transmitStart queues lbtStat) es s) :
    TransmitInv s :=
  h.invariant (fun _ _ _ hs hstep => hs.step hstep) (transmitInv_start queues lbtStat)

/-- The packets of a run from the start have the statuses that were reported. -/
theorem statuses_of_run (h : Run (Steps transmitStep) (transmitStart queues lbtStat) es s) :
    s.fates.map (fun f => f.status) = es.filterMap TransmitEvent.status := by
  have hstatuses := statuses_run h
  rw [transmitStart, List.map_nil, List.nil_append] at hstatuses
  exact hstatuses

/-- No packet has met an emitting concentrator just when no such status was reported. -/
theorem fates_not_emitting_iff
    (h : Run (Steps transmitStep) (transmitStart queues lbtStat) es s) :
    (∀ f ∈ s.fates, f.status ≠ some txEmitting) ↔
      ∀ e ∈ es, e.status ≠ some (some txEmitting) := by
  have hstatuses := statuses_of_run h
  constructor
  · intro hall e he hemitting
    have hmem : some txEmitting ∈ es.filterMap TransmitEvent.status :=
      List.mem_filterMap.2 ⟨e, he, hemitting⟩
    rw [← hstatuses] at hmem
    obtain ⟨f, hf, hstatus⟩ := List.mem_map.1 hmem
    exact hall f hf hstatus
  · intro hall f hf hemitting
    have hmem : some txEmitting ∈ s.fates.map fun f => f.status :=
      List.mem_map.2 ⟨f, hf, hemitting⟩
    rw [hstatuses] at hmem
    obtain ⟨e, he, hstatus⟩ := List.mem_filterMap.1 hmem
    exact hall e he hstatus

/-- The packets of a run are accounted for just when `lgw_status` has never reported that the
concentrator is emitting. -/
theorem accounted_iff (h : Run (Steps transmitStep) (transmitStart queues lbtStat) es s) :
    s.Accounted ↔ ∀ e ∈ es, e.status ≠ some (some txEmitting) := by
  have hinv := TransmitInv.of_run h
  rw [← fates_not_emitting_iff h]
  constructor
  · exact fun hacc f hf => (hinv.fates f hf).1 (hacc.fates f hf)
  · intro hall
    exact ⟨hinv.complete, fun f hf => (hinv.fates f hf).2 (hall f hf), hinv.txOk, hinv.txFail⟩

end Run

/-! ## One packet that is due -/

/-- A queue with one packet, for the time 0. -/
def oneDue : JitQueue := ⟨1#8, 0#8, Vector.replicate jitQueueMax .zero⟩

/-- The packet is dequeued at the time 0, and `lgw_status` reports `status`. -/
def oneTransmission (status : BitVec 8) : List TransmitEvent :=
  [.peek 0#32, .dequeue id, .transmit ⟨some status, false, 0⟩]

theorem exists_oneTransmission (status : BitVec 8) :
    ∃ s, Run (Steps transmitStep) (transmitStart (fun _ => oneDue) fun _ => ⟨0#32, 0#32, false⟩)
      (oneTransmission status) s := by
  have hsome : ∀ status, (exec transmitStep (transmitStart (fun _ => oneDue) fun _ =>
      ⟨0#32, 0#32, false⟩) (oneTransmission status)).isSome := by
    decide +kernel
  obtain ⟨s, hs⟩ := Option.isSome_iff_exists.1 (hsome status)
  exact ⟨s, Run.of_exec hs⟩

/-- It is sent and counted while another packet is scheduled. -/
theorem accounted_iff_scheduled :
    ∃ s, Run (Steps transmitStep) (transmitStart (fun _ => oneDue) fun _ => ⟨0#32, 0#32, false⟩)
      (oneTransmission txScheduled) s ∧ s.Accounted := by
  obtain ⟨s, hrun⟩ := exists_oneTransmission txScheduled
  exact ⟨s, hrun, (accounted_iff hrun).2 (by decide)⟩

/-- It is lost while another packet is on air. -/
theorem emitting_drops_packet :
    ¬ ∀ (queues : Fin lgwRfChainNb → JitQueue) (lbtStat : LbtStat) (es : List TransmitEvent)
      (s : TransmitState),
      Run (Steps transmitStep) (transmitStart queues lbtStat) es s → s.Accounted := by
  intro hall
  obtain ⟨s, hrun⟩ := exists_oneTransmission txEmitting
  have hacc := hall _ _ _ s hrun
  have hinv := TransmitInv.of_run hrun
  have hnone := (fates_not_emitting_iff hrun).1 fun f hf => (hinv.fates f hf).1 (hacc.fates f hf)
  exact hnone (.transmit ⟨some txEmitting, false, 0⟩) (by simp [oneTransmission]) rfl

end DraginoFwd.Jit

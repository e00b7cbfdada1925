import DraginoFwd.Lib.Transition
import DraginoFwd.Uplink.PushData

/-!
# The counters of the status report

The threads of a Semtech service count in `serv->report`, and `thread_jit` counts for all services
in `GW.log`. `semtech_report` copies the counters in two sections of the lock, sets them to zero
there, and prints the copies into the object `stat`.

The loop over the packets of a datagram is here what it does to the counters; the packets are those
that the loop of `semtech_push_up` writes (`pushPacket_behindPacket`).

A counter keeps every event if the reports and what is left in it add up to the events
(`Conserved`). Each counter does so as long as its own condition holds (`reachable_conserved`): the
two of the radio packets always, `rxfw` unless a counted packet does not reach the server, and
`dwnb` and `txnb` only while there is nothing to count (`downlink_reported_twice`): the first one is
not set to zero, and the packets are counted elsewhere.
-/

set_option autoImplicit false

namespace DraginoFwd.Service

open DraginoFwd.Hal
open DraginoFwd.Lib.Memory
open DraginoFwd.Lib.Transition
open DraginoFwd.Mac (ServFilter)
open DraginoFwd.Uplink

/-! ## Counters -/

/-- The counters of the object `stat`: `meas_nb_rx_rcv`, `meas_nb_rx_ok` and `meas_up_pkt_fwd` of
`stat_up`, `meas_dw_dgram_rcv` and `meas_nb_tx_ok` of `stat_down`. -/
inductive StatField where
  | rxnb
  | rxok
  | rxfw
  | dwnb
  | txnb
  deriving DecidableEq

/-- The counter is in `stat_up`. -/
def StatField.isUp : StatField → Bool
  | .rxnb | .rxok | .rxfw => true
  | .dwnb | .txnb => false

/-- A value for each counter. -/
abbrev Counters := StatField → BitVec 32

/-- Some of the counters are incremented. -/
def Counters.bump (live : Counters) (inc : StatField → Bool) : Counters := fun f =>
  if inc f then live f + 1#32 else live f

/-- Some of the counters are set to zero. -/
def Counters.reset (live : Counters) (which : StatField → Bool) : Counters := fun f =>
  if which f then 0#32 else live f

/-- What is counted of a packet before it is known whether it is forwarded. -/
def heard (p : LgwPktRx) : StatField → Bool
  | .rxnb => true
  | .rxok => p.status == statCrcOk
  | _ => false

/-- What is counted of a packet. -/
def counted (cfg : PushConfig) (keyExist : List Char → Bool) (p : LgwPktRx)
    (f : StatField) : Bool :=
  heard p f || (f == .rxfw && forwards cfg keyExist p)

/-- `pkt_in_dgram` and the number of complete objects in the text, behind a packet. -/
def behindPacket (cfg : PushConfig) (keyExist : List Char → Bool) (time : PktTime) (p : LgwPktRx)
    (pktInDgram objects : Nat) : Nat × Nat :=
  if forwards cfg keyExist p then
    match (pktLayout pktInDgram time p).pktEnd with
    | .done => (pktInDgram + 1, objects + 1)
    | .left => (pktInDgram, objects)
    -- `buff_index = 21` takes back all objects
    | .dropped => (pktInDgram, 0)
  else (pktInDgram, objects)

/-! ## The system -/

/-- Where `semtech_push_up` is: waiting, or in the loop over its packets with the rest of them,
`pkt_in_dgram` and the number of complete objects in the text. -/
inductive UpPhase where
  | idle
  | loop (rest : List LgwPktRx) (pktInDgram objects : Nat)

/-- The complete objects in the text. -/
def UpPhase.objects : UpPhase → Nat
  | .idle => 0
  | .loop _ _ objects => objects

/-- Where `semtech_report` is: outside, behind the copy of `stat_up`, or behind the copy of
`stat_down` as well, with its copies. -/
inductive ReportPhase where
  | idle
  | upCopied (cp : Counters)
  | downCopied (cp : Counters)

/-- What the report thread holds of a counter. -/
def ReportPhase.held (f : StatField) : ReportPhase → Nat
  | .idle => 0
  | .upCopied cp | .downCopied cp => (cp f).toNat

/-- The counters of the service, `GW.log.stat_dw.meas_nb_tx_ok`, and the threads. The values of the
reports and the events since the start are kept for the statement of the property. -/
structure StatState where
  live : Counters
  logNbTxOk : BitVec 32
  reportReady : Bool
  up : UpPhase
  report : ReportPhase
  reports : List Counters
  happened : StatField → Nat

/-- The results of `lgw_send`, where `LGW_LBT_ISSUE` is also the result without a call. -/
inductive SendResult where
  | success
  | halError
  | lbtIssue
  deriving DecidableEq

/-- The steps: `semtech_push_up` fetches a batch, handles a packet of it, and ends the datagram with
or without a socket; `semtech_pull_down` receives a downlink without an error in its JSON;
`thread_jit` sends a packet; `semtech_report` makes its two copies and prints them. -/
inductive StatEvent where
  | fetch (fetched : Fetched)
  | packet (keyExist : List Char → Bool) (time : PktTime)
  | finish (sockUp : Bool)
  | downlink
  | transmit (result : SendResult)
  | copyUp
  | copyDown
  | printReport

/-- One step, where it can happen. -/
def statStep (cfg : PushConfig) (s : StatState) : StatEvent → Option StatState
  | .fetch fetched =>
      match s.up with
      | .idle =>
          if fetched.packets = [] ∧ s.reportReady = false then some s
          else some { s with up := .loop fetched.packets 0 0 }
      | _ => none
  | .packet keyExist time =>
      match s.up with
      | .loop (p :: rest) pktInDgram objects =>
          let next := behindPacket cfg keyExist time p pktInDgram objects
          some { s with
            live := s.live.bump (counted cfg keyExist p)
            up := .loop rest next.1 next.2
            happened := fun f => s.happened f + (heard p f).toNat }
      | _ => none
  | .finish sockUp =>
      match s.up with
      | .loop [] pktInDgram objects =>
          if pktInDgram = 0 ∧ s.reportReady = false then some { s with up := .idle }
          else some { s with
            reportReady := false
            up := .idle
            happened := fun f => s.happened f + if f = .rxfw ∧ sockUp then objects else 0 }
      | _ => none
  | .downlink =>
      some { s with
        live := s.live.bump (· == .dwnb)
        happened := fun f => s.happened f + (f == .dwnb).toNat }
  | .transmit result =>
      match result with
      | .success =>
          some { s with
            logNbTxOk := s.logNbTxOk + 1#32
            happened := fun f => s.happened f + (f == .txnb).toNat }
      | .halError | .lbtIssue => some s
  | .copyUp =>
      match s.report with
      | .idle =>
          some { s with
            live := s.live.reset StatField.isUp
            report := .upCopied (s.live.reset fun f => !f.isUp) }
      | _ => none
  | .copyDown =>
      match s.report with
      | .upCopied cp =>
          some { s with
            live := s.live.reset (· == .txnb)
            report := .downCopied fun f => if f.isUp then cp f else s.live f }
      | _ => none
  | .printReport =>
      match s.report with
      | .downCopied cp =>
          some { s with reportReady := true, report := .idle, reports := s.reports ++ [cp] }
      | _ => none

/-- `lgw_malloc` clears the counters of a service. -/
def statStart : StatState where
  live _ := 0#32
  logNbTxOk := 0#32
  reportReady := false
  up := .idle
  report := .idle
  reports := []
  happened _ := 0

/-! ## The condition and the property -/

/-- The events of a counter. A packet is forwarded when it is in a datagram that is sent, or in the
one that is being written. -/
def StatState.events (s : StatState) (f : StatField) : Nat :=
  s.happened f + if f = .rxfw then s.up.objects else 0

/-- What the reports say of a counter. -/
def StatState.reported (s : StatState) (f : StatField) : Nat :=
  (s.reports.map fun cp => (cp f).toNat).sum

/-- The reports, the copy that is not printed yet and the counter add up to the events. -/
def Conserved (f : StatField) (s : StatState) : Prop :=
  s.reported f + s.report.held f + (s.live f).toNat = s.events f

instance (f : StatField) (s : StatState) : Decidable (Conserved f s) :=
  inferInstanceAs (Decidable (_ = _))

/-- The counter can be incremented. -/
def HasRoom (f : StatField) (s : StatState) : Prop := (s.live f).toNat + 1 < 2 ^ 32

instance (f : StatField) (s : StatState) : Decidable (HasRoom f s) :=
  inferInstanceAs (Decidable (_ < _))

/-- The next packet does not make the counter run over, and is completed if it is counted in
`rxfw`. -/
def KeepsPacket (cfg : PushConfig) (f : StatField) (s : StatState) (keyExist : List Char → Bool)
    (time : PktTime) : UpPhase → Prop
  | .loop (p :: _) pktInDgram _ =>
      (counted cfg keyExist p f → HasRoom f s) ∧
        (f = .rxfw → forwards cfg keyExist p → (pktLayout pktInDgram time p).pktEnd = .done)
  | .loop [] _ _ | .idle => True

instance (cfg : PushConfig) (f : StatField) (s : StatState) (keyExist : List Char → Bool)
    (time : PktTime) : ∀ up, Decidable (KeepsPacket cfg f s keyExist time up)
  | .loop (_ :: _) _ _ => inferInstanceAs (Decidable ((_ → _) ∧ (_ → _ → _)))
  | .loop [] _ _ | .idle => inferInstanceAs (Decidable True)

/-- The steps that keep a counter right. No counter runs over. A packet that is counted in `rxfw` is
completed, and there is a socket for its datagram. `stat_down` is not copied while `dwnb` is not
zero. No packet is emitted for `txnb`. -/
def KeepsCount (cfg : PushConfig) (f : StatField) (s : StatState) : StatEvent → Prop
  | .packet keyExist time => KeepsPacket cfg f s keyExist time s.up
  | .finish sockUp => f = .rxfw → 0 < s.up.objects → sockUp = true
  | .downlink => f = .dwnb → HasRoom f s
  | .transmit result => f = .txnb → result ≠ .success
  | .copyDown => f = .dwnb → s.live f = 0#32
  | .fetch _ | .copyUp | .printReport => True

instance (cfg : PushConfig) (f : StatField) (s : StatState) :
    ∀ e, Decidable (KeepsCount cfg f s e)
  | .packet keyExist time => inferInstanceAs (Decidable (KeepsPacket cfg f s keyExist time s.up))
  | .finish _ => inferInstanceAs (Decidable (_ → _ → _))
  | .downlink => inferInstanceAs (Decidable (_ → _))
  | .transmit _ => inferInstanceAs (Decidable (_ → _))
  | .copyDown => inferInstanceAs (Decidable (_ → _))
  | .fetch _ | .copyUp | .printReport => inferInstanceAs (Decidable True)

/-! ## Steps of the counters -/

theorem toNat_bump {live : Counters} {inc : StatField → Bool} {f : StatField}
    (h : inc f → (live f).toNat + 1 < 2 ^ 32) :
    (live.bump inc f).toNat = (live f).toNat + (inc f).toNat := by
  rw [Counters.bump]
  cases hinc : inc f with
  | false => rfl
  | true =>
    have hlt := h hinc
    rw [if_pos rfl, BitVec.toNat_add]
    exact Nat.mod_eq_of_lt hlt

/-- A reset moves a counter into its copy. -/
theorem toNat_reset_add (live : Counters) (which : StatField → Bool) (f : StatField) :
    (live.reset (fun f => !which f) f).toNat + (live.reset which f).toNat = (live f).toNat := by
  cases hwhich : which f with
  | false => simp [Counters.reset, hwhich]
  | true => simp [Counters.reset, hwhich]

/-- The loop of the datagram counts and writes the same packets. -/
theorem pushPacket_behindPacket {cfg : PushConfig} {env : PushEnv} {i : Nat} {p : LgwPktRx}
    {s t : PushState} (h : pushPacket cfg env i p s = .ok t) (objects : Nat) :
    t.pktInDgram = (behindPacket cfg (env.keyExist i) (env.time i) p s.pktInDgram objects).1 ∧
      t.counted.length = s.counted.length + (counted cfg (env.keyExist i) p .rxfw).toNat := by
  have hcounted : counted cfg (env.keyExist i) p .rxfw = forwards cfg (env.keyExist i) p := rfl
  rw [hcounted, behindPacket]
  rw [pushPacket] at h
  cases hfwd : forwards cfg (env.keyExist i) p with
  | false =>
    rw [hfwd] at h
    cases h
    exact ⟨rfl, rfl⟩
  | true =>
    rw [hfwd, if_pos rfl] at h
    obtain ⟨text, -, hend⟩ := bind_eq_ok.1 h
    rw [if_pos rfl]
    cases hpkt : (pktLayout s.pktInDgram (env.time i) p).pktEnd with
    | done =>
      rw [hpkt] at hend
      cases hend
      exact ⟨rfl, List.length_append⟩
    | left =>
      rw [hpkt] at hend
      cases hend
      exact ⟨rfl, List.length_append⟩
    | dropped =>
      rw [hpkt] at hend
      cases hend
      exact ⟨rfl, List.length_append⟩

/-- A packet that is completed if it is forwarded adds its object. -/
theorem behindPacket_objects {cfg : PushConfig} {keyExist : List Char → Bool} {time : PktTime}
    {p : LgwPktRx} {pktInDgram : Nat}
    (h : forwards cfg keyExist p → (pktLayout pktInDgram time p).pktEnd = .done) (objects : Nat) :
    (behindPacket cfg keyExist time p pktInDgram objects).2 =
      objects + (forwards cfg keyExist p).toNat := by
  rw [behindPacket]
  cases hfwd : forwards cfg keyExist p with
  | false => rfl
  | true =>
    rw [if_pos rfl, h hfwd]
    rfl

/-! ## The invariant -/

/-- There are no objects in the text as long as `pkt_in_dgram` is zero. -/
def UpPhase.InStep : UpPhase → Prop
  | .idle => True
  | .loop _ pktInDgram objects => objects ≤ pktInDgram

theorem behindPacket_inStep {cfg : PushConfig} {keyExist : List Char → Bool} {time : PktTime}
    {p : LgwPktRx} {pktInDgram objects : Nat} (h : objects ≤ pktInDgram) :
    (behindPacket cfg keyExist time p pktInDgram objects).2 ≤
      (behindPacket cfg keyExist time p pktInDgram objects).1 := by
  rw [behindPacket]
  split
  · split
    · exact Nat.succ_le_succ h
    · exact h
    · exact Nat.zero_le _
  · exact h

/-- A copy is zero for the counters that have not been copied. -/
def ReportPhase.UpOnly : ReportPhase → Prop
  | .upCopied cp => ∀ f, f.isUp = false → cp f = 0#32
  | _ => True

/-- The counter keeps every event, and the loop and the report are in step with the counters. -/
structure StatInv (f : StatField) (s : StatState) : Prop where
  conserved : Conserved f s
  inStep : s.up.InStep
  upOnly : s.report.UpOnly

theorem statInv_statStart (f : StatField) : StatInv f statStart where
  conserved := by cases f <;> rfl
  inStep := trivial
  upOnly := trivial

section Steps

variable {cfg : PushConfig} {f : StatField} {s t : StatState}

theorem StatInv.fetch (h : StatInv f s) {fetched : Fetched}
    (hstep : statStep cfg s (.fetch fetched) = some t) : StatInv f t := by
  rw [statStep] at hstep
  split at hstep
  · next hidle =>
    split at hstep
    · cases hstep
      exact h
    · cases hstep
      have hsum := h.conserved
      rw [Conserved, StatState.events, hidle] at hsum
      exact ⟨hsum, Nat.le_refl 0, h.upOnly⟩
  · cases hstep

/-- A packet is counted as often as it is an event. -/
theorem StatInv.packet (h : StatInv f s) {keyExist : List Char → Bool} {time : PktTime}
    (hok : KeepsCount cfg f s (.packet keyExist time))
    (hstep : statStep cfg s (.packet keyExist time) = some t) : StatInv f t := by
  rw [statStep] at hstep
  split at hstep
  · next p rest pktInDgram objects hup =>
    cases hstep
    rw [KeepsCount, hup] at hok
    obtain ⟨hroom, hdone⟩ := hok
    have hin := h.inStep
    rw [hup] at hin
    refine ⟨?_, behindPacket_inStep hin, h.upOnly⟩
    have hsum := h.conserved
    rw [Conserved, StatState.events, hup, UpPhase.objects] at hsum
    show s.reported f + s.report.held f + (s.live.bump (counted cfg keyExist p) f).toNat =
      s.happened f + (heard p f).toNat + if f = .rxfw then
        (behindPacket cfg keyExist time p pktInDgram objects).2 else 0
    -- a counter of received packets counts what is heard, `rxfw` what is completed
    rw [toNat_bump hroom]
    cases hf : f with
    | rxfw =>
      rw [hf] at hsum
      have hobjects := behindPacket_objects (hdone hf) objects
      have hcounted : counted cfg keyExist p .rxfw = forwards cfg keyExist p := rfl
      have hheard : heard p .rxfw = false := rfl
      rw [if_pos rfl, hobjects, hcounted, hheard, Bool.toNat_false]
      rw [if_pos rfl] at hsum
      omega
    | rxnb | rxok | dwnb | txnb =>
      all_goals
        rw [hf] at hsum
        simp only [counted, reduceCtorEq, if_false, beq_false_of_ne, ne_eq, not_false_eq_true,
          Bool.false_and, Bool.or_false] at hsum ⊢
        omega
  · cases hstep

/-- The end of a datagram sends what it holds. -/
theorem StatInv.finish (h : StatInv f s) {sockUp : Bool} (hok : KeepsCount cfg f s (.finish sockUp))
    (hstep : statStep cfg s (.finish sockUp) = some t) : StatInv f t := by
  rw [statStep] at hstep
  split at hstep
  · next pktInDgram objects hup =>
    have hin := h.inStep
    have hsum := h.conserved
    rw [hup] at hin
    rw [Conserved, StatState.events, hup, UpPhase.objects] at hsum
    split at hstep
    · next hquiet =>
      cases hstep
      -- without a packet in the datagram there is no object to lose
      have hzero : objects = 0 := Nat.le_zero.1 (hquiet.1 ▸ hin)
      rw [hzero] at hsum
      exact ⟨hsum, trivial, h.upOnly⟩
    · cases hstep
      refine ⟨?_, trivial, h.upOnly⟩
      show s.reported f + s.report.held f + (s.live f).toNat =
        (s.happened f + if f = .rxfw ∧ sockUp then objects else 0) + if f = .rxfw then 0 else 0
      by_cases hf : f = .rxfw
      · rw [if_pos hf] at hsum
        -- an empty datagram loses nothing
        rcases Nat.eq_zero_or_pos objects with hzero | hpos
        · simp [hsum, hzero]
        · have hsock : sockUp = true := hok hf (by rw [hup]; exact hpos)
          rw [if_pos ⟨hf, hsock⟩, hsum, ite_self]
          rfl
      · rw [if_neg hf] at hsum
        simp [hsum, hf]
  · cases hstep

theorem StatInv.downlink (h : StatInv f s) (hok : KeepsCount cfg f s .downlink)
    (hstep : statStep cfg s .downlink = some t) : StatInv f t := by
  cases hstep
  refine ⟨?_, h.inStep, h.upOnly⟩
  have hsum := h.conserved
  rw [Conserved, StatState.events] at hsum
  show s.reported f + s.report.held f + (s.live.bump (· == .dwnb) f).toNat =
    (s.happened f + (f == .dwnb).toNat) + if f = .rxfw then s.up.objects else 0
  rw [toNat_bump fun hf => hok (eq_of_beq hf)]
  omega

theorem StatInv.transmit (h : StatInv f s) {result : SendResult}
    (hok : KeepsCount cfg f s (.transmit result))
    (hstep : statStep cfg s (.transmit result) = some t) : StatInv f t := by
  cases result with
  | success =>
    cases hstep
    have hf : (f == .txnb) = false := beq_false_of_ne fun hf => hok hf rfl
    refine ⟨?_, h.inStep, h.upOnly⟩
    show s.reported f + s.report.held f + (s.live f).toNat =
      (s.happened f + (f == .txnb).toNat) + if f = .rxfw then s.up.objects else 0
    rw [hf]
    exact h.conserved
  | halError | lbtIssue =>
    cases hstep
    exact h

/-- The first copy takes what is in the counters of `stat_up`. -/
theorem StatInv.copyUp (h : StatInv f s) (hstep : statStep cfg s .copyUp = some t) :
    StatInv f t := by
  rw [statStep] at hstep
  split at hstep
  · next hidle =>
    cases hstep
    refine ⟨?_, h.inStep, ?_⟩
    · have hsum := h.conserved
      have hreset := toNat_reset_add s.live StatField.isUp f
      rw [Conserved, hidle, ReportPhase.held] at hsum
      show s.reported f + (s.live.reset (fun f => !f.isUp) f).toNat +
        (s.live.reset StatField.isUp f).toNat = s.events f
      omega
    · intro g hg
      simp [Counters.reset, hg]
  · cases hstep

/-- The second copy takes what is in the counters of `stat_down`, if `dwnb` is zero. -/
theorem StatInv.copyDown (h : StatInv f s) (hok : KeepsCount cfg f s .copyDown)
    (hstep : statStep cfg s .copyDown = some t) : StatInv f t := by
  rw [statStep] at hstep
  split at hstep
  · next cp hcopied =>
    cases hstep
    refine ⟨?_, h.inStep, trivial⟩
    have hsum := h.conserved
    have honly := h.upOnly
    rw [hcopied] at honly
    rw [Conserved, hcopied, ReportPhase.held] at hsum
    show s.reported f + (if f.isUp then cp f else s.live f).toNat +
      (s.live.reset (· == .txnb) f).toNat = s.events f
    -- of the copy of `stat_down`, `dwnb` is the live value, and only `txnb` is reset
    cases hf : f with
    | rxnb | rxok | rxfw =>
      all_goals
        rw [hf] at hsum
        exact hsum
    | dwnb =>
      rw [hf] at hsum
      have hzero := hok hf
      rw [hf] at hzero
      rw [honly .dwnb rfl] at hsum
      rw [hzero] at hsum
      simpa [StatField.isUp, Counters.reset, hzero] using hsum
    | txnb =>
      rw [hf] at hsum
      rw [honly .txnb rfl] at hsum
      simpa [StatField.isUp, Counters.reset] using hsum
  · cases hstep

theorem StatInv.printReport (h : StatInv f s) (hstep : statStep cfg s .printReport = some t) :
    StatInv f t := by
  rw [statStep] at hstep
  split at hstep
  · next cp hcopied =>
    cases hstep
    refine ⟨?_, h.inStep, trivial⟩
    have hsum := h.conserved
    rw [Conserved, hcopied, ReportPhase.held] at hsum
    show ((s.reports ++ [cp]).map fun cp => (cp f).toNat).sum + 0 + (s.live f).toNat = s.events f
    rw [List.map_append, List.sum_append]
    simpa [StatState.reported] using hsum
  · cases hstep

theorem StatInv.step (h : StatInv f s) {e : StatEvent} (hok : KeepsCount cfg f s e)
    (hstep : statStep cfg s e = some t) : StatInv f t := by
  cases e with
  | fetch fetched => exact h.fetch hstep
  | packet keyExist time => exact h.packet hok hstep
  | finish sockUp => exact h.finish hok hstep
  | downlink => exact h.downlink hok hstep
  | transmit result => exact h.transmit hok hstep
  | copyUp => exact h.copyUp hstep
  | copyDown => exact h.copyDown hok hstep
  | printReport => exact h.printReport hstep

end Steps

/-- In every run that meets the condition of a counter its reports and what is left in it add up to
its events. -/
theorem reachable_conserved (cfg : PushConfig) (f : StatField) {s : StatState}
    (h : Reachable (fun s => s = statStart) (Guarded (KeepsCount cfg f) (Steps (statStep cfg))) s) :
    Conserved f s := by
  have hinv : StatInv f s := by
    refine h.invariant ?_ ?_
    · intro s hs
      subst hs
      exact statInv_statStart f
    · intro s e t hs hst
      exact hs.step hst.1 hst.2
  exact hinv.conserved

/-! ## Two runs -/

/-- A service without filters on ports and addresses. -/
def plainConfig : PushConfig := ⟨"server1".toList, ⟨true, false, false⟩, .noFilter, .noFilter⟩

/-- A packet without a payload. -/
def shortPacket : LgwPktRx := { LgwPktRx.ofBytes [] with modulation := modFsk }

/-- The events of one packet that is sent and reported. -/
def onePacket : List StatEvent :=
  [.fetch ⟨[shortPacket], by decide⟩, .packet (fun _ => false) (.gps none none), .finish true,
    .copyUp, .copyDown, .printReport]

theorem reachable_conserved_one :
    ∃ s,
      exec (guardedBy (KeepsCount plainConfig .rxfw) (statStep plainConfig)) statStart onePacket =
        some s ∧ s.reported .rxfw = 1 ∧ Conserved .rxfw s := by
  have hreported : (exec (guardedBy (KeepsCount plainConfig .rxfw) (statStep plainConfig)) statStart
      onePacket).map (fun s => s.reported .rxfw) = some 1 := by
    decide +kernel
  obtain ⟨s, hs, hone⟩ := Option.map_eq_some_iff.1 hreported
  have hrun := Run.of_exec_guardedBy hs
  exact ⟨s, hs, hone, reachable_conserved plainConfig .rxfw hrun.reachable⟩

/-- One downlink is in a report and still in the counter. -/
theorem downlink_reported_twice :
    ¬ ∀ f s, Reachable (fun s => s = statStart) (Steps (statStep plainConfig)) s →
      Conserved f s := by
  intro hall
  have hrun : (exec (statStep plainConfig) statStart
      [.downlink, .copyUp, .copyDown, .printReport]).map (fun s => decide (Conserved .dwnb s)) =
        some false := by
    decide +kernel
  obtain ⟨s, hs, hfalse⟩ := Option.map_eq_some_iff.1 hrun
  exact of_decide_eq_false hfalse (hall .dwnb s (Run.of_exec hs).reachable)

end DraginoFwd.Service

import DraginoFwd.Uplink.Fanout

/-!
# The order in which a service gets its batches

`thread_up` inserts at the head of the list and `get_rxpkt` traverses it from the head, so that a
service gets the newest of the batches that it lacks (`getRxpkt_newestFirst`). That is the order of
reception as long as it lacks one batch at a time. A service that lags behind by two batches gets
the later one first (`later_batch_first`).
-/

set_option autoImplicit false

namespace DraginoFwd.Uplink

open DraginoFwd.Lib.Transition

/-- A listed batch that the service has not obtained. -/
def Pending (s : FanState) (service : Service) (entry : Rxpkts) : Prop :=
  entry ∈ s.rxpktsList ∧ (service, entry.serial) ∉ s.log

/-- The batches that a service has obtained, the latest first. -/
def obtained (s : FanState) (service : Service) : List Nat :=
  (s.log.filter fun r => r.1 = service).map Prod.snd

/-- Every service has obtained its batches in the order of their insertion. -/
def InOrder (services : List Service) (s : FanState) : Prop :=
  ∀ service ∈ services, (obtained s service).Pairwise (· > ·)

/-- What a call of `get_rxpkt` delivers: nothing, if the service lacks no batch or has no bit to
mark one with, or else the newest batch that it lacks. -/
inductive Delivers (s : FanState) (service : Service) (t : FanState) : Prop where
  | nothing (log : t.log = s.log)
      (idle : service.number < 8 → ∀ entry, ¬ Pending s service entry)
  | newest (entry : Rxpkts) (pending : Pending s service entry)
      (log : t.log = (service, entry.serial) :: s.log)
      (newest : ∀ other, Pending s service other → other.serial ≤ entry.serial)

/-- Of the batches that a service lacks the traversal finds the newest. -/
theorem BatchInv.newest {services : List Service} {s : FanState} (h : BatchInv services s)
    {service : Service} (hmem : service ∈ services) {entry : Rxpkts} {rest : List Rxpkts}
    (hfind : findRxpkt service.stamp s.rxpktsList = some (entry, rest)) {other : Rxpkts}
    (hother : Pending s service other) : other.serial ≤ entry.serial := by
  obtain ⟨hlisted, hlacks⟩ := hother
  obtain ⟨-, before, after, hlist, hbefore, -⟩ := findRxpkt_some hfind
  have hsorted := h.newestFirst
  rw [hlist, List.map_append, List.map_cons, List.pairwise_append, List.pairwise_cons] at hsorted
  rw [hlist, List.mem_append, List.mem_cons] at hlisted
  rcases hlisted with hin | rfl | hin
  · -- the service has the batches before the one it finds
    have hold : other ∈ s.rxpktsList := hlist ▸ List.mem_append_left _ hin
    have hbit := hbefore other hin
    rw [stamp_and_eq_iff (number_lt_of_findRxpkt hfind),
      (h.entries other hold).stamps service hmem] at hbit
    exact absurd hbit hlacks
  · exact le_rfl
  · -- the batches behind it are older
    exact Nat.le_of_lt (hsorted.2.1.1 _ (List.mem_map_of_mem hin))

/-- With no batch found, a service with a bit lacks none. -/
theorem BatchInv.idle {services : List Service} {s : FanState} (h : BatchInv services s)
    {service : Service} (hmem : service ∈ services) (hbit : service.number < 8)
    (hfind : findRxpkt service.stamp s.rxpktsList = none) (entry : Rxpkts) :
    ¬ Pending s service entry := by
  rintro ⟨hlisted, hlacks⟩
  have hstamp := findRxpkt_none hfind entry hlisted
  rw [stamp_and_eq_iff hbit, (h.entries entry hlisted).stamps service hmem] at hstamp
  exact hlacks hstamp

/-- In every run each call of `get_rxpkt` delivers the newest of the batches that the service lacks,
so that it is the earliest one only when it is the only one. -/
theorem getRxpkt_newestFirst (confs : List ServerConf) :
    ∀ s, Reachable (· = fanStart) (Steps (fanStep (servList confs))) s →
      ∀ service t, fanStep (servList confs) s (.getRxpkt service) = some t →
        Delivers s service t ∧
          ∀ entry, Pending s service entry → t.log = (service, entry.serial) :: s.log →
            ((∀ other, Pending s service other → entry.serial ≤ other.serial) ↔
              ∀ other, Pending s service other → other.serial = entry.serial) := by
  intro s hreach service t hstep
  have hinv := reachable_batchInv confs s hreach
  rw [fanStep] at hstep
  split at hstep
  · next hmem =>
    cases hstep
    cases hfind : findRxpkt service.stamp s.rxpktsList with
    | none =>
      refine ⟨Delivers.nothing rfl fun hbit => hinv.idle hmem hbit hfind, ?_⟩
      intro entry _ hlog
      have hlen := congrArg List.length hlog
      simp at hlen
    | some r =>
      obtain ⟨entry, rest⟩ := r
      have hpending : Pending s service entry := hinv.not_obtained hmem hfind
      -- the newest is also the earliest only when there is no other
      have hnewest : ∀ other, Pending s service other → other.serial ≤ entry.serial :=
        fun other hother => hinv.newest hmem hfind hother
      refine ⟨Delivers.newest entry hpending rfl hnewest, ?_⟩
      intro entry' _ hlog
      have hsame : entry'.serial = entry.serial := by
        simp only [List.cons.injEq, Prod.mk.injEq] at hlog
        exact hlog.1.2.symm
      rw [hsame]
      constructor
      · intro hleast other hother
        exact Nat.le_antisymm (hnewest other hother) (hleast other hother)
      · intro hall other hother
        exact (hall other hother).ge
  · cases hstep

/-- Two batches that the service for packets lacks. -/
def twoBatches : List FanEvent := [.threadUp 0#32 oneBatch, .threadUp 1#32 oneBatch]

/-- Of the two batches the later one is delivered. -/
theorem getRxpkt_newestFirst_two :
    ∃ s t, exec (fanStep (servList [])) fanStart twoBatches = some s ∧
      fanStep (servList []) s (.getRxpkt .pkt) = some t ∧ t.log = [(.pkt, 1)] ∧
        Delivers s .pkt t := by
  have hrun : ((exec (fanStep (servList [])) fanStart twoBatches).bind fun s =>
      (fanStep (servList []) s (.getRxpkt .pkt)).map fun t => t.log) = some [(.pkt, 1)] := by
    decide +kernel
  obtain ⟨s, hs, hnext⟩ := Option.bind_eq_some_iff.1 hrun
  obtain ⟨t, ht, hlog⟩ := Option.map_eq_some_iff.1 hnext
  exact ⟨s, t, hs, ht, hlog,
    (getRxpkt_newestFirst [] s (Run.of_exec hs).reachable .pkt t ht).1⟩

/-- A service that lacks two batches obtains the later one before the earlier one. -/
theorem later_batch_first :
    ¬ ∀ s, Reachable (· = fanStart) (Steps (fanStep (servList []))) s →
      InOrder (servList []) s := by
  intro h
  have hrun : (exec (fanStep (servList [])) fanStart
      (twoBatches ++ [.getRxpkt .pkt, .getRxpkt .pkt])).map (fun s => obtained s .pkt) =
        some [0, 1] := by
    decide +kernel
  obtain ⟨s, hs, hobtained⟩ := Option.map_eq_some_iff.1 hrun
  have horder := h s (Run.of_exec hs).reachable .pkt (by decide)
  rw [hobtained] at horder
  exact absurd horder (by decide)

end DraginoFwd.Uplink

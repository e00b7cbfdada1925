import DraginoFwd.Jit.Concurrency
import Mathlib

/-!
# Beacons loaded by several services

Every Semtech service runs the beacon loop of `semtech_pull_down` in its own thread, on one queue.
After each `recv` it reads `num_beacon` without the lock, takes what is missing to
`JIT_NUM_BEACON_IN_QUEUE` as `beacon_loop`, and then enqueues that many beacons, however long that
takes and whatever the other services do meanwhile.

The state is the queue with its consumer and the producers of other packets (`ConcState`), and the
local variables of each service. The bound holds in every run in which a service reads `num_beacon`
below the bound only while no other service has beacons left to add (`reachable_beaconsBounded`).
Two services that read it together load up to six (`two_services_four_beacons`).
-/

set_option autoImplicit false

namespace DraginoFwd.Jit

open DraginoFwd.Hal
open DraginoFwd.Lib.GapSort
open DraginoFwd.Lib.Memory
open DraginoFwd.Lib.Transition

/-- The fields of `GW.beacon` that the loop reads. -/
structure BeaconCfg where
  beaconPeriod : BitVec 32
  beaconFreqHz : BitVec 32
  beaconFreqNb : BitVec 8
  beaconFreqStep : BitVec 32

/-- What the loop reads of `GW.gps` and `GW.hal` under the lock of the time reference: the two
flags, the GPS time of the reference in seconds, and `lgw_gps2cnt` with it, which leaves the
counter alone when the reference is invalid. -/
structure GpsRef where
  gpsRefValid : Bool
  xtalCorrectOk : Bool
  gpsSec : Int
  lgwGps2cnt : Int → Option (BitVec 32)

/-- Where a service is: outside of the beacon loop, at the head of the loop, or between the two
sections of a `jit_enqueue` at the given time, for a beacon at the given GPS second. -/
inductive BeaconPhase where
  | outside
  | looping
  | inserting (nextBeaconSec : Int) (timeUs : BitVec 32)
  deriving DecidableEq

/-- The variables of `semtech_pull_down` that belong to the beacon loop. -/
structure BeaconServ where
  beaconLoop : BitVec 8
  retry : BitVec 32
  lastBeaconSec : Int
  beaconPkt : LgwPktTx
  phase : BeaconPhase

/-- The variables before the first pass. -/
def BeaconServ.init (beaconPkt : LgwPktTx) : BeaconServ := ⟨0#8, 0#32, 0, beaconPkt, .outside⟩

/-- The entry of a pass: `beacon_loop = JIT_NUM_BEACON_IN_QUEUE - num_beacon; retry = 0`. -/
def readNumBeacon (q : JitQueue) (serv : BeaconServ) : BeaconServ :=
  { serv with
    beaconLoop := BitVec.ofNat 8 jitNumBeaconInQueue - q.numBeacon
    retry := 0#32
    phase := .looping }

/-- `next_beacon_gps_time.tv_sec`: the slot behind the current GPS time or behind the last beacon,
and `retry` periods on. -/
def nextBeaconSec (cfg : BeaconCfg) (gps : GpsRef) (serv : BeaconServ) : Int :=
  let period : Int := cfg.beaconPeriod.toNat
  let slot :=
    if serv.lastBeaconSec = 0 then gps.gpsSec + (period - gps.gpsSec.tmod period)
    else serv.lastBeaconSec + period
  slot + (serv.retry * cfg.beaconPeriod).toNat

/-- `beacon_chan` -/
def beaconChan (cfg : BeaconCfg) (nextSec : Int) : BitVec 8 :=
  if 1 < cfg.beaconFreqNb.toNat then
    BitVec.ofInt 8 ((nextSec.tdiv cfg.beaconPeriod.toNat).tmod cfg.beaconFreqNb.toNat)
  else 0#8

/-- The beacon for a GPS second. -/
def loadBeacon (cfg : BeaconCfg) (gps : GpsRef) (nextSec : Int) (packet : LgwPktTx) : LgwPktTx :=
  { packet with
    countUs := (gps.lgwGps2cnt nextSec).getD packet.countUs
    freqHz := cfg.beaconFreqHz + (beaconChan cfg nextSec).setWidth 32 * cfg.beaconFreqStep }

/-- An iteration of the loop up to the full test of `jit_enqueue`: leave the loop, count a retry, or
pass the test. -/
def attemptBeacon (cfg : BeaconCfg) (q : JitQueue) (gps : GpsRef) (timeUs : BitVec 32)
    (serv : BeaconServ) : BeaconServ :=
  if serv.beaconLoop = 0#8 ∨ cfg.beaconPeriod = 0#32 then { serv with phase := .outside }
  else if gps.gpsRefValid && gps.xtalCorrectOk then
    let next := nextBeaconSec cfg gps serv
    let serv := { serv with beaconPkt := loadBeacon cfg gps next serv.beaconPkt }
    if jitQueueIsFull q then { serv with retry := serv.retry + 1#32 }
    else { serv with phase := .inserting next timeUs }
  else { serv with phase := .outside }

/-- The rest of the iteration, with the code of `jit_enqueue`. -/
def beaconQueued (nextSec : Int) (code : JitError) (serv : BeaconServ) : BeaconServ :=
  match code with
  | .ok =>
      { serv with
        beaconLoop := serv.beaconLoop - 1#8
        retry := 0#32
        lastBeaconSec := nextSec
        phase := .looping }
  | _ => { serv with retry := serv.retry + 1#32, phase := .looping }

/-- The queue, with its consumer and the calls for other packets, and the `n` services. -/
structure BeaconState (n : Nat) where
  conc : ConcState
  servs : Fin n → BeaconServ

/-- A step of a service, or a critical section of another thread. -/
inductive BeaconEvent (n : Nat) where
  | readNumBeacon (k : Fin n)
  | attempt (k : Fin n) (gps : GpsRef) (timeUs : BitVec 32)
  | insert (k : Fin n)
  | other (e : ConcEvent)

/-- Beacons are enqueued by the beacon loop only. -/
def ConcEvent.callsBeacon : ConcEvent → Bool
  | .enqueueTest call => call.pktType == .beacon
  | _ => false

/-- Set the variables of service `k`. -/
def BeaconState.setServ {n : Nat} (s : BeaconState n) (k : Fin n) (serv : BeaconServ) :
    BeaconState n :=
  { s with servs := Function.update s.servs k serv }

/-- Replace the queue. -/
def BeaconState.setQueue {n : Nat} (s : BeaconState n) (q : JitQueue) : BeaconState n :=
  { s with conc := { s.conc with queue := q } }

/-- One step, where it can happen and stays inside the array of the queue. -/
def beaconStep {n : Nat} (tgt : Target) (cfg : BeaconCfg) (s : BeaconState n) :
    BeaconEvent n → Option (BeaconState n)
  | .readNumBeacon k =>
      if (s.servs k).phase = .outside then
        some (s.setServ k (readNumBeacon s.conc.queue (s.servs k)))
      else none
  | .attempt k gps timeUs =>
      if (s.servs k).phase = .looping then
        some (s.setServ k (attemptBeacon cfg s.conc.queue gps timeUs (s.servs k)))
      else none
  | .insert k =>
      match (s.servs k).phase with
      | .inserting nextSec timeUs =>
          match jitEnqueueSection tgt s.conc.queue timeUs (s.servs k).beaconPkt .beacon with
          | .ok (code, packet, q) =>
              let serv := beaconQueued nextSec code { s.servs k with beaconPkt := packet }
              some ((s.setQueue q).setServ k serv)
          | .error _ => none
      | _ => none
  | .other e =>
      if e.callsBeacon then none
      else
        match concStep tgt s.conc e with
        | some (.ok (_, conc)) => some { s with conc := conc }
        | _ => none

/-- An empty queue and services that have not received anything yet. -/
def beaconStart {n : Nat} (beaconPkt : LgwPktTx) : BeaconState n :=
  ⟨concStart, fun _ => .init beaconPkt⟩

/-- The beacons that a service still sets out to add. -/
def BeaconServ.pending (serv : BeaconServ) : Nat :=
  match serv.phase with
  | .outside => 0
  | _ => serv.beaconLoop.toNat

/-- A service reads `num_beacon` below the bound only while no other service has beacons left to
add. -/
def ReadsAlone {n : Nat} (s : BeaconState n) (e : BeaconEvent n) : Prop :=
  ∀ k, e = .readNumBeacon k → s.conc.queue.numBeacon.toNat < jitNumBeaconInQueue →
    ∀ j, j ≠ k → (s.servs j).pending = 0

instance {n : Nat} (s : BeaconState n) : ∀ e, Decidable (ReadsAlone s e)
  | .readNumBeacon k =>
      decidable_of_iff (s.conc.queue.numBeacon.toNat < jitNumBeaconInQueue →
        ∀ j, j ≠ k → (s.servs j).pending = 0)
        ⟨fun h k' heq hlt => by cases heq; exact h hlt, fun h => h k rfl⟩
  | .attempt _ _ _ => isTrue (by rintro _ ⟨⟩)
  | .insert _ => isTrue (by rintro _ ⟨⟩)
  | .other _ => isTrue (by rintro _ ⟨⟩)

/-- The number of beacons in the queue and the number that a pass sets out to add keep the
bound. -/
structure BeaconsBounded {n : Nat} (s : BeaconState n) : Prop where
  numBeacon : s.conc.queue.numBeacon.toNat ≤ jitNumBeaconInQueue
  beaconLoop : ∀ k, (s.servs k).beaconLoop.toNat ≤ jitNumBeaconInQueue

/-! ## The beacons in the array

`num_beacon` is compared with the beacons in the whole array, the nodes behind those in use
included: a dequeue with an index behind the nodes in use leaves a copy of the last one there. -/

/-- One for a beacon, zero for every other node. -/
def JitNode.beacons (n : JitNode) : Nat := if n.pktType = .beacon then 1 else 0

/-- The beacons in the array. -/
def JitQueue.beacons (q : JitQueue) : Nat := q.nodes.countP fun n => n.pktType == .beacon

/-- The counter covers the beacons in the array. -/
def JitQueue.CountsBeacons (q : JitQueue) : Prop := q.beacons ≤ q.numBeacon.toNat

/-- A cell that is written trades its old node for the new one. -/
theorem beacons_set (nodes : Vector JitNode jitQueueMax) (i : Fin jitQueueMax) (n : JitNode) :
    (nodes.set i.val n i.isLt).countP (fun n => n.pktType == .beacon) + (nodes.get i).beacons =
      nodes.countP (fun n => n.pktType == .beacon) + n.beacons := by
  rw [Vector.countP_set i.isLt]
  simp only [beq_iff_eq, JitNode.beacons, Vector.get_eq_getElem]
  split
  · next hi =>
    have hpos : 0 < nodes.countP fun n => n.pktType == .beacon := by
      apply Vector.countP_pos_iff.2
      exact ⟨nodes[i.val], Vector.getElem_mem i.isLt, by simp [hi]⟩
    omega
  · omega

theorem countsBeacons_jitQueueInit : jitQueueInit.CountsBeacons := by
  have h0 : jitQueueInit.beacons = 0 := by
    apply Vector.countP_eq_zero.2
    intro n hn
    rw [jitQueueInit, Vector.mem_replicate] at hn
    simp [hn.2, JitNode.zero]
  simp [JitQueue.CountsBeacons, h0]

@[simp] theorem jitSortQueue_beacons (q : JitQueue) : (jitSortQueue q).beacons = q.beacons := by
  unfold jitSortQueue
  split
  · rfl
  · have hperm := Vector.perm_iff_toList_perm.1 (gapSort_vector_perm compare q.numPkt.toNat q.nodes)
    simp only [JitQueue.beacons, ← Vector.countP_toList]
    exact hperm.countP_eq _

/-- A removal takes away the node at the index. -/
theorem jitRemoveAt_beacons (q : JitQueue) (i last : Fin jitQueueMax) :
    (jitRemoveAt q i last).beacons + (q.node i).beacons = q.beacons := by
  rw [jitRemoveAt, jitSortQueue_beacons, JitQueue.beacons, JitQueue.beacons]
  have hmove := beacons_set q.nodes i (q.node last)
  have hclear := beacons_set (q.nodes.set i (q.node last)) last .zero
  -- the cell of the last node still holds it, also when it is the cell `i`
  have hlast : (q.nodes.set i.val (q.node last) i.isLt).get last = q.node last := by
    rw [Vector.get_eq_getElem, Vector.getElem_set]
    split <;> rfl
  have hold : q.nodes.get i = q.node i := rfl
  have hzero : JitNode.zero.beacons = 0 := rfl
  rw [hold] at hmove
  rw [hlast] at hclear
  dsimp only
  omega

/-- A removal takes away the beacons that it uncounts. -/
theorem jitRemoveAt_countsBeacons {q : JitQueue} (h : q.CountsBeacons) (i last : Fin jitQueueMax) :
    (jitRemoveAt q i last).CountsBeacons ∧
      (jitRemoveAt q i last).numBeacon.toNat ≤ q.numBeacon.toNat := by
  have hcount := jitRemoveAt_beacons q i last
  have hnum : (jitRemoveAt q i last).numBeacon =
      if (q.node i).pktType = .beacon then q.numBeacon - 1#8 else q.numBeacon := by
    simp [jitRemoveAt]
  unfold JitQueue.CountsBeacons at h ⊢
  unfold JitNode.beacons at hcount
  rw [hnum]
  split
  · next hbeacon =>
    rw [if_pos hbeacon] at hcount
    have hsub := toNat_sub_one (n := q.numBeacon) (by omega)
    omega
  · next hother =>
    rw [if_neg hother] at hcount
    omega

/-- A scan takes away the beacons that it uncounts. -/
theorem jitPeekScan_countsBeacons (timeUs : BitVec 32) {q : JitQueue}
    (h : q.CountsBeacons) (i : Nat)
    (idx : Option (Fin jitQueueMax)) :
    (jitPeekScan timeUs q i idx).1.CountsBeacons ∧
      (jitPeekScan timeUs q i idx).1.numBeacon.toNat ≤ q.numBeacon.toNat := by
  fun_induction jitPeekScan timeUs q i idx with
  | case1 q i idx hi n hout ih =>
    obtain ⟨hremove, hle⟩ := jitRemoveAt_countsBeacons h n ⟨q.numPkt.toNat - 1, by omega⟩
    obtain ⟨hscan, hle'⟩ := ih hremove
    exact ⟨hscan, le_trans hle' hle⟩
  | case2 q i idx hi n hout ih => exact ih h
  | case3 => exact ⟨h, le_rfl⟩

/-- An insertion counts the beacon that it adds. -/
theorem jitInsert_countsBeacons {q q' : JitQueue} {node : JitNode} (h : q.CountsBeacons)
    (hmax : q.numBeacon.toNat < 255) (hins : jitInsert q node = .ok q') :
    q'.CountsBeacons ∧ q'.numBeacon.toNat = q.numBeacon.toNat + node.beacons := by
  rw [jitInsert] at hins
  split at hins
  · next hroom =>
    cases hins
    have hset := beacons_set q.nodes ⟨q.numPkt.toNat, hroom⟩ node
    have hnum : (if node.pktType = .beacon then q.numBeacon + 1#8 else q.numBeacon).toNat =
        q.numBeacon.toNat + node.beacons := by
      unfold JitNode.beacons
      split
      · bv_omega
      · rfl
    refine ⟨?_, by rw [jitSortQueue_numBeacon, hnum]⟩
    unfold JitQueue.CountsBeacons JitQueue.beacons at h
    unfold JitQueue.CountsBeacons
    rw [jitSortQueue_beacons, jitSortQueue_numBeacon, hnum, JitQueue.beacons]
    dsimp only at hset ⊢
    omega
  · cases hins

/-! ## The run of the services -/

/-- What a run keeps in which services read alone: the beacons in the queue and the beacons that
the services set out to add are within the bound together. -/
structure BeaconInv {n : Nat} (s : BeaconState n) : Prop where
  counts : s.conc.queue.CountsBeacons
  total : s.conc.queue.numBeacon.toNat + ∑ k, (s.servs k).pending ≤ jitNumBeaconInQueue
  loops : ∀ k, (s.servs k).beaconLoop.toNat ≤ jitNumBeaconInQueue
  inserting : ∀ k nextSec timeUs, (s.servs k).phase = .inserting nextSec timeUs →
    (s.servs k).beaconLoop ≠ 0#8
  downlinks : ∀ call ∈ s.conc.producers, call.pktType ≠ .beacon

theorem BeaconInv.bounded {n : Nat} {s : BeaconState n} (h : BeaconInv s) : BeaconsBounded s :=
  ⟨le_trans (Nat.le_add_right _ _) h.total, h.loops⟩

theorem beaconInv_beaconStart {n : Nat} (beaconPkt : LgwPktTx) :
    BeaconInv (beaconStart beaconPkt : BeaconState n) where
  counts := countsBeacons_jitQueueInit
  total := by simp [beaconStart, concStart, jitQueueInit, BeaconServ.init, BeaconServ.pending]
  loops := by simp [beaconStart, BeaconServ.init]
  inserting := by simp [beaconStart, BeaconServ.init]
  downlinks := by simp [beaconStart, concStart]

/-- Writing the variables of one service trades its pending beacons. -/
theorem sum_pending_setServ {n : Nat} (s : BeaconState n) (k : Fin n) (serv : BeaconServ) :
    (∑ j, ((s.setServ k serv).servs j).pending) + (s.servs k).pending =
      (∑ j, (s.servs j).pending) + serv.pending := by
  have hcomp : (fun j => ((s.setServ k serv).servs j).pending) =
      Function.update (fun j => (s.servs j).pending) k serv.pending :=
    Function.comp_update BeaconServ.pending s.servs k serv
  rw [hcomp, Finset.sum_update_of_mem (Finset.mem_univ k),
    ← Finset.add_sum_erase Finset.univ (fun j => (s.servs j).pending) (Finset.mem_univ k),
    Finset.sdiff_singleton_eq_erase]
  omega

/-- Writing the variables of one service keeps the invariant when its own beacons fit. -/
theorem BeaconInv.setServ {n : Nat} {s : BeaconState n} (h : BeaconInv s) (q : JitQueue)
    (k : Fin n) {serv : BeaconServ} (hq : q.CountsBeacons)
    (htotal : q.numBeacon.toNat + serv.pending + ∑ j, (s.servs j).pending ≤
      jitNumBeaconInQueue + (s.servs k).pending)
    (hloop : serv.beaconLoop.toNat ≤ jitNumBeaconInQueue)
    (hins : ∀ nextSec timeUs, serv.phase = .inserting nextSec timeUs → serv.beaconLoop ≠ 0#8) :
    BeaconInv ((s.setQueue q).setServ k serv) where
  counts := hq
  total := by
    -- the other services contribute what they did before
    have hsum := sum_pending_setServ (s.setQueue q) k serv
    have hservs : (s.setQueue q).servs = s.servs := rfl
    rw [hservs] at hsum
    show q.numBeacon.toNat + _ ≤ _
    omega
  loops := by
    intro j
    by_cases hj : j = k
    · subst hj
      simpa [BeaconState.setServ] using hloop
    · simpa [BeaconState.setServ, BeaconState.setQueue, hj] using h.loops j
  inserting := by
    intro j nextSec timeUs
    by_cases hj : j = k
    · subst hj
      simpa [BeaconState.setServ] using hins nextSec timeUs
    · simpa [BeaconState.setServ, BeaconState.setQueue, hj] using h.inserting j nextSec timeUs
  downlinks := h.downlinks

/-- The sections of the other threads uncount beacons, but never count any. -/
theorem concStep_countsBeacons {tgt : Target} {s s' : ConcState} {e : ConcEvent}
    {code : Option JitError} (hstep : concStep tgt s e = some (.ok (code, s')))
    (hcall : e.callsBeacon = false) (hmax : s.queue.numBeacon.toNat < 255)
    (hcount : s.queue.CountsBeacons) (hprod : ∀ call ∈ s.producers, call.pktType ≠ .beacon) :
    s'.queue.CountsBeacons ∧ s'.queue.numBeacon.toNat ≤ s.queue.numBeacon.toNat ∧
      ∀ call ∈ s'.producers, call.pktType ≠ .beacon := by
  generalize hr : (Except.ok (code, s') : ConcResult) = r at hstep
  cases concStep_section hstep with
  | ends =>
      cases hr
      exact ⟨hcount, le_rfl, hprod⟩
  | arrives call =>
      cases hr
      refine ⟨hcount, le_rfl, ?_⟩
      intro c hc
      rcases List.mem_cons.1 hc with rfl | hc
      · simpa [ConcEvent.callsBeacon] using hcall
      · exact hprod c hc
  | inserts k call hk =>
      have hkind := hprod call (List.mem_of_getElem? hk)
      have hrest : ∀ c ∈ s.producers.eraseIdx k, c.pktType ≠ .beacon := fun c hc =>
        hprod c (List.mem_of_mem_eraseIdx hc)
      rcases jitEnqueueSection_cases tgt s.queue call.timeUs call.packet call.pktType with
        ⟨err, -, heq⟩ | ⟨-, heq⟩
      · -- refused
        rw [heq] at hr
        cases hr
        exact ⟨hcount, le_rfl, hrest⟩
      · -- inserted, and no beacon
        cases hins : jitInsert s.queue
          (jitNode tgt s.queue call.timeUs call.packet call.pktType) with
        | error fault =>
            rw [heq, hins] at hr
            cases hr
        | ok q' =>
            rw [heq, hins] at hr
            cases hr
            obtain ⟨hcount', hnum⟩ := jitInsert_countsBeacons hcount hmax hins
            have hnode : (jitNode tgt s.queue call.timeUs call.packet call.pktType).beacons = 0 :=
              if_neg hkind
            exact ⟨hcount', by dsimp only; omega, hrest⟩
  | looks =>
      cases hr
      exact ⟨hcount, le_rfl, hprod⟩
  | scans timeUs =>
      cases hr
      obtain ⟨hcount', hle⟩ := jitPeekScan_countsBeacons timeUs hcount 0 none
      exact ⟨hcount', hle, hprod⟩
  | chooses =>
      cases hr
      exact ⟨hcount, le_rfl, hprod⟩
  | removes index =>
      rw [jitDequeueSection] at hr
      split at hr
      · next hlt =>
        cases hr
        obtain ⟨hcount', hle⟩ := jitRemoveAt_countsBeacons hcount index
          ⟨(s.queue.numPkt - 1#8).toNat, hlt⟩
        exact ⟨hcount', hle, hprod⟩
      · cases hr

/-- Nothing pends outside of the loop. -/
theorem pending_le_beaconLoop (serv : BeaconServ) : serv.pending ≤ serv.beaconLoop.toNat := by
  unfold BeaconServ.pending
  split
  · exact Nat.zero_le _
  · exact le_rfl

theorem pending_outside {serv : BeaconServ} (h : serv.phase = .outside) : serv.pending = 0 := by
  simp [BeaconServ.pending, h]

theorem pending_inside {serv : BeaconServ} (h : serv.phase ≠ .outside) :
    serv.pending = serv.beaconLoop.toNat := by
  unfold BeaconServ.pending
  split
  · next hout => exact absurd hout h
  · rfl

/-- A service that reads alone sets out to add what is missing. -/
theorem BeaconInv.read {n : Nat} {s : BeaconState n} (h : BeaconInv s) {k : Fin n}
    (hphase : (s.servs k).phase = .outside) (hok : ReadsAlone s (.readNumBeacon k)) :
    BeaconInv (s.setServ k (readNumBeacon s.conc.queue (s.servs k))) := by
  have hmax : jitNumBeaconInQueue = 3 := rfl
  have hnum := h.bounded.numBeacon
  have hloop : (readNumBeacon s.conc.queue (s.servs k)).beaconLoop.toNat =
      jitNumBeaconInQueue - s.conc.queue.numBeacon.toNat := by
    simp only [readNumBeacon, hmax]
    bv_omega
  have hle := pending_le_beaconLoop (readNumBeacon s.conc.queue (s.servs k))
  apply h.setServ s.conc.queue k h.counts
  · rcases Nat.lt_or_ge s.conc.queue.numBeacon.toNat jitNumBeaconInQueue with hlt | hge
    · -- no other service has beacons left to add, and this one starts anew
      have hzero : ∑ j, (s.servs j).pending = 0 := by
        apply Finset.sum_eq_zero
        intro j _
        by_cases hj : j = k
        · rw [hj]
          exact pending_outside hphase
        · exact hok k rfl hlt j hj
      omega
    · have htotal := h.total
      omega
  · omega
  · intro nextSec timeUs hins
    cases hins

/-- An iteration up to the full test sets out to add no more than before. -/
theorem BeaconInv.attempt {n : Nat} {s : BeaconState n} (h : BeaconInv s) {k : Fin n}
    (cfg : BeaconCfg) (gps : GpsRef) (timeUs : BitVec 32)
    (hphase : (s.servs k).phase = .looping) :
    BeaconInv (s.setServ k (attemptBeacon cfg s.conc.queue gps timeUs (s.servs k))) := by
  have hpend := @pending_inside (s.servs k) (by simp [hphase])
  have htotal := h.total
  have hloop := h.loops k
  have hsame : (attemptBeacon cfg s.conc.queue gps timeUs (s.servs k)).beaconLoop =
      (s.servs k).beaconLoop := by
    unfold attemptBeacon
    split
    · rfl
    · split
      · dsimp only
        split <;> rfl
      · rfl
  have hle := pending_le_beaconLoop (attemptBeacon cfg s.conc.queue gps timeUs (s.servs k))
  rw [hsame] at hle
  apply h.setServ s.conc.queue k h.counts
  · omega
  · rw [hsame]
    exact hloop
  · intro nextSec t hins
    rw [hsame]
    -- only the branch behind the first test of the loop head goes on to the insertion
    intro h0
    simp [attemptBeacon, h0] at hins

/-- An insertion adds one of the beacons that its service set out to add. -/
theorem BeaconInv.insert {n : Nat} {s s' : BeaconState n} (h : BeaconInv s) {tgt : Target}
    {cfg : BeaconCfg} {k : Fin n} (hstep : beaconStep tgt cfg s (.insert k) = some s') :
    BeaconInv s' := by
  have hmax : jitNumBeaconInQueue = 3 := rfl
  have htotal := h.total
  have hloop := h.loops k
  cases hphase : (s.servs k).phase with
  | outside => simp [beaconStep, hphase] at hstep
  | looping => simp [beaconStep, hphase] at hstep
  | inserting nextSec timeUs =>
    have hpend := @pending_inside (s.servs k) (by simp [hphase])
    have hne := h.inserting k nextSec timeUs hphase
    -- the loop test has been passed, so that the subtraction does not wrap
    have hpos : 0 < (s.servs k).beaconLoop.toNat := by
      apply Nat.pos_of_ne_zero
      intro h0
      exact hne (BitVec.eq_of_toNat_eq h0)
    have hsub := toNat_sub_one hpos
    simp only [beaconStep, hphase] at hstep
    rcases jitEnqueueSection_cases tgt s.conc.queue timeUs (s.servs k).beaconPkt .beacon with
      ⟨err, herr, heq⟩ | ⟨-, heq⟩
    · -- refused: another retry
      simp only [heq, Option.some.injEq] at hstep
      subst hstep
      have hretry : ∀ serv : BeaconServ, beaconQueued nextSec err serv =
          { serv with retry := serv.retry + 1#32, phase := .looping } := by
        intro serv
        cases err with
        | ok => exact absurd rfl herr
        | _ => rfl
      rw [hretry]
      apply h.setServ s.conc.queue k h.counts
      · rw [pending_inside (by simp)]
        dsimp only
        omega
      · exact hloop
      · intro _ _ hins
        cases hins
    · cases hins : jitInsert s.conc.queue
          (jitNode tgt s.conc.queue timeUs (s.servs k).beaconPkt .beacon) with
      | error fault =>
        rw [heq, hins] at hstep
        cases hstep
      | ok q' =>
        rw [heq, hins] at hstep
        cases hstep
        -- inserted: one more in the queue and one less to add
        obtain ⟨hcount, hnum⟩ := jitInsert_countsBeacons h.counts (by omega) hins
        have hnode : (jitNode tgt s.conc.queue timeUs (s.servs k).beaconPkt .beacon).beacons = 1 :=
          rfl
        apply h.setServ q' k hcount
        · rw [pending_inside (by simp [beaconQueued])]
          dsimp only [beaconQueued]
          omega
        · dsimp only [beaconQueued]
          omega
        · intro _ _ hphase'
          cases hphase'

theorem BeaconInv.step {n : Nat} {tgt : Target} {cfg : BeaconCfg} {s s' : BeaconState n}
    {e : BeaconEvent n} (h : BeaconInv s) (hok : ReadsAlone s e)
    (hstep : beaconStep tgt cfg s e = some s') : BeaconInv s' := by
  cases e with
  | readNumBeacon k =>
    rw [beaconStep] at hstep
    split at hstep
    · next hphase =>
      cases hstep
      exact h.read hphase hok
    · cases hstep
  | attempt k gps timeUs =>
    rw [beaconStep] at hstep
    split at hstep
    · next hphase =>
      cases hstep
      exact h.attempt cfg gps timeUs hphase
    · cases hstep
  | insert k => exact h.insert hstep
  | other e =>
    rw [beaconStep] at hstep
    split at hstep
    · cases hstep
    · next hcall =>
      split at hstep
      · next code conc heq =>
        cases hstep
        have hmax : jitNumBeaconInQueue = 3 := rfl
        have htotal := h.total
        -- a section of another thread leaves the variables of the services alone
        obtain ⟨hcount, hle, hprod⟩ := concStep_countsBeacons heq (Bool.eq_false_iff.2 hcall)
          (by omega) h.counts h.downlinks
        exact ⟨hcount, by dsimp only; omega, h.loops, h.inserting, hprod⟩
      · cases hstep

/-- For any number of services, every run in which a service reads `num_beacon` below the bound
only while no other service has beacons left to add keeps the bound. -/
theorem reachable_beaconsBounded {n : Nat} (tgt : Target) (cfg : BeaconCfg)
    (beaconPkt : LgwPktTx) :
    ∀ s : BeaconState n,
      Reachable (· = beaconStart beaconPkt) (Guarded ReadsAlone (Steps (beaconStep tgt cfg))) s →
        BeaconsBounded s := by
  intro s hreach
  have hinv : BeaconInv s := by
    apply hreach.invariant
    · rintro s rfl
      exact beaconInv_beaconStart beaconPkt
    · rintro s e t hs ⟨hok, hstep⟩
      exact hs.step hok hstep
  exact hinv.bounded

/-- A valid reference whose concentrator counts the microseconds of the GPS time. -/
def lockedGps (gpsSec : Int) : GpsRef where
  gpsRefValid := true
  xtalCorrectOk := true
  gpsSec := gpsSec
  lgwGps2cnt sec := some (BitVec.ofInt 32 (sec * 1000000))

/-- Beacons every 128 seconds on one channel. -/
def beaconCfg : BeaconCfg := ⟨128#32, 869525000#32, 1#8, 0#32⟩

/-- One service loads a beacon, loses the GPS lock and leaves its pass, and then the other one
reads. -/
def oneThenTheOther : List (BeaconEvent 2) :=
  [.readNumBeacon 0, .attempt 0 (lockedGps 1) 0#32, .insert 0,
    .attempt 0 { lockedGps 2 with gpsRefValid := false } 0#32, .readNumBeacon 1]

theorem reachable_beaconsBounded_two :
    ∃ s, exec (guardedBy ReadsAlone (beaconStep fskTarget beaconCfg)) (beaconStart .zero)
        oneThenTheOther = some s ∧ (s.servs 1).beaconLoop = 2#8 ∧ BeaconsBounded s := by
  have hloop : (exec (guardedBy ReadsAlone (beaconStep fskTarget beaconCfg)) (beaconStart .zero)
      oneThenTheOther).map (fun s => (s.servs 1).beaconLoop) = some 2#8 := by
    decide +kernel
  obtain ⟨s, hs, htwo⟩ := Option.map_eq_some_iff.1 hloop
  have hrun := Run.of_exec_guardedBy hs
  exact ⟨s, hs, htwo, reachable_beaconsBounded fskTarget beaconCfg .zero s hrun.reachable⟩

/-- Both services read `num_beacon` before either adds a beacon. -/
def bothReadFirst : List (BeaconEvent 2) :=
  [.readNumBeacon 0, .readNumBeacon 1] ++
    (List.replicate 3 [.attempt 0 (lockedGps 1) 0#32, .insert 0]).flatten ++
    (List.replicate 4 [.attempt 1 (lockedGps 1) 0#32, .insert 1]).flatten

/-- The second service is turned away from the three slots of the first one and loads a fourth
beacon behind them. -/
theorem two_services_four_beacons :
    ¬ ∀ s : BeaconState 2, Reachable (· = beaconStart .zero)
      (Steps (beaconStep fskTarget beaconCfg)) s → BeaconsBounded s := by
  intro h
  have hfour : (exec (beaconStep fskTarget beaconCfg) (beaconStart .zero) bothReadFirst).map
      (fun s => s.conc.queue.numBeacon) = some 4#8 := by
    decide +kernel
  obtain ⟨s, hs, hnum⟩ := Option.map_eq_some_iff.1 hfour
  have hbound := (h s (Run.of_exec hs).reachable).numBeacon
  rw [hnum] at hbound
  exact absurd hbound (by decide)

end DraginoFwd.Jit

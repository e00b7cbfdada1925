import DraginoFwd.Jit.Asap
import DraginoFwd.Jit.Beacons
import Mathlib

/-!
# The beacon loop, left alone

`while (beacon_loop && ...)` in `semtech_pull_down` adds the missing beacons to the queue of the
first radio chain, with the GPS reference and the concentrator time held fixed. A beacon that
`jit_enqueue` refuses is tried again one period later, whatever the reason of the refusal, and there
is no other way out of the loop than a beacon in the queue.

What the loop is for is `EarliestBeacons`: each beacon goes to the least multiple of the period
behind the one before at which the late and overlap criteria let it in. The loop does that, and
ends, exactly when the queue has room for all of them and each has a slot within 2^32 seconds
(`loadsEarliest_iff`). On a full queue it never ends, because `JIT_ERROR_FULL` is no reason to stop
(`full_queue_spins`).
-/

set_option autoImplicit false

namespace DraginoFwd.Jit

open DraginoFwd.Hal
open DraginoFwd.Lib.Memory
open DraginoFwd.Lib.SerialClock

/-- The conversion of a GPS reference is exact: some count at its GPS second, and a million ticks
for each second from there. -/
def GpsRef.Exact (gps : GpsRef) : Prop :=
  ∃ cnt, ∀ sec, gps.lgwGps2cnt sec =
    some (cnt + BitVec.ofInt 32 ((sec - gps.gpsSec) * 1000000))

/-- The queue, the variables of the loop, and the seconds for which a beacon has been queued. -/
structure BeaconPass where
  queue : JitQueue
  serv : BeaconServ
  queued : List Int

/-- One turn of the loop. -/
def beaconTurn (tgt : Target) (cfg : BeaconCfg) (gps : GpsRef) (timeUs : BitVec 32)
    (s : BeaconPass) : Except OutOfBounds BeaconPass :=
  let serv := attemptBeacon cfg s.queue gps timeUs s.serv
  match serv.phase with
  | .inserting nextSec timeUs =>
      (jitEnqueueSection tgt s.queue timeUs serv.beaconPkt .beacon).map fun (code, packet, queue) =>
        { queue := queue
          serv := beaconQueued nextSec code { serv with beaconPkt := packet }
          queued := if code = .ok then s.queued ++ [nextSec] else s.queued }
  | _ => .ok { s with serv := serv }

/-- At most `n` turns, up to the end of the loop. -/
def beaconTurns (tgt : Target) (cfg : BeaconCfg) (gps : GpsRef) (timeUs : BitVec 32) :
    Nat → BeaconPass → Except OutOfBounds BeaconPass
  | 0, s => .ok s
  | n + 1, s =>
      match s.serv.phase with
      | .looping =>
          match beaconTurn tgt cfg gps timeUs s with
          | .ok s' => beaconTurns tgt cfg gps timeUs n s'
          | .error fault => .error fault
      | _ => .ok s

/-- The loop is entered. -/
def beaconEntry (q : JitQueue) (serv : BeaconServ) : BeaconPass := ⟨q, readNumBeacon q serv, []⟩

/-- The GPS second that the search for the next beacon starts behind. -/
def beaconRef (gps : GpsRef) (lastSec : Int) : Int := if lastSec = 0 then gps.gpsSec else lastSec

/-- The first multiple of the period behind a second. -/
def firstBeaconSec (cfg : BeaconCfg) (refSec : Int) : Int :=
  refSec - refSec % cfg.beaconPeriod.toNat + cfg.beaconPeriod.toNat

/-- The last beacon of the loop: none, or one for a multiple of the period. -/
def LastBeacon (cfg : BeaconCfg) (lastSec : Int) : Prop :=
  0 ≤ lastSec ∧ (cfg.beaconPeriod.toNat : Int) ∣ lastSec

/-- The node that `jit_enqueue` builds for the beacon of a GPS second. -/
def beaconNode (cfg : BeaconCfg) (gps : GpsRef) (packet : LgwPktTx) (sec : Int) : JitNode where
  pkt := loadBeacon cfg gps sec packet
  pktType := .beacon
  preDelay := packetPreDelay .beacon
  postDelay := beaconReserved

section Spec

variable (cfg : BeaconCfg) (gps : GpsRef) (timeUs : BitVec 32) (packet : LgwPktTx)

/-- The multiples of the period behind `refSec` at which `jit_enqueue` finds the beacon neither too
late nor in collision with a queued packet. -/
def beaconSlots (q : JitQueue) (refSec : Int) : Set Int :=
  {sec | refSec < sec ∧ (cfg.beaconPeriod.toNat : Int) ∣ sec ∧
    Admissible q timeUs (beaconNode cfg gps packet sec)}

/-- The beacons for the seconds `secs` are queued one after the other, each at the earliest slot
behind the one before. -/
inductive EarliestBeacons : JitQueue → Int → Nat → List Int → JitQueue → Prop where
  | nil (q : JitQueue) (refSec : Int) : EarliestBeacons q refSec 0 [] q
  | cons {q q' q'' : JitQueue} {refSec sec : Int} {n : Nat} {secs : List Int} :
      IsLeast (beaconSlots cfg gps timeUs packet q refSec) sec →
      jitInsert q (beaconNode cfg gps packet sec) = .ok q' →
      EarliestBeacons q' sec n secs q'' → EarliestBeacons q refSec (n + 1) (sec :: secs) q''

/-- There is room in the array and a slot for each of `n` beacons, each less than 2^32 seconds
behind the first multiple of the period that comes into question. -/
inductive BeaconsFit : JitQueue → Int → Nat → Prop where
  | zero (q : JitQueue) (refSec : Int) : BeaconsFit q refSec 0
  | succ {q q' : JitQueue} {refSec sec : Int} {n : Nat} :
      IsLeast (beaconSlots cfg gps timeUs packet q refSec) sec →
      sec < firstBeaconSec cfg refSec + 2 ^ 32 →
      jitInsert q (beaconNode cfg gps packet sec) = .ok q' →
      BeaconsFit q' sec n → BeaconsFit q refSec (n + 1)

end Spec

/-- The beacons missing in the queue, as the loop counts them. -/
def missingBeacons (q : JitQueue) : Nat := (BitVec.ofNat 8 jitNumBeaconInQueue - q.numBeacon).toNat

/-- The loop has nothing to do: no beacons are configured, or the GPS is not ready. -/
def Idle (cfg : BeaconCfg) (gps : GpsRef) : Prop :=
  cfg.beaconPeriod = 0#32 ∨ (gps.gpsRefValid && gps.xtalCorrectOk) = false

/-- What the loop is for: it ends, its beacons are the earliest ones in increasing order, and a
refusal for want of room does not move the next beacon. -/
structure LoadsEarliest (tgt : Target) (cfg : BeaconCfg) (gps : GpsRef) (timeUs : BitVec 32)
    (q : JitQueue) (serv : BeaconServ) : Prop where
  ends : ∃ n s, beaconTurns tgt cfg gps timeUs n (beaconEntry q serv) = .ok s ∧
    s.serv.phase = .outside ∧ s.queued.Pairwise (· < ·) ∧
    (Idle cfg gps → s.queued = [] ∧ s.queue = q) ∧
    (¬ Idle cfg gps → EarliestBeacons cfg gps timeUs serv.beaconPkt q
      (beaconRef gps serv.lastBeaconSec) (missingBeacons q) s.queued s.queue)
  keeps : ∀ n s s', beaconTurns tgt cfg gps timeUs n (beaconEntry q serv) = .ok s →
    beaconTurns tgt cfg gps timeUs (n + 1) (beaconEntry q serv) = .ok s' →
      ¬ Idle cfg gps → s.serv.phase = .looping → s.serv.beaconLoop ≠ 0#8 →
        jitQueueIsFull s.queue = true →
          nextBeaconSec cfg gps s'.serv = nextBeaconSec cfg gps s.serv

/-! ## The seconds that are tried -/

/-- The second of the try number `r`: the product of `retry` and the period has 32 bits. -/
def triedSec (cfg : BeaconCfg) (refSec : Int) (r : Nat) : Int :=
  firstBeaconSec cfg refSec + (r * cfg.beaconPeriod.toNat % 2 ^ 32 : Nat)

theorem period_pos {cfg : BeaconCfg} (h : cfg.beaconPeriod ≠ 0#32) :
    0 < cfg.beaconPeriod.toNat := by
  apply Nat.pos_of_ne_zero
  intro h0
  exact h (BitVec.eq_of_toNat_eq h0)

/-- The multiples of the period behind a second are the first one and those behind it. -/
theorem multiple_iff {cfg : BeaconCfg} (hperiod : cfg.beaconPeriod ≠ 0#32) (refSec sec : Int) :
    (refSec < sec ∧ (cfg.beaconPeriod.toNat : Int) ∣ sec) ↔
      ∃ r : Nat, sec = firstBeaconSec cfg refSec + (r * cfg.beaconPeriod.toNat : Nat) := by
  have hpos := period_pos hperiod
  unfold firstBeaconSec
  generalize cfg.beaconPeriod.toNat = period at *
  have hmod := Int.emod_nonneg refSec (b := period) (by omega)
  have hlt := Int.emod_lt_of_pos refSec (b := period) (by omega)
  have hdiv := Int.mul_ediv_add_emod refSec period
  constructor
  · rintro ⟨hgt, k, rfl⟩
    -- the quotient is beyond that of the reference
    have hk : refSec / period < k := by
      apply lt_of_mul_lt_mul_left _ (Int.natCast_nonneg period)
      omega
    obtain ⟨r, hr⟩ := Int.eq_ofNat_of_zero_le (show 0 ≤ k - (refSec / period + 1) by omega)
    refine ⟨r, ?_⟩
    have hkr : k = r + (refSec / period + 1) := by omega
    have hsplit : refSec - refSec % period = period * (refSec / period) := by omega
    rw [hsplit, hkr]
    push_cast
    ring
  · rintro ⟨r, rfl⟩
    have hnonneg : (0 : Int) ≤ ((r * period : Nat) : Int) := Int.natCast_nonneg _
    refine ⟨by omega, ?_⟩
    have hsplit : refSec - refSec % period = period * (refSec / period) := by omega
    rw [hsplit]
    refine ⟨refSec / period + 1 + r, ?_⟩
    push_cast
    ring

/-- Seconds that are 2^32 apart have one time stamp. -/
theorem ofInt_wrap (a b : Int) (n : Nat) :
    BitVec.ofInt 32 ((a + (n % 2 ^ 32 : Nat) - b) * 1000000) =
      BitVec.ofInt 32 ((a + (n : Nat) - b) * 1000000) := by
  apply BitVec.eq_of_toNat_eq
  rw [BitVec.toNat_ofInt, BitVec.toNat_ofInt]
  congr 1
  have hdiv : (n : Int) = (n % 2 ^ 32 : Nat) + 2 ^ 32 * (n / 2 ^ 32 : Nat) := by
    have := Nat.mod_add_div n (2 ^ 32)
    push_cast
    omega
  rw [hdiv]
  have hsum : (a + ((n % 2 ^ 32 : Nat) + 2 ^ 32 * (n / 2 ^ 32 : Nat)) - b) * 1000000 =
      (a + (n % 2 ^ 32 : Nat) - b) * 1000000 + ((2 ^ 32 : Nat) : Int) *
        ((n / 2 ^ 32 : Nat) * 1000000) := by
    push_cast
    ring
  rw [hsum, Int.add_mul_emod_self_left]

/-- The criteria look at the time stamp, the type and the delays of a node only. -/
theorem admissible_congr {q : JitQueue} {timeUs : BitVec 32} {m n : JitNode}
    (hcount : m.pkt.countUs = n.pkt.countUs) (htype : m.pktType = n.pktType)
    (hpre : m.preDelay = n.preDelay) (hpost : m.postDelay = n.postDelay) :
    Admissible q timeUs m ↔ Admissible q timeUs n := by
  have hover : overlaps m = overlaps n := by
    funext k
    simp only [overlaps, hcount, htype, hpre, hpost]
  constructor
  · intro h
    exact ⟨hcount ▸ h.notLate, fun hAB => hcount ▸ h.notEarly (htype ▸ hAB),
      fun k hk => hover ▸ h.clear k hk⟩
  · intro h
    exact ⟨hcount ▸ h.notLate, fun hAB => hcount ▸ h.notEarly (htype ▸ hAB),
      fun k hk => hover ▸ h.clear k hk⟩

section Loop

variable {tgt : Target} {cfg : BeaconCfg} {gps : GpsRef} {timeUs : BitVec 32} {packet : LgwPktTx}

/-- A beacon that is loaded again keeps nothing of the second it was loaded for. -/
theorem loadBeacon_loadBeacon (hexact : gps.Exact) (sec sec' : Int) (packet : LgwPktTx) :
    loadBeacon cfg gps sec (loadBeacon cfg gps sec' packet) = loadBeacon cfg gps sec packet := by
  obtain ⟨cnt, hcnt⟩ := hexact
  simp only [loadBeacon, hcnt, Option.getD_some]

theorem admissible_triedSec (hexact : gps.Exact) (q : JitQueue) (refSec : Int) (r : Nat) :
    Admissible q timeUs (beaconNode cfg gps packet
      (triedSec cfg refSec r)) ↔
    Admissible q timeUs (beaconNode cfg gps packet
      (firstBeaconSec cfg refSec + (r * cfg.beaconPeriod.toNat : Nat))) := by
  obtain ⟨cnt, hcnt⟩ := hexact
  refine admissible_congr ?_ rfl rfl rfl
  simp only [beaconNode, loadBeacon, hcnt, Option.getD_some, triedSec]
  rw [ofInt_wrap]

/-- The state of the loop in the search for a beacon, before the try number `r`. -/
structure Searching (cfg : BeaconCfg) (gps : GpsRef) (packet : LgwPktTx) (q : JitQueue)
    (loop : BitVec 8) (lastSec : Int) (queued : List Int) (r : Nat) (s : BeaconPass) : Prop where
  queue : s.queue = q
  queued : s.queued = queued
  phase : s.serv.phase = .looping
  loop : s.serv.beaconLoop = loop
  last : s.serv.lastBeaconSec = lastSec
  retry : s.serv.retry = BitVec.ofNat 32 r
  loads : ∀ sec, loadBeacon cfg gps sec s.serv.beaconPkt = loadBeacon cfg gps sec packet

theorem Searching.tries {q : JitQueue} {loop : BitVec 8} {lastSec : Int}
    {queued : List Int} {r : Nat} {s : BeaconPass}
    (h : Searching cfg gps packet q loop lastSec queued
      r s) (hgps : 0 ≤ gps.gpsSec) (hlast : LastBeacon cfg lastSec) :
    nextBeaconSec cfg gps s.serv =
      triedSec cfg (beaconRef gps lastSec) r := by
  have hprod : (s.serv.retry * cfg.beaconPeriod).toNat = r * cfg.beaconPeriod.toNat % 2 ^ 32 := by
    rw [h.retry, BitVec.toNat_mul, BitVec.toNat_ofNat, Nat.mod_mul_mod]
  have hmod : gps.gpsSec.tmod cfg.beaconPeriod.toNat = gps.gpsSec % cfg.beaconPeriod.toNat :=
    Int.tmod_eq_emod_of_nonneg hgps
  rw [nextBeaconSec, triedSec, firstBeaconSec, beaconRef, hprod, h.last]
  rw [hmod]
  split
  · omega
  · rw [Int.emod_eq_zero_of_dvd hlast.2]
    omega

/-- The turn up to the full test, when there is something to do. -/
theorem attemptBeacon_of_busy {q : JitQueue} {serv : BeaconServ}
    (hbusy : ¬ Idle cfg gps) (hloop : serv.beaconLoop ≠ 0#8) :
    attemptBeacon cfg q gps timeUs serv =
      if jitQueueIsFull q then
        { serv with
          beaconPkt := loadBeacon cfg gps (nextBeaconSec cfg gps serv) serv.beaconPkt
          retry := serv.retry + 1#32 }
      else
        { serv with
          beaconPkt := loadBeacon cfg gps (nextBeaconSec cfg gps serv) serv.beaconPkt
          phase := .inserting (nextBeaconSec cfg gps serv) timeUs } := by
  have hperiod : ¬ (serv.beaconLoop = 0#8 ∨ cfg.beaconPeriod = 0#32) := by
    rintro (h | h)
    · exact hloop h
    · exact hbusy (Or.inl h)
  have hready : (gps.gpsRefValid && gps.xtalCorrectOk) = true := by
    apply Bool.of_not_eq_false
    intro h
    exact hbusy (Or.inr h)
  rw [attemptBeacon, if_neg hperiod, if_pos hready]

theorem ofNat_succ (r : Nat) : BitVec.ofNat 32 r + 1#32 = BitVec.ofNat 32 (r + 1) := by
  apply BitVec.eq_of_toNat_eq
  simp

/-- A full queue is no way out of the loop: the next turn tries one period later. -/
theorem Searching.turn_full {q : JitQueue} {loop : BitVec 8} {lastSec : Int}
    {queued : List Int} {r : Nat} {s : BeaconPass}
    (hexact : gps.Exact) (h : Searching cfg gps packet q loop lastSec queued r s)
    (hbusy : ¬ Idle cfg gps) (hloop : loop ≠ 0#8) (hfull : jitQueueIsFull q = true) :
    ∃ s', beaconTurn tgt cfg gps timeUs s = .ok s' ∧
      Searching cfg gps packet q loop lastSec queued (r + 1) s' := by
  have hne : s.serv.beaconLoop ≠ 0#8 := by rw [h.loop]; exact hloop
  have hfull' : jitQueueIsFull s.queue = true := by rw [h.queue]; exact hfull
  unfold beaconTurn
  rw [attemptBeacon_of_busy hbusy hne, if_pos hfull']
  dsimp only
  rw [h.phase]
  refine ⟨_, rfl, h.queue, h.queued, rfl, h.loop, h.last, ?_, ?_⟩
  · rw [h.retry, ofNat_succ]
  · intro sec
    rw [loadBeacon_loadBeacon hexact, h.loads]

/-- A refusal of any kind counts a retry. -/
theorem beaconQueued_of_ne {nextSec : Int} {code : JitError} {serv : BeaconServ}
    (h : code ≠ .ok) : beaconQueued nextSec code serv =
      { serv with retry := serv.retry + 1#32, phase := .looping } := by
  cases code with
  | ok => exact absurd rfl h
  | _ => rfl

theorem Searching.node {q : JitQueue} {loop : BitVec 8} {lastSec : Int}
    {queued : List Int} {r : Nat}
    {s : BeaconPass} (h : Searching cfg gps packet q loop lastSec queued r s) (sec : Int) :
    jitNode tgt q timeUs (loadBeacon cfg gps sec s.serv.beaconPkt) .beacon =
      beaconNode cfg gps packet sec := by
  rw [h.loads]
  rfl

/-- With room in the queue a turn does what the section of `jit_enqueue` says. -/
theorem Searching.turn_of_section {q q' : JitQueue} {loop : BitVec 8} {lastSec : Int}
    {queued : List Int} {r : Nat} {s : BeaconPass} {code : JitError} {pkt : LgwPktTx}
    (h : Searching cfg gps packet q loop lastSec queued r s) (hbusy : ¬ Idle cfg gps)
    (hloop : loop ≠ 0#8) (hfull : jitQueueIsFull q = false)
    (hsection : jitEnqueueSection tgt q timeUs
      (loadBeacon cfg gps (nextBeaconSec cfg gps s.serv) s.serv.beaconPkt) .beacon =
        .ok (code, pkt, q')) :
    beaconTurn tgt cfg gps timeUs s = .ok
      { queue := q'
        serv := beaconQueued (nextBeaconSec cfg gps s.serv) code
          { s.serv with
            beaconPkt := pkt
            phase := .inserting (nextBeaconSec cfg gps s.serv) timeUs }
        queued :=
          if code = .ok then s.queued ++ [nextBeaconSec cfg gps s.serv] else s.queued } := by
  have hne : s.serv.beaconLoop ≠ 0#8 := by rw [h.loop]; exact hloop
  have hfull' : ¬ jitQueueIsFull s.queue = true := by rw [h.queue, hfull]; exact Bool.false_ne_true
  unfold beaconTurn
  rw [attemptBeacon_of_busy hbusy hne, if_neg hfull']
  dsimp only
  rw [h.queue, hsection]
  rfl

/-- A beacon that is too late or collides is tried again one period later. -/
theorem Searching.turn_refused {q : JitQueue} {loop : BitVec 8} {lastSec : Int}
    {queued : List Int} {r : Nat} {s : BeaconPass}
    (hexact : gps.Exact) (h : Searching cfg gps packet q loop lastSec queued r s)
    (hbusy : ¬ Idle cfg gps) (hloop : loop ≠ 0#8) (hfull : jitQueueIsFull q = false)
    (hadm : ¬ Admissible q timeUs (beaconNode cfg gps packet (nextBeaconSec cfg gps s.serv))) :
    ∃ s', beaconTurn tgt cfg gps timeUs s = .ok s' ∧
      Searching cfg gps packet q loop lastSec queued (r + 1) s' := by
  have hnode : jitNode tgt q timeUs _ .beacon = _ := h.node (nextBeaconSec cfg gps s.serv)
  rw [← hnode] at hadm
  obtain ⟨e, he, -, heq⟩ := jitEnqueueSection_of_not_admissible hadm
  refine ⟨_, h.turn_of_section hbusy hloop hfull heq, rfl, ?_, ?_, ?_, ?_, ?_, ?_⟩
  · dsimp only
    rw [if_neg he]
    exact h.queued
  all_goals dsimp only
  all_goals rw [beaconQueued_of_ne he]
  · exact h.loop
  · exact h.last
  · rw [h.retry, ofNat_succ]
  · exact fun sec => (loadBeacon_loadBeacon hexact sec _ _).trans (h.loads sec)

/-- A beacon that is let in is the reference for the next one. -/
theorem Searching.turn_accepted {q q' : JitQueue} {loop : BitVec 8} {lastSec : Int}
    {queued : List Int} {r : Nat} {s : BeaconPass}
    (hexact : gps.Exact) (h : Searching cfg gps packet q loop lastSec queued r s)
    (hbusy : ¬ Idle cfg gps) (hloop : loop ≠ 0#8) (hfull : jitQueueIsFull q = false)
    (hadm : Admissible q timeUs (beaconNode cfg gps packet (nextBeaconSec cfg gps s.serv)))
    (hins : jitInsert q (beaconNode cfg gps packet (nextBeaconSec cfg gps s.serv)) = .ok q') :
    ∃ s', beaconTurn tgt cfg gps timeUs s = .ok s' ∧
      Searching cfg gps packet q' (loop - 1#8) (nextBeaconSec cfg gps s.serv)
        (queued ++ [nextBeaconSec cfg gps s.serv]) 0 s' := by
  have hnode : jitNode tgt q timeUs _ .beacon = _ := h.node (nextBeaconSec cfg gps s.serv)
  rw [← hnode] at hadm hins
  have heq := jitEnqueueSection_of_admissible hadm
  rw [hins] at heq
  refine ⟨_, h.turn_of_section hbusy hloop hfull heq, rfl, ?_, rfl, ?_, rfl, rfl, ?_⟩
  · show s.queued ++ [_] = _
    rw [h.queued]
  · show s.serv.beaconLoop - 1#8 = _
    rw [h.loop]
  · exact fun sec => (loadBeacon_loadBeacon hexact sec _ _).trans (h.loads sec)

/-! ## Turn after turn -/

theorem beaconTurns_looping {s s' : BeaconPass} (n : Nat)
    (hphase : s.serv.phase = .looping) (hturn : beaconTurn tgt cfg gps timeUs s = .ok s') :
    beaconTurns tgt cfg gps timeUs (n + 1) s = beaconTurns tgt cfg gps timeUs n s' := by
  rw [beaconTurns, hphase, hturn]

theorem beaconTurns_outside {s : BeaconPass} (n : Nat)
    (hphase : s.serv.phase = .outside) : beaconTurns tgt cfg gps timeUs n s = .ok s := by
  cases n with
  | zero => rfl
  | succ n => rw [beaconTurns, hphase]

/-- More turns go on where the first ones stopped. -/
theorem beaconTurns_add {s s' : BeaconPass} (m n : Nat)
    (h : beaconTurns tgt cfg gps timeUs m s = .ok s') :
    beaconTurns tgt cfg gps timeUs (m + n) s = beaconTurns tgt cfg gps timeUs n s' := by
  -- a pass that has left the loop stays as it is, whatever turns are left
  induction m generalizing s with
  | zero =>
      cases h
      rw [Nat.zero_add]
  | succ m ih =>
      rw [Nat.succ_add, beaconTurns]
      rw [beaconTurns] at h
      cases hphase : s.serv.phase with
      | looping =>
          rw [hphase] at h
          cases hturn : beaconTurn tgt cfg gps timeUs s with
          | ok s1 =>
              rw [hturn] at h
              exact ih h
          | error fault =>
              rw [hturn] at h
              cases h
      | outside =>
          rw [hphase] at h
          cases h
          rw [beaconTurns_outside n hphase]
      | inserting nextSec t =>
          rw [hphase] at h
          cases h
          cases n with
          | zero => rfl
          | succ n => rw [beaconTurns, hphase]

/-- A full queue keeps the loop running for any number of turns. -/
theorem Searching.turns_full {q : JitQueue} {loop : BitVec 8} {lastSec : Int}
    {queued : List Int} {r : Nat} {s : BeaconPass}
    (hexact : gps.Exact) (h : Searching cfg gps packet q loop lastSec queued r s)
    (hbusy : ¬ Idle cfg gps) (hloop : loop ≠ 0#8) (hfull : jitQueueIsFull q = true) (n : Nat) :
    ∃ s', beaconTurns tgt cfg gps timeUs n s = .ok s' ∧
      Searching cfg gps packet q loop lastSec queued (r + n) s' := by
  induction n with
  | zero => exact ⟨s, rfl, h⟩
  | succ n ih =>
      obtain ⟨s1, hturns, hs1⟩ := ih
      obtain ⟨s2, hturn, hs2⟩ : ∃ s2, beaconTurn tgt cfg gps timeUs s1 = .ok s2 ∧
          Searching cfg gps packet q loop lastSec queued (r + n + 1) s2 :=
        hs1.turn_full hexact hbusy hloop hfull
      refine ⟨s2, ?_, hs2⟩
      rw [beaconTurns_add n 1 hturns, beaconTurns_looping 0 hs1.phase hturn]
      rfl

/-- The seconds queued so far stay in one turn. -/
theorem beaconTurn_queued {s s' : BeaconPass}
    (h : beaconTurn tgt cfg gps timeUs s = .ok s') : ∃ secs, s'.queued = s.queued ++ secs := by
  unfold beaconTurn at h
  generalize attemptBeacon cfg s.queue gps timeUs s.serv = serv at h
  dsimp only at h
  split at h
  · next nextSec t _ =>
    cases hcall : jitEnqueueSection tgt s.queue t serv.beaconPkt .beacon with
    | error fault =>
        rw [hcall] at h
        cases h
    | ok result =>
        obtain ⟨code, packet', queue⟩ := result
        rw [hcall] at h
        cases h
        by_cases hok : code = .ok
        · exact ⟨[nextSec], if_pos hok⟩
        · exact ⟨[], (if_neg hok).trans (List.append_nil _).symm⟩
  · cases h
    exact ⟨[], (List.append_nil _).symm⟩

/-- The seconds queued so far stay. -/
theorem beaconTurns_queued {s s' : BeaconPass} (n : Nat)
    (h : beaconTurns tgt cfg gps timeUs n s = .ok s') : ∃ secs, s'.queued = s.queued ++ secs := by
  induction n generalizing s with
  | zero =>
      cases h
      exact ⟨[], (List.append_nil _).symm⟩
  | succ n ih =>
      rw [beaconTurns] at h
      split at h
      · split at h
        · next s1 hturn =>
          obtain ⟨first, hfirst⟩ := beaconTurn_queued hturn
          obtain ⟨secs, hsecs⟩ := ih h
          exact ⟨first ++ secs, by rw [hsecs, hfirst, List.append_assoc]⟩
        · cases h
      · cases h
        exact ⟨[], (List.append_nil _).symm⟩

/-- The least slot is the first try that is let in, when no try before it is. -/
theorem exists_try_of_isLeast {q : JitQueue} {refSec sec : Int}
    (hperiod : cfg.beaconPeriod ≠ 0#32)
    (h : IsLeast (beaconSlots cfg gps timeUs packet q refSec) sec) :
    ∃ r : Nat, sec = firstBeaconSec cfg refSec + (r * cfg.beaconPeriod.toNat : Nat) ∧
      Admissible q timeUs (beaconNode cfg gps packet sec) ∧
      ∀ k < r, ¬ Admissible q timeUs (beaconNode cfg gps packet
        (firstBeaconSec cfg refSec + (k * cfg.beaconPeriod.toNat : Nat))) := by
  obtain ⟨⟨hgt, hdvd, hadm⟩, hleast⟩ := h
  obtain ⟨r, hr⟩ := (multiple_iff hperiod refSec sec).1 ⟨hgt, hdvd⟩
  refine ⟨r, hr, hadm, fun k hk hk' => ?_⟩
  have hpos := period_pos hperiod
  obtain ⟨hgt', hdvd'⟩ := (multiple_iff hperiod refSec
    (firstBeaconSec cfg refSec + (k * cfg.beaconPeriod.toNat : Nat))).2 ⟨k, rfl⟩
  have hle := hleast ⟨hgt', hdvd', hk'⟩
  have hmul : k * cfg.beaconPeriod.toNat < r * cfg.beaconPeriod.toNat :=
    Nat.mul_lt_mul_of_pos_right hk hpos
  omega

theorem isFull_of_insert {q q' : JitQueue} {node : JitNode} (h : jitInsert q node = .ok q') :
    jitQueueIsFull q = false := by
  rw [jitInsert] at h
  split at h
  · next hlt => exact beq_false_of_ne (Nat.ne_of_lt hlt)
  · cases h

/-- With nothing left to add the next turn is the last one. -/
theorem turn_done {s : BeaconPass} (hphase : s.serv.phase = .looping)
    (hloop : s.serv.beaconLoop = 0#8) :
    ∃ s', beaconTurns tgt cfg gps timeUs 1 s = .ok s' ∧ s'.serv.phase = .outside ∧
      s'.queue = s.queue ∧ s'.queued = s.queued := by
  have hturn : beaconTurn tgt cfg gps timeUs s =
      .ok { s with serv := { s.serv with phase := .outside } } := by
    unfold beaconTurn attemptBeacon
    rw [if_pos (Or.inl hloop)]
  exact ⟨_, beaconTurns_looping 0 hphase hturn, rfl, rfl, rfl⟩

theorem beaconRef_pos {lastSec : Int} (h : 0 < lastSec) : beaconRef gps lastSec = lastSec := by
  rw [beaconRef, if_neg (ne_of_gt h)]

/-- A slot is a positive multiple of the period. -/
theorem lastBeacon_of_slot (hgps : 0 ≤ gps.gpsSec) {q : JitQueue} {lastSec sec : Int}
    (hlast : LastBeacon cfg lastSec)
    (h : sec ∈ beaconSlots cfg gps timeUs packet q (beaconRef gps lastSec)) :
    0 < sec ∧ LastBeacon cfg sec := by
  obtain ⟨hgt, hdvd, -⟩ := h
  have hpos : 0 < sec := by
    unfold beaconRef at hgt
    have hnonneg := hlast.1
    split at hgt <;> omega
  exact ⟨hpos, hpos.le, hdvd⟩

section Exact

variable (hexact : gps.Exact) (hgps : 0 ≤ gps.gpsSec) (hbusy : ¬ Idle cfg gps)

include hexact hgps hbusy

/-- Tries that are not let in leave the queue as it is. -/
theorem Searching.turns_refused {q : JitQueue} {loop : BitVec 8} {lastSec : Int}
    {queued : List Int} {s : BeaconPass}
    (h : Searching cfg gps packet q loop lastSec queued
      0 s) (hlast : LastBeacon cfg lastSec) (hloop : loop ≠ 0#8)
    (hfull : jitQueueIsFull q = false) (n : Nat)
    (hrej : ∀ k < n, ¬ Admissible q timeUs
      (beaconNode cfg gps packet
        (triedSec cfg (beaconRef gps lastSec) k))) :
    ∃ s', beaconTurns tgt cfg gps timeUs n s = .ok s' ∧
      Searching cfg gps packet q loop lastSec queued n
        s' := by
  induction n with
  | zero => exact ⟨s, rfl, h⟩
  | succ n ih =>
      obtain ⟨s1, hturns, hs1⟩ := ih fun k hk => hrej k (Nat.lt_succ_of_lt hk)
      have hlate := hrej n (Nat.lt_succ_self n)
      rw [← hs1.tries hgps hlast] at hlate
      obtain ⟨s2, hturn, hs2⟩ : ∃ s2, beaconTurn tgt cfg
          gps timeUs s1 = .ok s2 ∧
            Searching cfg gps packet q loop lastSec
              queued (n + 1) s2 :=
        hs1.turn_refused hexact hbusy hloop hfull hlate
      refine ⟨s2, ?_, hs2⟩
      rw [beaconTurns_add n 1 hturns, beaconTurns_looping 0 hs1.phase hturn]
      rfl

/-- The search for one beacon: refused tries, and one that is let in. -/
theorem Searching.finds {q q' : JitQueue} {loop : BitVec 8} {lastSec : Int}
    {queued : List Int} {s : BeaconPass}
    (h : Searching cfg gps packet q loop lastSec queued
      0 s) (hlast : LastBeacon cfg lastSec) (hloop : loop ≠ 0#8) (n : Nat)
    (hrej : ∀ k < n, ¬ Admissible q timeUs
      (beaconNode cfg gps packet
        (triedSec cfg (beaconRef gps lastSec) k)))
    (hadm : Admissible q timeUs
      (beaconNode cfg gps packet
        (triedSec cfg (beaconRef gps lastSec) n)))
    (hfull : jitQueueIsFull q = false)
    (hins : jitInsert q (beaconNode cfg gps packet
      (triedSec cfg (beaconRef gps lastSec) n)) =
        .ok q') :
    ∃ s', beaconTurns tgt cfg gps timeUs (n + 1) s =
        .ok s' ∧
      Searching cfg gps packet q' (loop - 1#8)
        (triedSec cfg (beaconRef gps lastSec) n)
        (queued ++
          [triedSec cfg (beaconRef gps lastSec) n]) 0
        s' := by
  obtain ⟨s1, hturns, hs1⟩ : ∃ s', beaconTurns tgt cfg
      gps timeUs n s = .ok s' ∧ _ :=
    h.turns_refused hexact hgps hbusy hlast hloop hfull n hrej
  rw [← hs1.tries hgps hlast] at hadm hins ⊢
  obtain ⟨s2, hturn, hs2⟩ : ∃ s', beaconTurn tgt cfg
      gps timeUs s1 = .ok s' ∧ _ :=
    hs1.turn_accepted hexact hbusy hloop hfull hadm hins
  refine ⟨s2, ?_, hs2⟩
  rw [beaconTurns_add n 1 hturns, beaconTurns_looping 0 hs1.phase hturn]
  rfl

/-- The beacon that is queued is for the least slot when that is within 2^32 seconds. -/
theorem exists_finds {q q' : JitQueue} {loop : BitVec 8} {lastSec sec : Int} {queued : List Int}
    {s : BeaconPass} (h : Searching cfg gps packet q loop lastSec queued 0 s)
    (hlast : LastBeacon cfg lastSec) (hloop : loop ≠ 0#8)
    (hleast : IsLeast (beaconSlots cfg gps timeUs packet q (beaconRef gps lastSec)) sec)
    (hins : jitInsert q (beaconNode cfg gps packet sec) = .ok q') :
    ∃ r : Nat, (∀ n ≤ r, ∃ s', beaconTurns tgt cfg gps timeUs n s = .ok s' ∧
        s'.serv.phase = .looping) ∧
      ∃ s' next, beaconTurns tgt cfg gps timeUs (r + 1) s = .ok s' ∧
        s'.queued = queued ++ [next] ∧
        (next = sec ↔ sec < firstBeaconSec cfg (beaconRef gps lastSec) + 2 ^ 32) ∧
        (next = sec → Searching cfg gps packet q' (loop - 1#8) sec (queued ++ [sec]) 0 s') := by
  have hperiod : cfg.beaconPeriod ≠ 0#32 := fun h0 => hbusy (Or.inl h0)
  obtain ⟨r, hr, hadm, hrej⟩ := exists_try_of_isLeast hperiod hleast
  have hfull := isFull_of_insert hins
  have hrej' : ∀ k < r, ¬ Admissible q timeUs
      (beaconNode cfg gps packet (triedSec cfg (beaconRef gps lastSec) k)) := by
    intro k hk hk'
    exact hrej k hk ((admissible_triedSec hexact q _ k).1 hk')
  have hadm' : Admissible q timeUs
      (beaconNode cfg gps packet (triedSec cfg (beaconRef gps lastSec) r)) := by
    rw [admissible_triedSec hexact, ← hr]
    exact hadm
  have hnext : triedSec cfg (beaconRef gps lastSec) r = sec ↔
      sec < firstBeaconSec cfg (beaconRef gps lastSec) + 2 ^ 32 := by
    unfold triedSec
    omega
  refine ⟨r, fun n hn => ?_, ?_⟩
  · -- up to try `r` all are refused
    obtain ⟨s', hturns, hs'⟩ := h.turns_refused hexact hgps hbusy hlast hloop hfull n
      fun k hk => hrej' k (lt_of_lt_of_le hk hn)
    exact ⟨s', hturns, hs'.phase⟩
  · -- there is room, wherever the beacon goes
    have hroom : q.numPkt.toNat < jitQueueMax := by
      rw [jitInsert] at hins
      split at hins
      · next hlt => exact hlt
      · cases hins
    obtain ⟨q0, hins0, -, -⟩ := jitInsert_spec
      (beaconNode cfg gps packet (triedSec cfg (beaconRef gps lastSec) r)) hroom
    obtain ⟨s', hturns, hs'⟩ := h.finds hexact hgps hbusy hlast hloop r hrej' hadm' hfull hins0
    refine ⟨s', _, hturns, hs'.queued, hnext, fun heq => ?_⟩
    rw [heq] at hs' hins0
    rw [hins0] at hins
    cases hins
    exact hs'

/-- When all beacons fit, the loop queues them at the earliest slots and ends. -/
theorem ends_of_fit {q : JitQueue} {refSec : Int} {n : Nat}
    (hfit : BeaconsFit cfg gps timeUs packet q refSec n) :
    ∀ {loop : BitVec 8} {lastSec : Int} {queued : List Int} {s : BeaconPass},
      Searching cfg gps packet q loop lastSec queued 0 s → loop.toNat = n →
        LastBeacon cfg lastSec → refSec = beaconRef gps lastSec →
          ∃ m s' secs, beaconTurns tgt cfg gps timeUs m s = .ok s' ∧ s'.serv.phase = .outside ∧
            s'.queued = queued ++ secs ∧
            EarliestBeacons cfg gps timeUs packet q refSec n secs s'.queue := by
  induction hfit with
  | zero q refSec =>
      intro loop lastSec queued s h hn _ _
      have hloop : s.serv.beaconLoop = 0#8 := by
        rw [h.loop]
        exact BitVec.eq_of_toNat_eq hn
      obtain ⟨s', hturns, hout, hqueue, hqueued⟩ : ∃ s',
          beaconTurns tgt cfg gps timeUs 1 s = .ok s' ∧ _ := turn_done h.phase hloop
      refine ⟨1, s', [], hturns, hout, ?_, ?_⟩
      · rw [hqueued, h.queued, List.append_nil]
      · rw [hqueue, h.queue]
        exact EarliestBeacons.nil q refSec
  | @succ q q' refSec sec n hleast hnear hins _ ih =>
      intro loop lastSec queued s h hn hlast href
      subst href
      have hloop : loop ≠ 0#8 := by
        rintro rfl
        exact absurd hn (Nat.succ_ne_zero n).symm
      obtain ⟨r, -, s1, next, hturns, -, hnext, hsearch⟩ : ∃ r : Nat, _ ∧ ∃ s' next,
          beaconTurns tgt cfg gps timeUs (r + 1) s = .ok s' ∧ _ :=
        exists_finds hexact hgps hbusy h hlast hloop hleast hins
      -- within 2^32 seconds the try is the slot itself, where the search for the next one starts
      have hs1 := hsearch (hnext.2 hnear)
      obtain ⟨hpos, hlast'⟩ := lastBeacon_of_slot hgps hlast hleast.1
      have hsub : (loop - 1#8).toNat = n := by bv_omega
      obtain ⟨m, s', secs, hturns', hout, hqueued, hsecs⟩ :=
        ih hs1 hsub hlast' (beaconRef_pos hpos).symm
      refine ⟨r + 1 + m, s', sec :: secs, ?_, hout, ?_, EarliestBeacons.cons hleast hins hsecs⟩
      · rw [beaconTurns_add (r + 1) m hturns]
        exact hturns'
      · rw [hqueued, List.append_assoc]
        rfl

/-- When the loop ends with the earliest beacons in the queue, they all fit. -/
theorem fit_of_ends {q q' : JitQueue} {refSec : Int} {n : Nat} {secs : List Int}
    (hsecs : EarliestBeacons cfg gps timeUs packet q refSec n secs q') :
    ∀ {loop : BitVec 8} {lastSec : Int} {queued : List Int} {s s' : BeaconPass} {m : Nat},
      Searching cfg gps packet q loop lastSec queued 0 s → loop.toNat = n →
        LastBeacon cfg lastSec → refSec = beaconRef gps lastSec →
          beaconTurns tgt cfg gps timeUs m s = .ok s' → s'.serv.phase = .outside →
            s'.queued = queued ++ secs → BeaconsFit cfg gps timeUs packet q refSec n := by
  induction hsecs with
  | nil q refSec =>
      intro loop lastSec queued s s' m _ _ _ _ _ _ _
      exact BeaconsFit.zero q refSec
  | @cons q q1 q2 refSec sec n secs hleast hins _ ih =>
      intro loop lastSec queued s s' m h hn hlast href hturns hout hqueued
      subst href
      have hloop : loop ≠ 0#8 := by
        rintro rfl
        exact absurd hn (Nat.succ_ne_zero n).symm
      obtain ⟨r, hbefore, s1, next, hfound, hone, hnext, hsearch⟩ : ∃ r : Nat,
          (∀ n ≤ r, ∃ s', beaconTurns tgt cfg gps timeUs n s = .ok s' ∧ _) ∧ ∃ s' next,
            beaconTurns tgt cfg gps timeUs (r + 1) s = .ok s' ∧ _ :=
        exists_finds hexact hgps hbusy h hlast hloop hleast hins
      -- the loop has not ended in the search
      have hlong : r + 1 ≤ m := by
        by_contra hshort
        obtain ⟨s2, hturns2, hphase2⟩ := hbefore m (by omega)
        rw [hturns] at hturns2
        cases hturns2
        rw [hout] at hphase2
        cases hphase2
      obtain ⟨k, rfl⟩ := Nat.exists_eq_add_of_le hlong
      rw [beaconTurns_add (r + 1) k hfound] at hturns
      obtain ⟨more, hmore⟩ := beaconTurns_queued k hturns
      rw [hqueued, hone, List.append_assoc, List.append_cancel_left_eq, List.singleton_append,
        List.cons.injEq] at hmore
      obtain ⟨heq, rfl⟩ := hmore
      have hs1 := hsearch heq.symm
      obtain ⟨hpos, hlast'⟩ := lastBeacon_of_slot hgps hlast hleast.1
      have hsub : (loop - 1#8).toNat = n := by bv_omega
      refine BeaconsFit.succ hleast (hnext.1 heq.symm) hins ?_
      apply ih hs1 hsub hlast' (beaconRef_pos hpos).symm hturns hout
      rw [hqueued, List.append_assoc]
      rfl

end Exact

/-- Beacons at the earliest slots come in increasing order. -/
theorem EarliestBeacons.increasing {q q' : JitQueue} {refSec : Int} {n : Nat} {secs : List Int}
    (h : EarliestBeacons cfg gps timeUs packet q refSec n secs q') :
    (∀ sec ∈ secs, refSec < sec) ∧ secs.Pairwise (· < ·) := by
  induction h with
  | nil q refSec => simp
  | @cons q q' q'' refSec sec n secs hleast _ _ ih =>
      obtain ⟨hafter, hsorted⟩ := ih
      refine ⟨?_, List.pairwise_cons.2 ⟨hafter, hsorted⟩⟩
      intro x hx
      rcases List.mem_cons.1 hx with rfl | hx
      · exact hleast.1.1
      · exact lt_trans hleast.1.1 (hafter x hx)

/-- A loop that ends has met no full queue with beacons left to add. -/
theorem not_full_of_ends (hexact : gps.Exact) (hbusy : ¬ Idle cfg gps) {s s' t : BeaconPass}
    {n m : Nat} (hend : beaconTurns tgt cfg gps timeUs n s = .ok s')
    (hout : s'.serv.phase = .outside) (hstate : beaconTurns tgt cfg gps timeUs m s = .ok t)
    (hphase : t.serv.phase = .looping) (hloop : t.serv.beaconLoop ≠ 0#8) :
    jitQueueIsFull t.queue = false := by
  apply Bool.eq_false_iff.2
  intro hfull
  rcases Nat.le_total m n with hle | hle
  · -- from the full queue on the loop goes on for ever
    obtain ⟨k, rfl⟩ := Nat.exists_eq_add_of_le hle
    rw [beaconTurns_add m k hstate] at hend
    have hsearch : Searching cfg gps t.serv.beaconPkt t.queue t.serv.beaconLoop
        t.serv.lastBeaconSec t.queued t.serv.retry.toNat t :=
      ⟨rfl, rfl, hphase, rfl, rfl, by simp, fun _ => rfl⟩
    obtain ⟨u, hturns, hu⟩ : ∃ u, beaconTurns tgt cfg gps timeUs k t = .ok u ∧ _ :=
      hsearch.turns_full hexact hbusy hloop hfull k
    rw [hend] at hturns
    cases hturns
    have hrun := hu.phase
    rw [hout] at hrun
    cases hrun
  · obtain ⟨k, rfl⟩ := Nat.exists_eq_add_of_le hle
    rw [beaconTurns_add n k hend, beaconTurns_outside k hout] at hstate
    cases hstate
    rw [hout] at hphase
    cases hphase

end Loop

/-- For every queue, period, GPS reference and concentrator time: the loop ends with the earliest
beacons in the queue exactly when it has nothing to do, or all missing beacons fit. -/
theorem loadsEarliest_iff (tgt : Target) (cfg : BeaconCfg) (gps : GpsRef) (timeUs : BitVec 32)
    (q : JitQueue) (serv : BeaconServ) (hexact : gps.Exact) (hgps : 0 ≤ gps.gpsSec)
    (hlast : LastBeacon cfg serv.lastBeaconSec) :
    LoadsEarliest tgt cfg gps timeUs q serv ↔
      Idle cfg gps ∨ BeaconsFit cfg gps timeUs serv.beaconPkt q
        (beaconRef gps serv.lastBeaconSec) (missingBeacons q) := by
  have hsearch : Searching cfg gps serv.beaconPkt q
    (BitVec.ofNat 8 jitNumBeaconInQueue - q.numBeacon)
      serv.lastBeaconSec [] 0 (beaconEntry q serv) :=
    ⟨rfl, rfl, rfl, rfl, rfl, rfl, fun _ => rfl⟩
  constructor
  · intro h
    by_cases hidle : Idle cfg gps
    · exact Or.inl hidle
    · obtain ⟨n, s, hturns, hout, -, -, hsecs⟩ := h.ends
      exact Or.inr (fit_of_ends hexact hgps hidle (hsecs hidle) hsearch rfl hlast rfl hturns hout
        (List.nil_append _).symm)
  · intro h
    by_cases hidle : Idle cfg gps
    · -- the first turn leaves the loop
      have hattempt : attemptBeacon cfg q gps timeUs (readNumBeacon q serv) =
          { readNumBeacon q serv with phase := .outside } := by
        unfold attemptBeacon
        rcases hidle with hperiod | hready
        · rw [if_pos (Or.inr hperiod)]
        · rw [hready, if_neg Bool.false_ne_true, ite_self]
      have hturn : beaconTurn tgt cfg gps timeUs (beaconEntry q serv) =
          .ok ⟨q, { readNumBeacon q serv with phase := .outside }, []⟩ := by
        unfold beaconTurn
        rw [beaconEntry, hattempt]
      refine ⟨⟨1, _, beaconTurns_looping 0 rfl hturn, rfl, List.Pairwise.nil, fun _ => ⟨rfl, rfl⟩,
        fun hbusy => absurd hidle hbusy⟩, ?_⟩
      intro _ _ _ _ _ hbusy
      exact absurd hidle hbusy
    · -- all missing beacons fit, and the queue is never full on the way
      have hfit := h.resolve_left hidle
      obtain ⟨n, s, secs, hturns, hout, hqueued, hsecs⟩ : ∃ n s secs,
          beaconTurns tgt cfg gps timeUs n (beaconEntry q serv) = .ok s ∧ _ :=
        ends_of_fit hexact hgps hidle hfit hsearch rfl hlast rfl
      rw [List.nil_append] at hqueued
      subst hqueued
      refine ⟨⟨n, s, hturns, hout, hsecs.increasing.2, fun hi => absurd hi hidle,
        fun _ => hsecs⟩, ?_⟩
      intro m t _ hstate _ _ hphase hloop hfull
      rw [not_full_of_ends hexact hidle hturns hout hstate hphase hloop] at hfull
      cases hfull

/-! ## Periods for which there is always a slot

A queued packet of at most 2^24 microseconds bars the time stamps of an arc of 25 s around its own
from a beacon. When any two of 33 successive multiples of the period are further apart than that on
the clock circle, each packet bars one of them at most. -/

/-- The time stamps of 33 successive multiples of the period are pairwise more than the arc apart
that one packet bars, and their seconds are within 2^32. -/
def Spread (cfg : BeaconCfg) : Prop :=
  33 * cfg.beaconPeriod.toNat < 2 ^ 32 ∧
    ∀ d : Fin 33, 0 < d.val →
      24962216 < d.val * cfg.beaconPeriod.toNat * 1000000 % 2 ^ 32 ∧
        d.val * cfg.beaconPeriod.toNat * 1000000 % 2 ^ 32 < 2 ^ 32 - 24962216

/-- Two points of one arc are no further apart than it is long, one way or the other. -/
theorem ahead_le_of_arc {start a b : BitVec 32} {len : Nat} (ha : ahead start a ≤ len)
    (hb : ahead start b ≤ len) : ahead a b ≤ len ∨ ahead b a ≤ len := by
  rcases Nat.le_total (ahead start a) (ahead start b) with hle | hle
  · left
    rw [ahead_of_le hle]
    omega
  · right
    rw [ahead_of_le hle]
    omega

/-- What bars a beacon: the time stamp is too late, or near a queued packet. -/
theorem barred_of_not_admissible {cfg : BeaconCfg} {gps : GpsRef} {packet : LgwPktTx} {q : JitQueue}
    {timeUs : BitVec 32} {sec : Int} (hq : ∀ n ∈ q.entries, n.Typed ∧ n.Brief)
    (h : ¬ Admissible q timeUs (beaconNode cfg gps packet sec)) :
    ahead timeUs (loadBeacon cfg gps sec packet).countUs ≤ 24962216 ∨
      ∃ n ∈ q.entries,
        ahead (n.pkt.countUs - 5152500#32) (loadBeacon cfg gps sec packet).countUs ≤ 24962216 := by
  by_contra hnot
  rw [not_or, not_exists] at hnot
  obtain ⟨hlate, hfar⟩ := hnot
  apply h
  refine ⟨?_, ?_, ?_⟩
  · show 32500 < ahead timeUs (loadBeacon cfg gps sec packet).countUs
    omega
  · rintro (hA | hB)
    · cases hA
    · cases hB
  · intro n hn
    obtain ⟨htyped, hbrief⟩ := hq n hn
    have hpre := htyped.preDelay_le
    have hout : ¬ ahead (n.pkt.countUs - 5152500#32) (loadBeacon cfg gps sec packet).countUs ≤
        24962216 := fun hle => hfar n ⟨hn, hle⟩
    have hguard : packetPreDelay .beacon = 3031500#32 := by decide
    have hreserved : beaconReserved = 2120000#32 := rfl
    have hmargin : txMarginDelay = 1000#32 := rfl
    have htarget : targetPreDelay .beacon n = n.preDelay :=
      if_neg fun hcase => hcase.1.elim JitPktType.noConfusion JitPktType.noConfusion
    unfold JitNode.Brief at hbrief
    show jitCollisionTest (loadBeacon cfg gps sec packet).countUs (packetPreDelay .beacon)
      beaconReserved n.pkt.countUs (targetPreDelay .beacon n) n.postDelay = false
    rw [htarget, jitCollisionTest_eq_false_iff, hguard, hreserved, hmargin]
    -- both differences of the test, on the circle of the 32-bit counter
    generalize (loadBeacon cfg gps sec packet).countUs = c at *
    unfold ahead at *
    constructor <;> bv_omega

/-- The time stamp of the multiple number `r` of the period. -/
def multipleUs (cfg : BeaconCfg) (gps : GpsRef) (packet : LgwPktTx) (refSec : Int) (r : Nat) :
    BitVec 32 :=
  (loadBeacon cfg gps (firstBeaconSec cfg refSec + (r * cfg.beaconPeriod.toNat : Nat))
    packet).countUs

/-- The way between the time stamps of two multiples of the period. -/
theorem ahead_multipleUs {cfg : BeaconCfg} {gps : GpsRef} (hexact : gps.Exact) (packet : LgwPktTx)
    (refSec : Int) {i j : Nat} (hij : i ≤ j) :
    ahead (multipleUs cfg gps packet refSec i) (multipleUs cfg gps packet refSec j) =
      (j - i) * cfg.beaconPeriod.toNat * 1000000 % 2 ^ 32 := by
  obtain ⟨cnt, hcnt⟩ := hexact
  obtain ⟨d, rfl⟩ := Nat.exists_eq_add_of_le hij
  have hsum : (firstBeaconSec cfg refSec + ((i + d) * cfg.beaconPeriod.toNat : Nat) - gps.gpsSec) *
        1000000 =
      (firstBeaconSec cfg refSec + (i * cfg.beaconPeriod.toNat : Nat) - gps.gpsSec) * 1000000 +
        ((d * cfg.beaconPeriod.toNat * 1000000 : Nat) : Int) := by
    push_cast
    ring
  have hcancel : ∀ a b : BitVec 32, a + b - a = b := by
    intro a b
    bv_omega
  simp only [multipleUs, loadBeacon, hcnt, Option.getD_some]
  rw [hsum, BitVec.ofInt_add, BitVec.ofInt_natCast, ahead, ← BitVec.add_assoc, hcancel,
    BitVec.toNat_ofNat, Nat.add_sub_cancel_left]

/-- Of 33 spread multiples of the period one is free. -/
theorem exists_slot {cfg : BeaconCfg} {gps : GpsRef} (hexact : gps.Exact) (packet : LgwPktTx)
    {q : JitQueue} (timeUs : BitVec 32) (refSec : Int) (hspread : Spread cfg)
    (hq : ∀ n ∈ q.entries, n.Typed ∧ n.Brief) (hroom : q.entries.length < 32) :
    ∃ r : Nat, r < 33 ∧ Admissible q timeUs (beaconNode cfg gps packet
      (firstBeaconSec cfg refSec + (r * cfg.beaconPeriod.toNat : Nat))) := by
  by_contra hnone
  have hbarred : ∀ r : Fin 33, ∃ o : Option (Fin q.entries.length),
      ahead (o.elim timeUs fun k => (q.entries.get k).pkt.countUs - 5152500#32)
        (multipleUs cfg gps packet refSec r.val) ≤ 24962216 := by
    intro r
    rcases barred_of_not_admissible hq fun hadm => hnone ⟨r.val, r.isLt, hadm⟩ with
      hlate | ⟨n, hn, hnear⟩
    · exact ⟨none, hlate⟩
    · obtain ⟨k, rfl⟩ := List.get_of_mem hn
      exact ⟨some k, hnear⟩
  choose f hf using hbarred
  -- two of the multiples are barred by one packet
  have hcard : Fintype.card (Option (Fin q.entries.length)) < Fintype.card (Fin 33) := by
    rw [Fintype.card_option, Fintype.card_fin, Fintype.card_fin]
    omega
  obtain ⟨i, j, hne, hsame⟩ := Fintype.exists_ne_map_eq_of_card_lt f hcard
  have hapart : ∀ i j : Fin 33, i < j → f i = f j → False := by
    intro i j hlt hsame
    have hlt' := Fin.lt_def.1 hlt
    have hi := hf i
    have hj := hf j
    rw [hsame] at hi
    have hway : ahead (multipleUs cfg gps packet refSec i) (multipleUs cfg gps packet refSec j) =
        (j - i) * cfg.beaconPeriod.toNat * 1000000 % 2 ^ 32 :=
      ahead_multipleUs hexact packet refSec hlt'.le
    obtain ⟨hlow, hhigh⟩ := hspread.2 ⟨j.val - i.val, by omega⟩ (Nat.sub_pos_of_lt hlt')
    dsimp only at hlow hhigh
    rw [← hway] at hlow hhigh
    have hback : ahead (multipleUs cfg gps packet refSec i) (multipleUs cfg gps packet refSec j) +
        ahead (multipleUs cfg gps packet refSec j) (multipleUs cfg gps packet refSec i) =
          2 ^ 32 := by
      apply ahead_add_ahead_comm
      intro heq
      rw [heq, ahead_self] at hlow
      omega
    rcases ahead_le_of_arc hi hj with h | h <;> omega
  rcases lt_or_gt_of_ne hne with hlt | hgt
  · exact hapart i j hlt hsame
  · exact hapart j i hgt hsame.symm

/-- The first admissible multiple of the period is the least slot. -/
theorem isLeast_of_first {cfg : BeaconCfg} {gps : GpsRef} {packet : LgwPktTx} {q : JitQueue}
    {timeUs : BitVec 32} {refSec : Int} (hperiod : cfg.beaconPeriod ≠ 0#32) {r : Nat}
    (hadm : Admissible q timeUs (beaconNode cfg gps packet
      (firstBeaconSec cfg refSec + (r * cfg.beaconPeriod.toNat : Nat))))
    (hrej : ∀ k < r, ¬ Admissible q timeUs (beaconNode cfg gps packet
      (firstBeaconSec cfg refSec + (k * cfg.beaconPeriod.toNat : Nat)))) :
    IsLeast (beaconSlots cfg gps timeUs packet q refSec)
      (firstBeaconSec cfg refSec + (r * cfg.beaconPeriod.toNat : Nat)) := by
  obtain ⟨hgt, hdvd⟩ := (multiple_iff hperiod refSec _).2 ⟨r, rfl⟩
  refine ⟨⟨hgt, hdvd, hadm⟩, ?_⟩
  rintro sec ⟨hgt', hdvd', hadm'⟩
  obtain ⟨k, rfl⟩ := (multiple_iff hperiod refSec sec).1 ⟨hgt', hdvd'⟩
  have hle : r ≤ k := Nat.le_of_not_lt fun hlt => hrej k hlt hadm'
  have hmul : r * cfg.beaconPeriod.toNat ≤ k * cfg.beaconPeriod.toNat := Nat.mul_le_mul_right _ hle
  omega

/-- With a spread period all beacons fit that the array has room for, when no packet is on air for
2^24 microseconds or more. -/
theorem beaconsFit_of_spread {cfg : BeaconCfg} {gps : GpsRef} (hexact : gps.Exact)
    (packet : LgwPktTx) (timeUs : BitVec 32) (hperiod : cfg.beaconPeriod ≠ 0#32)
    (hspread : Spread cfg) {n : Nat} :
    ∀ {q : JitQueue} {refSec : Int}, (∀ m ∈ q.entries, m.Typed ∧ m.Brief) →
      q.numPkt.toNat + n ≤ jitQueueMax → BeaconsFit cfg gps timeUs packet q refSec n := by
  induction n with
  | zero => exact fun _ _ => BeaconsFit.zero _ _
  | succ n ih =>
      intro q refSec hq hroom
      have hb : q.Bounded := by
        unfold JitQueue.Bounded
        omega
      have hmax : jitQueueMax = 32 := rfl
      have hexists := exists_slot hexact packet timeUs refSec hspread hq
        (by rw [entries_length hb]; omega)
      classical
      -- the first admissible multiple
      have hadm := Nat.find_spec hexists
      have hrej : ∀ k < Nat.find hexists, ¬ Admissible q timeUs (beaconNode cfg gps packet
          (firstBeaconSec cfg refSec + (k * cfg.beaconPeriod.toNat : Nat))) := by
        intro k hk hk'
        exact Nat.find_min hexists hk ⟨by omega, hk'⟩
      generalize Nat.find hexists = r at hadm hrej
      obtain ⟨q0, hins, hentries, hnum⟩ := jitInsert_spec (beaconNode cfg gps packet
        (firstBeaconSec cfg refSec + (r * cfg.beaconPeriod.toNat : Nat)))
        (show q.numPkt.toNat < jitQueueMax by omega)
      apply BeaconsFit.succ (isLeast_of_first hperiod hadm.2 hrej) _ hins
      · apply ih
        · intro m hm
          rw [(jitSortQueue_entries_perm q0).mem_iff, hentries, List.mem_append,
            List.mem_singleton] at hm
          rcases hm with hm | rfl
          · exact hq m hm
          · refine ⟨rfl, ?_⟩
            show beaconReserved.toNat < 2 ^ 24
            decide
        · rw [jitSortQueue_numPkt]
          omega
      · have hmul : r * cfg.beaconPeriod.toNat ≤ 33 * cfg.beaconPeriod.toNat :=
          Nat.mul_le_mul_right _ hadm.1.le
        have := hspread.1
        omega

theorem lockedGps_exact (gpsSec : Int) : (lockedGps gpsSec).Exact := by
  refine ⟨BitVec.ofInt 32 (gpsSec * 1000000), fun sec => ?_⟩
  have hsum : gpsSec * 1000000 + (sec - gpsSec) * 1000000 = sec * 1000000 := by omega
  show some (BitVec.ofInt 32 (sec * 1000000)) =
    some (BitVec.ofInt 32 (gpsSec * 1000000) + BitVec.ofInt 32 ((sec - gpsSec) * 1000000))
  rw [← BitVec.ofInt_add, hsum]

/-- Beacons every 128 seconds are spread. -/
theorem spread_beaconCfg : Spread beaconCfg := by
  unfold Spread
  decide

/-- Beacons every 128 seconds on an empty queue. -/
theorem loadsEarliest_iff_empty :
    LoadsEarliest fskTarget beaconCfg (lockedGps 1) 0#32 jitQueueInit (.init .zero) := by
  apply (loadsEarliest_iff fskTarget beaconCfg (lockedGps 1) 0#32 jitQueueInit (.init .zero)
    (lockedGps_exact 1) (by decide) ⟨le_rfl, dvd_zero _⟩).2
  apply Or.inr
  apply beaconsFit_of_spread (lockedGps_exact 1) _ _ (by decide) spread_beaconCfg
  · simp
  · decide

/-- 32 class A packets, one every 0.1 s. -/
def fullOfDownlinks : JitQueue :=
  jitAfter fskTarget jitQueueInit
    ((List.range 32).map fun i => .enqueue 0#32
      (fskPacket 50000#32 5#16 20#16 (BitVec.ofNat 32 (100000 * (i + 1)))) .downlinkClassA)

/-- With the queue full of downlinks and no beacon in it the loop never ends. -/
theorem full_queue_spins :
    ¬ ∀ (tgt : Target) (cfg : BeaconCfg) (gps : GpsRef) (timeUs : BitVec 32) (q : JitQueue)
        (serv : BeaconServ), gps.Exact → 0 ≤ gps.gpsSec → LastBeacon cfg serv.lastBeaconSec →
          LoadsEarliest tgt cfg gps timeUs q serv := by
  intro h
  obtain ⟨n, s, hturns, hout, -⟩ := (h fskTarget beaconCfg (lockedGps 1) 0#32 fullOfDownlinks
    (.init .zero) (lockedGps_exact 1) (by decide) ⟨le_rfl, dvd_zero _⟩).ends
  obtain ⟨hfull, hnone⟩ : jitQueueIsFull fullOfDownlinks = true ∧
      fullOfDownlinks.numBeacon = 0#8 := by
    decide +kernel
  have hmissing : BitVec.ofNat 8 jitNumBeaconInQueue - fullOfDownlinks.numBeacon ≠ 0#8 := by
    rw [hnone]
    decide
  generalize fullOfDownlinks = q at *
  have hbusy : ¬ Idle beaconCfg (lockedGps 1) := by
    rintro (hperiod | hready)
    · exact absurd hperiod (by decide)
    · exact absurd hready (by decide)
  have hsearch : Searching beaconCfg (lockedGps 1) .zero q
      (BitVec.ofNat 8 jitNumBeaconInQueue - q.numBeacon) 0 [] 0
      (beaconEntry q (.init .zero)) :=
    ⟨rfl, rfl, rfl, rfl, rfl, rfl, fun _ => rfl⟩
  obtain ⟨t, hrun, ht⟩ : ∃ t, beaconTurns fskTarget beaconCfg (lockedGps 1) 0#32 n
      (beaconEntry q (.init .zero)) = .ok t ∧ _ :=
    hsearch.turns_full (lockedGps_exact 1) hbusy hmissing hfull n
  rw [hturns] at hrun
  cases hrun
  have hphase := ht.phase
  rw [hout] at hphase
  cases hphase

end DraginoFwd.Jit

import Mathlib

/-!
# The concentrator's time from the host's

Model of `timersync.c`: one thread stores the offset between the host's clock and the counter of
the concentrator, and `get_concentrator_time` takes it off the host's time. Both are `timeval`s of
the machine's `long`, which has `w` bits here, and the result is cut to the 32 bits of the counter.

Read as microseconds mod `2 ^ w`, `timer_sub` is a subtraction whether or not it borrows
(`ofInt_timerSub`). So the counter comes out right after any time, over any number of wraps.
-/

set_option autoImplicit false

namespace DraginoFwd.Jit

/-- `struct timeval` with a `long` of `w` bits -/
structure Timeval (w : Nat) where
  tvSec : BitVec w
  tvUsec : BitVec w
  deriving DecidableEq

variable {w : Nat}

/-- The microseconds of a `timeval`. -/
def Timeval.us (t : Timeval w) : Int := t.tvSec.toInt * 1000000 + t.tvUsec.toInt

/-- `timer_sub` -/
def timerSub (a b : Timeval w) : Timeval w :=
  let tvSec := a.tvSec - b.tvSec
  let tvUsec := a.tvUsec - b.tvUsec
  if tvUsec.toInt < 0 then ⟨tvSec - 1#w, tvUsec + 1000000#w⟩ else ⟨tvSec, tvUsec⟩

/-- `concentrator_timeval`: the counter in seconds and microseconds. -/
def concentratorTimeval (timecount : BitVec 32) : Timeval w :=
  let tvSec := timecount.setWidth w / 1000000#w
  ⟨tvSec, timecount.setWidth w - tvSec * 1000000#w⟩

/-- A host time and the counter that is read with it. -/
structure SyncSample (w : Nat) where
  unixTimeval : Timeval w
  timecount : BitVec 32

/-- A round of `thread_timersync`: the new `offset_unix_concent`. -/
def timersyncRound (_offset : Timeval w) (sample : SyncSample w) : Timeval w :=
  timerSub sample.unixTimeval (concentratorTimeval sample.timecount)

/-- The offset after some rounds. -/
def timersyncRun (offset : Timeval w) (samples : List (SyncSample w)) : Timeval w :=
  samples.foldl timersyncRound offset

/-- `get_concentrator_time` at `unix_time`: the returned code and what is stored through the
pointer. -/
def getConcentratorTime (offset unixTime : Timeval w) (concentTime : Option (BitVec 32)) :
    Int × Option (BitVec 32) :=
  match concentTime with
  | none => (-1, none)
  | some _ =>
      let localTimeval := timerSub unixTime offset
      (0, some ((localTimeval.tvSec * 1000000#w + localTimeval.tvUsec).setWidth 32))

/-! ## Microseconds mod a power of two -/

theorem ofInt_us (t : Timeval w) :
    BitVec.ofInt w t.us = t.tvSec * 1000000#w + t.tvUsec := by
  rw [Timeval.us, BitVec.ofInt_add, BitVec.ofInt_mul, BitVec.ofInt_toInt, BitVec.ofInt_toInt]
  rfl

/-- A borrow moves a million microseconds from one field to the other. -/
theorem ofInt_timerSub (a b : Timeval w) :
    BitVec.ofInt w (timerSub a b).us = BitVec.ofInt w a.us - BitVec.ofInt w b.us := by
  rw [ofInt_us, ofInt_us, ofInt_us, timerSub]
  split
  · show (a.tvSec - b.tvSec - 1#w) * 1000000#w + (a.tvUsec - b.tvUsec + 1000000#w) = _
    have hone : (1#w : BitVec w) = 1 := rfl
    rw [hone]
    ring
  · show (a.tvSec - b.tvSec) * 1000000#w + (a.tvUsec - b.tvUsec) = _
    ring

theorem ofInt_concentratorTimeval (timecount : BitVec 32) :
    BitVec.ofInt w (concentratorTimeval timecount : Timeval w).us = timecount.setWidth w := by
  rw [ofInt_us, concentratorTimeval]
  ring

/-- The low bits of the microseconds. -/
theorem setWidth_ofInt {v : Nat} (h : v ≤ w) (x : Int) :
    (BitVec.ofInt w x).setWidth v = BitVec.ofInt v x := by
  have hdvd : ((2 ^ v : Nat) : Int) ∣ ((2 ^ w : Nat) : Int) :=
    Int.natCast_dvd_natCast.2 (Nat.pow_dvd_pow 2 h)
  apply BitVec.eq_of_toNat_eq
  have hpos : (0 : Int) ≤ x % ((2 ^ w : Nat) : Int) := Int.emod_nonneg _ (by positivity)
  rw [BitVec.toNat_setWidth, BitVec.toNat_ofInt, BitVec.toNat_ofInt]
  apply Int.ofNat_inj.1
  rw [Int.natCast_mod, Int.toNat_of_nonneg hpos, Int.emod_emod_of_dvd x hdvd,
    Int.toNat_of_nonneg (Int.emod_nonneg _ (by positivity))]

theorem getConcentratorTime_some (offset unixTime : Timeval w) (cell : BitVec 32) :
    getConcentratorTime offset unixTime (some cell) =
      (0, some ((BitVec.ofInt w unixTime.us - BitVec.ofInt w offset.us).setWidth 32)) := by
  rw [← ofInt_timerSub, ofInt_us]
  rfl

theorem timersyncRun_append (offset : Timeval w) (before : List (SyncSample w))
    (last : SyncSample w) :
    timersyncRun offset (before ++ [last]) =
      timerSub last.unixTimeval (concentratorTimeval last.timecount) := by
  rw [timersyncRun, List.foldl_append]
  rfl

/-! ## The counter -/

/-- A counter that advances one tick for each microsecond of the host. -/
def TicksPerUs (counter : Int → BitVec 32) : Prop :=
  ∀ (us : Int) (elapsed : Nat), counter (us + elapsed) = counter us + BitVec.ofNat 32 elapsed

theorem TicksPerUs.eq {counter : Int → BitVec 32} (h : TicksPerUs counter) {t0 t1 : Int}
    (hle : t0 ≤ t1) : counter t1 = counter t0 + BitVec.ofInt 32 (t1 - t0) := by
  obtain ⟨elapsed, rfl⟩ := Int.le.dest hle
  rw [h, add_sub_cancel_left, BitVec.ofInt_natCast]

/-- After any rounds of the sync thread, the last of them with the counter's own value, the
estimated time is the counter at every later host time. -/
theorem getConcentratorTime_tracks (hw : 32 ≤ w) {counter : Int → BitVec 32}
    (hcounter : TicksPerUs counter) (offset : Timeval w) (before : List (SyncSample w))
    (last : SyncSample w) (hlast : last.timecount = counter last.unixTimeval.us)
    (now : Timeval w) (hlater : last.unixTimeval.us ≤ now.us) (cell : BitVec 32) :
    getConcentratorTime (timersyncRun offset (before ++ [last])) now (some cell) =
      (0, some (counter now.us)) := by
  -- the offset is the host time of the sample less its counter, so the counter is added back
  have hticks : (BitVec.ofInt w now.us - (BitVec.ofInt w last.unixTimeval.us -
      last.timecount.setWidth w)) =
      BitVec.ofInt w (now.us - last.unixTimeval.us) + last.timecount.setWidth w := by
    have hsplit := BitVec.ofInt_add (n := w) (now.us - last.unixTimeval.us) last.unixTimeval.us
    rw [sub_add_cancel] at hsplit
    rw [hsplit]
    ring
  rw [getConcentratorTime_some, timersyncRun_append, ofInt_timerSub, ofInt_concentratorTimeval,
    hticks, BitVec.setWidth_add _ _ hw, setWidth_ofInt hw, BitVec.setWidth_setWidth_of_le _ hw,
    BitVec.setWidth_eq, hlast, hcounter.eq hlater, BitVec.add_comm]

/-- Read at the counter's last tick before a wrap, two seconds and a borrow later. -/
theorem getConcentratorTime_tracks_wrap :
    getConcentratorTime (timersyncRun (⟨0#64, 0#64⟩ : Timeval 64)
      [⟨⟨1700000000#64, 999999#64⟩, 4294967295#32⟩]) ⟨1700000002#64, 5#64⟩ (some 0#32) =
      (0, some 1000005#32) := by
  have hcounter : TicksPerUs fun us => BitVec.ofInt 32 (us - 1700000000999999) + 4294967295#32 := by
    intro us elapsed
    show BitVec.ofInt 32 (us + elapsed - 1700000000999999) + 4294967295#32 =
      BitVec.ofInt 32 (us - 1700000000999999) + 4294967295#32 + BitVec.ofNat 32 elapsed
    rw [show us + elapsed - 1700000000999999 = us - 1700000000999999 + elapsed by ring,
      BitVec.ofInt_add, BitVec.ofInt_natCast]
    ring
  exact getConcentratorTime_tracks (by decide) hcounter _ [] ⟨⟨1700000000#64, 999999#64⟩, _⟩
    (by decide) ⟨1700000002#64, 5#64⟩ (by decide) 0#32

end DraginoFwd.Jit

import DraginoFwd.Lib.Transition
import Mathlib.Data.List.Perm.Basic
import Mathlib.Data.List.Count
import Mathlib.Data.List.TakeWhile
import Mathlib.Logic.Function.Basic

/-!
# The counter of downlink frames

`custom_rx2dn` keeps the counter of a device in the database, under the key `fcnt` of the family
`/downlink/%08X`. Two threads call it, and both use the same buffers `db_family` and `tmpstr`. The
state of this module is the database, the buffers, where each thread is, and the counters that were
given to `prepare_frame`; each access to the database or to a buffer is one step, and the threads
interleave at will (`counterStep`).

In a run in which no device gets a second downlink no counter is used twice (`counters_increase`).
The second downlink of a device always repeats the counter of the first: the missing key is
replaced by the counter that was used, and not by the next one. When calls do not overlap, the
counters of a device are 1, 1, 2, 3 and so on (`usedFor_sequential`).
-/

set_option autoImplicit false

namespace DraginoFwd.Mac

open DraginoFwd.Lib.Transition

/-! ## Texts of numbers -/

/-- The characters of `isspace`. -/
def isSpace (c : Char) : Bool := c.toNat = 32 ∨ (9 ≤ c.toNat ∧ c.toNat ≤ 13)

/-- The number that the digits at the start of a text denote. -/
def leadingDigits (cs : List Char) : Int :=
  (Nat.ofDigitChars 10 (cs.takeWhile Char.isDigit) 0 : Nat)

/-- `atol`: an optional sign after blanks, and the digits up to the first other character. -/
def atol (text : String) : Int :=
  match text.toList.dropWhile isSpace with
  | '-' :: cs => -leadingDigits cs
  | '+' :: cs => leadingDigits cs
  | cs => leadingDigits cs

/-- The nearest number that is a `long`. -/
def clampLong (n : Int) : Int :=
  if n < -9223372036854775808 then -9223372036854775808
  else if 9223372036854775807 < n then 9223372036854775807
  else n

/-- `atoi`: the low 32 bits of what `strtol` returns. -/
def atoi (text : String) : Int := (BitVec.ofInt 32 (clampLong (atol text))).toInt

/-- `sprintf("%u")` -/
def sprintfU (n : BitVec 32) : String := Nat.repr n.toNat

theorem isSpace_of_isDigit {c : Char} (hc : c.isDigit = true) : isSpace c = false := by
  have hrange : 48 ≤ c.toNat ∧ c.toNat ≤ 57 := Char.isDigit_iff_toNat.1 hc
  rw [isSpace, decide_eq_false_iff_not]
  omega

theorem atol_of_digits {text : String} (hdigits : ∀ c ∈ text.toList, c.isDigit = true) :
    atol text = (Nat.ofDigitChars 10 text.toList 0 : Nat) := by
  have hlead : leadingDigits text.toList = (Nat.ofDigitChars 10 text.toList 0 : Nat) := by
    rw [leadingDigits, List.takeWhile_eq_self_iff.2 hdigits]
  rw [atol, ← hlead]
  cases hcs : text.toList with
  | nil => rfl
  | cons c cs =>
    have hc : c.isDigit = true := hdigits c (by rw [hcs]; exact List.mem_cons_self)
    rw [List.dropWhile_cons_of_neg (by rw [isSpace_of_isDigit hc]; exact Bool.false_ne_true)]
    split
    · next heq =>
      cases heq
      cases hc
    · next heq =>
      cases heq
      cases hc
    · rfl

@[simp]
theorem atol_sprintfU (n : BitVec 32) : atol (sprintfU n) = n.toNat := by
  have hlist : (sprintfU n).toList = Nat.toDigits 10 n.toNat := Nat.toList_repr
  rw [atol_of_digits, hlist, Nat.ofDigitChars_ten_toDigits]
  intro c hc
  rw [hlist] at hc
  exact Nat.isDigit_of_mem_toDigits (by decide) (by decide) hc

/-! ## The two threads -/

/-- The threads that call `custom_rx2dn`. -/
inductive RxThread where
  | pktDealUp
  | pktPrepareDownlink
  deriving DecidableEq

/-- The families of the database: those of the downlink counters, and all others. -/
inductive DbFamily where
  | downlink (devaddr : BitVec 32)
  | other (name : String)
  deriving DecidableEq

/-- Where a thread is in `custom_rx2dn`: outside; after writing `db_family`; after `lgw_db_get`,
which found the key or not; and with `dwfcnt` read and its successor in `tmpstr`. -/
inductive RxStage where
  | idle
  | named (devaddr : BitVec 32)
  | got (devaddr : BitVec 32) (found : Bool)
  | counted (devaddr dwfcnt : BitVec 32)

/-- The device that a thread prepares a downlink for. -/
def RxStage.device : RxStage → Option (BitVec 32)
  | .idle => none
  | .named devaddr => some devaddr
  | .got devaddr _ => some devaddr
  | .counted devaddr _ => some devaddr

/-- The database under the key `fcnt`, the shared buffers, the threads, and the device and counter
of each call of `prepare_frame`, the latest first. -/
structure CounterState where
  fcnt : DbFamily → Option String
  dbFamily : DbFamily
  tmpstr : String
  stage : RxThread → RxStage
  used : List (BitVec 32 × BitVec 32)

/-- The steps of `custom_rx2dn`, and `scribble`, what the threads do with the buffers elsewhere. No
other code writes a key `fcnt`. -/
inductive CounterEvent where
  | enter (th : RxThread) (devaddr : BitVec 32)
  | get (th : RxThread)
  | count (th : RxThread)
  | put (th : RxThread)
  | scribble (th : RxThread) (name tmpstr : String)

/-- A thread goes on to a stage. -/
def CounterState.goto (s : CounterState) (th : RxThread) (stage : RxStage) : CounterState :=
  { s with stage := Function.update s.stage th stage }

/-- `lgw_db_put(db_family, "fcnt", value)`, and the call of `prepare_frame` after it. -/
def CounterState.putAndUse (s : CounterState) (th : RxThread) (devaddr : BitVec 32)
    (value : String) (dwfcnt : BitVec 32) : CounterState :=
  { s.goto th .idle with
    fcnt := Function.update s.fcnt s.dbFamily (some value)
    used := (devaddr, dwfcnt) :: s.used }

/-- One step of a thread, where it can run. `dwfcnt` is 1 unless the key was found. -/
def counterStep (s : CounterState) : CounterEvent → Option CounterState
  | .enter th devaddr =>
      match s.stage th with
      | .idle => some { s.goto th (.named devaddr) with dbFamily := .downlink devaddr }
      | _ => none
  | .get th =>
      match s.stage th with
      | .named devaddr =>
          some { s.goto th (.got devaddr (s.fcnt s.dbFamily).isSome) with
            tmpstr := (s.fcnt s.dbFamily).getD "" }
      | _ => none
  | .count th =>
      match s.stage th with
      | .got devaddr true =>
          let dwfcnt := BitVec.ofInt 32 (atol s.tmpstr)
          some { s.goto th (.counted devaddr dwfcnt) with tmpstr := sprintfU (dwfcnt + 1#32) }
      | _ => none
  | .put th =>
      match s.stage th with
      | .got devaddr false => some (s.putAndUse th devaddr "1" 1#32)
      | .counted devaddr dwfcnt => some (s.putAndUse th devaddr s.tmpstr dwfcnt)
      | _ => none
  | .scribble th name tmpstr =>
      match s.stage th with
      | .idle => some { s with dbFamily := .other name, tmpstr := tmpstr }
      | _ => none

/-- The steps as a relation. -/
def CounterStep (s : CounterState) (e : CounterEvent) (t : CounterState) : Prop :=
  counterStep s e = some t

/-- No counter is stored, and both threads are outside. -/
def CounterStart (s : CounterState) : Prop :=
  (∀ devaddr, s.fcnt (.downlink devaddr) = none) ∧ (∀ th, s.stage th = .idle) ∧ s.used = []

/-- Each counter is larger than those used before for the device. -/
def CountersIncrease (used : List (BitVec 32 × BitVec 32)) : Prop :=
  used.Pairwise fun newer older => newer.1 = older.1 → older.2.toNat < newer.2.toNat

/-! ## One downlink for each device -/

/-- The devices of the calls so far, running or ended. -/
def CounterState.calls (s : CounterState) : List (BitVec 32) :=
  (s.stage .pktDealUp).device.toList ++ ((s.stage .pktPrepareDownlink).device.toList ++
    s.used.map Prod.fst)

/-- A call is for a device that had none before. -/
def FirstDownlink (s : CounterState) : CounterEvent → Prop
  | .enter _ devaddr => devaddr ∉ s.calls
  | _ => True

/-- The device that an event starts a call for. -/
def CounterEvent.newDevice : CounterEvent → Option (BitVec 32)
  | .enter _ devaddr => some devaddr
  | _ => none

/-- The devices of the calls, with that of one thread first, in all states that differ only there
and in the calls that ended. -/
theorem calls_perm (s : CounterState) (th : RxThread) :
    ∃ others, ∀ t : CounterState, (∀ th' ≠ th, t.stage th' = s.stage th') →
      t.calls.Perm ((t.stage th).device.toList ++ (others ++ t.used.map Prod.fst)) := by
  cases th with
  | pktDealUp =>
    refine ⟨(s.stage .pktPrepareDownlink).device.toList, fun t ht => ?_⟩
    rw [CounterState.calls, ht .pktPrepareDownlink (by decide)]
  | pktPrepareDownlink =>
    refine ⟨(s.stage .pktDealUp).device.toList, fun t ht => ?_⟩
    rw [CounterState.calls, ht .pktDealUp (by decide)]
    exact List.perm_append_comm_assoc _ _ _

@[simp]
theorem goto_stage (s : CounterState) (th : RxThread) (stage : RxStage) :
    (s.goto th stage).stage th = stage := Function.update_self _ _ _

theorem goto_stage_of_ne (s : CounterState) {th th' : RxThread} (hne : th' ≠ th)
    (stage : RxStage) : (s.goto th stage).stage th' = s.stage th' :=
  Function.update_of_ne hne _ _

/-- What one step does to the stage of its thread, the device of the call and the calls that
ended. -/
inductive CounterEffect (s t : CounterState) (e : CounterEvent) (th : RxThread) : Prop where
  | running (hused : t.used = s.used)
      (hdevice : (t.stage th).device.toList =
        e.newDevice.toList ++ (s.stage th).device.toList)
  | ended (devaddr dwfcnt : BitVec 32) (hused : t.used = (devaddr, dwfcnt) :: s.used)
      (hnew : e.newDevice = none) (hs : (s.stage th).device = some devaddr)
      (ht : (t.stage th).device = none)

/-- A thread goes on in its call, or enters one. -/
theorem CounterEffect.of_goto {s t : CounterState} {e : CounterEvent} {th : RxThread}
    {stage : RxStage} (hstage : t.stage = (s.goto th stage).stage) (hused : t.used = s.used)
    (hdevice : stage.device.toList = e.newDevice.toList ++ (s.stage th).device.toList) :
    CounterEffect s t e th := by
  apply CounterEffect.running hused
  rw [hstage, goto_stage]
  exact hdevice

/-- A thread ends its call. -/
theorem CounterEffect.of_putAndUse {s : CounterState} {e : CounterEvent} {th : RxThread}
    {devaddr : BitVec 32} (value : String) (dwfcnt : BitVec 32) (hnew : e.newDevice = none)
    (hs : (s.stage th).device = some devaddr) :
    CounterEffect s (s.putAndUse th devaddr value dwfcnt) e th := by
  apply CounterEffect.ended devaddr dwfcnt rfl hnew hs
  show ((s.goto th .idle).stage th).device = none
  rw [goto_stage, RxStage.device]

/-- A step concerns one thread and leaves the other where it is. -/
theorem counterStep_effect {s t : CounterState} {e : CounterEvent} (h : CounterStep s e t) :
    ∃ th, (∀ th' ≠ th, t.stage th' = s.stage th') ∧ CounterEffect s t e th := by
  cases e with
  | enter th devaddr =>
    simp only [CounterStep, counterStep] at h
    split at h
    · next hs =>
      cases h
      exact ⟨th, fun _ hne => goto_stage_of_ne s hne _,
        CounterEffect.of_goto rfl rfl (by rw [hs]; rfl)⟩
    · cases h
  | get th =>
    simp only [CounterStep, counterStep] at h
    split at h
    · next hs =>
      cases h
      exact ⟨th, fun _ hne => goto_stage_of_ne s hne _,
        CounterEffect.of_goto rfl rfl (by rw [hs]; rfl)⟩
    · cases h
  | count th =>
    simp only [CounterStep, counterStep] at h
    split at h
    · next hs =>
      cases h
      exact ⟨th, fun _ hne => goto_stage_of_ne s hne _,
        CounterEffect.of_goto rfl rfl (by rw [hs]; rfl)⟩
    · cases h
  | put th =>
    simp only [CounterStep, counterStep] at h
    split at h
    · next hs =>
      cases h
      exact ⟨th, fun _ hne => goto_stage_of_ne s hne _,
        CounterEffect.of_putAndUse "1" 1#32 rfl (by rw [hs]; rfl)⟩
    · next dwfcnt hs =>
      cases h
      exact ⟨th, fun _ hne => goto_stage_of_ne s hne _,
        CounterEffect.of_putAndUse s.tmpstr dwfcnt rfl (by rw [hs]; rfl)⟩
    · cases h
  | scribble th name tmpstr =>
    simp only [CounterStep, counterStep] at h
    split at h
    · cases h
      exact ⟨th, fun _ _ => rfl, CounterEffect.running rfl rfl⟩
    · cases h

/-- A step starts at most one call, and loses none. -/
theorem counterStep_calls {s t : CounterState} {e : CounterEvent} (h : CounterStep s e t) :
    t.calls.Perm (e.newDevice.toList ++ s.calls) := by
  obtain ⟨th, hother, heffect⟩ := counterStep_effect h
  obtain ⟨others, hperm⟩ := calls_perm s th
  have hs := hperm s fun _ _ => rfl
  have ht := hperm t hother
  cases heffect with
  | running hused hdevice =>
    rw [hused, hdevice, List.append_assoc] at ht
    exact ht.trans (hs.symm.append_left _)
  | ended devaddr dwfcnt hused hnew hsdev htdev =>
    rw [hsdev] at hs
    rw [hused, htdev] at ht
    rw [hnew]
    -- the device moves from the running calls to those that ended
    exact ht.trans (List.perm_middle.trans hs.symm)

/-- With one call for each device no counter is used twice for a device. -/
theorem countersIncrease_of_nodup {used : List (BitVec 32 × BitVec 32)}
    (h : (used.map Prod.fst).Nodup) : CountersIncrease used := by
  refine (List.pairwise_map.1 h).imp ?_
  intro newer older hne heq
  exact absurd heq hne

/-- Increasing counters are never repeated. -/
theorem CountersIncrease.nodup {used : List (BitVec 32 × BitVec 32)} (h : CountersIncrease used) :
    used.Nodup := by
  refine h.imp ?_
  intro newer older hlt heq
  rw [heq] at hlt
  exact absurd (hlt rfl) (lt_irrefl _)

/-- In a run in which each call is for a device that had none before, each device has one call. -/
theorem reachable_calls_nodup {s : CounterState}
    (h : Reachable CounterStart (Guarded FirstDownlink CounterStep) s) : s.calls.Nodup := by
  refine Reachable.invariant (P := fun s => s.calls.Nodup) ?_ ?_ h
  · rintro s ⟨-, hidle, hused⟩
    simp [CounterState.calls, hidle, hused, RxStage.device]
  · rintro s e t hs ⟨hfirst, hstep⟩
    refine (counterStep_calls hstep).nodup_iff.2 ?_
    cases e with
    | enter th devaddr => exact List.nodup_cons.2 ⟨hfirst, hs⟩
    | get th => exact hs
    | count th => exact hs
    | put th => exact hs
    | scribble th name tmpstr => exact hs

theorem reachable_countersIncrease {s : CounterState}
    (h : Reachable CounterStart (Guarded FirstDownlink CounterStep) s) :
    CountersIncrease s.used := by
  have hcalls := reachable_calls_nodup h
  exact countersIncrease_of_nodup
    (List.nodup_append.1 (List.nodup_append.1 hcalls).2.1).2.1

/-! ## Calls that do not overlap -/

/-- One call of `custom_rx2dn`, from the first step to the last. -/
def callOnce (s : CounterState) (devaddr : BitVec 32) : CounterState :=
  match s.fcnt (.downlink devaddr) with
  | none =>
      { s with
        fcnt := Function.update s.fcnt (.downlink devaddr) (some "1")
        dbFamily := .downlink devaddr
        tmpstr := ""
        used := (devaddr, 1#32) :: s.used }
  | some text =>
      let dwfcnt := BitVec.ofInt 32 (atol text)
      { s with
        fcnt := Function.update s.fcnt (.downlink devaddr) (some (sprintfU (dwfcnt + 1#32)))
        dbFamily := .downlink devaddr
        tmpstr := sprintfU (dwfcnt + 1#32)
        used := (devaddr, dwfcnt) :: s.used }

/-- Calls one after the other. -/
def sequential (s : CounterState) (calls : List (BitVec 32)) : CounterState :=
  calls.foldl callOnce s

/-- The counters that were used for a device, the latest first. -/
def usedFor (devaddr : BitVec 32) (used : List (BitVec 32 × BitVec 32)) : List (BitVec 32) :=
  (used.filter fun u => u.1 = devaddr).map Prod.snd

/-- The counter of the downlink of a device that has had `n` before. -/
def usedFcnt (n : Nat) : BitVec 32 := if n = 0 then 1#32 else BitVec.ofNat 32 n

/-- The text in the database after `n` downlinks of a device. -/
def storedFcnt (n : Nat) : Option String :=
  if n = 0 then none else some (sprintfU (BitVec.ofNat 32 n))

/-- The state after `n` calls for each device, one after the other. -/
structure CallsDone (n : BitVec 32 → Nat) (s : CounterState) : Prop where
  idle : ∀ th, s.stage th = .idle
  stored : ∀ devaddr, s.fcnt (.downlink devaddr) = storedFcnt (n devaddr)
  used : ∀ devaddr, usedFor devaddr s.used = ((List.range (n devaddr)).map usedFcnt).reverse

theorem callsDone_start {s : CounterState} (h : CounterStart s) : CallsDone (fun _ => 0) s := by
  obtain ⟨hfcnt, hidle, hused⟩ := h
  refine ⟨hidle, hfcnt, fun devaddr => ?_⟩
  rw [hused]
  rfl

theorem callOnce_eq {s : CounterState} {devaddr : BitVec 32} {n : Nat}
    (h : s.fcnt (.downlink devaddr) = storedFcnt n) :
    (callOnce s devaddr).fcnt =
        Function.update s.fcnt (.downlink devaddr) (storedFcnt (n + 1)) ∧
      (callOnce s devaddr).used = (devaddr, usedFcnt n) :: s.used := by
  cases n with
  | zero =>
    rw [storedFcnt, if_pos rfl] at h
    rw [callOnce, h]
    exact ⟨rfl, rfl⟩
  | succ n =>
    rw [storedFcnt, if_neg (Nat.succ_ne_zero n)] at h
    have hread : BitVec.ofInt 32 (atol (sprintfU (BitVec.ofNat 32 (n + 1)))) =
        BitVec.ofNat 32 (n + 1) := by
      rw [atol_sprintfU, BitVec.ofInt_natCast, BitVec.ofNat_toNat, BitVec.setWidth_eq]
    have hnext : BitVec.ofNat 32 (n + 1) + 1#32 = BitVec.ofNat 32 (n + 1 + 1) :=
      (BitVec.ofNat_add _ _).symm
    rw [callOnce, h]
    simp only [hread, hnext]
    exact ⟨rfl, rfl⟩

theorem callOnce_stage (s : CounterState) (devaddr : BitVec 32) :
    (callOnce s devaddr).stage = s.stage := by
  unfold callOnce
  split <;> rfl

/-- A call is one more for its device, and none for the others. -/
theorem CallsDone.callOnce {n : BitVec 32 → Nat} {s : CounterState} (h : CallsDone n s)
    (devaddr : BitVec 32) :
    CallsDone (Function.update n devaddr (n devaddr + 1)) (callOnce s devaddr) := by
  obtain ⟨hfcnt, hused⟩ := callOnce_eq (h.stored devaddr)
  constructor
  · rw [callOnce_stage]
    exact h.idle
  · intro other
    rw [hfcnt]
    by_cases heq : other = devaddr
    · subst heq
      rw [Function.update_self, Function.update_self]
    · have hfam : DbFamily.downlink other ≠ .downlink devaddr := fun hf => heq (by cases hf; rfl)
      rw [Function.update_of_ne hfam, Function.update_of_ne heq]
      exact h.stored other
  · intro other
    rw [hused]
    by_cases heq : other = devaddr
    · subst heq
      rw [Function.update_self, List.range_succ, List.map_append, List.reverse_append,
        ← h.used other]
      simp [usedFor]
    · rw [Function.update_of_ne heq, ← h.used other]
      simp [usedFor, Ne.symm heq]

theorem CallsDone.sequential {n : BitVec 32 → Nat} {s : CounterState} (h : CallsDone n s)
    (calls : List (BitVec 32)) :
    CallsDone (fun devaddr => n devaddr + calls.count devaddr) (sequential s calls) := by
  induction calls generalizing n s with
  | nil => exact h
  | cons first rest ih =>
    have hrest := ih (h.callOnce first)
    have hcount : (fun devaddr => Function.update n first (n first + 1) devaddr +
        rest.count devaddr) = fun devaddr => n devaddr + (first :: rest).count devaddr := by
      funext devaddr
      by_cases heq : devaddr = first
      · subst heq
        rw [Function.update_self, List.count_cons_self]
        omega
      · rw [Function.update_of_ne heq, List.count_cons_of_ne (Ne.symm heq)]
    rw [hcount] at hrest
    exact hrest

/-- The counters of the downlinks of a device, when calls do not overlap. -/
theorem usedFor_sequential {s : CounterState} (h : CounterStart s) (calls : List (BitVec 32))
    (devaddr : BitVec 32) :
    usedFor devaddr (sequential s calls).used =
      ((List.range (calls.count devaddr)).map usedFcnt).reverse := by
  have hdone := ((callsDone_start h).sequential calls).used devaddr
  rw [Nat.zero_add] at hdone
  exact hdone

theorem CountersIncrease.usedFor {used : List (BitVec 32 × BitVec 32)}
    (h : CountersIncrease used) (devaddr : BitVec 32) :
    (usedFor devaddr used).Pairwise fun newer older => older.toNat < newer.toNat := by
  refine List.pairwise_map.2 (List.pairwise_filter.2 (h.imp ?_))
  intro newer older hlt hnewer holder
  exact hlt ((of_decide_eq_true hnewer).trans (of_decide_eq_true holder).symm)

/-- The first two downlinks of a device have the same counter. -/
theorem nodup_of_countersIncrease {s : CounterState} (h : CounterStart s)
    {calls : List (BitVec 32)} (hinc : CountersIncrease (sequential s calls).used) :
    calls.Nodup := by
  refine List.nodup_iff_count.2 fun devaddr => ?_
  by_contra hmore
  obtain ⟨m, hm⟩ : ∃ m, calls.count devaddr = m + 2 := ⟨calls.count devaddr - 2, by omega⟩
  have hpair := hinc.usedFor devaddr
  rw [usedFor_sequential h, hm, List.pairwise_reverse, List.pairwise_map] at hpair
  have hlt := List.pairwise_iff_getElem.1 hpair 0 1 (by simp) (by simp) (by omega)
  simp [usedFcnt] at hlt

/-! ### They are runs -/

section Runs

variable {s : CounterState} {th : RxThread} {devaddr dwfcnt : BitVec 32}

theorem enter_step (a : BitVec 32) (h : s.stage th = .idle) :
    CounterStep s (.enter th a)
      { s.goto th (.named a) with dbFamily := .downlink a } := by
  rw [CounterStep, counterStep, h]

theorem getNone_step (h : s.stage th = .named devaddr) (hfcnt : s.fcnt s.dbFamily = none) :
    CounterStep s (.get th) { s.goto th (.got devaddr false) with tmpstr := "" } := by
  simp only [CounterStep, counterStep, h, hfcnt]
  rfl

theorem getSome_step {text : String} (h : s.stage th = .named devaddr)
    (hfcnt : s.fcnt s.dbFamily = some text) :
    CounterStep s (.get th) { s.goto th (.got devaddr true) with tmpstr := text } := by
  simp only [CounterStep, counterStep, h, hfcnt]
  rfl

theorem count_step (h : s.stage th = .got devaddr true) :
    CounterStep s (.count th)
      { s.goto th (.counted devaddr (BitVec.ofInt 32 (atol s.tmpstr))) with
        tmpstr := sprintfU (BitVec.ofInt 32 (atol s.tmpstr) + 1#32) } := by
  rw [CounterStep, counterStep, h]

theorem putNew_step (h : s.stage th = .got devaddr false) :
    CounterStep s (.put th) (s.putAndUse th devaddr "1" 1#32) := by
  rw [CounterStep, counterStep, h]

theorem putNext_step (h : s.stage th = .counted devaddr dwfcnt) :
    CounterStep s (.put th) (s.putAndUse th devaddr s.tmpstr dwfcnt) := by
  rw [CounterStep, counterStep, h]

/-- A call that does not overlap with others is a run of a thread. -/
theorem callOnce_run (devaddr : BitVec 32) (hidle : s.stage th = .idle) :
    ∃ rest, Run CounterStep s (.enter th devaddr :: rest) (callOnce s devaddr) ∧
      ∀ e ∈ rest, e.newDevice = none := by
  have hback : Function.update s.stage th .idle = s.stage := by
    rw [← hidle, Function.update_eq_self]
  cases hfcnt : s.fcnt (.downlink devaddr) with
  | none =>
    refine ⟨[.get th, .put th], ?_, by simp [CounterEvent.newDevice]⟩
    have hrun := Run.cons (enter_step devaddr hidle)
      (Run.cons (getNone_step (goto_stage _ _ _) hfcnt)
        (Run.cons (putNew_step (goto_stage _ _ _)) (Run.nil _)))
    simpa [callOnce, hfcnt, CounterState.putAndUse, CounterState.goto, hback] using hrun
  | some text =>
    refine ⟨[.get th, .count th, .put th], ?_, by simp [CounterEvent.newDevice]⟩
    have hrun := Run.cons (enter_step devaddr hidle)
      (Run.cons (getSome_step (goto_stage _ _ _) hfcnt)
        (Run.cons (count_step (goto_stage _ _ _))
          (Run.cons (putNext_step (goto_stage _ _ _)) (Run.nil _))))
    simpa [callOnce, hfcnt, CounterState.putAndUse, CounterState.goto, hback] using hrun

end Runs

/-- Calls one after the other are a run. -/
theorem reachable_sequential {s : CounterState} (hs : Reachable CounterStart CounterStep s)
    (hidle : ∀ th, s.stage th = .idle) (calls : List (BitVec 32)) :
    Reachable CounterStart CounterStep (sequential s calls) := by
  induction calls generalizing s with
  | nil => exact hs
  | cons devaddr calls ih =>
    obtain ⟨rest, hrun, -⟩ := callOnce_run devaddr (hidle .pktDealUp)
    refine ih (hs.run hrun) ?_
    rw [callOnce_stage]
    exact hidle

theorem calls_of_idle {s : CounterState} (hidle : ∀ th, s.stage th = .idle) :
    s.calls = s.used.map Prod.fst := by
  rw [CounterState.calls, hidle, hidle]
  rfl

theorem callOnce_used (s : CounterState) (devaddr : BitVec 32) :
    (callOnce s devaddr).used.map Prod.fst = devaddr :: s.used.map Prod.fst := by
  unfold callOnce
  split <;> rfl

/-- Calls for different devices meet the condition. -/
theorem reachable_guarded_sequential {s : CounterState}
    (hs : Reachable CounterStart (Guarded FirstDownlink CounterStep) s)
    (hidle : ∀ th, s.stage th = .idle) {calls : List (BitVec 32)} (hnodup : calls.Nodup)
    (hnew : ∀ devaddr ∈ calls, devaddr ∉ s.calls) :
    Reachable CounterStart (Guarded FirstDownlink CounterStep) (sequential s calls) := by
  induction calls generalizing s with
  | nil => exact hs
  | cons devaddr calls ih =>
    obtain ⟨hnotin, hnodup⟩ := List.nodup_cons.1 hnodup
    obtain ⟨rest, hrun, hrest⟩ := callOnce_run devaddr (hidle .pktDealUp)
    have hidle' : ∀ th, (callOnce s devaddr).stage th = .idle := by
      rw [callOnce_stage]
      exact hidle
    have hguarded : Run (Guarded FirstDownlink CounterStep) s (.enter .pktDealUp devaddr :: rest)
        (callOnce s devaddr) := by
      cases hrun with
      | cons hfirst htail =>
        refine Run.cons ⟨hnew devaddr List.mem_cons_self, hfirst⟩ (htail.guarded _ ?_)
        intro s' e he
        have hnone := hrest e he
        cases e with
        | enter th other => cases hnone
        | get th => exact trivial
        | count th => exact trivial
        | put th => exact trivial
        | scribble th name tmpstr => exact trivial
    refine ih (hs.run hguarded) hidle' hnodup fun other hother => ?_
    rw [calls_of_idle hidle', callOnce_used, ← calls_of_idle hidle, List.mem_cons, not_or]
    refine ⟨?_, hnew other (List.mem_cons_of_mem _ hother)⟩
    rintro rfl
    exact hnotin hother

/-! ## Main results -/

/-- From an empty database: in every interleaved run in which each downlink is the first of its
device the counters of a device increase, and no pair of device and counter is used twice. When
calls do not overlap the counters increase only then. -/
theorem counters_increase (s0 : CounterState) (h0 : CounterStart s0) :
    (∀ s, Reachable (fun s => s = s0) (Guarded FirstDownlink CounterStep) s →
      CountersIncrease s.used ∧ s.used.Nodup) ∧
    ∀ calls, CountersIncrease (sequential s0 calls).used ↔ calls.Nodup := by
  constructor
  · intro s hs
    have hinc := reachable_countersIncrease (hs.of_init h0)
    exact ⟨hinc, hinc.nodup⟩
  · intro calls
    constructor
    · exact nodup_of_countersIncrease h0
    · intro hnodup
      have hreach := reachable_guarded_sequential (Reachable.start h0) h0.2.1 hnodup (by
        intro devaddr _
        rw [calls_of_idle h0.2.1, h0.2.2]
        exact List.not_mem_nil)
      exact reachable_countersIncrease hreach

/-- No counter in the database. -/
def noCounters : CounterState :=
  ⟨fun _ => none, .other "", "", fun _ => .idle, []⟩

theorem noCounters_start : CounterStart noCounters := ⟨fun _ => rfl, fun _ => rfl, rfl⟩

/-- Two devices: their calls may follow each other, and a second one for a device may not. -/
theorem counters_increase_two :
    CountersIncrease (sequential noCounters [0x26011234#32, 0x26011235#32]).used ∧
      ¬ CountersIncrease (sequential noCounters [0x26011234#32, 0x26011234#32]).used := by
  obtain ⟨-, hseq⟩ := counters_increase noCounters noCounters_start
  exact ⟨(hseq _).2 (by decide), fun hinc => absurd ((hseq _).1 hinc) (by decide)⟩

/-- The second downlink of a device is encrypted with the counter of the first. -/
theorem second_downlink_repeats :
    ¬ ∀ s, Reachable CounterStart CounterStep s → CountersIncrease s.used := by
  intro h
  have hreach := reachable_sequential (Reachable.start noCounters_start) (fun _ => rfl)
    [0x26011234#32, 0x26011234#32]
  have hnodup := nodup_of_countersIncrease noCounters_start (h _ hreach)
  exact absurd hnodup (by decide)

end DraginoFwd.Mac

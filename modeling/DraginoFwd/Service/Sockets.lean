import DraginoFwd.Lib.Handles
import DraginoFwd.Lib.Transition

/-!
# The two sockets of a service

`semtech_start` opens `sock_up` and `sock_down`, the reconnections in `semtech_push_up` and
`semtech_pull_down` replace them, and `semtech_stop` closes them. Every call of `init_sock` or
`close` and every assignment to one of the two variables is a step of its own, and the steps of the
three threads come in any order. `init_sock` fails or gives a new socket, as the event says.

The reconnection of `semtech_pull_down` opens `sock_up` with the arguments of `sock_down`, and
nothing keeps it apart from the other two threads. `Separate` are the steps where neither matters,
and with these the sockets are in order in every run (`sockets_in_order`).
-/

set_option autoImplicit false

namespace DraginoFwd.Service

open DraginoFwd.Lib.Handles
open DraginoFwd.Lib.Transition

/-- `struct timeval` -/
structure Timeval where
  tvSec : Int
  tvUsec : Int
  deriving DecidableEq

/-- The configuration in `serv_net_s`. -/
structure ServNet where
  addr : String
  portUp : String
  portDown : String
  pushTimeoutHalf : Timeval
  pullTimeout : Timeval

/-- What `init_sock` is called with. -/
structure SockArgs where
  addr : String
  port : String
  timeout : Timeval
  deriving DecidableEq

/-- `init_sock`, which gives a new socket or -1 -/
def initSock (sockets : List (Handle SockArgs)) (ok : Bool) (addr port : String)
    (timeout : Timeval) : Option Nat × List (Handle SockArgs) :=
  tryAcquire sockets ok ⟨addr, port, timeout⟩

/-- Where `semtech_push_up` is: outside of its reconnection, behind its test of `sock_up`, or behind
`init_sock`. -/
inductive UpPoint where
  | running
  | reconnecting
  | connected (sock : Option Nat)
  | ended
  deriving DecidableEq

/-- Where `semtech_pull_down` is: outside of its reconnection, behind the test of `stop_sig`, or
between two steps of the reconnection. -/
inductive DownPoint where
  | running
  | looping
  | closedDown
  | closedBoth
  | connectedDown (sock : Option Nat)
  | storedDown
  | connectedUp (sock : Option Nat)
  deriving DecidableEq

/-- Where `semtech_stop` is. -/
inductive StopPoint where
  | running
  | signalled
  | joined
  | closedUp
  | closedBoth
  | clearedUp
  | stopped
  deriving DecidableEq

/-- The sockets that were opened, the fields of the service, and the points of the threads. -/
structure SockState where
  sockets : List (Handle SockArgs)
  sockUp : Option Nat
  sockDown : Option Nat
  stopSig : Bool
  up : UpPoint
  down : DownPoint
  stop : StopPoint
  deriving DecidableEq

/-- `semtech_start`, with the successes of its two calls -/
def semtechStart (net : ServNet) (okUp okDown : Bool) : SockState :=
  let up := initSock [] okUp net.addr net.portUp net.pushTimeoutHalf
  let down := initSock up.2 okDown net.addr net.portDown net.pullTimeout
  ⟨down.2, up.1, down.1, false, .running, .running, .running⟩

/-- The steps of the threads. `semtech_pull_down` need not go on at any point, for
`pthread_cancel` may end it. -/
inductive SockEvent where
  | upTest
  | upInit (ok : Bool)
  | upStore
  | upEnd
  | downLoop
  | downAcked
  | downAutoquit
  | downCloseDown
  | downCloseUp
  | downInitDown (ok : Bool)
  | downStoreDown
  | downInitUp (ok : Bool)
  | downStoreUp
  | stopSignal
  | stopJoin
  | stopCloseUp
  | stopCloseDown
  | stopClearUp
  | stopClearDown
  deriving DecidableEq

/-- One step, where its thread is in front of it. -/
def sockEvent (net : ServNet) (s : SockState) : SockEvent → Option SockState
  | .upTest =>
      if s.up = .running ∧ s.sockUp = none then some { s with up := .reconnecting } else none
  | .upInit ok =>
      if s.up = .reconnecting then
        let r := initSock s.sockets ok net.addr net.portUp net.pushTimeoutHalf
        some { s with sockets := r.2, up := .connected r.1 }
      else none
  | .upStore =>
      match s.up with
      | .connected sock => some { s with sockUp := sock, up := .running }
      | _ => none
  | .upEnd => if s.up = .running ∧ s.stopSig then some { s with up := .ended } else none
  | .downLoop =>
      if s.down = .running ∧ !s.stopSig then some { s with down := .looping } else none
  | .downAcked => if s.down = .looping then some { s with down := .running } else none
  | .downAutoquit =>
      if s.down = .looping then some { s with down := .running, stopSig := true } else none
  | .downCloseDown =>
      if s.down = .looping then
        some { s with sockets := releaseSlot s.sockets s.sockDown, down := .closedDown }
      else none
  | .downCloseUp =>
      if s.down = .closedDown then
        some { s with sockets := releaseSlot s.sockets s.sockUp, down := .closedBoth }
      else none
  | .downInitDown ok =>
      if s.down = .closedBoth then
        let r := initSock s.sockets ok net.addr net.portDown net.pullTimeout
        some { s with sockets := r.2, down := .connectedDown r.1 }
      else none
  | .downStoreDown =>
      match s.down with
      | .connectedDown sock => some { s with sockDown := sock, down := .storedDown }
      | _ => none
  | .downInitUp ok =>
      -- the port and the time-out of the other socket
      if s.down = .storedDown then
        let r := initSock s.sockets ok net.addr net.portDown net.pullTimeout
        some { s with sockets := r.2, down := .connectedUp r.1 }
      else none
  | .downStoreUp =>
      match s.down with
      | .connectedUp sock => some { s with sockUp := sock, down := .running }
      | _ => none
  | .stopSignal =>
      if s.stop = .running then some { s with stopSig := true, stop := .signalled } else none
  | .stopJoin =>
      if s.stop = .signalled ∧ s.up = .ended then some { s with stop := .joined } else none
  | .stopCloseUp =>
      if s.stop = .joined then
        some { s with sockets := releaseSlot s.sockets s.sockUp, stop := .closedUp }
      else none
  | .stopCloseDown =>
      if s.stop = .closedUp then
        some { s with sockets := releaseSlot s.sockets s.sockDown, stop := .closedBoth }
      else none
  | .stopClearUp =>
      if s.stop = .closedBoth then some { s with sockUp := none, stop := .clearedUp } else none
  | .stopClearDown =>
      if s.stop = .clearedUp then some { s with sockDown := none, stop := .stopped } else none

/-! ## Sockets in order -/

/-- Between the call of `close` for `sock_up` and the next assignment to it. -/
def DownPoint.replacesUp : DownPoint → Bool
  | .closedBoth | .connectedDown _ | .storedDown | .connectedUp _ => true
  | _ => false

/-- Between the call of `close` for `sock_down` and the next assignment to it. -/
def DownPoint.replacesDown : DownPoint → Bool
  | .closedDown | .closedBoth | .connectedDown _ => true
  | _ => false

/-- `semtech_stop` has closed `sock_up` and not set it to -1 yet. -/
def StopPoint.replacesUp : StopPoint → Bool
  | .closedUp | .closedBoth => true
  | _ => false

/-- `semtech_stop` has closed `sock_down` and not set it to -1 yet. -/
def StopPoint.replacesDown : StopPoint → Bool
  | .closedBoth | .clearedUp => true
  | _ => false

/-- A thread has closed `sock_up` and is about to replace it. -/
def SockState.replacesUp (s : SockState) : Bool := s.down.replacesUp || s.stop.replacesUp

/-- A thread has closed `sock_down` and is about to replace it. -/
def SockState.replacesDown (s : SockState) : Bool := s.down.replacesDown || s.stop.replacesDown

/-- The arguments that belong to `sock_up`. -/
def ServNet.upArgs (net : ServNet) : SockArgs := ⟨net.addr, net.portUp, net.pushTimeoutHalf⟩

/-- The arguments that belong to `sock_down`. -/
def ServNet.downArgs (net : ServNet) : SockArgs := ⟨net.addr, net.portDown, net.pullTimeout⟩

/-- A variable is -1 or names an open socket with its own arguments. -/
def Connected (sockets : List (Handle SockArgs)) (sock : Option Nat) (args : SockArgs) : Prop :=
  sock = none ∨ ∃ i, sock = some i ∧ sockets[i]? = some ⟨args, 0⟩

/-- Each variable has its own socket, unless a thread has closed that and is about to replace it, no
socket is closed twice, and none is open in the end. -/
structure InOrder (net : ServNet) (s : SockState) : Prop where
  up : s.replacesUp = false → Connected s.sockets s.sockUp net.upArgs
  down : s.replacesDown = false → Connected s.sockets s.sockDown net.downArgs
  once : ∀ e ∈ s.sockets, e.releases ≤ 1
  closed : s.stop = .stopped → ∀ e ∈ s.sockets, e.releases = 1

/-! ## The steps that keep them so -/

/-- Behind the test of `sock_up` and in front of the assignment to it. -/
def UpPoint.reconnects : UpPoint → Bool
  | .reconnecting | .connected _ => true
  | _ => false

/-- The new socket that `semtech_push_up` has not stored. -/
def UpPoint.sock : UpPoint → Option Nat
  | .connected sock => sock
  | _ => none

/-- The new socket for `sock_up` that `semtech_pull_down` has not stored. -/
def DownPoint.sockUp : DownPoint → Option Nat
  | .connectedUp sock => sock
  | _ => none

/-- The new socket for `sock_down` that it has not stored. -/
def DownPoint.sockDown : DownPoint → Option Nat
  | .connectedDown sock => sock
  | _ => none

/-- The steps that the three threads can take without harm. `semtech_pull_down` gets no socket for
`sock_up`, unless the two ends have the same port and time-out. Neither of the two reconnections
stores a socket in `sock_up` while the other one is about to store there. `semtech_stop` closes the
sockets while `semtech_pull_down` is outside of its reconnection. -/
def Separate (net : ServNet) (s : SockState) : SockEvent → Prop
  | .downInitUp ok => ok = false ∨ net.upArgs = net.downArgs
  | .upStore => s.up.sock = none ∨ s.down.replacesUp = false
  | .downStoreUp => s.down.sockUp = none ∨ s.up.reconnects = false
  | .stopCloseUp => s.down = .running
  | _ => True

instance (net : ServNet) (s : SockState) : (e : SockEvent) → Decidable (Separate net s e)
  | .downInitUp _ => inferInstanceAs (Decidable (_ ∨ _))
  | .upStore => inferInstanceAs (Decidable (_ ∨ _))
  | .downStoreUp => inferInstanceAs (Decidable (_ ∨ _))
  | .stopCloseUp => inferInstanceAs (Decidable (_ = _))
  | .upTest | .upInit _ | .upEnd | .downLoop | .downAcked | .downAutoquit | .downCloseDown
  | .downCloseUp | .downInitDown _ | .downStoreDown | .stopSignal | .stopJoin | .stopCloseDown
  | .stopClearUp | .stopClearDown => inferInstanceAs (Decidable True)

/-- The sockets that the variables and the threads hold. -/
def SockState.held (net : ServNet) (s : SockState) : Multiset (Nat × SockArgs) :=
  slot (bif s.replacesUp then none else s.sockUp) net.upArgs +
    slot (bif s.replacesDown then none else s.sockDown) net.downArgs +
    slot s.up.sock net.upArgs + slot s.down.sockUp net.upArgs + slot s.down.sockDown net.downArgs

/-- Behind `pthread_join`. -/
def StopPoint.hasJoined : StopPoint → Bool
  | .running | .signalled => false
  | _ => true

/-- Behind the first `close`. -/
def StopPoint.closes : StopPoint → Bool
  | .running | .signalled | .joined => false
  | _ => true

/-- What holds at every step: the sockets held are the open ones, and where the threads can be. -/
structure SockInv (net : ServNet) (s : SockState) : Prop where
  held : Held s.sockets (s.held net)
  upNone : s.up.reconnects = true → s.sockUp = none
  upEnded : s.stop.hasJoined = true → s.up = .ended
  signalled : s.stop ≠ .running → s.stopSig = true
  downRuns : s.stop.closes = true → s.down = .running
  upCleared : s.stop = .clearedUp ∨ s.stop = .stopped → s.sockUp = none
  downCleared : s.stop = .stopped → s.sockDown = none

variable {net : ServNet} {s t : SockState}

/-- The invariant says that the sockets are in order. -/
theorem SockInv.inOrder (h : SockInv net s) : InOrder net s where
  up := by
    intro hreplaces
    cases hup : s.sockUp with
    | none => exact Or.inl rfl
    | some i =>
      refine Or.inr ⟨i, rfl, h.held.held (i, net.upArgs) ?_⟩
      simp [SockState.held, hreplaces, hup]
  down := by
    intro hreplaces
    cases hdown : s.sockDown with
    | none => exact Or.inl rfl
    | some i =>
      refine Or.inr ⟨i, rfl, h.held.held (i, net.downArgs) ?_⟩
      simp [SockState.held, hreplaces, hdown]
  once := h.held.releases_le
  closed := by
    intro hstop
    have hup := h.upEnded (by rw [hstop]; rfl)
    have hdown := h.downRuns (by rw [hstop]; rfl)
    have hzero : s.held net = 0 := by
      simp [SockState.held, SockState.replacesUp, SockState.replacesDown, hstop, hup, hdown,
        h.upCleared (Or.inr hstop), h.downCleared hstop, UpPoint.sock, DownPoint.sockUp,
        DownPoint.sockDown]
    have hheld := h.held
    rw [hzero] at hheld
    exact hheld.releases_eq

/-- `semtech_start` begins in order. -/
theorem sockInv_start (net : ServNet) (okUp okDown : Bool) :
    SockInv net (semtechStart net okUp okDown) where
  held := by
    -- each of the two calls adds its socket to an empty table, if it gets one
    have hup := held_nil.tryAcquire okUp net.upArgs
    have hdown := hup.tryAcquire okDown net.downArgs
    have heq : (semtechStart net okUp okDown).held net =
        slot (semtechStart net okUp okDown).sockDown net.downArgs +
          (slot (semtechStart net okUp okDown).sockUp net.upArgs + 0) := by
      simp only [SockState.held, semtechStart, SockState.replacesUp, SockState.replacesDown,
        DownPoint.replacesUp, DownPoint.replacesDown, StopPoint.replacesUp, StopPoint.replacesDown,
        UpPoint.sock, DownPoint.sockUp, DownPoint.sockDown, slot_none, Bool.or_self,
        cond_false]
      abel
    rw [heq]
    exact hdown
  upNone := fun h => absurd h Bool.false_ne_true
  upEnded := fun h => absurd h Bool.false_ne_true
  signalled := fun h => absurd rfl h
  downRuns := fun h => absurd h Bool.false_ne_true
  upCleared := by
    rintro (h | h) <;> cases h
  downCleared := by
    intro h
    cases h

/-! ### `semtech_push_up` -/

theorem SockInv.not_joined (hi : SockInv net s) (hup : s.up ≠ .ended) : s.stop.hasJoined = false :=
  Bool.eq_false_iff.2 fun hjoined => hup (hi.upEnded hjoined)

/-- `semtech_stop` does not close the sockets in front of `pthread_join`. -/
theorem StopPoint.before_join {p : StopPoint} (h : p.hasJoined = false) :
    p.replacesUp = false ∧ p.replacesDown = false ∧ p ≠ .clearedUp ∧ p ≠ .stopped := by
  cases p with
  | running | signalled => decide
  | _ => cases h

theorem SockInv.upTest (hi : SockInv net s) (hup : s.up = .running) (hnone : s.sockUp = none) :
    SockInv net { s with up := .reconnecting } :=
  have hjoined := hi.not_joined (by rw [hup]; decide)
  { hi with
    held := by
      have hheld := hi.held
      simp only [SockState.held, hup, UpPoint.sock] at hheld
      exact hheld
    upNone := fun _ => hnone
    upEnded := fun h => absurd (hjoined.symm.trans h) Bool.false_ne_true }

theorem SockInv.upInit (hi : SockInv net s) (hup : s.up = .reconnecting) (ok : Bool) :
    SockInv net { s with
      sockets := (tryAcquire s.sockets ok net.upArgs).2
      up := .connected (tryAcquire s.sockets ok net.upArgs).1 } :=
  have hjoined := hi.not_joined (by rw [hup]; decide)
  { hi with
    held := by
      refine (hi.held.tryAcquire ok net.upArgs).congr ?_
      simp only [SockState.held, SockState.replacesUp, SockState.replacesDown, hup, UpPoint.sock,
        slot_none]
      abel
    upNone := fun _ => hi.upNone (by rw [hup]; rfl)
    upEnded := fun h => absurd (hjoined.symm.trans h) Bool.false_ne_true }

/-- A socket is stored where no other one is, and `semtech_pull_down` will not store another. -/
theorem SockInv.upStore {sock : Option Nat} (hi : SockInv net s) (hup : s.up = .connected sock)
    (hsep : sock = none ∨ s.down.replacesUp = false) :
    SockInv net { s with sockUp := sock, up := .running } :=
  have hjoined := hi.not_joined (by rw [hup]; exact UpPoint.noConfusion)
  have hstop := StopPoint.before_join hjoined
  { hi with
    held := by
      have hnone : s.sockUp = none := hi.upNone (by rw [hup]; rfl)
      refine hi.held.congr ?_
      -- no new socket, or `semtech_pull_down` is not about to store one
      rcases hsep with rfl | hdown
      · simp only [SockState.held, SockState.replacesUp, SockState.replacesDown, hup, UpPoint.sock,
          slot_none, hnone, Bool.cond_self]
      · simp only [SockState.held, SockState.replacesUp, SockState.replacesDown, hup, UpPoint.sock,
          slot_none, hnone, Bool.cond_self, hdown, hstop.1, Bool.or_self, cond_false]
        abel
    upNone := fun h => absurd h Bool.false_ne_true
    upEnded := fun h => absurd (hjoined.symm.trans h) Bool.false_ne_true
    upCleared := fun h => absurd h (not_or.2 hstop.2.2) }

theorem SockInv.upEnd (hi : SockInv net s) (hup : s.up = .running) :
    SockInv net { s with up := .ended } :=
  { hi with
    held := by
      have hheld := hi.held
      simp only [SockState.held, hup, UpPoint.sock] at hheld
      exact hheld
    upNone := fun h => absurd h Bool.false_ne_true
    upEnded := fun _ => rfl }

/-! ### `semtech_pull_down` -/

theorem SockInv.not_closing (hi : SockInv net s) (hdown : s.down ≠ .running) :
    s.stop.closes = false :=
  Bool.eq_false_iff.2 fun hcloses => hdown (hi.downRuns hcloses)

theorem StopPoint.before_close {p : StopPoint} (h : p.closes = false) :
    p.replacesUp = false ∧ p.replacesDown = false ∧ p ≠ .clearedUp ∧ p ≠ .stopped := by
  cases p with
  | running | signalled | joined => decide
  | _ => cases h

/-- A step of `semtech_pull_down` in front of the calls of `semtech_stop`. -/
theorem SockInv.downStep {sockets : List (Handle SockArgs)} {sockUp sockDown : Option Nat}
    {down : DownPoint} (hi : SockInv net s) (hcloses : s.stop.closes = false)
    (hheld : Held sockets
      (SockState.held net ⟨sockets, sockUp, sockDown, s.stopSig, s.up, down, s.stop⟩))
    (hup : s.up.reconnects = true → sockUp = none) :
    SockInv net ⟨sockets, sockUp, sockDown, s.stopSig, s.up, down, s.stop⟩ :=
  have hstop := StopPoint.before_close hcloses
  { hi with
    held := hheld
    upNone := hup
    downRuns := fun h => absurd (hcloses.symm.trans h) Bool.false_ne_true
    upCleared := fun h => absurd h (not_or.2 hstop.2.2)
    downCleared := fun h => absurd h hstop.2.2.2 }

theorem SockInv.downLoop (hi : SockInv net s) (hdown : s.down = .running)
    (hsig : s.stopSig = false) : SockInv net { s with down := .looping } := by
  -- the loop has read `stop_sig` as false
  have hstop : s.stop = .running := by
    by_contra hne
    rw [hi.signalled hne] at hsig
    cases hsig
  refine hi.downStep (by rw [hstop]; rfl) (hi.held.congr ?_) hi.upNone
  simp only [SockState.held, SockState.replacesUp, SockState.replacesDown, hdown,
    DownPoint.replacesUp, DownPoint.replacesDown, DownPoint.sockUp, DownPoint.sockDown]

theorem SockInv.downAcked (hi : SockInv net s) (hdown : s.down = .looping) :
    SockInv net { s with down := .running } := by
  refine hi.downStep (hi.not_closing (by rw [hdown]; decide)) (hi.held.congr ?_) hi.upNone
  simp only [SockState.held, SockState.replacesUp, SockState.replacesDown, hdown,
    DownPoint.replacesUp, DownPoint.replacesDown, DownPoint.sockUp, DownPoint.sockDown]

theorem SockInv.downCloseDown (hi : SockInv net s) (hdown : s.down = .looping) :
    SockInv net { s with sockets := releaseSlot s.sockets s.sockDown, down := .closedDown } := by
  have hcloses := hi.not_closing (by rw [hdown]; decide)
  have hstop := StopPoint.before_close hcloses
  refine hi.downStep hcloses (Held.releaseSlot (k := net.downArgs) (hi.held.congr ?_)) hi.upNone
  simp only [SockState.held, SockState.replacesUp, SockState.replacesDown, hdown, hstop.1,
    hstop.2.1, DownPoint.replacesUp, DownPoint.replacesDown, DownPoint.sockUp, DownPoint.sockDown,
    slot_none, Bool.or_self, Bool.or_false, cond_false, cond_true]
  abel

theorem SockInv.downCloseUp (hi : SockInv net s) (hdown : s.down = .closedDown) :
    SockInv net { s with sockets := releaseSlot s.sockets s.sockUp, down := .closedBoth } := by
  have hcloses := hi.not_closing (by rw [hdown]; decide)
  have hstop := StopPoint.before_close hcloses
  refine hi.downStep hcloses (Held.releaseSlot (k := net.upArgs) (hi.held.congr ?_)) hi.upNone
  simp only [SockState.held, SockState.replacesUp, SockState.replacesDown, hdown, hstop.1,
    hstop.2.1, DownPoint.replacesUp, DownPoint.replacesDown, DownPoint.sockUp, DownPoint.sockDown,
    slot_none, Bool.or_self, Bool.or_false, cond_false, cond_true]
  abel

theorem SockInv.downInitDown (hi : SockInv net s) (hdown : s.down = .closedBoth) (ok : Bool) :
    SockInv net { s with
      sockets := (tryAcquire s.sockets ok net.downArgs).2
      down := .connectedDown (tryAcquire s.sockets ok net.downArgs).1 } := by
  refine hi.downStep (hi.not_closing (by rw [hdown]; decide))
    ((hi.held.tryAcquire ok net.downArgs).congr ?_) hi.upNone
  simp only [SockState.held, SockState.replacesUp, SockState.replacesDown, hdown,
    DownPoint.replacesUp, DownPoint.replacesDown, DownPoint.sockUp, DownPoint.sockDown, slot_none,
    Bool.true_or, cond_true]
  abel

theorem SockInv.downStoreDown {sock : Option Nat} (hi : SockInv net s)
    (hdown : s.down = .connectedDown sock) :
    SockInv net { s with sockDown := sock, down := .storedDown } := by
  have hcloses := hi.not_closing (by rw [hdown]; exact DownPoint.noConfusion)
  have hstop := StopPoint.before_close hcloses
  refine hi.downStep hcloses (hi.held.congr ?_) hi.upNone
  simp only [SockState.held, SockState.replacesUp, SockState.replacesDown, hdown, hstop.2.1,
    DownPoint.replacesUp, DownPoint.replacesDown, DownPoint.sockUp, DownPoint.sockDown, slot_none,
    Bool.true_or, Bool.or_self, cond_true, cond_false]
  abel

/-- The second call of `init_sock` fails, or its socket suits `sock_up`. -/
theorem SockInv.downInitUp (hi : SockInv net s) (hdown : s.down = .storedDown) {ok : Bool}
    (hsep : ok = false ∨ net.upArgs = net.downArgs) :
    SockInv net { s with
      sockets := (tryAcquire s.sockets ok net.downArgs).2
      down := .connectedUp (tryAcquire s.sockets ok net.downArgs).1 } := by
  -- what the call may get counts as a socket of `sock_up`
  have hslot : slot (tryAcquire s.sockets ok net.downArgs).1 net.downArgs =
      slot (tryAcquire s.sockets ok net.downArgs).1 net.upArgs := by
    rcases hsep with rfl | heq
    · rfl
    · rw [heq]
  refine hi.downStep (hi.not_closing (by rw [hdown]; decide))
    ((hi.held.tryAcquire ok net.downArgs).congr ?_) hi.upNone
  rw [hslot]
  simp only [SockState.held, SockState.replacesUp, SockState.replacesDown, hdown,
    DownPoint.replacesUp, DownPoint.replacesDown, DownPoint.sockUp, DownPoint.sockDown, slot_none,
    Bool.true_or, cond_true]
  abel

/-- A socket is stored where `semtech_push_up` will not store another. -/
theorem SockInv.downStoreUp {sock : Option Nat} (hi : SockInv net s)
    (hdown : s.down = .connectedUp sock) (hsep : sock = none ∨ s.up.reconnects = false) :
    SockInv net { s with sockUp := sock, down := .running } := by
  have hcloses := hi.not_closing (by rw [hdown]; exact DownPoint.noConfusion)
  have hstop := StopPoint.before_close hcloses
  refine hi.downStep hcloses (hi.held.congr ?_) fun hup => ?_
  · simp only [SockState.held, SockState.replacesUp, SockState.replacesDown, hdown, hstop.1,
      DownPoint.replacesUp, DownPoint.replacesDown, DownPoint.sockUp, DownPoint.sockDown, slot_none,
      Bool.true_or, Bool.or_self, cond_true, cond_false]
    abel
  · rcases hsep with rfl | hnot
    · rfl
    · rw [hnot] at hup
      cases hup

/-! ### `semtech_stop` -/

theorem SockInv.stopSignal (hi : SockInv net s) (hstop : s.stop = .running) :
    SockInv net { s with stopSig := true, stop := .signalled } :=
  { hi with
    held := by
      refine hi.held.congr ?_
      simp only [SockState.held, SockState.replacesUp, SockState.replacesDown, hstop,
        StopPoint.replacesUp, StopPoint.replacesDown]
    upEnded := fun h => absurd h Bool.false_ne_true
    signalled := fun _ => rfl
    downRuns := fun h => absurd h Bool.false_ne_true
    upCleared := by
      rintro (h | h) <;> cases h
    downCleared := by
      intro h
      cases h }

theorem SockInv.stopJoin (hi : SockInv net s) (hstop : s.stop = .signalled) (hup : s.up = .ended) :
    SockInv net { s with stop := .joined } :=
  { hi with
    held := by
      refine hi.held.congr ?_
      simp only [SockState.held, SockState.replacesUp, SockState.replacesDown, hstop,
        StopPoint.replacesUp, StopPoint.replacesDown]
    upEnded := fun _ => hup
    signalled := fun _ => hi.signalled (by rw [hstop]; decide)
    downRuns := fun h => absurd h Bool.false_ne_true
    upCleared := by
      rintro (h | h) <;> cases h
    downCleared := by
      intro h
      cases h }

/-- A step of `semtech_stop` behind `pthread_join`, with `semtech_pull_down` outside of its
reconnection. -/
theorem SockInv.stopStep {sockets : List (Handle SockArgs)} {sockUp sockDown : Option Nat}
    {stop : StopPoint} (hi : SockInv net s) (hjoined : s.stop.hasJoined = true)
    (hdown : s.down = .running)
    (hheld : Held sockets
      (SockState.held net ⟨sockets, sockUp, sockDown, s.stopSig, s.up, s.down, stop⟩))
    (hupCleared : stop = .clearedUp ∨ stop = .stopped → sockUp = none)
    (hdownCleared : stop = .stopped → sockDown = none) :
    SockInv net ⟨sockets, sockUp, sockDown, s.stopSig, s.up, s.down, stop⟩ :=
  have hended := hi.upEnded hjoined
  { held := hheld
    upNone := fun h => by
      have hreconnects : s.up.reconnects = true := h
      rw [hended] at hreconnects
      cases hreconnects
    upEnded := fun _ => hended
    signalled := fun _ => hi.signalled fun hstop => by
      rw [hstop] at hjoined
      cases hjoined
    downRuns := fun _ => hdown
    upCleared := hupCleared
    downCleared := hdownCleared }

theorem SockInv.stopCloseUp (hi : SockInv net s) (hstop : s.stop = .joined)
    (hdown : s.down = .running) :
    SockInv net { s with sockets := releaseSlot s.sockets s.sockUp, stop := .closedUp } := by
  refine hi.stopStep (by rw [hstop]; rfl) hdown
    (Held.releaseSlot (k := net.upArgs) (hi.held.congr ?_)) ?_ ?_
  · simp only [SockState.held, SockState.replacesUp, SockState.replacesDown, hstop, hdown,
      DownPoint.replacesUp, DownPoint.replacesDown, StopPoint.replacesUp, StopPoint.replacesDown,
      slot_none, Bool.or_self, Bool.false_or, cond_false, cond_true]
    abel
  · rintro (h | h) <;> cases h
  · intro h
    cases h

theorem SockInv.stopCloseDown (hi : SockInv net s) (hstop : s.stop = .closedUp) :
    SockInv net { s with sockets := releaseSlot s.sockets s.sockDown, stop := .closedBoth } := by
  have hdown := hi.downRuns (by rw [hstop]; rfl)
  refine hi.stopStep (by rw [hstop]; rfl) hdown
    (Held.releaseSlot (k := net.downArgs) (hi.held.congr ?_)) ?_ ?_
  · simp only [SockState.held, SockState.replacesUp, SockState.replacesDown, hstop, hdown,
      DownPoint.replacesUp, DownPoint.replacesDown, StopPoint.replacesUp, StopPoint.replacesDown,
      slot_none, Bool.or_self, Bool.false_or, cond_false, cond_true]
    abel
  · rintro (h | h) <;> cases h
  · intro h
    cases h

theorem SockInv.stopClearUp (hi : SockInv net s) (hstop : s.stop = .closedBoth) :
    SockInv net { s with sockUp := none, stop := .clearedUp } := by
  have hdown := hi.downRuns (by rw [hstop]; rfl)
  refine hi.stopStep (by rw [hstop]; rfl) hdown (hi.held.congr ?_) (fun _ => rfl) ?_
  · simp only [SockState.held, SockState.replacesUp, SockState.replacesDown, hstop, hdown,
      DownPoint.replacesUp, DownPoint.replacesDown, StopPoint.replacesUp, StopPoint.replacesDown,
      Bool.or_self, Bool.false_or, cond_false, cond_true]
  · intro h
    cases h

theorem SockInv.stopClearDown (hi : SockInv net s) (hstop : s.stop = .clearedUp) :
    SockInv net { s with sockDown := none, stop := .stopped } := by
  have hdown := hi.downRuns (by rw [hstop]; rfl)
  have hup := hi.upCleared (Or.inl hstop)
  refine hi.stopStep (by rw [hstop]; rfl) hdown (hi.held.congr ?_) (fun _ => hup) fun _ => rfl
  simp only [SockState.held, SockState.replacesUp, SockState.replacesDown, hstop, hdown,
    DownPoint.replacesUp, DownPoint.replacesDown, StopPoint.replacesUp, StopPoint.replacesDown,
    Bool.or_self, Bool.false_or, cond_false, cond_true]

/-! ### Runs -/

/-- A step that is taken behind a test. -/
theorem taken {p : Prop} [Decidable p] {a b : SockState}
    (h : (if p then some a else none) = some b) : p ∧ a = b := by
  split at h
  · next hp => exact ⟨hp, Option.some.inj h⟩
  · cases h

/-- A separate step of any thread keeps the invariant. -/
theorem SockInv.event {e : SockEvent} (hi : SockInv net s) (hsep : Separate net s e)
    (h : sockEvent net s e = some t) : SockInv net t := by
  cases e with
  | upTest =>
    obtain ⟨⟨hup, hnone⟩, rfl⟩ := taken h
    exact hi.upTest hup hnone
  | upInit ok =>
    obtain ⟨hup, rfl⟩ := taken h
    exact hi.upInit hup ok
  | upStore =>
    rw [sockEvent] at h
    rw [Separate] at hsep
    split at h
    · next sock hup =>
      obtain rfl := Option.some.inj h
      rw [hup] at hsep
      exact hi.upStore hup hsep
    · cases h
  | upEnd =>
    obtain ⟨⟨hup, -⟩, rfl⟩ := taken h
    exact hi.upEnd hup
  | downLoop =>
    obtain ⟨⟨hdown, hsig⟩, rfl⟩ := taken h
    exact hi.downLoop hdown (Bool.not_eq_true' _ ▸ hsig)
  | downAcked =>
    obtain ⟨hdown, rfl⟩ := taken h
    exact hi.downAcked hdown
  | downAutoquit =>
    obtain ⟨hdown, rfl⟩ := taken h
    exact { hi.downAcked hdown with signalled := fun _ => rfl }
  | downCloseDown =>
    obtain ⟨hdown, rfl⟩ := taken h
    exact hi.downCloseDown hdown
  | downCloseUp =>
    obtain ⟨hdown, rfl⟩ := taken h
    exact hi.downCloseUp hdown
  | downInitDown ok =>
    obtain ⟨hdown, rfl⟩ := taken h
    exact hi.downInitDown hdown ok
  | downStoreDown =>
    rw [sockEvent] at h
    split at h
    · next sock hdown =>
      obtain rfl := Option.some.inj h
      exact hi.downStoreDown hdown
    · cases h
  | downInitUp ok =>
    obtain ⟨hdown, rfl⟩ := taken h
    exact hi.downInitUp hdown hsep
  | downStoreUp =>
    rw [sockEvent] at h
    rw [Separate] at hsep
    split at h
    · next sock hdown =>
      obtain rfl := Option.some.inj h
      rw [hdown] at hsep
      exact hi.downStoreUp hdown hsep
    · cases h
  | stopSignal =>
    obtain ⟨hstop, rfl⟩ := taken h
    exact hi.stopSignal hstop
  | stopJoin =>
    obtain ⟨⟨hstop, hup⟩, rfl⟩ := taken h
    exact hi.stopJoin hstop hup
  | stopCloseUp =>
    obtain ⟨hstop, rfl⟩ := taken h
    exact hi.stopCloseUp hstop hsep
  | stopCloseDown =>
    obtain ⟨hstop, rfl⟩ := taken h
    exact hi.stopCloseDown hstop
  | stopClearUp =>
    obtain ⟨hstop, rfl⟩ := taken h
    exact hi.stopClearUp hstop
  | stopClearDown =>
    obtain ⟨hstop, rfl⟩ := taken h
    exact hi.stopClearDown hstop

/-- Behind `semtech_start`. -/
def Started (net : ServNet) (s : SockState) : Prop :=
  ∃ okUp okDown, s = semtechStart net okUp okDown

/-- In every run of separate steps each of the two sockets keeps its port and its time-out, every
socket is closed at most once, and none is left open behind `semtech_stop`. -/
theorem sockets_in_order
    (h : Reachable (Started net) (Guarded (Separate net) (Steps (sockEvent net))) s) :
    InOrder net s := by
  refine (h.invariant (P := SockInv net) ?_ ?_).inOrder
  · rintro s ⟨okUp, okDown, rfl⟩
    exact sockInv_start net okUp okDown
  · rintro s e t hi ⟨hsep, hstep⟩
    exact hi.event hsep hstep

/-- A server with two ports. -/
def twoPorts : ServNet := ⟨"router", "1700", "1701", ⟨0, 50000⟩, ⟨0, 200000⟩⟩

/-- A server with one port, and one time-out for both sockets. -/
def onePort : ServNet := ⟨"router", "1700", "1700", ⟨0, 50000⟩, ⟨0, 50000⟩⟩

/-- `semtech_stop` from its beginning to its end. -/
def stopEvents : List SockEvent :=
  [.stopSignal, .upEnd, .stopJoin, .stopCloseUp, .stopCloseDown, .stopClearUp, .stopClearDown]

/-- A reconnection of `semtech_pull_down`. -/
def downEvents (ok : Bool) : List SockEvent :=
  [.downLoop, .downCloseDown, .downCloseUp, .downInitDown true, .downStoreDown, .downInitUp ok,
    .downStoreUp]

/-- A reconnection of `semtech_push_up`. -/
def upEvents : List SockEvent := [.upTest, .upInit true, .upStore]

/-- Where `semtech_pull_down` gets no socket for `sock_up`, `semtech_push_up` opens it. -/
theorem sockets_in_order_reopened : ∃ s,
    exec (sockEvent twoPorts) (semtechStart twoPorts true true)
      (downEvents false ++ upEvents ++ stopEvents) = some s ∧ InOrder twoPorts s := by
  have hrun : exec (guardedBy (Separate twoPorts) (sockEvent twoPorts))
      (semtechStart twoPorts true true) (downEvents false ++ upEvents ++ stopEvents) = some _ := rfl
  refine ⟨_, rfl, sockets_in_order ?_⟩
  exact Reachable.of_init ⟨true, true, rfl⟩ (Run.of_exec_guardedBy hrun).reachable

/-- One reconnection of `semtech_pull_down` leaves `sock_up` on the port of `sock_down`. With one
port, a reconnection of each thread at the same time leaves a socket open, and a `semtech_stop`
within a reconnection closes a socket twice. -/
theorem reconnect_confuses_sockets :
    (∃ s, exec (sockEvent twoPorts) (semtechStart twoPorts true true) (downEvents true) = some s ∧
      ¬ InOrder twoPorts s) ∧
    (∃ s, exec (sockEvent onePort) (semtechStart onePort false true)
      (.upTest :: .upInit true :: downEvents true ++ .upStore :: stopEvents) = some s ∧
      ¬ InOrder onePort s) ∧
    ∃ s, exec (sockEvent onePort) (semtechStart onePort true true)
      (.downLoop :: .downCloseDown :: stopEvents) = some s ∧ ¬ InOrder onePort s := by
  refine ⟨⟨_, rfl, fun h => ?_⟩, ⟨_, rfl, fun h => ?_⟩, ⟨_, rfl, fun h => ?_⟩⟩
  · rcases h.up rfl with hnone | ⟨i, hi, hentry⟩
    · cases hnone
    · obtain rfl := Option.some.inj hi
      revert hentry
      decide
  · exact absurd (h.closed rfl) (by decide)
  · exact absurd h.once (by decide)

end DraginoFwd.Service

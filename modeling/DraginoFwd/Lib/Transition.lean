import Mathlib.Logic.Basic

/-!
# Labelled transition systems

A system is a relation `step s e s'`: in state `s` the event `e` may lead to `s'`. `Reachable`
collects the states of all runs from an initial condition, `Run` keeps the events. An invariant is
proved once, for one step (`Reachable.invariant`, `Run.invariant`). `Guarded` restricts a system to
the steps that meet a condition. A system given by a function has its runs computed by `exec`.
-/

set_option autoImplicit false

namespace DraginoFwd.Lib.Transition

universe u v

variable {σ : Type u} {ε : Type v}

/-- States that some run from an initial state ends in. -/
inductive Reachable (init : σ → Prop) (step : σ → ε → σ → Prop) : σ → Prop where
  | start {s : σ} : init s → Reachable init step s
  | next {s t : σ} {e : ε} : Reachable init step s → step s e t → Reachable init step t

/-- A run with the events `es`, in order. -/
inductive Run (step : σ → ε → σ → Prop) : σ → List ε → σ → Prop where
  | nil (s : σ) : Run step s [] s
  | cons {s t u : σ} {e : ε} {es : List ε} : step s e t → Run step t es u → Run step s (e :: es) u

/-- The steps of a system whose state and event satisfy `ok`. -/
def Guarded (ok : σ → ε → Prop) (step : σ → ε → σ → Prop) (s : σ) (e : ε) (t : σ) : Prop :=
  ok s e ∧ step s e t

variable {init : σ → Prop} {step : σ → ε → σ → Prop}

/-- What holds initially and survives every step holds in every reachable state. -/
theorem Reachable.invariant {P : σ → Prop} (hinit : ∀ s, init s → P s)
    (hstep : ∀ s e t, P s → step s e t → P t) {s : σ} (h : Reachable init step s) : P s := by
  induction h with
  | start h0 => exact hinit _ h0
  | next _ hst ih => exact hstep _ _ _ ih hst

/-- What is reachable from one initial state is reachable. -/
theorem Reachable.of_init {s0 s : σ} (h0 : init s0) (h : Reachable (fun s => s = s0) step s) :
    Reachable init step s := by
  induction h with
  | start heq => exact Reachable.start (heq ▸ h0)
  | next _ hst ih => exact ih.next hst

/-- What survives every step survives a run. -/
theorem Run.invariant {P : σ → Prop} (hstep : ∀ s e t, P s → step s e t → P t) {s t : σ}
    {es : List ε} (h : Run step s es t) (hs : P s) : P t := by
  induction h with
  | nil => exact hs
  | cons hst _ ih => exact ih (hstep _ _ _ hs hst)

/-- A run from a reachable state ends in a reachable state. -/
theorem Reachable.run {s t : σ} {es : List ε} (hs : Reachable init step s)
    (h : Run step s es t) : Reachable init step t := by
  induction h with
  | nil => exact hs
  | cons hst _ ih => exact ih (hs.next hst)

/-- The states of the runs from one initial state. -/
theorem Run.reachable {s t : σ} {es : List ε} (h : Run step s es t) :
    Reachable (fun s0 => s0 = s) step t := by
  have hs : Reachable (fun s0 => s0 = s) step s := Reachable.start rfl
  exact hs.run h

/-- A run all of whose events meet a condition of their own is a run of the guarded system. -/
theorem Run.guarded (ok : σ → ε → Prop) {s t : σ} {es : List ε} (h : Run step s es t)
    (hok : ∀ s, ∀ e ∈ es, ok s e) : Run (Guarded ok step) s es t := by
  induction h with
  | nil s => exact Run.nil s
  | cons hst _ ih =>
    refine Run.cons ⟨hok _ _ List.mem_cons_self, hst⟩ (ih fun s e he => ?_)
    exact hok s e (List.mem_cons_of_mem _ he)

/-! ## Executable systems -/

/-- The state after the events `es`, where each of them can happen. -/
def exec (f : σ → ε → Option σ) (s : σ) : List ε → Option σ
  | [] => some s
  | e :: es =>
      match f s e with
      | some t => exec f t es
      | none => none

/-- The steps of an executable system. -/
def Steps (f : σ → ε → Option σ) (s : σ) (e : ε) (t : σ) : Prop := f s e = some t

theorem Run.of_exec {f : σ → ε → Option σ} {s t : σ} {es : List ε} (h : exec f s es = some t) :
    Run (Steps f) s es t := by
  induction es generalizing s with
  | nil =>
    cases h
    exact Run.nil _
  | cons e es ih =>
    rw [exec] at h
    split at h
    · next s' heq => exact Run.cons heq (ih h)
    · cases h

/-- The executable system whose steps meet a condition that can be decided. -/
def guardedBy (ok : σ → ε → Prop) [∀ s e, Decidable (ok s e)] (f : σ → ε → Option σ) (s : σ)
    (e : ε) : Option σ :=
  if ok s e then f s e else none

theorem Guarded.of_guardedBy {ok : σ → ε → Prop} [∀ s e, Decidable (ok s e)]
    {f : σ → ε → Option σ} {s t : σ} {e : ε} (h : guardedBy ok f s e = some t) :
    Guarded ok (Steps f) s e t := by
  rw [guardedBy] at h
  split at h
  · next hok => exact ⟨hok, h⟩
  · cases h

theorem Run.of_exec_guardedBy {ok : σ → ε → Prop} [∀ s e, Decidable (ok s e)]
    {f : σ → ε → Option σ} {s t : σ} {es : List ε} (h : exec (guardedBy ok f) s es = some t) :
    Run (Guarded ok (Steps f)) s es t := by
  have hrun := Run.of_exec h
  clear h
  induction hrun with
  | nil s => exact Run.nil s
  | cons hst _ ih => exact Run.cons (Guarded.of_guardedBy hst) ih

end DraginoFwd.Lib.Transition

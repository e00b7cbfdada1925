import Mathlib.Tactic

/-!
# Loops over results from outside

A loop that makes a call in every round, and whose round depends on the call's result: `step s r`
is the next state, or the value that the loop ends with. The results are an infinite sequence, and
the loop may use any number of them. `after` is the loop after `k` calls, `EndsAt` says that it ends
with the `k`-th. What a loop maintains holds at its end (`EndsAt.post`), and a loop that can always
go on never ends (`not_endsAt_of_forever`).
-/

set_option autoImplicit false

namespace DraginoFwd.Lib.ResultLoop

universe u v w

variable {σ : Type u} {ρ : Type v} {τ : Type w}

/-- The loop after `k` calls: a state, or the value it has ended with. -/
def after (step : σ → ρ → σ ⊕ τ) (results : Nat → ρ) (start : σ ⊕ τ) : Nat → σ ⊕ τ
  | 0 => start
  | k + 1 => (after step results start k).elim (fun s => step s (results k)) Sum.inr

variable {step : σ → ρ → σ ⊕ τ} {results : Nat → ρ} {start : σ ⊕ τ}

theorem after_succ_of_inl {k : Nat} {s : σ} (h : after step results start k = .inl s) :
    after step results start (k + 1) = step s (results k) := by
  rw [after, h]
  rfl

theorem after_succ_of_inr {k : Nat} {t : τ} (h : after step results start k = .inr t) :
    after step results start (k + 1) = .inr t := by
  rw [after, h]
  rfl

/-- An ended loop stays ended. -/
theorem after_of_le {j k : Nat} {t : τ} (h : after step results start j = .inr t) (hle : j ≤ k) :
    after step results start k = .inr t := by
  induction hle with
  | refl => exact h
  | step _ ih => exact after_succ_of_inr ih

/-- The loop ends with its `k`-th call, and with the value `t`. -/
def EndsAt (step : σ → ρ → σ ⊕ τ) (results : Nat → ρ) (start : σ ⊕ τ) (k : Nat) (t : τ) : Prop :=
  after step results start k = .inr t ∧ ∀ j, j < k → ∃ s, after step results start j = .inl s

/-- A running loop was running before. -/
theorem running_of_le {j k : Nat} {s : σ} (h : after step results start k = .inl s)
    (hle : j ≤ k) : ∃ s', after step results start j = .inl s' := by
  cases hj : after step results start j with
  | inl s' => exact ⟨s', rfl⟩
  | inr t =>
    rw [after_of_le hj hle] at h
    cases h

theorem endsAt_zero {t : τ} (h : start = .inr t) : EndsAt step results start 0 t :=
  ⟨h, fun _ hj => absurd hj (Nat.not_lt_zero _)⟩

/-- A running loop ends with the next call if the step does. -/
theorem endsAt_succ {k : Nat} {s : σ} {t : τ} (h : after step results start k = .inl s)
    (hstep : step s (results k) = .inr t) : EndsAt step results start (k + 1) t :=
  ⟨(after_succ_of_inl h).trans hstep, fun _ hj => running_of_le h (Nat.le_of_lt_succ hj)⟩

/-- A loop ends or is running at every call. -/
theorem endsAt_or_running (step : σ → ρ → σ ⊕ τ) (results : Nat → ρ) (start : σ ⊕ τ) :
    (∃ k t, EndsAt step results start k t) ∨ ∀ k, ∃ s, after step results start k = .inl s := by
  by_cases h : ∀ k, ∃ s, after step results start k = .inl s
  · exact Or.inr h
  · left
    push Not at h
    obtain ⟨k, hk⟩ := h
    induction k with
    | zero =>
      cases h0 : start with
      | inl s => exact absurd h0 (hk s)
      | inr t => exact ⟨0, t, endsAt_zero rfl⟩
    | succ k ih =>
      by_cases hrun : ∃ s, after step results start k = .inl s
      · obtain ⟨s, hs⟩ := hrun
        cases hnext : step s (results k) with
        | inl s' => exact absurd ((after_succ_of_inl hs).trans hnext) (hk s')
        | inr t => exact ⟨k + 1, t, endsAt_succ hs hnext⟩
      · exact ih fun s hs => hrun ⟨s, hs⟩

/-- What holds of the first state and survives every step that goes on. -/
theorem invariant {I : Nat → σ → Prop} (hstart : ∀ s, start = .inl s → I 0 s)
    (hstep : ∀ k s s', I k s → step s (results k) = .inl s' → I (k + 1) s') {k : Nat} {s : σ}
    (h : after step results start k = .inl s) : I k s := by
  induction k generalizing s with
  | zero => exact hstart s h
  | succ k ih =>
    obtain ⟨s', hs'⟩ := running_of_le h (Nat.le_succ k)
    rw [after_succ_of_inl hs'] at h
    exact hstep k s' s (ih hs') h

/-- What every last step makes of an invariant holds at the end. -/
theorem EndsAt.post {I : Nat → σ → Prop} {Q : Nat → τ → Prop}
    (hstart : ∀ s, start = .inl s → I 0 s) (hstart' : ∀ t, start = .inr t → Q 0 t)
    (hstep : ∀ k s s', I k s → step s (results k) = .inl s' → I (k + 1) s')
    (hlast : ∀ k s t, I k s → step s (results k) = .inr t → Q (k + 1) t) {k : Nat} {t : τ}
    (h : EndsAt step results start k t) : Q k t := by
  cases k with
  | zero => exact hstart' t h.1
  | succ k =>
    obtain ⟨s, hs⟩ := h.2 k (Nat.lt_succ_self k)
    have hend := h.1
    rw [after_succ_of_inl hs] at hend
    exact hlast k s t (invariant hstart hstep hs) hend

/-- A loop that can always go on never ends. -/
theorem not_endsAt_of_forever {I : Nat → σ → Prop} {s0 : σ} (hstart : start = .inl s0)
    (h0 : I 0 s0) (hstep : ∀ k s, I k s → ∃ s', step s (results k) = .inl s' ∧ I (k + 1) s')
    (k : Nat) (t : τ) : ¬ EndsAt step results start k t := by
  have hrun : ∀ j, ∃ s, after step results start j = .inl s ∧ I j s := by
    intro j
    induction j with
    | zero => exact ⟨s0, hstart, h0⟩
    | succ j ih =>
      obtain ⟨s, hs, hI⟩ := ih
      obtain ⟨s', hs', hI'⟩ := hstep j s hI
      exact ⟨s', (after_succ_of_inl hs).trans hs', hI'⟩
  intro hend
  obtain ⟨s, hs, -⟩ := hrun k
  rw [hend.1] at hs
  cases hs

end DraginoFwd.Lib.ResultLoop

import Mathlib.Logic.Function.Iterate

/-- The states a labelled transition system can get to from `initial`. -/
inductive Reachable {σ ε : Type*} (initial : σ) (step : σ → ε → σ → Prop) : σ → Prop
  | start : Reachable initial step initial
  | next {s t : σ} {e : ε} : Reachable initial step s → step s e t → Reachable initial step t

namespace Reachable

variable {σ ε : Type*} {initial : σ} {step : σ → ε → σ → Prop}

/-- What holds at the start and is kept by every step holds in every reachable state. -/
theorem invariant (inv : σ → Prop) (begins : inv initial) (keeps : ∀ s e t, inv s → step s e t → inv t)
    {s : σ} (reach : Reachable initial step s) : inv s := by
  induction reach with
  | start => exact begins
  | next _ taken ih => exact keeps _ _ _ ih taken

/-- Repeating one move stays among the reachable states. -/
theorem iterate {f : σ → σ} (moves : ∀ s, ∃ e, step s e (f s)) (n : Nat) {s : σ} (reach : Reachable initial step s) :
    Reachable initial step (f^[n] s) := by
  induction n generalizing s with
  | zero => exact reach
  | succ n ih =>
    obtain ⟨e, move⟩ := moves s
    exact ih (reach.next move)

end Reachable

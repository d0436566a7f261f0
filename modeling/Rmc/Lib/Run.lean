import Mathlib.Data.List.Induction
import Mathlib.Tactic.Common

/-!
# Runs of a partial step function

A run applies a step to one event after the other and fails with the first step that fails. What
holds of a finished run is proved with `run_invariant`: a property of the state and of the events
so far that holds at the start and that every step keeps.
-/

namespace Run

variable {S E : Type*} {step : S → E → Option S} {s s' : S} {es : List E}

/-- The state after the events. -/
def run (step : S → E → Option S) (s : S) (es : List E) : Option S := es.foldlM step s

@[simp] lemma run_nil : run step s [] = some s := rfl

lemma run_cons (e : E) : run step s (e :: es) = (step s e).bind fun s' => run step s' es := rfl

lemma run_append (es' : List E) :
    run step s (es ++ es') = (run step s es).bind fun s' => run step s' es' := by
  simp [run, List.foldlM_append]

lemma run_concat_eq_some {e : E} :
    run step s (es ++ [e]) = some s' ↔ ∃ s₁, run step s es = some s₁ ∧ step s₁ e = some s' := by
  rw [run_append, Option.bind_eq_some_iff]
  simp [run_cons]

/-- A property of the state and the events so far, kept by every step, holds after a run. -/
theorem run_invariant {inv : List E → S → Prop} (hinit : inv [] s)
    (hstep : ∀ {es s₁ e s₂}, run step s es = some s₁ → inv es s₁ → step s₁ e = some s₂ →
      inv (es ++ [e]) s₂)
    (h : run step s es = some s') : inv es s' := by
  induction es using List.reverseRecOn generalizing s' with
  | nil =>
    obtain rfl : s = s' := by simpa using h
    exact hinit
  | append_singleton es e ih =>
    obtain ⟨s₁, hrun, he⟩ := run_concat_eq_some.mp h
    exact hstep hrun (ih hrun) he

end Run

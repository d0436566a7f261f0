import Rmc.Lib.Run

/-!
# Simulation of a partial machine

An implementation and a specification answer the same events. A step that is `none` fails. The
implementation follows the specification along a list of events when it answers each event that
the specification accepts with the same output and the states stay related; what the
specification rejects ends the comparison.

`follows_iff_along` turns an exact condition for one step into an exact condition for whole runs.
-/

namespace Simulation

variable {S A E O : Type*} (impl : S → E → Option (O × S)) (spec : A → E → Option (O × A))
  (R : S → A → Prop)

/-- Along the events, outputs are the same and states stay related. -/
def Follows : S → A → List E → Prop
  | _, _, [] => True
  | s, a, e :: es => ∀ o a', spec a e = some (o, a') →
    ∃ s', impl s e = some (o, s') ∧ R s' a' ∧ Follows s' a' es

/-- A condition on the state of the implementation before each event that the specification
accepts. -/
def Along (cond : S → E → Prop) : S → A → List E → Prop
  | _, _, [] => True
  | s, a, e :: es => ∀ o a', spec a e = some (o, a') →
    cond s e ∧ ∀ s', impl s e = some (o, s') → Along cond s' a' es

/-- The condition is exactly what one step needs. -/
def StepIff (cond : S → E → Prop) : Prop :=
  ∀ {s a e o a'}, R s a → spec a e = some (o, a') →
    ((∃ s', impl s e = some (o, s') ∧ R s' a') ↔ cond s e)

variable {impl spec R} {cond : S → E → Prop} {s : S} {a : A}

/-- What one step needs is, at every step, what a run needs. -/
theorem follows_iff_along (hstep : StepIff impl spec R cond) (h : R s a) (es : List E) :
    Follows impl spec R s a es ↔ Along impl spec cond s a es := by
  induction es generalizing s a with
  | nil => exact Iff.rfl
  | cons e es ih =>
    rw [Follows, Along]
    refine forall_congr' fun o => forall_congr' fun a' => forall_congr' fun hspec => ?_
    constructor
    · rintro ⟨s', himpl, hR, hfollows⟩
      refine ⟨(hstep h hspec).mp ⟨s', himpl, hR⟩, fun s'' himpl' => ?_⟩
      cases himpl.symm.trans himpl'
      exact (ih hR).mp hfollows
    · rintro ⟨hcond, hrest⟩
      obtain ⟨s', himpl, hR⟩ := (hstep h hspec).mpr hcond
      exact ⟨s', himpl, hR, (ih hR).mpr (hrest s' himpl)⟩

/-- When the condition is about the event alone and nothing is rejected, it is a condition on the
list of events. -/
theorem follows_iff_forall_mem {cond : E → Prop} (hstep : StepIff impl spec R fun _ e => cond e)
    (htotal : ∀ a e, (spec a e).isSome) (h : R s a) (es : List E) :
    Follows impl spec R s a es ↔ ∀ e ∈ es, cond e := by
  induction es generalizing s a with
  | nil => simp [Follows]
  | cons e es ih =>
    obtain ⟨⟨o, a'⟩, hspec⟩ := Option.isSome_iff_exists.mp (htotal a e)
    rw [Follows, List.forall_mem_cons]
    constructor
    · intro hfollows
      obtain ⟨s', himpl, hR, hrest⟩ := hfollows o a' hspec
      exact ⟨(hstep h hspec).mp ⟨s', himpl, hR⟩, (ih hR).mp hrest⟩
    · rintro ⟨hcond, hrest⟩ o' a'' hspec'
      obtain ⟨s', himpl, hR⟩ := (hstep h hspec').mpr hcond
      exact ⟨s', himpl, hR, (ih hR).mpr hrest⟩

/-! ### The state after a run -/

open Run

/-- The step without its output. -/
def silence (step : S → E → Option (O × S)) (s : S) (e : E) : Option S := (step s e).map Prod.snd

/-- Where the implementation follows, it is in a related state at the end of the run. -/
theorem Follows.exists_run {a' : A} {es : List E} (hf : Follows impl spec R s a es) (h : R s a)
    (hspec : run (silence spec) a es = some a') :
    ∃ s', run (silence impl) s es = some s' ∧ R s' a' := by
  induction es generalizing s a with
  | nil =>
    obtain rfl := Option.some.inj hspec
    exact ⟨s, rfl, h⟩
  | cons e es ih =>
    rw [run_cons, Option.bind_eq_some_iff] at hspec
    obtain ⟨a₁, hstep, hspec⟩ := hspec
    obtain ⟨⟨o, _⟩, ho, rfl⟩ := Option.map_eq_some_iff.mp hstep
    obtain ⟨s₁, himpl, hR, hf⟩ := hf o _ ho
    obtain ⟨s', hrun, hR'⟩ := ih hf hR hspec
    exact ⟨s', by rw [run_cons, silence, himpl]; exact hrun, hR'⟩

end Simulation

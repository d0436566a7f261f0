import Mathlib.Tactic.Common

/-!
# Stateful computations that may fail

An effect says in which states a run may be while a list of events is still to come. A computation
yields a value with a list of events when it returns that value from every state in which these
events come next, and leaves a state in which the events after them do. What a sequence of
computations yields follows from what each of them yields.

The events are known before the run, so what a value depends on may be read off the whole list:
from the state that all of the events lead to, say.
-/

/-- The states of a run, by the events that are to come. -/
structure Effect (σ ε : Type*) where
  Inv : List ε → σ → Prop

namespace Effect

variable {σ α β : Type} {ε : Type*} (E : Effect σ ε)

/-- The computation returns `a`, with the events `l`. -/
def Yields (m : StateT σ Option α) (a : α) (l : List ε) : Prop :=
  ∀ r s, E.Inv (l ++ r) s → ∃ s', m.run s = some (a, s') ∧ E.Inv r s'

variable {E} {m : StateT σ Option α} {a : α} {l l' : List ε} {b : β} {f : α → StateT σ Option β}

lemma Yields.pure : E.Yields (Pure.pure a) a [] :=
  fun _ s hs => ⟨s, rfl, hs⟩

lemma Yields.of_option {o : Option α} (h : o = some a) : E.Yields (liftM o) a [] := by
  intro r s hs
  refine ⟨s, ?_, hs⟩
  subst h
  rfl

lemma Yields.bind (h : E.Yields m a l) (h' : E.Yields (f a) b l') :
    E.Yields (m >>= f) b (l ++ l') := by
  intro r s hs
  rw [List.append_assoc] at hs
  obtain ⟨s₁, hrun, hs₁⟩ := h _ s hs
  obtain ⟨s₂, hrun', hs₂⟩ := h' r s₁ hs₁
  refine ⟨s₂, ?_, hs₂⟩
  rw [StateT.run_bind, hrun]
  exact hrun'

lemma Yields.map {f : α → β} (h : E.Yields m a l) :
    E.Yields (m >>= fun a => Pure.pure (f a)) (f a) l := by
  have hbind : E.Yields (m >>= fun a => Pure.pure (f a)) (f a) (l ++ []) := h.bind .pure
  rwa [List.append_nil] at hbind

/-- The second computation need not have events. -/
lemma Yields.bind_nil (h : E.Yields m a l) (h' : E.Yields (f a) b []) : E.Yields (m >>= f) b l := by
  have hbind := h.bind h'
  rwa [List.append_nil] at hbind

end Effect

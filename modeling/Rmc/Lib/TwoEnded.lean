import Mathlib.Tactic.Common

/-!
# Taking elements from both ends

A list is used up from its two ends, in any order. What has been taken at the front, what is left
and, in reverse, what has been taken at the back make up the list at all times, so that each element
is taken once; and once nothing is left nothing is taken any more.
-/

namespace TwoEnded

variable {α : Type*} {a : List α}

inductive Side where
  | front
  | back
  deriving DecidableEq, Repr

/-- The element at a side, if there is one, and what is left. -/
def take (a : List α) : Side → Option α × List α
  | .front => (a.head?, a.tail)
  | .back => (a.getLast?, a.dropLast)

/-- What is taken at the sides of a list one after the other. -/
def takes (a : List α) : List Side → List (Option α)
  | [] => []
  | side :: sides => (take a side).1 :: takes (take a side).2 sides

/-- The results of the takes at one side. -/
def takenAt (side : Side) : List Side → List (Option α) → List α
  | s :: sides, r :: results =>
    (if s = side then r.toList else []) ++ takenAt side sides results
  | _, _ => []

/-- The results of takes use up a list from its ends: each take returns an element as long as there
is one, and what was taken at the front, what is left and what was taken at the back make the
list. -/
structure Exact (a : List α) (sides : List Side) (results : List (Option α)) : Prop where
  length : results.length = sides.length
  parts : ∃ left,
    a = takenAt .front sides results ++ left ++ (takenAt .back sides results).reverse ∧
    left.length = a.length - sides.length
  ends : ∀ i r, results[i]? = some r → (r = none ↔ a.length ≤ i)

lemma length_take_snd (a : List α) (side : Side) : (take a side).2.length = a.length - 1 := by
  cases side <;> simp [take]

lemma take_fst_eq_none {side : Side} : (take a side).1 = none ↔ a = [] := by
  cases side <;> simp [take]

lemma length_takes (a : List α) (sides : List Side) : (takes a sides).length = sides.length := by
  induction sides generalizing a with
  | nil => rfl
  | cons side sides ih => simp [takes, ih]

/-- Something is taken as long as there is something left. -/
lemma takes_eq_none_iff {sides : List Side} {i : ℕ} {r : Option α}
    (h : (takes a sides)[i]? = some r) :
    r = none ↔ a.length ≤ i := by
  induction sides generalizing a i with
  | nil => simp [takes] at h
  | cons side sides ih =>
    cases i with
    | zero =>
      obtain rfl : (take a side).1 = r := by simpa [takes] using h
      rw [take_fst_eq_none, Nat.le_zero, List.length_eq_zero_iff]
    | succ i =>
      rw [takes, List.getElem?_cons_succ] at h
      rw [ih h, length_take_snd]
      omega

/-- What is taken and what is left are the list. -/
lemma exists_parts (a : List α) (sides : List Side) :
    ∃ left, a = takenAt .front sides (takes a sides) ++ left ++
        (takenAt .back sides (takes a sides)).reverse ∧ left.length = a.length - sides.length := by
  induction sides generalizing a with
  | nil => exact ⟨a, by simp [takenAt], rfl⟩
  | cons side sides ih =>
    obtain ⟨left, hparts, hlength⟩ := ih (take a side).2
    refine ⟨left, ?_, ?_⟩
    · cases side with
      | front =>
        cases a with
        | nil => simpa [takes, takenAt, take] using hparts
        | cons x a => simpa [takes, takenAt, take] using hparts
      | back =>
        rcases List.eq_nil_or_concat a with rfl | ⟨a, x, rfl⟩
        · simpa [takes, takenAt, take] using hparts
        · rw [List.concat_eq_append] at hparts ⊢
          have hback : take (a ++ [x]) .back = (some x, a) := by simp [take]
          rw [hback] at hparts
          dsimp only at hparts
          simp only [takes, hback, takenAt]
          nth_rewrite 1 [hparts]
          simp
    · rw [hlength, length_take_snd, List.length_cons]
      omega

theorem exact_takes (a : List α) (sides : List Side) : Exact a sides (takes a sides) :=
  ⟨length_takes a sides, exists_parts a sides, fun _ _ => takes_eq_none_iff⟩

end TwoEnded

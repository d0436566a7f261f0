import Mathlib.Algebra.GroupWithZero.Nat
import Mathlib.Tactic.Common

/-!
# Items laid out one behind the other

A list of items with sizes, laid out without gaps. `place` gives each item its position, `start` is
the position by the index of the item. Items may be empty; still every position below the total
size lies in exactly one item.
-/

namespace Tiling

variable {α : Type*} (size : α → ℕ)

/-- The items with their positions, the first at `o`. -/
def place : ℕ → List α → List (ℕ × α)
  | _, [] => []
  | o, a :: items => (o, a) :: place (o + size a) items

/-- The size of all the items. -/
def total (items : List α) : ℕ := (items.map size).sum

/-- The position of the item with that index, when the first is at zero. -/
def start (items : List α) (i : ℕ) : ℕ := total size (items.take i)

@[simp] lemma total_nil : total size [] = 0 := rfl

@[simp] lemma total_cons (a : α) (items : List α) :
    total size (a :: items) = size a + total size items := by
  simp [total]

@[simp] lemma total_append (items items' : List α) :
    total size (items ++ items') = total size items + total size items' := by
  simp [total]

@[simp] lemma start_zero (items : List α) : start size items 0 = 0 := by
  simp [start]

@[simp] lemma start_cons_succ (a : α) (items : List α) (i : ℕ) :
    start size (a :: items) (i + 1) = size a + start size items i := by
  simp [start]

lemma getElem?_place (o : ℕ) (items : List α) (i : ℕ) :
    (place size o items)[i]? = items[i]?.map fun a => (o + start size items i, a) := by
  induction items generalizing o i with
  | nil => simp [place]
  | cons a items ih =>
    cases i with
    | zero => simp [place]
    | succ i => simp [place, ih, Nat.add_assoc]

variable {size} {i : ℕ} {items : List α}

lemma start_le_start {j : ℕ} (h : i ≤ j) : start size items i ≤ start size items j := by
  obtain ⟨k, rfl⟩ := Nat.exists_eq_add_of_le h
  rw [start, start, List.take_add, total_append]
  exact Nat.le_add_right _ _

/-- Every position is in exactly one item. -/
lemma existsUnique_index {b : ℕ} (h : b < total size items) :
    ∃! i, i < items.length ∧ start size items i ≤ b ∧ b < start size items (i + 1) := by
  have hex : ∃ i < items.length, start size items i ≤ b ∧ b < start size items (i + 1) := by
    induction items generalizing b with
    | nil => simp at h
    | cons a items ih =>
      by_cases hb : b < size a
      · exact ⟨0, by simp, by simp, by simpa [start] using hb⟩
      · rw [total_cons] at h
        obtain ⟨i, hi, hle, hlt⟩ := @ih (b - size a) (by omega)
        refine ⟨i + 1, by simpa using hi, ?_, ?_⟩ <;> rw [start_cons_succ] <;> omega
  obtain ⟨i, hi, hle, hlt⟩ := hex
  refine ⟨i, ⟨hi, hle, hlt⟩, ?_⟩
  rintro j ⟨-, hle', hlt'⟩
  -- of two different items one ends before the other starts
  rcases Nat.lt_trichotomy j i with hji | rfl | hij
  · have hend : start size items (j + 1) ≤ start size items i := start_le_start hji
    omega
  · rfl
  · have hend : start size items (i + 1) ≤ start size items j := start_le_start hij
    omega

end Tiling

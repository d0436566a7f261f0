import Mathlib.Data.Finset.Card
import Mathlib.Tactic.Common

/-!
# The first unused candidate

Candidates are numbered, and tried one after the other until one is not in use. When candidates of
different numbers differ, a search ends after at most one try more than there are used names.
-/

namespace FreshName

variable {α : Type*} [DecidableEq α] {used : Finset α} {candidate : ℕ → α} {fuel n : ℕ} {a : α}

/-- Try the candidates from number `n` on, at most `fuel` of them. -/
def search (used : Finset α) (candidate : ℕ → α) : ℕ → ℕ → Option α
  | 0, _ => none
  | fuel + 1, n =>
    if candidate n ∈ used then search used candidate fuel (n + 1) else some (candidate n)

lemma search_eq_some (h : search used candidate fuel n = some a) :
    ∃ k, n ≤ k ∧ candidate k = a ∧ a ∉ used ∧ ∀ j, n ≤ j → j < k → candidate j ∈ used := by
  induction fuel generalizing n with
  | zero => simp [search] at h
  | succ fuel ih =>
    rw [search] at h
    split_ifs at h with hused
    · obtain ⟨k, hk, hcand, hunused, hfirst⟩ := ih h
      refine ⟨k, by omega, hcand, hunused, fun j hj hlt => ?_⟩
      rcases Nat.eq_or_lt_of_le hj with rfl | hj
      · exact hused
      · exact hfirst j hj hlt
    · cases h
      exact ⟨n, Nat.le_refl n, rfl, hused, fun j hj hlt => absurd hj (by omega)⟩

/-- A search fails exactly when every candidate it tries is used. -/
lemma search_eq_none_iff :
    search used candidate fuel n = none ↔ ∀ j < fuel, candidate (n + j) ∈ used := by
  induction fuel generalizing n with
  | zero => simp [search]
  | succ fuel ih =>
    rw [search, Nat.forall_lt_succ_left]
    split_ifs with hused
    · simp only [ih, Nat.add_zero, hused, true_and, Nat.add_assoc, Nat.add_comm 1]
    · simp [hused]

/-- With one try more than there are used names, a search ends. -/
theorem exists_search (hinj : Function.Injective candidate) (hfuel : used.card < fuel) (n : ℕ) :
    ∃ a, search used candidate fuel n = some a := by
  rw [← Option.ne_none_iff_exists']
  intro hnone
  have hsub : (Finset.range fuel).image (fun j => candidate (n + j)) ⊆ used := by
    intro a ha
    obtain ⟨j, hj, rfl⟩ := Finset.mem_image.1 ha
    exact search_eq_none_iff.mp hnone j (Finset.mem_range.1 hj)
  have hinj' : Function.Injective fun j => candidate (n + j) :=
    fun _ _ h => Nat.add_left_cancel (hinj h)
  have hcard := Finset.card_le_card hsub
  rw [Finset.card_image_of_injective _ hinj', Finset.card_range] at hcard
  omega

end FreshName

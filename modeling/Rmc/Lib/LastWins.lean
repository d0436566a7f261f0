import Mathlib.Data.List.AList
import Mathlib.Data.List.Induction
import Mathlib.Tactic.Common

/-!
# Maps filled by repeated insertion

Inserting the elements of a list into a map, each at its key `f x`, leaves at every key the value
of the last element that has this key.
-/

namespace LastWins

variable {α K V : Type*} {x : α} {l : List α}

/-- The element is the last one of the list that has its key. -/
def IsLast (f : α → K) (l : List α) (x : α) : Prop :=
  ∃ pre post, l = pre ++ x :: post ∧ ∀ y ∈ post, f y ≠ f x

lemma IsLast.mem {f : α → K} (h : IsLast f l x) : x ∈ l := by
  obtain ⟨pre, post, rfl, -⟩ := h
  simp

lemma isLast_nil {f : α → K} : ¬ IsLast f [] x := by
  intro h
  exact List.not_mem_nil h.mem

/-- An element added at the end is the last one of its key. -/
lemma isLast_concat_iff {f : α → K} {a : α} :
    IsLast f (l ++ [a]) x ↔ x = a ∨ (IsLast f l x ∧ f x ≠ f a) := by
  constructor
  · rintro ⟨pre, post, heq, hpost⟩
    obtain rfl | ⟨post, b, rfl⟩ := List.eq_nil_or_concat post
    · exact .inl (List.append_inj' heq rfl |>.2 |> List.head_eq_of_cons_eq).symm
    · rw [List.concat_eq_append] at heq hpost
      rw [← List.cons_append, ← List.append_assoc] at heq
      obtain ⟨rfl, hab⟩ := List.append_inj' heq rfl
      obtain rfl := List.head_eq_of_cons_eq hab
      refine .inr ⟨⟨pre, post, rfl, fun y hy => hpost y (List.mem_append_left _ hy)⟩, ?_⟩
      exact (hpost a (List.mem_append_right _ List.mem_cons_self)).symm
  · rintro (rfl | ⟨⟨pre, post, rfl, hpost⟩, hne⟩)
    · exact ⟨l, [], rfl, by simp⟩
    · refine ⟨pre, post ++ [a], by simp, fun y hy => ?_⟩
      rcases List.mem_append.1 hy with hy | hy
      · exact hpost y hy
      · rw [List.mem_singleton.1 hy]
        exact hne.symm

/-- Where a key occurs, it occurs last somewhere. -/
lemma exists_isLast {f : α → K} {k : K} (h : ∃ y ∈ l, f y = k) : ∃ x, IsLast f l x ∧ f x = k := by
  induction l using List.reverseRecOn with
  | nil => simp at h
  | append_singleton l a ih =>
    by_cases ha : f a = k
    · exact ⟨a, isLast_concat_iff.mpr (.inl rfl), ha⟩
    obtain ⟨y, hy, hk⟩ := h
    have hyl : y ∈ l := by
      rcases List.mem_append.1 hy with hy | hy
      · exact hy
      · rw [List.mem_singleton.1 hy] at hk
        exact absurd hk ha
    obtain ⟨x, hlast, hx⟩ := ih ⟨y, hyl, hk⟩
    refine ⟨x, isLast_concat_iff.mpr (.inr ⟨hlast, ?_⟩), hx⟩
    rw [hx]
    exact Ne.symm ha

variable [DecidableEq K] {f : α → K} {g : α → V}

/-- Insert the elements of a list, the element `x` at the key `f x`. -/
def insertAll (f : α → K) (g : α → V) (l : List α) (m : AList fun _ : K => V) :
    AList fun _ : K => V :=
  l.foldl (fun m x => m.insert (f x) (g x)) m

lemma lookup_insertAll_of_forall_ne {k : K} (h : ∀ y ∈ l, f y ≠ k) (m : AList fun _ : K => V) :
    (insertAll f g l m).lookup k = m.lookup k := by
  induction l generalizing m with
  | nil => rfl
  | cons a l ih =>
    rw [List.forall_mem_cons] at h
    show (insertAll f g l _).lookup k = _
    rw [ih h.2, AList.lookup_insert_ne h.1.symm]

lemma lookup_insertAll_of_isLast (h : IsLast f l x) (m : AList fun _ : K => V) :
    (insertAll f g l m).lookup (f x) = some (g x) := by
  obtain ⟨pre, post, rfl, hpost⟩ := h
  simp only [insertAll, List.foldl_append, List.foldl_cons]
  exact (lookup_insertAll_of_forall_ne hpost _).trans (AList.lookup_insert _)

end LastWins

import Mathlib.Data.List.Forall2

/-!
# Checked computations

A computation that may fail succeeds when each of its steps does. A map over a list whose function
may fail succeeds when the function does so on each element, and the results are those of the
elements, in order.
-/

universe u

section Steps

variable {α β : Type u}

/-- Two steps succeed when one does after the other. -/
lemma bind_eq_some {x : Option α} {f : α → Option β} {b : β} :
    (x >>= f) = some b ↔ ∃ a, x = some a ∧ f a = some b :=
  Option.bind_eq_some_iff

/-- A step that has succeeded hands its result on. -/
lemma some_bind (a : α) (f : α → Option β) : (some a >>= f) = f a :=
  rfl

lemma pure_eq_some {a b : α} : (pure a : Option α) = some b ↔ a = b :=
  Option.some_inj

end Steps

namespace Checked

variable {α β : Type*} {f : α → Option β} {l : List α} {l' : List β} {R S : α → β → Prop}

lemma mapM_eq_some_iff : l.mapM f = some l' ↔ List.Forall₂ (fun a b => f a = some b) l l' := by
  induction l generalizing l' with
  | nil => simp [eq_comm]
  | cons a l ih =>
    simp only [List.mapM_cons, Option.bind_eq_bind, Option.bind_eq_some_iff, Option.pure_def,
      Option.some.injEq, List.forall₂_cons_left_iff]
    constructor
    · rintro ⟨b, hb, l'', hl'', rfl⟩
      exact ⟨b, l'', hb, ih.mp hl'', rfl⟩
    · rintro ⟨b, l'', hb, hl'', rfl⟩
      exact ⟨b, hb, l'', ih.mpr hl'', rfl⟩

/-- An element of the second list is the partner of one of the first. -/
lemma exists_of_mem_forall₂ (h : List.Forall₂ R l l') {b : β} (hb : b ∈ l') : ∃ a ∈ l, R a b := by
  induction h with
  | nil => simp at hb
  | cons hab _ ih =>
    rcases List.mem_cons.mp hb with rfl | hb
    · exact ⟨_, List.mem_cons_self, hab⟩
    · obtain ⟨a, ha, hRa⟩ := ih hb
      exact ⟨a, List.mem_cons_of_mem _ ha, hRa⟩

lemma exists_of_mem_mapM (h : l.mapM f = some l') {b : β} (hb : b ∈ l') :
    ∃ a ∈ l, f a = some b :=
  exists_of_mem_forall₂ (mapM_eq_some_iff.mp h) hb

/-- A list of partners, where every element has one. -/
lemma exists_forall₂ (h : ∀ a ∈ l, ∃ b, R a b) : ∃ l', List.Forall₂ R l l' := by
  induction l with
  | nil => exact ⟨[], .nil⟩
  | cons a l ih =>
    rw [List.forall_mem_cons] at h
    obtain ⟨⟨b, hb⟩, hrest⟩ := h
    obtain ⟨l', hl'⟩ := ih hrest
    exact ⟨b :: l', .cons hb hl'⟩

lemma exists_getElem?_of_forall₂ (h : List.Forall₂ R l l') {k : ℕ} {a : α}
    (hk : l[k]? = some a) : ∃ b, l'[k]? = some b ∧ R a b := by
  induction h generalizing k with
  | nil => simp at hk
  | cons hab _ ih =>
    cases k with
    | zero =>
      simp only [List.getElem?_cons_zero, Option.some.injEq] at hk
      subst hk
      exact ⟨_, rfl, hab⟩
    | succ k => exact ih hk

/-- Relations that agree on the elements of a list pair it with the same lists. -/
lemma forall₂_congr_of_mem (h : ∀ a ∈ l, ∀ b, R a b ↔ S a b) :
    List.Forall₂ R l l' ↔ List.Forall₂ S l l' := by
  induction l generalizing l' with
  | nil => simp
  | cons a l ih =>
    rw [List.forall_mem_cons] at h
    simp only [List.forall₂_cons_left_iff, h.1, ih h.2]

end Checked

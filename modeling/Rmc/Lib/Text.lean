import Mathlib.Data.List.Basic
import Mathlib.Data.Nat.Notation
import Mathlib.Tactic.Common

/-!
# Searching and replacing in lists

Occurrences of a pattern are found from left to right and do not overlap. Both functions walk the
list once: after an occurrence, the elements that belong to it are skipped.
-/

namespace Text

variable {α : Type*} [DecidableEq α] {pat new l r q : List α} {a p : α} {skip : ℕ}
  {qs : List (List α)}

/-- The pieces between the occurrences of a pattern, when `skip` elements are still to be passed. -/
def splitFrom (pat : List α) : ℕ → List α → List (List α)
  | _, [] => [[]]
  | skip + 1, _ :: l => splitFrom pat skip l
  | 0, a :: l =>
    if pat.isPrefixOf (a :: l) then [] :: splitFrom pat (pat.length - 1) l
    else (splitFrom pat 0 l).modifyHead (a :: ·)

/-- The pieces between the occurrences of a pattern. -/
def split (pat l : List α) : List (List α) := splitFrom pat 0 l

/-- The list with the occurrences replaced, when `skip` elements are still to be passed. -/
def replaceFrom (pat new : List α) : ℕ → List α → List α
  | _, [] => []
  | skip + 1, _ :: l => replaceFrom pat new skip l
  | 0, a :: l =>
    if pat.isPrefixOf (a :: l) then new ++ replaceFrom pat new (pat.length - 1) l
    else a :: replaceFrom pat new 0 l

/-- The list with the occurrences of a pattern replaced. -/
def replace (pat new l : List α) : List α := replaceFrom pat new 0 l

/-- An occurrence is followed by what is left after skipping its other elements. -/
lemma eq_append_drop_of_isPrefixOf (h : (p :: pat).isPrefixOf (a :: l) = true) :
    a :: l = p :: pat ++ l.drop ((p :: pat).length - 1) :=
  List.prefix_iff_eq_append.1 (List.isPrefixOf_iff_prefix.1 h) |>.symm

/-! ### Pieces -/

lemma splitFrom_ne_nil : splitFrom pat skip l ≠ [] := by
  induction l generalizing skip with
  | nil => simp [splitFrom]
  | cons a l ih =>
    cases skip with
    | succ skip => exact ih
    | zero =>
      rw [splitFrom]
      split_ifs
      · simp
      · obtain ⟨q, qs, hs⟩ := List.exists_cons_of_ne_nil (@ih 0)
        simp [hs]

omit [DecidableEq α] in
lemma intercalate_modifyHead :
    pat.intercalate ((q :: qs).modifyHead (a :: ·)) = a :: pat.intercalate (q :: qs) := by
  cases qs with
  | nil => simp
  | cons q' qs =>
    rw [List.modifyHead_cons, List.intercalate_cons_of_ne_nil (List.cons_ne_nil _ _),
      List.intercalate_cons_of_ne_nil (List.cons_ne_nil _ _), List.cons_append, List.cons_append]

lemma intercalate_splitFrom :
    (p :: pat).intercalate (splitFrom (p :: pat) skip l) = l.drop skip := by
  induction l generalizing skip with
  | nil => simp [splitFrom]
  | cons a l ih =>
    cases skip with
    | succ skip => exact ih
    | zero =>
      rw [splitFrom, List.drop_zero]
      split_ifs with hpre
      · rw [List.intercalate_cons_of_ne_nil splitFrom_ne_nil, ih, List.nil_append]
        exact (eq_append_drop_of_isPrefixOf hpre).symm
      · obtain ⟨q, qs, hs⟩ := List.exists_cons_of_ne_nil (@splitFrom_ne_nil _ _ (p :: pat) l 0)
        have hl := @ih 0
        rw [hs] at hl ⊢
        rw [intercalate_modifyHead, hl, List.drop_zero]

lemma intercalate_split : (p :: pat).intercalate (split (p :: pat) l) = l :=
  intercalate_splitFrom

lemma splitFrom_append (hskip : l.length = skip) :
    splitFrom pat skip (l ++ r) = splitFrom pat 0 r := by
  induction l generalizing skip with
  | nil =>
    subst hskip
    rfl
  | cons a l ih =>
    subst hskip
    exact ih rfl

/-- What does not start an occurrence belongs to the first piece. -/
lemma split_append (h : ∀ a ∈ l, a ≠ p) :
    split (p :: pat) (l ++ r) = (split (p :: pat) r).modifyHead (l ++ ·) := by
  induction l with
  | nil => cases hr : split (p :: pat) r <;> simp [hr]
  | cons a l ih =>
    obtain ⟨ha, hl⟩ := List.forall_mem_cons.1 h
    have hpre : (p :: pat).isPrefixOf (a :: (l ++ r)) = false := by
      simp [List.isPrefixOf, ha.symm]
    rw [split, List.cons_append, splitFrom, hpre, ← split, ih hl]
    cases split (p :: pat) r <;> simp

lemma split_of_forall_ne (h : ∀ a ∈ l, a ≠ p) : split (p :: pat) l = [l] := by
  rw [← List.append_nil l, split_append h]
  simp [split, splitFrom]

lemma split_of_not_isInfix (h : ¬ (p :: pat) <:+: l) : split (p :: pat) l = [l] := by
  induction l with
  | nil => rfl
  | cons a l ih =>
    have hstart : ¬ (p :: pat).isPrefixOf (a :: l) = true := fun hpre =>
      h (List.isPrefixOf_iff_prefix.mp hpre).isInfix
    have hrest : split (p :: pat) l = [l] :=
      ih fun hsub => h (hsub.trans (List.suffix_cons a l).isInfix)
    rw [split, splitFrom, if_neg hstart]
    exact congrArg (List.modifyHead (a :: ·)) hrest

/-- The pattern ends a piece. -/
lemma split_pattern_append : split (p :: pat) (p :: pat ++ r) = [] :: split (p :: pat) r := by
  have hpre : (p :: pat).isPrefixOf (p :: pat ++ r) = true := by simp
  rw [split, List.cons_append, splitFrom, ← List.cons_append, if_pos hpre]
  exact congrArg _ (splitFrom_append rfl)

/-- Two pieces without the first element of the pattern. -/
lemma split_append_pattern_append (hl : ∀ a ∈ l, a ≠ p) (hr : ∀ a ∈ r, a ≠ p) :
    split (p :: pat) (l ++ (p :: pat ++ r)) = [l, r] := by
  rw [split_append hl, split_pattern_append, split_of_forall_ne hr]
  simp

lemma length_split_append (h : ∀ a ∈ l, a ≠ p) :
    (split (p :: pat) (l ++ r)).length = (split (p :: pat) r).length := by
  rw [split_append h, List.length_modifyHead]

/-! ### Replacements -/

lemma mem_of_mem_replaceFrom (h : a ∈ replaceFrom pat new skip l) : a ∈ new ∨ a ∈ l := by
  induction l generalizing skip with
  | nil => simp [replaceFrom] at h
  | cons b l ih =>
    cases skip with
    | succ skip => exact (ih h).imp_right (List.mem_cons_of_mem _)
    | zero =>
      rw [replaceFrom] at h
      split_ifs at h
      · rcases List.mem_append.1 h with h | h
        · exact .inl h
        · exact (ih h).imp_right (List.mem_cons_of_mem _)
      · rcases List.mem_cons.1 h with rfl | h
        · exact .inr List.mem_cons_self
        · exact (ih h).imp_right (List.mem_cons_of_mem _)

lemma mem_of_mem_replace (h : a ∈ replace pat new l) : a ∈ new ∨ a ∈ l := mem_of_mem_replaceFrom h

lemma mem_replaceFrom (hpat : a ∉ p :: pat) (ha : a ∈ l.drop skip) :
    a ∈ replaceFrom (p :: pat) new skip l := by
  induction l generalizing skip with
  | nil => simp at ha
  | cons b l ih =>
    cases skip with
    | succ skip => exact ih ha
    | zero =>
      rw [replaceFrom]
      split_ifs with hpre
      · rw [List.drop_zero, eq_append_drop_of_isPrefixOf hpre, List.mem_append] at ha
        exact List.mem_append_right _ (ih (ha.resolve_left hpat))
      · rcases List.mem_cons.1 ha with rfl | ha
        · exact List.mem_cons_self
        · exact List.mem_cons_of_mem _ (ih ha)

lemma mem_replace (hne : pat ≠ []) (hpat : a ∉ pat) (ha : a ∈ l) : a ∈ replace pat new l := by
  obtain ⟨p, pat, rfl⟩ := List.exists_cons_of_ne_nil hne
  exact mem_replaceFrom hpat ha

/-- The first element is the one of the list or of the replacement. -/
lemma head?_replace (hnew : new ≠ []) : (replace pat new l).head? = l.head? ∨
    l ≠ [] ∧ (replace pat new l).head? = new.head? := by
  cases l with
  | nil => exact .inl rfl
  | cons a l =>
    rw [replace, replaceFrom]
    split_ifs
    · exact .inr ⟨by simp, List.head?_append_of_ne_nil _ hnew⟩
    · exact .inl rfl

lemma replace_eq_nil_iff (hnew : new ≠ []) : replace pat new l = [] ↔ l = [] := by
  constructor
  · intro hnil
    rcases @head?_replace _ _ pat _ l hnew with heq | ⟨-, heq⟩
    · rw [hnil] at heq
      exact List.head?_eq_none_iff.1 heq.symm
    · rw [hnil] at heq
      exact absurd (List.head?_eq_none_iff.1 heq.symm) hnew
  · rintro rfl
    rfl

end Text

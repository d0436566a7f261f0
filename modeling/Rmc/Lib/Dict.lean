import Rmc.Lib.LastWins

/-!
# Dictionaries in insertion order

A dictionary as the list of its entries. A key that is new is added at the end, a key that is there
keeps its place and gets the new value. After a series of assignments the entries are the last
assignments to every key.
-/

namespace Dict

open LastWins

variable {K V : Type*} [DecidableEq K] {k : K} {v : V} {d : List (K × V)} {x : K × V}

def set (k : K) (v : V) : List (K × V) → List (K × V)
  | [] => [(k, v)]
  | (k', v') :: d => if k' = k then (k', v) :: d else (k', v') :: set k v d

/-- The assignments of a list, one after the other. -/
def update (d e : List (K × V)) : List (K × V) := e.foldl (fun d x => set x.1 x.2 d) d

@[simp]
lemma update_nil (d : List (K × V)) : update d [] = d := rfl

lemma update_append (d e e' : List (K × V)) : update d (e ++ e') = update (update d e) e' :=
  List.foldl_append

lemma mem_keys_set {k' : K} : k' ∈ (set k v d).map Prod.fst ↔ k' = k ∨ k' ∈ d.map Prod.fst := by
  induction d with
  | nil => simp [set]
  | cons x d ih =>
    obtain ⟨l, w⟩ := x
    by_cases hl : l = k
    · subst hl
      simp [set]
    · rw [set, if_neg hl, List.map_cons, List.mem_cons, ih, List.map_cons, List.mem_cons]
      exact or_left_comm

lemma nodup_keys_set (h : (d.map Prod.fst).Nodup) : ((set k v d).map Prod.fst).Nodup := by
  induction d with
  | nil => simp [set]
  | cons x d ih =>
    obtain ⟨l, w⟩ := x
    rw [List.map_cons, List.nodup_cons] at h
    by_cases hl : l = k
    · rw [set, if_pos hl, List.map_cons, List.nodup_cons]
      exact h
    · rw [set, if_neg hl, List.map_cons, List.nodup_cons]
      refine ⟨fun hmem => ?_, ih h.2⟩
      exact (mem_keys_set.mp hmem).elim hl h.1

lemma mem_set_iff (h : (d.map Prod.fst).Nodup) :
    x ∈ set k v d ↔ x = (k, v) ∨ (x ∈ d ∧ x.1 ≠ k) := by
  induction d with
  | nil => simp [set]
  | cons y d ih =>
    obtain ⟨l, w⟩ := y
    rw [List.map_cons, List.nodup_cons] at h
    by_cases hl : l = k
    · subst hl
      -- no other entry has the key
      have hother : x ∈ d → x.1 ≠ l := by
        rintro hx rfl
        exact h.1 (List.mem_map.mpr ⟨x, hx, rfl⟩)
      rw [set, if_pos rfl, List.mem_cons, List.mem_cons]
      constructor
      · rintro (hx | hx)
        · exact .inl hx
        · exact .inr ⟨.inr hx, hother hx⟩
      · rintro (hx | ⟨rfl | hx, hne⟩)
        · exact .inl hx
        · exact absurd rfl hne
        · exact .inr hx
    · rw [set, if_neg hl, List.mem_cons, ih h.2, List.mem_cons]
      constructor
      · rintro (rfl | hx | ⟨hx, hne⟩)
        · exact .inr ⟨.inl rfl, hl⟩
        · exact .inl hx
        · exact .inr ⟨.inr hx, hne⟩
      · rintro (hx | ⟨hx | hx, hne⟩)
        · exact .inr (.inl hx)
        · exact .inl hx
        · exact .inr (.inr ⟨hx, hne⟩)

lemma nodup_keys_update (e : List (K × V)) : ((update [] e).map Prod.fst).Nodup := by
  induction e using List.reverseRecOn with
  | nil => exact List.nodup_nil
  | append_singleton e x ih =>
    rw [update_append]
    exact nodup_keys_set ih

/-- The entries are the last assignments to their keys. -/
lemma mem_update_iff {e : List (K × V)} : x ∈ update [] e ↔ IsLast Prod.fst e x := by
  induction e using List.reverseRecOn with
  | nil => simp [isLast_nil]
  | append_singleton e y ih =>
    rw [update_append, isLast_concat_iff, ← ih]
    exact mem_set_iff (nodup_keys_update e)

end Dict

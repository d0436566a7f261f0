import Mathlib.Data.Finset.Card
import Mathlib.Data.Finset.Filter
import Mathlib.Data.Fintype.Defs
import Mathlib.Order.Basic

/-!
# Partial functions defined by iteration

A recursive definition that may not terminate is a monotone operator on partial functions, and
its meaning is the limit of the approximations `approx F 0`, `approx F 1`, …. Where the operator
only ever defines values at finitely many keys the limit is reached after as many steps as there
are keys, so that the recursion can be run with that much fuel.
-/

namespace PartialFix

variable {K V : Type*} {f g : K → Option V}

/-- Wherever `f` has a value, `g` has the same value. -/
def Extends (f g : K → Option V) : Prop := ∀ k v, f k = some v → g k = some v

lemma Extends.refl (f : K → Option V) : Extends f f := fun _ _ h => h

lemma Extends.trans {h : K → Option V} (hfg : Extends f g) (hgh : Extends g h) : Extends f h :=
  fun k v hf => hgh k v (hfg k v hf)

lemma Extends.antisymm (hfg : Extends f g) (hgf : Extends g f) : f = g := by
  funext k
  cases hf : f k with
  | some v => exact (hfg k v hf).symm
  | none =>
    cases hg : g k with
    | none => rfl
    | some v => exact absurd (hgf k v hg) (by simp [hf])

/-- More values before the operator give more values after it. -/
def Mono (F : (K → Option V) → K → Option V) : Prop :=
  ∀ f g, Extends f g → Extends (F f) (F g)

/-- The approximations of the partial function that `F` defines. -/
def approx (F : (K → Option V) → K → Option V) : ℕ → K → Option V
  | 0 => fun _ => none
  | n + 1 => F (approx F n)

section Mono

variable {F G : (K → Option V) → K → Option V} {n : ℕ}

lemma approx_succ_extends (hF : Mono F) (n : ℕ) : Extends (approx F n) (approx F (n + 1)) := by
  induction n with
  | zero => exact fun k v h => by simp [approx] at h
  | succ n ih => exact hF _ _ ih

lemma approx_extends (hF : Mono F) {m : ℕ} (h : m ≤ n) : Extends (approx F m) (approx F n) := by
  induction n, h using Nat.le_induction with
  | base => exact Extends.refl _
  | succ n _ ih => exact ih.trans (approx_succ_extends hF n)

/-- A pointwise larger operator has larger approximations. -/
lemma approx_extends_approx (hG : Mono G) (hFG : ∀ f, Extends (F f) (G f)) (n : ℕ) :
    Extends (approx F n) (approx G n) := by
  induction n with
  | zero => exact Extends.refl _
  | succ n ih => exact (hFG _).trans (hG _ _ ih)

lemma approx_eq_of_stable {j : ℕ} (h : approx F j = approx F (j + 1)) (hn : j ≤ n) :
    approx F n = approx F j := by
  induction n, hn using Nat.le_induction with
  | base => rfl
  | succ n _ ih =>
    show F (approx F n) = approx F j
    rw [ih]
    exact h.symm

/-! ### Operators with finite support -/

variable [DecidableEq K] {keys : List K}

/-- The keys that have a value in the `n`-th approximation. -/
private def defined (F : (K → Option V) → K → Option V) (keys : List K) (n : ℕ) : Finset K :=
  keys.toFinset.filter fun k => (approx F n k).isSome

private lemma mem_defined {k : K} (hkeys : ∀ f k v, F f k = some v → k ∈ keys) :
    k ∈ defined F keys n ↔ ∃ v, approx F n k = some v := by
  rw [defined, Finset.mem_filter, Option.isSome_iff_exists, List.mem_toFinset]
  refine ⟨fun h => h.2, fun ⟨v, hv⟩ => ⟨?_, v, hv⟩⟩
  cases n with
  | zero => simp [approx] at hv
  | succ n => exact hkeys _ _ _ hv

/-- Every step that is not the last one gives a new key its value. -/
private lemma stable_or_card (hF : Mono F) (hkeys : ∀ f k v, F f k = some v → k ∈ keys) (n : ℕ) :
    (∃ j < n, approx F j = approx F (j + 1)) ∨ n ≤ (defined F keys n).card := by
  induction n with
  | zero => exact .inr (Nat.zero_le _)
  | succ n ih =>
    rcases ih with ⟨j, hj, hs⟩ | hcard
    · exact .inl ⟨j, Nat.lt_succ_of_lt hj, hs⟩
    by_cases hs : approx F n = approx F (n + 1)
    · exact .inl ⟨n, Nat.lt_succ_self n, hs⟩
    refine .inr (Nat.succ_le_of_lt (Nat.lt_of_le_of_lt hcard (Finset.card_lt_card ?_)))
    have hsub := approx_succ_extends hF n
    refine ⟨fun k hk => ?_, fun hsup => hs (hsub.antisymm fun k v hv => ?_)⟩
    · obtain ⟨v, hv⟩ := (mem_defined hkeys).1 hk
      exact (mem_defined hkeys).2 ⟨v, hsub k v hv⟩
    · obtain ⟨w, hw⟩ := (mem_defined hkeys).1 (hsup ((mem_defined hkeys).2 ⟨v, hv⟩))
      exact hw.trans ((hsub k w hw).symm.trans hv)

/-- As many steps as there are keys define everything that any number of steps defines. -/
theorem approx_extends_approx_length (hF : Mono F)
    (hkeys : ∀ f k v, F f k = some v → k ∈ keys) (n : ℕ) :
    Extends (approx F n) (approx F keys.length) := by
  have hcard : (defined F keys (keys.length + 1)).card ≤ keys.length :=
    (Finset.card_le_card (Finset.filter_subset _ _)).trans keys.toFinset_card_le
  obtain ⟨j, hj, hs⟩ := (stable_or_card hF hkeys (keys.length + 1)).resolve_right (by omega)
  rcases Nat.le_total n keys.length with hn | hn
  · exact approx_extends hF hn
  · rw [approx_eq_of_stable hs (by omega : j ≤ n),
      approx_eq_of_stable hs (by omega : j ≤ keys.length)]
    exact Extends.refl _

end Mono

end PartialFix

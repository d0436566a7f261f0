import Mathlib.Data.List.Forall2
import Mathlib.Tactic.Common
import Rmc.Lib.Checked

/-!
# Stores of objects

The objects that a program has created, in the order of their creation; an object is named by its
position. Operations work on one object or on two different ones. Two stores are related when
their objects are related one by one, and each operation reduces the relation of the stores after
it to that of the objects it touched.
-/

namespace Store

universe u

variable {V A O : Type u} {i : ℕ} {o o' : O} {store store' : List V} {f : V → Option (O × V)}
  {v : Option V}

/-- An operation on one object. -/
def update (store : List V) (i : ℕ) (f : V → Option (O × V)) : Option (O × List V) := do
  let v ← store[i]?
  let (o, v') ← f v
  return (o, store.set i v')

/-- An operation on two different objects. -/
def updateTwo (store : List V) (i j : ℕ) (f : V → V → Option (O × V × V)) :
    Option (O × List V) :=
  if i = j then none
  else do
    let v ← store[i]?
    let w ← store[j]?
    let (o, v', w') ← f v w
    return (o, (store.set i v').set j w')

/-- An operation on one object that creates another one. -/
def split (store : List V) (i : ℕ) (f : V → Option (O × V × V)) : Option (O × List V) := do
  let v ← store[i]?
  let (o, v', w) ← f v
  return (o, store.set i v' ++ [w])

/-- A new object. -/
def create (store : List V) (o : O) (v : Option V) : Option (O × List V) := do
  return (o, store ++ [← v])

lemma update_eq_some :
    update store i f = some (o, store') ↔
      ∃ v v', store[i]? = some v ∧ f v = some (o, v') ∧ store' = store.set i v' := by
  simp only [update, bind_eq_some, pure_eq_some, Prod.exists, Prod.mk.injEq]
  constructor
  · rintro ⟨v, hv, _, v', hf, rfl, rfl⟩
    exact ⟨v, v', hv, hf, rfl⟩
  · rintro ⟨v, v', hv, hf, rfl⟩
    exact ⟨v, hv, o, v', hf, rfl, rfl⟩

lemma updateTwo_eq_some {j : ℕ} {f : V → V → Option (O × V × V)} :
    updateTwo store i j f = some (o, store') ↔
      i ≠ j ∧ ∃ v w v' w', store[i]? = some v ∧ store[j]? = some w ∧ f v w = some (o, v', w') ∧
        store' = (store.set i v').set j w' := by
  by_cases hij : i = j
  · simp [updateTwo, hij]
  simp only [updateTwo, hij, if_false, ne_eq, not_false_eq_true, pure_eq_some, bind_eq_some,
    Prod.exists, Prod.mk.injEq, true_and]
  constructor
  · rintro ⟨v, hv, w, hw, _, v', w', hf, rfl, rfl⟩
    exact ⟨v, w, v', w', hv, hw, hf, rfl⟩
  · rintro ⟨v, w, v', w', hv, hw, hf, rfl⟩
    exact ⟨v, hv, w, hw, o, v', w', hf, rfl, rfl⟩

lemma split_eq_some {f : V → Option (O × V × V)} :
    split store i f = some (o, store') ↔
      ∃ v v' w, store[i]? = some v ∧ f v = some (o, v', w) ∧ store' = store.set i v' ++ [w] := by
  simp only [split, bind_eq_some, pure_eq_some, Prod.exists, Prod.mk.injEq]
  constructor
  · rintro ⟨v, hv, _, v', w, hf, rfl, rfl⟩
    exact ⟨v, v', w, hv, hf, rfl⟩
  · rintro ⟨v, v', w, hv, hf, rfl⟩
    exact ⟨v, hv, o, v', w, hf, rfl, rfl⟩

lemma create_eq_some :
    create store o v = some (o', store') ↔ o' = o ∧ ∃ w, v = some w ∧ store' = store ++ [w] := by
  cases v <;> simp [create, eq_comm]

/-! ### Related stores -/

section Related

variable {R : V → A → Prop} {spec : List A} {j : ℕ} {v v' w w' : V}
  {a a' b b' : A}

section

variable (h : List.Forall₂ R store spec)

include h

lemma exists_related (ha : spec[i]? = some a) : ∃ v, store[i]? = some v ∧ R v a := by
  induction h generalizing i with
  | nil => simp at ha
  | cons hR _ ih =>
    cases i with
    | zero =>
      simp only [List.getElem?_cons_zero, Option.some.injEq] at ha ⊢
      exact ⟨_, rfl, ha ▸ hR⟩
    | succ i =>
      rw [List.getElem?_cons_succ] at ha ⊢
      exact ih ha

lemma related_of_getElem? (hv : store[i]? = some v) (ha : spec[i]? = some a) : R v a := by
  obtain ⟨v', hv', hR⟩ := exists_related h ha
  cases hv.symm.trans hv'
  exact hR

lemma related_set (hR : R v' a') : List.Forall₂ R (store.set i v') (spec.set i a') := by
  induction h generalizing i with
  | nil => simp
  | cons hR' _ ih =>
    cases i with
    | zero => exact .cons hR ‹_›
    | succ i => exact .cons hR' ih

lemma related_append_singleton (hR : R v a) : List.Forall₂ R (store ++ [v]) (spec ++ [a]) :=
  List.rel_append h (.cons hR .nil)

lemma related_set_iff (hv : store[i]? = some v) (ha : spec[i]? = some a) :
    List.Forall₂ R (store.set i v') (spec.set i a') ↔ R v' a' := by
  refine ⟨fun h' => ?_, related_set h⟩
  have hlt := List.getElem?_eq_some_iff.mp hv
  have hlt' := List.getElem?_eq_some_iff.mp ha
  exact related_of_getElem? h' (List.getElem?_set_self hlt.1) (List.getElem?_set_self hlt'.1)

lemma related_append_singleton_iff : List.Forall₂ R (store ++ [v]) (spec ++ [a]) ↔ R v a := by
  refine ⟨fun h' => ?_, related_append_singleton h⟩
  refine related_of_getElem? h' List.getElem?_concat_length ?_
  rw [h.length_eq]
  exact List.getElem?_concat_length

end

/-! ### Exact conditions

What an operation needs of the objects is what it needs of the store. -/

variable {spec' : List A} {cond : V → Prop}

theorem update_iff {g : A → Option (O × A)}
    (hobj : ∀ {v a o a'}, R v a → g a = some (o, a') →
      ((∃ v', f v = some (o, v') ∧ R v' a') ↔ cond v))
    (h : List.Forall₂ R store spec) (hspec : update spec i g = some (o, spec')) :
    (∃ store', update store i f = some (o, store') ∧ List.Forall₂ R store' spec') ↔
      ∀ v ∈ store[i]?, cond v := by
  obtain ⟨a, a', ha, hg, rfl⟩ := update_eq_some.mp hspec
  obtain ⟨v, hv, hR⟩ := exists_related h ha
  simp only [hv, Option.mem_def, Option.some.injEq, forall_eq', ← hobj hR hg]
  constructor
  · rintro ⟨_, hupdate, hrel⟩
    obtain ⟨u, v', hu, hf, rfl⟩ := update_eq_some.mp hupdate
    cases hv.symm.trans hu
    exact ⟨v', hf, (related_set_iff h hv ha).mp hrel⟩
  · rintro ⟨v', hf, hR'⟩
    exact ⟨_, update_eq_some.mpr ⟨v, v', hv, hf, rfl⟩, related_set h hR'⟩

theorem updateTwo_iff {f : V → V → Option (O × V × V)} {g : A → A → Option (O × A × A)}
    {cond : V → V → Prop}
    (hobj : ∀ {v w a b o a' b'}, R v a → R w b → g a b = some (o, a', b') →
      ((∃ v' w', f v w = some (o, v', w') ∧ R v' a' ∧ R w' b') ↔ cond v w))
    (h : List.Forall₂ R store spec) (hspec : updateTwo spec i j g = some (o, spec')) :
    (∃ store', updateTwo store i j f = some (o, store') ∧ List.Forall₂ R store' spec') ↔
      ∀ v ∈ store[i]?, ∀ w ∈ store[j]?, cond v w := by
  obtain ⟨hij, a, b, a', b', ha, hb, hg, rfl⟩ := updateTwo_eq_some.mp hspec
  obtain ⟨v, hv, hR⟩ := exists_related h ha
  obtain ⟨w, hw, hS⟩ := exists_related h hb
  simp only [hv, hw, Option.mem_def, Option.some.injEq, forall_eq', ← hobj hR hS hg]
  constructor
  · rintro ⟨_, hupdate, hrel⟩
    obtain ⟨-, u, x, v', w', hu, hx, hf, rfl⟩ := updateTwo_eq_some.mp hupdate
    cases hv.symm.trans hu
    cases hw.symm.trans hx
    refine ⟨v', w', hf, ?_, ?_⟩
    -- The second update leaves the first object alone, so each is read back by itself.
    · rw [List.set_comm _ _ hij, List.set_comm _ _ hij] at hrel
      exact related_of_getElem? hrel
        (List.getElem?_set_self (by simpa using (List.getElem?_eq_some_iff.mp hv).1))
        (List.getElem?_set_self (by simpa using (List.getElem?_eq_some_iff.mp ha).1))
    · exact related_of_getElem? hrel
        (List.getElem?_set_self (by simpa using (List.getElem?_eq_some_iff.mp hw).1))
        (List.getElem?_set_self (by simpa using (List.getElem?_eq_some_iff.mp hb).1))
  · rintro ⟨v', w', hf, hR', hS'⟩
    exact ⟨_, updateTwo_eq_some.mpr ⟨hij, v, w, v', w', hv, hw, hf, rfl⟩,
      related_set (related_set h hR') hS'⟩

theorem split_iff {f : V → Option (O × V × V)} {g : A → Option (O × A × A)}
    (hobj : ∀ {v a o a' b}, R v a → g a = some (o, a', b) →
      ((∃ v' w, f v = some (o, v', w) ∧ R v' a' ∧ R w b) ↔ cond v))
    (h : List.Forall₂ R store spec) (hspec : split spec i g = some (o, spec')) :
    (∃ store', split store i f = some (o, store') ∧ List.Forall₂ R store' spec') ↔
      ∀ v ∈ store[i]?, cond v := by
  obtain ⟨a, a', b, ha, hg, rfl⟩ := split_eq_some.mp hspec
  obtain ⟨v, hv, hR⟩ := exists_related h ha
  simp only [hv, Option.mem_def, Option.some.injEq, forall_eq', ← hobj hR hg]
  constructor
  · rintro ⟨_, hsplit, hrel⟩
    obtain ⟨u, v', w, hu, hf, rfl⟩ := split_eq_some.mp hsplit
    cases hv.symm.trans hu
    have hlength : (store.set i v').length = (spec.set i a').length := by
      simp only [List.length_set, h.length_eq]
    have hset : List.Forall₂ R (store.set i v') (spec.set i a') := by
      have htake := List.forall₂_take (store.set i v').length hrel
      rwa [List.take_left, hlength, List.take_left] at htake
    exact ⟨v', w, hf, (related_set_iff h hv ha).mp hset,
      (related_append_singleton_iff hset).mp hrel⟩
  · rintro ⟨v', w, hf, hR', hS⟩
    exact ⟨_, split_eq_some.mpr ⟨v, v', w, hv, hf, rfl⟩,
      related_append_singleton (related_set h hR') hS⟩

theorem create_iff {v : Option V} {a : Option A} {cond : Prop}
    (hobj : ∀ {a'}, a = some a' → ((∃ v', v = some v' ∧ R v' a') ↔ cond))
    (h : List.Forall₂ R store spec) (hspec : create spec o a = some (o', spec')) :
    (∃ store', create store o v = some (o', store') ∧ List.Forall₂ R store' spec') ↔ cond := by
  obtain ⟨rfl, a', ha, rfl⟩ := create_eq_some.mp hspec
  rw [← hobj ha]
  constructor
  · rintro ⟨_, hcreate, hrel⟩
    obtain ⟨-, v', hv, rfl⟩ := create_eq_some.mp hcreate
    exact ⟨v', hv, (related_append_singleton_iff h).mp hrel⟩
  · rintro ⟨v', hv, hR⟩
    exact ⟨_, create_eq_some.mpr ⟨rfl, v', hv, rfl⟩, related_append_singleton h hR⟩

end Related

end Store

import Rmc.Goto.Expr
import Rmc.Lib.Simulation
import Rmc.Lib.Store

/-!
# The vector stub without a backing store

`noback_vec.rs` keeps the length and the capacity of a vector and forgets its elements. Arithmetic
on `usize` that leaves the range, a failed assertion and a call of `panic!` are `none`. What an
operation returns is kept up to its shape: whether there is a value.

Std's vectors are their lengths here. `append` of the stub leaves its argument as it was, `insert`
does not make room, and `reserve` (thus `extend`) doubles the capacity when there is room already,
up to the limit of the allocator. `follows_lengths_iff` says that nothing else goes wrong.
-/

namespace Rmc.Library.NoBackVec

open Simulation

/-! ### The stub -/

def defaultCapacity : ℕ := 1073741824

def maxMallocSize : ℕ := 18014398509481984

structure Vec where
  len : ℕ
  capacity : ℕ
  deriving DecidableEq, Repr

namespace Vec

def grow (v : Vec) (additional : ℕ) : Option Vec := do
  let newLen ← checkedU64 (v.len + additional)
  let growCap ← checkedU64 (v.capacity * 2)
  let newCapacity := if newLen > growCap then newLen else growCap
  guard (newCapacity ≤ maxMallocSize)
  return { v with capacity := newCapacity }

def new : Vec := { len := 0, capacity := defaultCapacity }

def withCapacity (capacity : ℕ) : Option Vec := do
  let capacity ← checkedU64 capacity
  return { len := 0, capacity }

def reserve (v : Vec) (additional : ℕ) : Option Vec := v.grow additional

def push (v : Vec) : Option Vec := do
  let v ← (if v.capacity = v.len then v.reserve 1 else some v)
  guard (v.capacity ≥ v.len)
  let len ← checkedU64 (v.len + 1)
  return { v with len }

/-- Whether a value is returned, and the vector after it. -/
def pop (v : Vec) : Bool × Vec :=
  if v.len = 0 then (false, v) else (true, { v with len := v.len - 1 })

def append (v other : Vec) : Option Vec := do
  let newLen ← checkedU64 (v.len + other.len)
  let v ← (if v.capacity < newLen then v.reserve other.len else some v)
  guard (v.capacity ≥ newLen)
  return { v with len := newLen }

def insert (v : Vec) (index : ℕ) : Option Vec := do
  guard (index ≤ v.len)
  let len ← checkedU64 (v.len + 1)
  return { v with len }

def remove (v : Vec) (index : ℕ) : Option Vec := do
  guard (index < v.len)
  return { v with len := v.len - 1 }

/-- The iterator is its number of items. -/
def extend (v : Vec) (iterLen : ℕ) : Option Vec := do
  let v ← v.reserve iterLen
  let len ← checkedU64 (v.len + iterLen)
  return { v with len }

end Vec

/-- A call; vectors are named by the order of their creation. -/
inductive Call where
  | new
  | withCapacity (capacity : ℕ)
  | push (i : ℕ)
  | pop (i : ℕ)
  | append (i other : ℕ)
  | insert (i index : ℕ)
  | remove (i index : ℕ)
  | extend (i iterLen : ℕ)
  | reserve (i additional : ℕ)
  deriving DecidableEq, Repr

/-- An answer without a value. -/
def silent {α : Type} (v : α) : Bool × α := (false, v)

def Call.step (vs : List Vec) : Call → Option (Bool × List Vec)
  | .new => Store.create vs false (some Vec.new)
  | .withCapacity capacity => Store.create vs false (Vec.withCapacity capacity)
  | .push i => Store.update vs i fun v => v.push.map silent
  | .pop i => Store.update vs i fun v => some v.pop
  | .append i other =>
    Store.updateTwo vs i other fun v w => (v.append w).map fun v' => (false, v', w)
  | .insert i index => Store.update vs i fun v => (v.insert index).map silent
  | .remove i index => Store.update vs i fun v => (v.remove index).map fun v' => (true, v')
  | .extend i iterLen => Store.update vs i fun v => (v.extend iterLen).map silent
  | .reserve i additional => Store.update vs i fun v => (v.reserve additional).map silent

/-! ### Std's vectors -/

/-- The lengths of std's vectors; what panics there is rejected. -/
def Call.spec (ns : List ℕ) : Call → Option (Bool × List ℕ)
  | .new => Store.create ns false (some 0)
  | .withCapacity capacity => Store.create ns false ((checkedU64 capacity).map fun _ => 0)
  | .push i => Store.update ns i fun n => (checkedU64 (n + 1)).map silent
  | .pop i => Store.update ns i fun n => some (n ≠ 0, n - 1)
  | .append i other =>
    Store.updateTwo ns i other fun n m => (checkedU64 (n + m)).map fun n' => (false, n', 0)
  | .insert i index =>
    Store.update ns i fun n => if index ≤ n then (checkedU64 (n + 1)).map silent else none
  | .remove i index => Store.update ns i fun n => if index < n then some (true, n - 1) else none
  | .extend i iterLen => Store.update ns i fun n => (checkedU64 (n + iterLen)).map silent
  | .reserve i additional =>
    Store.update ns i fun n => (checkedU64 (n + additional)).map fun _ => silent n

/-- The length is the one of std's vector and the capacity covers it. -/
structure Tracks (v : Vec) (n : ℕ) : Prop where
  len : v.len = n
  le : v.len ≤ v.capacity
  lt : v.capacity < 2 ^ 64

/-- Growing stays within the limit of the allocator. -/
def Vec.Fits (v : Vec) (additional : ℕ) : Prop :=
  max (v.len + additional) (v.capacity * 2) ≤ maxMallocSize

/-- What a call needs of the vectors before it. -/
def Call.Safe (vs : List Vec) : Call → Prop
  | .push i => ∀ v ∈ vs[i]?, v.len = v.capacity → v.Fits 1
  | .append i other => ∀ _ ∈ vs[i]?, ∀ w ∈ vs[other]?, w.len = 0
  | .insert i _ => ∀ v ∈ vs[i]?, v.len < v.capacity
  | .extend i additional | .reserve i additional => ∀ v ∈ vs[i]?, v.Fits additional
  | .new | .withCapacity _ | .pop _ | .remove _ _ => True

/-! ### One call -/

section

variable {v v' w : Vec} {n n' m m' k index : ℕ} {o : Bool}

lemma map_silent_eq_some {α : Type} {x : Option α} {a : α} :
    x.map silent = some (o, a) ↔ o = false ∧ x = some a := by
  cases x <;> simp [silent, eq_comm]

lemma Vec.grow_eq_some : v.grow k = some v' ↔
    v.Fits k ∧ v' = { v with capacity := max (v.len + k) (v.capacity * 2) } := by
  simp only [grow, Fits, bind_eq_some, checkedU64_eq_some, guard_eq_some, exists_const,
    pure_eq_some]
  have hmax : ∀ a b : ℕ, (if a > b then a else b) = max a b := by
    intro a b
    split <;> omega
  constructor
  · rintro ⟨_, ⟨-, rfl⟩, _, ⟨-, rfl⟩, hle, rfl⟩
    rw [hmax] at hle ⊢
    exact ⟨hle, rfl⟩
  · rintro ⟨hle, rfl⟩
    have hlimit : maxMallocSize < 2 ^ 64 := by decide
    refine ⟨_, ⟨by omega, rfl⟩, _, ⟨by omega, rfl⟩, ?_⟩
    rw [hmax]
    exact ⟨hle, rfl⟩

section

variable (h : Tracks v n)

include h

lemma Tracks.grow (hgrow : v.grow k = some v') : Tracks v' n ∧ n + k ≤ v'.capacity := by
  obtain ⟨hfits, rfl⟩ := Vec.grow_eq_some.mp hgrow
  have hlimit : maxMallocSize < 2 ^ 64 := by decide
  have hlen := h.len
  have hle := h.le
  rw [Vec.Fits] at hfits
  refine ⟨⟨hlen, ?_, ?_⟩, ?_⟩
  · show v.len ≤ max (v.len + k) (v.capacity * 2)
    omega
  · show max (v.len + k) (v.capacity * 2) < 2 ^ 64
    omega
  · show n + k ≤ max (v.len + k) (v.capacity * 2)
    omega

lemma Tracks.withLen (hle : m ≤ v.capacity) : Tracks { v with len := m } m :=
  ⟨rfl, hle, h.lt⟩

lemma push_iff (hspec : (checkedU64 (n + 1)).map silent = some (o, n')) :
    (∃ v', v.push.map silent = some (o, v') ∧ Tracks v' n') ↔ (v.len = v.capacity → v.Fits 1) := by
  simp only [map_silent_eq_some, checkedU64_eq_some] at hspec ⊢
  obtain ⟨rfl, hlt, rfl⟩ := hspec
  constructor
  · rintro ⟨v', ⟨-, hpush⟩, -⟩ hfull
    rw [Vec.push, if_pos hfull.symm] at hpush
    obtain ⟨u, hgrow, -⟩ := bind_eq_some.mp hpush
    exact (Vec.grow_eq_some.mp hgrow).1
  · intro hfits
    have hroom : ∃ u, (if v.capacity = v.len then v.reserve 1 else some v) = some u ∧
        Tracks u n ∧ n + 1 ≤ u.capacity := by
      by_cases hfull : v.capacity = v.len
      · have hgrow := Vec.grow_eq_some.mpr ⟨hfits hfull.symm, rfl⟩
        exact ⟨_, by rw [if_pos hfull, Vec.reserve, hgrow], h.grow hgrow⟩
      · have hle := h.le
        have hlen := h.len
        exact ⟨v, if_neg hfull, h, by omega⟩
    obtain ⟨u, hu, htracks, hroom⟩ := hroom
    refine ⟨{ u with len := n + 1 }, ⟨rfl, ?_⟩, htracks.withLen hroom⟩
    simp [Vec.push, hu, htracks.len, checkedU64_of_lt hlt, Nat.le_of_succ_le hroom]

lemma pop_iff (hspec : some (decide (n ≠ 0), n - 1) = some (o, n')) :
    (∃ v', some v.pop = some (o, v') ∧ Tracks v' n') ↔ True := by
  cases hspec
  have hlen := h.len
  have hle := h.le
  by_cases hzero : n = 0
  · simp [Vec.pop, hlen, hzero, hzero ▸ h]
  · have htracks : Tracks { v with len := n - 1 } (n - 1) := h.withLen (by omega)
    simp [Vec.pop, hlen, hzero, htracks]

/-- The argument is left alone, so it had to be empty. -/
lemma append_iff (hw : Tracks w m)
    (hspec : (checkedU64 (n + m)).map (fun n' => (false, n', 0)) = some (o, n', m')) :
    (∃ v' w', (v.append w).map (fun v' => (false, v', w)) = some (o, v', w') ∧ Tracks v' n' ∧
      Tracks w' m') ↔ w.len = 0 := by
  simp only [Option.map_eq_some_iff, checkedU64_eq_some, Prod.mk.injEq] at hspec ⊢
  obtain ⟨_, ⟨hlt, rfl⟩, rfl, rfl, rfl⟩ := hspec
  constructor
  · rintro ⟨v', w', ⟨_, -, -, -, rfl⟩, -, hw'⟩
    exact hw'.len
  · intro hzero
    have hm : m = 0 := hw.len ▸ hzero
    subst hm
    have hlen := h.len
    have hle := h.le
    refine ⟨v, w, ⟨v, ?_, rfl, rfl, rfl⟩, h, hw⟩
    rw [Nat.add_zero, ← hlen] at hlt
    simp [Vec.append, hzero, checkedU64_of_lt hlt, Nat.not_lt.mpr hle, hle]

/-- The capacity stays as it was, so it had to be more than the length. -/
lemma insert_iff
    (hspec : (if index ≤ n then (checkedU64 (n + 1)).map silent else none) = some (o, n')) :
    (∃ v', (v.insert index).map silent = some (o, v') ∧ Tracks v' n') ↔ v.len < v.capacity := by
  split_ifs at hspec with hindex
  simp only [map_silent_eq_some, checkedU64_eq_some] at hspec ⊢
  obtain ⟨rfl, hlt, rfl⟩ := hspec
  have hlen := h.len
  have hinsert : v.insert index = some { v with len := n + 1 } := by
    simp [Vec.insert, hlen, hindex, checkedU64_of_lt hlt]
  constructor
  · rintro ⟨v', ⟨-, hv'⟩, htracks⟩
    cases hinsert.symm.trans hv'
    have hle : n + 1 ≤ v.capacity := htracks.le
    omega
  · intro hroom
    exact ⟨_, ⟨rfl, hinsert⟩, h.withLen (by omega)⟩

lemma remove_iff (hspec : (if index < n then some (true, n - 1) else none) = some (o, n')) :
    (∃ v', (v.remove index).map (fun v' => (true, v')) = some (o, v') ∧ Tracks v' n') ↔ True := by
  split_ifs at hspec with hindex
  cases hspec
  have hlen := h.len
  have hle := h.le
  have htracks : Tracks { v with len := n - 1 } (n - 1) := h.withLen (by omega)
  simp [Vec.remove, hlen, hindex, htracks]

lemma extend_iff (hspec : (checkedU64 (n + k)).map silent = some (o, n')) :
    (∃ v', (v.extend k).map silent = some (o, v') ∧ Tracks v' n') ↔ v.Fits k := by
  simp only [map_silent_eq_some, checkedU64_eq_some] at hspec ⊢
  obtain ⟨rfl, hlt, rfl⟩ := hspec
  constructor
  · rintro ⟨v', ⟨-, hextend⟩, -⟩
    rw [Vec.extend, Vec.reserve] at hextend
    obtain ⟨u, hgrow, -⟩ := bind_eq_some.mp hextend
    exact (Vec.grow_eq_some.mp hgrow).1
  · intro hfits
    have hgrow := Vec.grow_eq_some.mpr ⟨hfits, rfl⟩
    obtain ⟨htracks, hroom⟩ := h.grow hgrow
    refine ⟨_, ⟨rfl, ?_⟩, htracks.withLen hroom⟩
    simp [Vec.extend, Vec.reserve, hgrow, h.len, checkedU64_of_lt hlt]

lemma reserve_iff (hspec : (checkedU64 (n + k)).map (fun _ => silent n) = some (o, n')) :
    (∃ v', (v.reserve k).map silent = some (o, v') ∧ Tracks v' n') ↔ v.Fits k := by
  simp only [Option.map_eq_some_iff, checkedU64_eq_some] at hspec
  obtain ⟨_, -, hn⟩ := hspec
  cases hn
  simp only [map_silent_eq_some, Vec.reserve]
  constructor
  · rintro ⟨v', ⟨-, hgrow⟩, -⟩
    exact (Vec.grow_eq_some.mp hgrow).1
  · intro hfits
    have hgrow := Vec.grow_eq_some.mpr ⟨hfits, rfl⟩
    exact ⟨_, ⟨trivial, hgrow⟩, (h.grow hgrow).1⟩

end

lemma new_iff (hspec : some 0 = some n) : (∃ v, some Vec.new = some v ∧ Tracks v n) ↔ True := by
  cases hspec
  have htracks : Tracks Vec.new 0 := ⟨rfl, by decide, by decide⟩
  simp [htracks]

lemma withCapacity_iff (hspec : (checkedU64 k).map (fun _ => 0) = some n) :
    (∃ v, Vec.withCapacity k = some v ∧ Tracks v n) ↔ True := by
  simp only [Option.map_eq_some_iff, checkedU64_eq_some] at hspec
  obtain ⟨_, ⟨hlt, -⟩, rfl⟩ := hspec
  have htracks : Tracks { len := 0, capacity := k } 0 := ⟨rfl, Nat.zero_le _, hlt⟩
  simp [Vec.withCapacity, checkedU64_of_lt hlt, htracks]

end

/-! ### Runs -/

/-- A call is answered like std's vectors do exactly when it is safe. -/
lemma stepIff : StepIff Call.step Call.spec (List.Forall₂ Tracks) Call.Safe := by
  intro vs ns call o ns' h hspec
  cases call with
  | new => exact Store.create_iff new_iff h hspec
  | withCapacity capacity => exact Store.create_iff withCapacity_iff h hspec
  | push i => exact Store.update_iff push_iff h hspec
  | pop i => exact (Store.update_iff pop_iff h hspec).trans (iff_of_true (by simp) trivial)
  | append i other =>
    exact Store.updateTwo_iff append_iff h hspec
  | insert i index => exact Store.update_iff insert_iff h hspec
  | remove i index =>
    exact (Store.update_iff remove_iff h hspec).trans (iff_of_true (by simp) trivial)
  | extend i iterLen => exact Store.update_iff extend_iff h hspec
  | reserve i additional => exact Store.update_iff reserve_iff h hspec

/-- The stub follows std's vectors, those given to `append` too, exactly along the runs in which
`append` is given empty vectors, `insert` finds room and growing stays within the limit. -/
theorem follows_lengths_iff (calls : List Call) :
    Follows Call.step Call.spec (List.Forall₂ Tracks) [] [] calls ↔
      Along Call.step Call.spec Call.Safe [] [] calls :=
  follows_iff_along stepIff .nil calls

/-- The argument of `append` keeps its length. -/
theorem not_follows_lengths_append :
    ¬ Follows Call.step Call.spec (List.Forall₂ Tracks) [] []
      [.new, .new, .push 1, .append 0 1] := by
  intro h
  obtain ⟨vs, hstep, -, h⟩ := h _ _ rfl
  cases hstep
  obtain ⟨vs, hstep, -, h⟩ := h _ _ rfl
  cases hstep
  obtain ⟨vs, hstep, -, h⟩ := h _ _ rfl
  cases hstep
  obtain ⟨vs, hstep, h, -⟩ := h _ _ rfl
  cases hstep
  cases h with
  | cons _ h =>
    cases h with
    | cons h _ => exact absurd h.len (by decide)

end Rmc.Library.NoBackVec

import Rmc.Library.NoBackVec

/-!
# The iterator of the vector without a backing store

`into_iter` of `noback_vec.rs` returns an iterator that only has two indices, and `next` compares
them. It does not move them, so that an iterator that is not empty returns an item at every call,
and a loop over it does not end. A value that is returned is arbitrary; what matters is whether one
is returned.
-/

namespace Rmc.Library.NoBackVec

structure NoBackIter where
  start : ℕ
  stop : ℕ
  deriving DecidableEq, Repr

namespace NoBackIter

def new (len : ℕ) : NoBackIter := { start := 0, stop := len }

/-- Whether an item is returned, and the iterator after it. -/
def next (it : NoBackIter) : Bool × NoBackIter :=
  if it.start = it.stop then (false, it) else (true, it)

def sizeHint (it : NoBackIter) : Option (ℕ × Option ℕ) := do
  guard (it.start ≤ it.stop)
  let len := it.stop - it.start
  return (len, some len)

/-- The iterator after so many calls. -/
def after (it : NoBackIter) : ℕ → NoBackIter
  | 0 => it
  | k + 1 => (it.after k).next.2

/-- The iterator returns so many items, one at each call, then no more, and the hint is at all times
the number of items to come. -/
def Exact (it : NoBackIter) (n : ℕ) : Prop :=
  ∀ k, (it.after k).next.1 = decide (k < n) ∧ (it.after k).sizeHint = some (n - k, some (n - k))

end NoBackIter

namespace Vec

def intoIter (v : Vec) : NoBackIter := .new v.len

/-- The loop of `extend`, which counts the items of an iterator. -/
def countItems {It : Type} (next : It → Bool × It) : ℕ → It → ℕ → Option ℕ
  | 0, _, _ => none
  | fuel + 1, it, iterLen => do
    let (item, it) := next it
    if item then countItems next fuel it (← checkedU64 (iterLen + 1)) else return iterLen

/-- `extend` with an iterator. -/
def extendIter {It : Type} (next : It → Bool × It) (fuel : ℕ) (v : Vec) (it : It) : Option Vec := do
  v.extend (← countItems next fuel it 0)

end Vec

open NoBackIter

/-! ### An iterator that does not move -/

lemma NoBackIter.next_snd (it : NoBackIter) : it.next.2 = it := by
  unfold next
  split_ifs <;> rfl

lemma NoBackIter.after_eq (it : NoBackIter) (k : ℕ) : it.after k = it := by
  induction k with
  | zero => rfl
  | succ k ih => rw [after, ih, next_snd]

lemma NoBackIter.next_new_fst (n : ℕ) : (NoBackIter.new n).next.1 = decide (0 < n) := by
  by_cases hn : n = 0
  · simp [next, new, hn]
  · simp [next, new, Nat.pos_of_ne_zero hn, Ne.symm hn]

/-- The iterator of an empty vector is the only one that is exact. -/
lemma NoBackIter.exact_new_iff (n : ℕ) : (NoBackIter.new n).Exact n ↔ n = 0 := by
  constructor
  · intro h
    -- after as many calls as there are items, another one is returned
    have hlast := (h n).1
    rw [after_eq, next_new_fst] at hlast
    by_contra hn
    simp [Nat.pos_of_ne_zero hn] at hlast
  · rintro rfl k
    rw [after_eq]
    simp [next, sizeHint, new]

/-- A loop over an iterator that is not empty does not end. -/
lemma Vec.countItems_new {n : ℕ} (hn : n ≠ 0) (fuel iterLen : ℕ) :
    countItems NoBackIter.next fuel (.new n) iterLen = none := by
  have hnext : (NoBackIter.new n).next = (true, .new n) := by
    simp [NoBackIter.next, NoBackIter.new, Ne.symm hn]
  induction fuel generalizing iterLen with
  | zero => rfl
  | succ fuel ih =>
    cases hlen : checkedU64 (iterLen + 1) with
    | none => simp [countItems, hnext, hlen]
    | some iterLen' => simp [countItems, hnext, hlen, ih]

lemma Vec.extend_zero_iff {w w' : Vec} : w.extend 0 = some w' ↔
    w.Fits 0 ∧ w' = { w with capacity := max w.len (w.capacity * 2) } := by
  have hlimit : maxMallocSize < 2 ^ 64 := by decide
  simp only [extend, reserve, bind_eq_some, grow_eq_some, checkedU64_eq_some, pure_eq_some,
    Nat.add_zero]
  constructor
  · rintro ⟨_, ⟨hfits, rfl⟩, _, ⟨-, rfl⟩, rfl⟩
    exact ⟨hfits, rfl⟩
  · rintro ⟨hfits, rfl⟩
    have hlen : w.len ≤ maxMallocSize := (le_max_left _ _).trans hfits
    exact ⟨_, ⟨hfits, rfl⟩, w.len, ⟨hlen.trans_lt hlimit, rfl⟩, rfl⟩

/-- The iterator of a vector is exact, and extending another one with it returns that one with as
many more elements, exactly when the vector is empty and doubling the capacity of the other one
stays within the limit. -/
theorem noBackIter_exact_iff (v w : Vec) :
    (v.intoIter.Exact v.len ∧ ∃ fuel w', w.extendIter NoBackIter.next fuel v.intoIter = some w' ∧
      w'.len = w.len + v.len) ↔ v.len = 0 ∧ w.Fits 0 := by
  rw [Vec.intoIter, exact_new_iff]
  refine and_congr_right fun hv => ?_
  have hcount : ∀ fuel, Vec.countItems NoBackIter.next (fuel + 1) (.new 0) 0 = some 0 :=
    fun _ => rfl
  rw [hv]
  constructor
  · rintro ⟨fuel, w', hrun, -⟩
    cases fuel with
    | zero => simp [Vec.extendIter, Vec.countItems] at hrun
    | succ fuel =>
      simp only [Vec.extendIter, hcount, some_bind] at hrun
      exact (Vec.extend_zero_iff.mp hrun).1
  · intro hfits
    refine ⟨1, { w with capacity := max w.len (w.capacity * 2) }, ?_, rfl⟩
    simp only [Vec.extendIter, hcount 0, some_bind]
    exact Vec.extend_zero_iff.mpr ⟨hfits, rfl⟩

/-- With the iterator of a vector of one element, `extend` never returns. -/
theorem not_exact_intoIter_one :
    ¬ (Vec.intoIter { len := 1, capacity := 4 }).Exact 1 ∧
      ∀ fuel, Vec.extendIter NoBackIter.next fuel .new
        (Vec.intoIter { len := 1, capacity := 4 }) = none := by
  refine ⟨fun h => absurd ((exact_new_iff 1).mp h) (by decide), fun fuel => ?_⟩
  have hcount := Vec.countItems_new (n := 1) (by decide) fuel 0
  simp [Vec.extendIter, Vec.intoIter, hcount]

end Rmc.Library.NoBackVec

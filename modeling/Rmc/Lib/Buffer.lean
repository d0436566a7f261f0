import Mathlib.Data.List.Basic
import Mathlib.Data.List.Infix
import Mathlib.Tactic.Common

/-!
# Buffers

A buffer is a block of cells as an allocator returns it: its length is fixed until it is resized,
and a cell that was not written has no value. Access outside the block is `none`, and so is the
value of a cell that was not written.

`Holds b a` says that a buffer starts with the elements of a list. Every operation below keeps it,
for the list that the operation stands for.
-/

namespace Buffer

universe u

variable {α : Type u} {b source target : List (Option α)} {a a' : List α} {i j n : ℕ} {x : α}

/-- A fresh buffer. -/
def alloc (n : ℕ) : List (Option α) := List.replicate n none

/-- The buffer with another length; what fits is kept. -/
def resize (b : List (Option α)) (n : ℕ) : List (Option α) :=
  b.take n ++ List.replicate (n - b.length) none

def read (b : List (Option α)) (i : ℕ) : Option α := b[i]?.join

/-- The values of the first `n` cells. -/
def readAll (b : List (Option α)) : ℕ → Option (List α)
  | 0 => some []
  | n + 1 => do return (← readAll b n) ++ [← read b n]

def write (b : List (Option α)) (i : ℕ) (x : α) : Option (List (Option α)) :=
  if i < b.length then some (b.set i (some x)) else none

/-- The target with `n` cells of the source, from `i` on, copied to `j` and on. The two may be the
same buffer. -/
def copy (source : List (Option α)) (i : ℕ) (target : List (Option α)) (j n : ℕ) :
    Option (List (Option α)) :=
  if i + n ≤ source.length ∧ j + n ≤ target.length then
    some (target.take j ++ (source.drop i).take n ++ target.drop (j + n))
  else none

/-- The buffer starts with these elements. -/
def Holds (b : List (Option α)) (a : List α) : Prop := a.map some <+: b

@[simp] lemma length_alloc (n : ℕ) : (alloc n : List (Option α)).length = n := List.length_replicate

@[simp] lemma length_resize (b : List (Option α)) (n : ℕ) : (resize b n).length = n := by
  simp only [resize, List.length_append, List.length_take, List.length_replicate]
  omega

namespace Holds

lemma nil (b : List (Option α)) : Holds b [] := List.nil_prefix

section

variable (h : Holds b a)

include h

lemma length_le : a.length ≤ b.length := by
  simpa using List.IsPrefix.length_le h

lemma of_prefix (ha : a' <+: a) : Holds b a' :=
  (ha.map some).trans h

lemma eq_append : ∃ spare, b = a.map some ++ spare := by
  obtain ⟨spare, hb⟩ := h
  exact ⟨spare, hb.symm⟩

lemma take_eq_of_le (hi : i ≤ a.length) : b.take i = (a.take i).map some := by
  obtain ⟨spare, rfl⟩ := h.eq_append
  rw [List.take_append_of_le_length (by simpa using hi), List.map_take]

lemma read_eq (hi : i < a.length) : read b i = some a[i] := by
  obtain ⟨spare, rfl⟩ := h.eq_append
  rw [read, List.getElem?_append_left (by simpa using hi)]
  simp [hi]

lemma readAll_eq (hn : n ≤ a.length) : readAll b n = some (a.take n) := by
  induction n with
  | zero => rfl
  | succ n ih =>
    rw [List.take_succ_eq_append_getElem hn]
    simp [readAll, ih (Nat.le_of_succ_le hn), h.read_eq hn]

protected lemma resize (hn : a.length ≤ n) : Holds (resize b n) a := by
  have htake : a.map some <+: b.take n := List.prefix_take_iff.mpr ⟨h, by simpa using hn⟩
  exact htake.trans (List.prefix_append _ _)

lemma exists_write (hi : i < a.length) :
    ∃ b', write b i x = some b' ∧ Holds b' (a.set i x) ∧ b'.length = b.length := by
  obtain ⟨spare, rfl⟩ := h.eq_append
  refine ⟨_, if_pos (hi.trans_le h.length_le), ?_, List.length_set⟩
  rw [List.set_append_left _ _ (by simpa using hi), Holds, List.map_set]
  exact List.prefix_append _ _

lemma exists_write_length (hlt : a.length < b.length) :
    ∃ b', write b a.length x = some b' ∧ Holds b' (a ++ [x]) ∧ b'.length = b.length := by
  obtain ⟨spare, rfl⟩ := h.eq_append
  refine ⟨_, if_pos hlt, ?_, List.length_set⟩
  cases spare with
  | nil => simp at hlt
  | cons c spare =>
    rw [List.set_append_right _ _ (by simp), List.length_map, Nat.sub_self, List.set_cons_zero]
    exact ⟨spare, by simp⟩

end

lemma exists_copy (hsource : Holds source a') (htarget : Holds target a) (hi : i + n ≤ a'.length)
    (hj : j ≤ a.length) (hfit : j + n ≤ target.length) :
    ∃ b', copy source i target j n = some b' ∧ Holds b' (a.take j ++ (a'.drop i).take n) ∧
      b'.length = target.length := by
  have hlength := hsource.length_le
  refine ⟨_, if_pos ⟨by omega, hfit⟩, ?_, ?_⟩
  · obtain ⟨spare, rfl⟩ := hsource.eq_append
    have hcopied : ((a'.map some ++ spare).drop i).take n = ((a'.drop i).take n).map some := by
      rw [List.drop_append_of_le_length (by simpa using by omega),
        List.take_append_of_le_length (by simpa using by omega), List.map_take, List.map_drop]
    rw [htarget.take_eq_of_le hj, hcopied, ← List.map_append]
    exact List.prefix_append _ _
  · simp only [List.length_append, List.length_take, List.length_drop]
    omega

end Holds

end Buffer

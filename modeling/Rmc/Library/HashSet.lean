import Mathlib.Algebra.GroupWithZero.Nat
import Mathlib.Algebra.NeZero
import Mathlib.Data.Finset.Erase
import Mathlib.Data.Finset.Insert
import Rmc.Lib.Simulation
import Rmc.Lib.Checked

/-!
# The hash set stub

The stub for `HashSet<u16>` (`hashset.c`, wrapped by `c_hashset.rs`) keeps one word for each value
in a block from `calloc`. A word other than `0` means that the value is there, except at index
`0`, where the sentinel `1` means that it is not. An access outside the block is `none`.

`hashset_new` allocates `UINT16_MAX` words, so the last value of the type has none.
-/

namespace Rmc.Library.HashSet

open Simulation

/-! ### The stub -/

def sentinel : BitVec 16 := 1

def uint16Max : ℕ := 65535

def hasher (value : BitVec 16) : BitVec 16 := value

/-- The block that the set points at. -/
structure CHashset where
  domain : List (BitVec 16)
  deriving DecidableEq, Repr

/-- The word at an index of the block. -/
def CHashset.read (s : CHashset) (hash : BitVec 16) : Option (BitVec 16) := s.domain[hash.toNat]?

/-- The set with a word written into the block. -/
def CHashset.write (s : CHashset) (hash word : BitVec 16) : Option CHashset :=
  if hash.toNat < s.domain.length then some { domain := s.domain.set hash.toNat word } else none

def hashsetNew : Option CHashset :=
  ({ domain := List.replicate uint16Max 0 } : CHashset).write 0 sentinel

/-- Whether a value is in the set. -/
def isPresent (s : CHashset) (hash : BitVec 16) : Option Bool := do
  let word ← s.read hash
  return (hash = 0 && word ≠ sentinel) || (hash ≠ 0 && word ≠ 0)

def hashsetInsert (s : CHashset) (value : BitVec 16) : Option (ℕ × CHashset) := do
  let hash := hasher value
  if ← isPresent s hash then return (0, s)
  else return (1, ← s.write hash value)

def hashsetContains (s : CHashset) (value : BitVec 16) : Option (ℕ × CHashset) := do
  if ← isPresent s (hasher value) then return (1, s) else return (0, s)

def hashsetRemove (s : CHashset) (value : BitVec 16) : Option (ℕ × CHashset) := do
  let hash := hasher value
  let word ← s.read hash
  if (hash = 0 && word = sentinel) || (hash ≠ 0 && word = 0) then return (0, s)
  else if hash = 0 then return (1, ← s.write hash sentinel)
  else return (1, ← s.write hash 0)

/-- A call of the wrapper. -/
inductive Call where
  | insert (value : BitVec 16)
  | contains (value : BitVec 16)
  | remove (value : BitVec 16)
  deriving DecidableEq, Repr

def Call.value : Call → BitVec 16
  | .insert value | .contains value | .remove value => value

/-- The wrapper turns the number that the stub returns into a boolean. -/
def Call.step (s : CHashset) (call : Call) : Option (Bool × CHashset) := do
  let (n, s') ← match call with
    | .insert value => hashsetInsert s value
    | .contains value => hashsetContains s value
    | .remove value => hashsetRemove s value
  return (n ≠ 0, s')

/-! ### Sets -/

/-- What a set of values answers. -/
def Call.spec (a : Finset (BitVec 16)) : Call → Option (Bool × Finset (BitVec 16))
  | .insert value => some (value ∉ a, Insert.insert value a)
  | .contains value => some (value ∈ a, a)
  | .remove value => some (value ∈ a, a.erase value)

/-- The word that stands for a value that is in the set, or is not. -/
def word (value : BitVec 16) (present : Bool) : BitVec 16 :=
  if value = 0 then (if present then 0 else sentinel) else if present then value else 0

/-- The block holds the word of every value that it has room for, and the set has no other. -/
structure Represents (s : CHashset) (a : Finset (BitVec 16)) : Prop where
  length : s.domain.length = uint16Max
  read : ∀ {value}, value.toNat < uint16Max → s.read value = some (word value (value ∈ a))
  lt : ∀ {value}, value ∈ a → value.toNat < uint16Max

section

variable {s : CHashset} {a a' : Finset (BitVec 16)} {value : BitVec 16} {call : Call}

lemma isPresent_word (value : BitVec 16) (present : Bool) :
    ((value = 0 && word value present ≠ sentinel) ||
      (value ≠ 0 && word value present ≠ 0) : Bool) = present := by
  by_cases hzero : value = 0
  · subst hzero
    cases present <;> decide
  · have hzero' : value ≠ 0#16 := hzero
    cases present <;> simp [word, hzero']

lemma isPresent_eq (h : Represents s a) (hvalue : value.toNat < uint16Max) :
    isPresent s value = some (decide (value ∈ a)) := by
  have hword := isPresent_word value (decide (value ∈ a))
  simp only [isPresent, h.read hvalue, some_bind, Option.pure_def, hword]

lemma read_eq_none (h : Represents s a) (hvalue : ¬ value.toNat < uint16Max) :
    s.read value = none := by
  rw [CHashset.read, List.getElem?_eq_none_iff, h.length]
  exact Nat.le_of_not_lt hvalue

/-- Writing the word of a value changes whether it is there and nothing else. -/
lemma exists_write (h : Represents s a) (hvalue : value.toNat < uint16Max)
    (hself : value ∈ a' ↔ value ∉ a) (hother : ∀ v, v ≠ value → (v ∈ a' ↔ v ∈ a)) :
    ∃ s', s.write value (word value (value ∈ a')) = some s' ∧ Represents s' a' := by
  refine ⟨⟨s.domain.set value.toNat (word value (value ∈ a'))⟩, ?_, ?_, ?_, ?_⟩
  · rw [CHashset.write, if_pos (h.length ▸ hvalue)]
  · rw [List.length_set, h.length]
  · intro v hv
    rw [CHashset.read]
    by_cases heq : v = value
    · subst heq
      rw [List.getElem?_set_self (h.length ▸ hv)]
    · have hne : value.toNat ≠ v.toNat := fun hnat => heq (BitVec.eq_of_toNat_eq hnat.symm)
      rw [List.getElem?_set_ne hne]
      have hread := h.read hv
      rw [CHashset.read] at hread
      simp only [hread, hother v heq]
  · intro v hv
    by_cases heq : v = value
    · exact heq ▸ hvalue
    · exact h.lt ((hother v heq).mp hv)

/-! ### Calls -/

lemma word_true (value : BitVec 16) : word value true = value := by
  unfold word
  split <;> simp_all

lemma exists_hashsetInsert (h : Represents s a) (hvalue : value.toNat < uint16Max) :
    ∃ s', hashsetInsert s value = some (if value ∈ a then 0 else 1, s') ∧
      Represents s' (insert value a) := by
  by_cases hmem : value ∈ a
  · refine ⟨s, ?_, ?_⟩
    · simp [hashsetInsert, hasher, isPresent_eq h hvalue, hmem]
    · rwa [Finset.insert_eq_of_mem hmem]
  · have hself : value ∈ insert value a ↔ value ∉ a := by simp [hmem]
    have hother : ∀ v, v ≠ value → (v ∈ insert value a ↔ v ∈ a) := fun v hv => by simp [hv]
    obtain ⟨s', hwrite, hs'⟩ := exists_write h hvalue hself hother
    rw [decide_eq_true (hself.mpr hmem), word_true] at hwrite
    refine ⟨s', ?_, hs'⟩
    simp [hashsetInsert, hasher, isPresent_eq h hvalue, hmem, hwrite]

lemma hashsetContains_eq (h : Represents s a) (hvalue : value.toNat < uint16Max) :
    hashsetContains s value = some (if value ∈ a then 1 else 0, s) := by
  by_cases hmem : value ∈ a <;> simp [hashsetContains, hasher, isPresent_eq h hvalue, hmem]

/-- The test of `hashset_remove` is the negation of the one of the other functions. -/
lemma hashsetRemove_eq (s : CHashset) (value : BitVec 16) :
    hashsetRemove s value = (isPresent s value).bind fun present =>
      if present then (s.write value (word value false)).map fun s' => (1, s')
      else some (0, s) := by
  cases hread : s.read value with
  | none => simp [hashsetRemove, isPresent, hasher, hread]
  | some w =>
    by_cases hzero : value = 0#16
    · subst hzero
      by_cases hw : w = sentinel <;>
        simp [hashsetRemove, isPresent, hasher, hread, hw, word, Option.map_eq_bind]
    · by_cases hw : w = 0#16 <;>
        simp [hashsetRemove, isPresent, hasher, hread, hzero, hw, word, Option.map_eq_bind]

lemma exists_hashsetRemove (h : Represents s a) (hvalue : value.toNat < uint16Max) :
    ∃ s', hashsetRemove s value = some (if value ∈ a then 1 else 0, s') ∧
      Represents s' (a.erase value) := by
  rw [hashsetRemove_eq, isPresent_eq h hvalue, Option.bind_some]
  by_cases hmem : value ∈ a
  · have hself : value ∈ a.erase value ↔ value ∉ a := by simp [hmem]
    have hother : ∀ v, v ≠ value → (v ∈ a.erase value ↔ v ∈ a) := fun v hv => by simp [hv]
    obtain ⟨s', hwrite, hs'⟩ := exists_write h hvalue hself hother
    rw [decide_eq_false (by simp)] at hwrite
    exact ⟨s', by simp [hmem, hwrite], hs'⟩
  · exact ⟨s, by simp [hmem], by rwa [Finset.erase_eq_of_notMem hmem]⟩

/-- A value that has a word is answered like a set does. -/
lemma exists_step_of_lt (h : Represents s a) {o : Bool} (hcall : call.value.toNat < uint16Max)
    (hspec : call.spec a = some (o, a')) :
    ∃ s', call.step s = some (o, s') ∧ Represents s' a' := by
  cases call with
  | insert value =>
    cases hspec
    obtain ⟨s', hinsert, hs'⟩ := exists_hashsetInsert h hcall
    exact ⟨s', by by_cases hmem : value ∈ a <;> simp_all [Call.step, Call.value], hs'⟩
  | contains value =>
    cases hspec
    have hcontains := hashsetContains_eq h hcall
    exact ⟨s, by by_cases hmem : value ∈ a <;> simp_all [Call.step, Call.value], h⟩
  | remove value =>
    cases hspec
    obtain ⟨s', hremove, hs'⟩ := exists_hashsetRemove h hcall
    exact ⟨s', by by_cases hmem : value ∈ a <;> simp_all [Call.step, Call.value], hs'⟩

/-- A value without a word is an access outside the block. -/
lemma step_eq_none (h : Represents s a) (hcall : ¬ call.value.toNat < uint16Max) :
    call.step s = none := by
  have hread := read_eq_none h hcall
  cases call <;>
    simp_all [Call.step, Call.value, hashsetInsert, hashsetContains, hashsetRemove, hasher,
      isPresent]

/-- A call is answered like a set does exactly when its value has a word. -/
lemma stepIff : StepIff Call.step Call.spec Represents
    fun _ call => call.value.toNat < uint16Max := by
  intro s a call o a' h hspec
  constructor
  · rintro ⟨s', hstep, -⟩
    by_contra hcall
    rw [step_eq_none h hcall] at hstep
    cases hstep
  · intro hcall
    exact exists_step_of_lt h hcall hspec

lemma exists_hashsetNew : ∃ s, hashsetNew = some s ∧ Represents s ∅ := by
  refine ⟨⟨(List.replicate uint16Max 0).set 0 sentinel⟩, ?_, ?_, ?_, ?_⟩
  · rw [hashsetNew, CHashset.write, if_pos (by rw [List.length_replicate]; decide)]
    rfl
  · rw [List.length_set, List.length_replicate]
  · intro value hvalue
    rw [CHashset.read]
    by_cases hzero : value = 0
    · subst hzero
      exact List.getElem?_set_self (by rw [List.length_replicate]; decide)
    · have hne : 0 ≠ value.toNat := fun hnat => hzero (BitVec.eq_of_toNat_eq hnat.symm)
      rw [List.getElem?_set_ne hne, List.getElem?_replicate_of_lt hvalue]
      simp [word, show value ≠ 0#16 from hzero]
  · simp

/-- The stub is a set of `u16` exactly on the calls whose values have a word: on all values but
the last one. -/
theorem follows_hashsetNew_iff (calls : List Call) :
    ∃ s, hashsetNew = some s ∧
      (Follows Call.step Call.spec Represents s ∅ calls ↔
        ∀ call ∈ calls, call.value.toNat < uint16Max) := by
  obtain ⟨s, hs, hrep⟩ := exists_hashsetNew
  exact ⟨s, hs, follows_iff_forall_mem stepIff (fun a call => by cases call <;> rfl) hrep calls⟩

/-- The last value of the type is looked up past the end of the block. -/
theorem not_follows_insert_last :
    ∃ s, hashsetNew = some s ∧ s.read 65535 = none ∧
      ¬ Follows Call.step Call.spec Represents s ∅ [.insert 65535] := by
  obtain ⟨s, hs, hrep⟩ := exists_hashsetNew
  refine ⟨s, hs, read_eq_none hrep (by decide), fun hfollows => ?_⟩
  obtain ⟨s', hstep, -⟩ := hfollows _ _ rfl
  rw [step_eq_none hrep (by decide)] at hstep
  cases hstep

end

end Rmc.Library.HashSet

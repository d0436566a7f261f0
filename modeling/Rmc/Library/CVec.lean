import Rmc.Goto.Expr
import Rmc.Lib.Buffer
import Rmc.Lib.Simulation

/-!
# The vector stub in C

`vec.c`, wrapped by `c_vec.rs`, is a vector of `u32`. The heap has the blocks of words and the
structures `vec`, both named by the order of their allocation; a freed block is `none`. An access
outside a block, the value of a word that was not written and a failed assertion are `none`.
Allocation succeeds. `size_t` arithmetic wraps.

Every vector has a block of its own, so an operation on one leaves the others alone
(`Represents.change`). `vec_append` does not empty its second argument, and it grows the first one
even when there is room.
-/

namespace Rmc.Library.CVec

open Simulation

/-! ### The heap -/

def defaultCapacity : ℕ := 1024

def maxMallocSize : ℕ := 18014398509481984

/-- `sizeof(uint32_t)` -/
def sizeofWord : ℕ := 4

def sizeT (n : ℕ) : ℕ := n % 2 ^ 64

abbrev Block := List (Option (BitVec 32))

/-- The structure `vec`. -/
structure Vec where
  mem : ℕ
  len : ℕ
  capacity : ℕ
  deriving DecidableEq, Repr

structure Heap where
  blocks : List (Option Block)
  vecs : List Vec
  deriving DecidableEq, Repr

namespace Heap

def block (s : Heap) (mem : ℕ) : Option Block := s.blocks[mem]?.join

def setBlock (s : Heap) (mem : ℕ) (block : Block) : Heap :=
  { s with blocks := s.blocks.set mem (some block) }

def setVec (s : Heap) (v : ℕ) (vec : Vec) : Heap := { s with vecs := s.vecs.set v vec }

/-- A block of so many bytes, which is a number of words. -/
def malloc (s : Heap) (bytes : ℕ) : ℕ × Heap :=
  (s.blocks.length, { s with blocks := s.blocks ++ [some (Buffer.alloc (bytes / sizeofWord))] })

/-- The old block is freed and its words are in the new one. -/
def realloc (s : Heap) (mem bytes : ℕ) : Option (ℕ × Heap) := do
  let block ← s.block mem
  return (s.blocks.length,
    { s with blocks :=
        s.blocks.set mem none ++ [some (Buffer.resize block (bytes / sizeofWord))] })

end Heap

/-! ### The stub -/

def vecGrowExact (s : Heap) (v newCap : ℕ) : Option Heap := do
  let vec ← s.vecs[v]?
  let (newMem, s) ← s.realloc vec.mem (sizeT (newCap * sizeofWord))
  return s.setVec v { vec with mem := newMem, capacity := newCap }

def vecSizedGrow (s : Heap) (v additional : ℕ) : Option Heap := do
  let vec ← s.vecs[v]?
  let minCap := sizeT (vec.capacity + additional)
  let growCap := sizeT (vec.capacity * 2)
  let newCap := if minCap > growCap then minCap else growCap
  guard (newCap ≤ maxMallocSize)
  vecGrowExact s v newCap

def vecNew (s : Heap) : Heap :=
  let maxElements := defaultCapacity / sizeofWord
  let (mem, s) := s.malloc (sizeT (maxElements * sizeofWord))
  { s with vecs := s.vecs ++ [{ mem, len := 0, capacity := maxElements }] }

def vecWithCapacity (s : Heap) (capacity : ℕ) : Option Heap := do
  guard (capacity ≤ maxMallocSize)
  let (mem, s) := s.malloc (sizeT (capacity * sizeofWord))
  return { s with vecs := s.vecs ++ [{ mem, len := 0, capacity }] }

def vecPush (s : Heap) (v : ℕ) (elem : BitVec 32) : Option Heap := do
  let vec ← s.vecs[v]?
  let s ← (if vec.len = vec.capacity then vecSizedGrow s v 1 else some s)
  let vec ← s.vecs[v]?
  let block ← Buffer.write (← s.block vec.mem) vec.len elem
  return (s.setBlock vec.mem block).setVec v { vec with len := sizeT (vec.len + 1) }

def vecPop (s : Heap) (v : ℕ) : Option (BitVec 32 × Heap) := do
  let vec ← s.vecs[v]?
  guard (vec.len > 0)
  let len := vec.len - 1
  let elem ← Buffer.read (← s.block vec.mem) len
  return (elem, s.setVec v { vec with len })

def vecAppend (s : Heap) (v1 v2 : ℕ) : Option Heap := do
  let vec2 ← s.vecs[v2]?
  let s ← vecSizedGrow s v1 vec2.len
  let vec1 ← s.vecs[v1]?
  let vec2 ← s.vecs[v2]?
  let block ← Buffer.copy (← s.block vec2.mem) 0 (← s.block vec1.mem) vec1.len vec2.len
  return (s.setBlock vec1.mem block).setVec v1 { vec1 with len := sizeT (vec1.len + vec2.len) }

def vecLen (s : Heap) (v : ℕ) : Option ℕ := do
  return (← s.vecs[v]?).len

/-! ### The wrapper -/

/-- A call of the wrapper; vectors are named by the order of their creation. -/
inductive Call where
  | new
  | withCapacity (cap : ℕ)
  | push (v : ℕ) (elem : BitVec 32)
  | pop (v : ℕ)
  | append (v other : ℕ)
  | reserve (v additional : ℕ)
  deriving DecidableEq, Repr

def Heap.pop (s : Heap) (v : ℕ) : Option (Option (BitVec 32) × Heap) := do
  if (← vecLen s v) = 0 then return (none, s)
  else
    let (elem, s) ← vecPop s v
    return (some elem, s)

def silent {α : Type} (s : α) : Option (BitVec 32) × α := (none, s)

def Call.step (s : Heap) : Call → Option (Option (BitVec 32) × Heap)
  | .new => some (silent (vecNew s))
  | .withCapacity cap => (vecWithCapacity s cap).map silent
  | .push v elem => (vecPush s v elem).map silent
  | .pop v => s.pop v
  | .append v other => (vecAppend s v other).map silent
  | .reserve v additional => (vecSizedGrow s v additional).map silent

/-! ### Std's vectors -/

def isizeMax : ℕ := 2 ^ 63 - 1

/-- Std panics when a vector of so many elements has more bytes than `isize::MAX`. -/
def Allocatable (n : ℕ) : Prop := n * sizeofWord ≤ isizeMax

instance (n : ℕ) : Decidable (Allocatable n) := inferInstanceAs (Decidable (_ ≤ _))

/-- The elements of std's vectors; what panics there, and what the borrow checker refuses, is
rejected. -/
def Call.spec (as : List (List (BitVec 32))) :
    Call → Option (Option (BitVec 32) × List (List (BitVec 32)))
  | .new => some (none, as ++ [[]])
  | .withCapacity cap => do
    guard (Allocatable cap)
    return (none, as ++ [[]])
  | .push v elem => do
    let a ← as[v]?
    guard (Allocatable (a.length + 1))
    return (none, as.set v (a ++ [elem]))
  | .pop v => do
    let a ← as[v]?
    return (a.getLast?, as.set v a.dropLast)
  | .append v other => do
    let a ← as[v]?
    let b ← as[other]?
    guard (v ≠ other ∧ Allocatable (a.length + b.length))
    return (none, (as.set v (a ++ b)).set other [])
  | .reserve v additional => do
    let a ← as[v]?
    guard (Allocatable (a.length + additional))
    return (none, as)

/-- A vector with its elements in its block, the rest of which is spare. -/
structure Owns (s : Heap) (vec : Vec) (a : List (BitVec 32)) (block : Block) : Prop where
  block_eq : s.block vec.mem = some block
  length : block.length = vec.capacity
  holds : Buffer.Holds block a
  len : vec.len = a.length
  limit : vec.capacity ≤ maxMallocSize

/-- The vectors have the elements, in blocks of their own. -/
structure Represents (s : Heap) (as : List (List (BitVec 32))) : Prop where
  length : s.vecs.length = as.length
  owns : ∀ ⦃v : ℕ⦄ ⦃vec a⦄, s.vecs[v]? = some vec → as[v]? = some a → ∃ block, Owns s vec a block
  distinct : ∀ ⦃v w : ℕ⦄ ⦃vec vec'⦄, s.vecs[v]? = some vec → s.vecs[w]? = some vec' →
    vec.mem = vec'.mem → v = w

/-- Growing stays within the limit that the stub asserts. -/
def Vec.Fits (vec : Vec) (additional : ℕ) : Prop :=
  max (vec.capacity + additional) (vec.capacity * 2) ≤ maxMallocSize

/-- What a call needs of the vectors before it. -/
def Call.Safe (s : Heap) : Call → Prop
  | .withCapacity cap => cap ≤ maxMallocSize
  | .push v _ => ∀ vec ∈ s.vecs[v]?, vec.len = vec.capacity → vec.Fits 1
  | .append v other =>
    (∀ vec ∈ s.vecs[other]?, vec.len = 0) ∧ ∀ vec ∈ s.vecs[v]?, vec.Fits 0
  | .reserve v additional => ∀ vec ∈ s.vecs[v]?, vec.Fits additional
  | .new | .pop _ => True

/-! ### Vectors are apart -/

section

variable {s s' : Heap} {as as' : List (List (BitVec 32))} {v w k mem n newCap : ℕ} {vec vec' : Vec}
  {a a' : List (BitVec 32)} {block : Block} {o : Option (BitVec 32)} {elem : BitVec 32}

lemma Heap.lt_of_block (h : s.block mem = some block) : mem < s.blocks.length := by
  by_contra hge
  rw [Heap.block, List.getElem?_eq_none (Nat.le_of_not_lt hge)] at h
  cases h

lemma Owns.le (h : Owns s vec a block) : vec.len ≤ vec.capacity := by
  rw [h.len, ← h.length]
  exact h.holds.length_le

lemma Owns.frame (h : Owns s vec a block) (hblock : s'.block vec.mem = s.block vec.mem) :
    Owns s' vec a block :=
  { h with block_eq := hblock.trans h.block_eq }

/-- A vector that changes within its block, or moves to a new one, leaves the others alone. -/
lemma Represents.change (h : Represents s as) (hv : s.vecs[v]? = some vec)
    (hvecs : s'.vecs = s.vecs.set v vec')
    (hframe : ∀ mem, mem ≠ vec.mem → mem < s.blocks.length → s'.block mem = s.block mem)
    (hmem : vec'.mem = vec.mem ∨ s.blocks.length ≤ vec'.mem) (howns : Owns s' vec' a' block) :
    Represents s' (as.set v a') := by
  have hlt : v < s.vecs.length := (List.getElem?_eq_some_iff.mp hv).1
  have hself : s'.vecs[v]? = some vec' := by rw [hvecs, List.getElem?_set_self hlt]
  have hother : ∀ {w : ℕ}, w ≠ v → s'.vecs[w]? = s.vecs[w]? := by
    intro w hw
    rw [hvecs, List.getElem?_set_ne hw.symm]
  -- The block of another vector is an old one and not the one of this vector.
  have happart : ∀ {w : ℕ} {u : Vec}, w ≠ v → s.vecs[w]? = some u →
      u.mem ≠ vec.mem ∧ u.mem < s.blocks.length := by
    intro w u hw hu
    have hlt' : w < as.length := h.length ▸ (List.getElem?_eq_some_iff.mp hu).1
    obtain ⟨b, hb⟩ := h.owns hu (List.getElem?_eq_getElem hlt')
    exact ⟨fun heq => hw (h.distinct hu hv heq), Heap.lt_of_block hb.block_eq⟩
  have hne : ∀ {w : ℕ} {u : Vec}, w ≠ v → s.vecs[w]? = some u → vec'.mem ≠ u.mem := by
    intro w u hw hu
    obtain ⟨hapart, hold⟩ := happart hw hu
    rcases hmem with hmem | hmem
    · exact hmem ▸ hapart.symm
    · omega
  constructor
  · rw [hvecs, List.length_set, List.length_set, h.length]
  · intro w u b hu hb
    by_cases hw : w = v
    · subst hw
      cases hself.symm.trans hu
      rw [List.getElem?_set_self (h.length ▸ hlt)] at hb
      cases hb
      exact ⟨block, howns⟩
    · rw [hother hw] at hu
      rw [List.getElem?_set_ne (Ne.symm hw)] at hb
      obtain ⟨hapart, hold⟩ := happart hw hu
      obtain ⟨c, hc⟩ := h.owns hu hb
      exact ⟨c, hc.frame (hframe _ hapart hold)⟩
  · intro w x u u' hu hu' heq
    by_cases hw : w = v
    · by_cases hx : x = v
      · rw [hw, hx]
      · subst hw
        cases hself.symm.trans hu
        rw [hother hx] at hu'
        exact absurd heq (hne hx hu')
    · rw [hother hw] at hu
      by_cases hx : x = v
      · subst hx
        cases hself.symm.trans hu'
        exact absurd heq.symm (hne hw hu)
      · rw [hother hx] at hu'
        exact h.distinct hu hu' heq

lemma Represents.create (h : Represents s as) (hvecs : s'.vecs = s.vecs ++ [vec'])
    (hframe : ∀ mem, mem < s.blocks.length → s'.block mem = s.block mem)
    (hmem : s.blocks.length ≤ vec'.mem) (howns : Owns s' vec' a' block) :
    Represents s' (as ++ [a']) := by
  have hold : ∀ {w : ℕ} {u : Vec}, s.vecs[w]? = some u → u.mem < s.blocks.length := by
    intro w u hu
    have hlt' : w < as.length := h.length ▸ (List.getElem?_eq_some_iff.mp hu).1
    obtain ⟨b, hb⟩ := h.owns hu (List.getElem?_eq_getElem hlt')
    exact Heap.lt_of_block hb.block_eq
  have hcases : ∀ {w : ℕ} {u : Vec}, s'.vecs[w]? = some u →
      s.vecs[w]? = some u ∨ w = s.vecs.length ∧ u = vec' := by
    intro w u hu
    rw [hvecs] at hu
    rcases Nat.lt_or_ge w s.vecs.length with hlt | hge
    · rw [List.getElem?_append_left hlt] at hu
      exact .inl hu
    · rw [List.getElem?_append_right hge] at hu
      obtain ⟨hlt, hu⟩ := List.getElem?_eq_some_iff.mp hu
      have hzero : w - s.vecs.length = 0 := by simpa using hlt
      refine .inr ⟨by omega, ?_⟩
      simp only [hzero, List.getElem_cons_zero] at hu
      exact hu.symm
  constructor
  · rw [hvecs, List.length_append, List.length_append, h.length]
    rfl
  · intro w u b hu hb
    rcases hcases hu with hu | ⟨rfl, rfl⟩
    · have hlt : w < as.length := h.length ▸ (List.getElem?_eq_some_iff.mp hu).1
      rw [List.getElem?_append_left hlt] at hb
      obtain ⟨c, hc⟩ := h.owns hu hb
      exact ⟨c, hc.frame (hframe _ (hold hu))⟩
    · rw [h.length, List.getElem?_concat_length] at hb
      cases hb
      exact ⟨block, howns⟩
  · intro w x u u' hu hu' heq
    rcases hcases hu with hu | ⟨rfl, rfl⟩ <;> rcases hcases hu' with hu' | ⟨rfl, rfl⟩
    · exact h.distinct hu hu' heq
    · exact absurd (hold hu) (by omega)
    · exact absurd (hold hu') (by omega)
    · rfl

/-! ### Growing -/

lemma sizeT_of_lt (h : n < 2 ^ 64) : sizeT n = n := Nat.mod_eq_of_lt h

/-- A number of elements within the limit is a number of bytes of `size_t`. -/
lemma sizeT_mul_div (h : n ≤ maxMallocSize) : sizeT (n * sizeofWord) / sizeofWord = n := by
  have hlimit : maxMallocSize * sizeofWord < 2 ^ 64 := by decide
  have hle : n * sizeofWord ≤ maxMallocSize * sizeofWord := Nat.mul_le_mul_right _ h
  rw [sizeT_of_lt (hle.trans_lt hlimit), Nat.mul_div_cancel _ (by decide)]

/-- The heap after a vector moved to a larger block. -/
def Heap.grown (s : Heap) (v : ℕ) (vec : Vec) (block : Block) (newCap : ℕ) : Heap where
  blocks := s.blocks.set vec.mem none ++ [some (Buffer.resize block newCap)]
  vecs := s.vecs.set v { vec with mem := s.blocks.length, capacity := newCap }

/-- What the function does in all of `size_t`: the sum wraps around, the double does not. -/
lemma vecSizedGrow_eq_some_sizeT (hv : s.vecs[v]? = some vec)
    (hlimit : vec.capacity ≤ maxMallocSize) :
    vecSizedGrow s v k = some s' ↔
      max (sizeT (vec.capacity + k)) (vec.capacity * 2) ≤ maxMallocSize ∧
      ∃ block, s.block vec.mem = some block ∧
        s' = s.grown v vec block (max (sizeT (vec.capacity + k)) (vec.capacity * 2)) := by
  have hmax : maxMallocSize * 2 < 2 ^ 64 := by decide
  have hnewCap : (if sizeT (vec.capacity + k) > sizeT (vec.capacity * 2) then
      sizeT (vec.capacity + k) else sizeT (vec.capacity * 2)) =
      max (sizeT (vec.capacity + k)) (vec.capacity * 2) := by
    have hdouble : vec.capacity * 2 < 2 ^ 64 := (Nat.mul_le_mul_right 2 hlimit).trans_lt hmax
    rw [sizeT_of_lt hdouble]
    split <;> omega
  simp only [vecSizedGrow, vecGrowExact, hv, Heap.realloc, some_bind, hnewCap, bind_eq_some,
    guard_eq_some, exists_const, Option.pure_def, Option.some.injEq, Prod.exists, Prod.mk.injEq]
  refine and_congr_right fun hfits => ?_
  rw [sizeT_mul_div hfits]
  constructor
  · rintro ⟨_, _, ⟨block, hblock, rfl, rfl⟩, rfl⟩
    exact ⟨block, hblock, rfl⟩
  · rintro ⟨block, hblock, rfl⟩
    exact ⟨_, _, ⟨block, hblock, rfl, rfl⟩, rfl⟩

lemma vecSizedGrow_eq_some (hv : s.vecs[v]? = some vec) (hlimit : vec.capacity ≤ maxMallocSize)
    (hk : vec.capacity + k < 2 ^ 64) :
    vecSizedGrow s v k = some s' ↔ vec.Fits k ∧ ∃ block, s.block vec.mem = some block ∧
      s' = s.grown v vec block (max (vec.capacity + k) (vec.capacity * 2)) := by
  rw [vecSizedGrow_eq_some_sizeT hv hlimit, sizeT_of_lt hk, Vec.Fits]

lemma Heap.grown_block_of_ne (hne : mem ≠ vec.mem) (hlt : mem < s.blocks.length) :
    (s.grown v vec block newCap).block mem = s.block mem := by
  rw [Heap.block, Heap.grown, List.getElem?_append_left (by rwa [List.length_set]),
    List.getElem?_set_ne hne.symm, Heap.block]

/-- The vector has its elements in the larger block. -/
lemma Owns.grown (h : Owns s vec a block) (hle : a.length ≤ newCap)
    (hlimit : newCap ≤ maxMallocSize) :
    Owns (s.grown v vec block newCap) { vec with mem := s.blocks.length, capacity := newCap } a
      (Buffer.resize block newCap) where
  block_eq := by
    rw [Heap.block, Heap.grown, List.getElem?_append_right (by rw [List.length_set]),
      List.length_set, Nat.sub_self]
    rfl
  length := Buffer.length_resize _ _
  holds := h.holds.resize hle
  len := h.len
  limit := hlimit

lemma set_eq_self {β : Type} {l : List β} {x : β} (h : l[v]? = some x) : l.set v x = l := by
  obtain ⟨hlt, rfl⟩ := List.getElem?_eq_some_iff.mp h
  exact List.set_getElem_self hlt

/-- Growing within the limit makes room and keeps the elements. -/
lemma Represents.exists_grow (h : Represents s as) (hv : s.vecs[v]? = some vec)
    (ha : as[v]? = some a) (hfits : vec.Fits k) :
    ∃ s' vec', vecSizedGrow s v k = some s' ∧ s'.vecs = s.vecs.set v vec' ∧ vec'.len = vec.len ∧
      vec'.capacity = max (vec.capacity + k) (vec.capacity * 2) ∧ Represents s' as := by
  obtain ⟨block, hblock⟩ := h.owns hv ha
  have hle := hblock.le
  have hlen := hblock.len
  have hmax : maxMallocSize < 2 ^ 64 := by decide
  have hcap : vec.capacity + k ≤ maxMallocSize := (le_max_left _ _).trans hfits
  have hgrow := (vecSizedGrow_eq_some hv hblock.limit (by omega)).mpr
    ⟨hfits, block, hblock.block_eq, rfl⟩
  refine ⟨_, _, hgrow, rfl, rfl, rfl, ?_⟩
  have howns := hblock.grown (v := v) (by omega) hfits
  have hrep := h.change hv rfl (fun _ => Heap.grown_block_of_ne) (.inr le_rfl) howns
  rwa [set_eq_self ha] at hrep

/-! ### One call -/

lemma Represents.exists_vec (h : Represents s as) (ha : as[v]? = some a) :
    ∃ vec, s.vecs[v]? = some vec := by
  have hlt : v < s.vecs.length := h.length ▸ (List.getElem?_eq_some_iff.mp ha).1
  exact ⟨_, List.getElem?_eq_getElem hlt⟩

lemma Represents.exists_write (h : Represents s as) (hv : s.vecs[v]? = some vec)
    (ha : as[v]? = some a) (hroom : vec.len < vec.capacity) (elem : BitVec 32) :
    ∃ block block', s.block vec.mem = some block ∧ Buffer.write block vec.len elem = some block' ∧
      Represents ((s.setBlock vec.mem block').setVec v { vec with len := sizeT (vec.len + 1) })
        (as.set v (a ++ [elem])) := by
  obtain ⟨block, hblock⟩ := h.owns hv ha
  have hlimit := hblock.limit
  have hmax : maxMallocSize < 2 ^ 64 := by decide
  obtain ⟨block', hwrite, hholds, hlength⟩ :=
    hblock.holds.exists_write_length (x := elem) (by rw [← hblock.len, hblock.length]; exact hroom)
  have hlt := Heap.lt_of_block hblock.block_eq
  refine ⟨block, block', hblock.block_eq, hblock.len ▸ hwrite, ?_⟩
  refine h.change hv rfl (fun mem hne _ => ?_) (.inl rfl) (show Owns _ _ _ block' from
    ⟨?_, ?_, hholds, ?_, hlimit⟩)
  · simp [Heap.block, Heap.setBlock, Heap.setVec, List.getElem?_set_ne hne.symm]
  · simp [Heap.block, Heap.setBlock, Heap.setVec, List.getElem?_set_self hlt]
  · rw [hlength, hblock.length]
  · rw [sizeT_of_lt (by omega), hblock.len, List.length_append]
    rfl

lemma map_silent_eq_some {x : Option Heap} :
    x.map silent = some (o, s') ↔ o = none ∧ x = some s' := by
  cases x <;> simp [silent, eq_comm]

section

variable (h : Represents s as)

include h

/-- Within the limit a block of the default size and one of a given size are allocated alike. -/
lemma Represents.exists_malloc (hn : n ≤ maxMallocSize) :
    Represents { (s.malloc (sizeT (n * sizeofWord))).2 with
      vecs := s.vecs ++ [{ mem := s.blocks.length, len := 0, capacity := n }] } (as ++ [[]]) := by
  refine h.create rfl (fun mem hlt => ?_) le_rfl (show Owns _ _ _ (Buffer.alloc n) from
    ⟨?_, Buffer.length_alloc n, .nil _, rfl, hn⟩)
  · simp [Heap.block, Heap.malloc, List.getElem?_append_left hlt]
  · simp [Heap.block, Heap.malloc, sizeT_mul_div hn]

lemma new_iff (hspec : Call.spec as .new = some (o, as')) :
    (∃ s', Call.step s .new = some (o, s') ∧ Represents s' as') ↔ True := by
  cases hspec
  exact iff_of_true ⟨_, rfl, h.exists_malloc (by decide)⟩ trivial

lemma withCapacity_iff (hspec : Call.spec as (.withCapacity k) = some (o, as')) :
    (∃ s', Call.step s (.withCapacity k) = some (o, s') ∧ Represents s' as') ↔
      k ≤ maxMallocSize := by
  simp only [Call.spec, bind_eq_some, guard_eq_some, exists_const, Option.pure_def,
    Option.some.injEq, Prod.mk.injEq] at hspec
  obtain ⟨-, rfl, rfl⟩ := hspec
  simp only [Call.step, map_silent_eq_some, vecWithCapacity,
    bind_eq_some, guard_eq_some, exists_const, Option.pure_def, Option.some.injEq, true_and]
  constructor
  · rintro ⟨s', ⟨hk, -⟩, -⟩
    exact hk
  · intro hk
    exact ⟨_, ⟨hk, rfl⟩, h.exists_malloc hk⟩

lemma push_iff (hspec : Call.spec as (.push v elem) = some (o, as')) :
    (∃ s', Call.step s (.push v elem) = some (o, s') ∧ Represents s' as') ↔
      ∀ vec ∈ s.vecs[v]?, vec.len = vec.capacity → vec.Fits 1 := by
  simp only [Call.spec, bind_eq_some, guard_eq_some, exists_const, pure_eq_some,
    Prod.mk.injEq] at hspec
  obtain ⟨a, ha, -, rfl, rfl⟩ := hspec
  obtain ⟨vec, hv⟩ := h.exists_vec ha
  obtain ⟨block, hblock⟩ := h.owns hv ha
  have hmax : maxMallocSize + 1 < 2 ^ 64 := by decide
  have hlimit := hblock.limit
  simp only [Call.step, map_silent_eq_some, true_and, hv, Option.mem_def, Option.some.injEq,
    forall_eq']
  constructor
  · rintro ⟨s', hpush, -⟩ hfull
    simp only [vecPush, hv, some_bind, hfull, if_true] at hpush
    obtain ⟨u, hgrow, -⟩ := bind_eq_some.mp hpush
    exact ((vecSizedGrow_eq_some hv hlimit (by omega)).mp hgrow).1
  · intro hfits
    -- Full or not, there is a heap with room in which the element is written.
    have hroom : ∃ u vec',
        (if vec.len = vec.capacity then vecSizedGrow s v 1 else some s) = some u ∧
          u.vecs[v]? = some vec' ∧ vec'.len < vec'.capacity ∧ Represents u as := by
      by_cases hfull : vec.len = vec.capacity
      · obtain ⟨u, vec', hgrow, hvecs, hlen, hcap, hu⟩ := h.exists_grow hv ha (hfits hfull)
        have hlt : v < s.vecs.length := (List.getElem?_eq_some_iff.mp hv).1
        refine ⟨u, vec', by rw [if_pos hfull, hgrow], ?_, ?_, hu⟩
        · rw [hvecs, List.getElem?_set_self hlt]
        · omega
      · have hle := hblock.le
        exact ⟨s, vec, if_neg hfull, hv, by omega, h⟩
    obtain ⟨u, vec', hu, hv', hlt, hrep⟩ := hroom
    obtain ⟨block, block', hread, hwrite, hrep'⟩ := hrep.exists_write hv' ha hlt elem
    exact ⟨_, by simp [vecPush, hv, hu, hv', hread, hwrite], hrep'⟩

lemma pop_iff (hspec : Call.spec as (.pop v) = some (o, as')) :
    (∃ s', Call.step s (.pop v) = some (o, s') ∧ Represents s' as') ↔ True := by
  simp only [Call.spec, bind_eq_some, pure_eq_some, Prod.mk.injEq] at hspec
  obtain ⟨a, ha, rfl, rfl⟩ := hspec
  obtain ⟨vec, hv⟩ := h.exists_vec ha
  obtain ⟨block, hblock⟩ := h.owns hv ha
  have hlen := hblock.len
  refine iff_of_true ?_ trivial
  rcases List.eq_nil_or_concat' a with rfl | ⟨b, x, rfl⟩
  · have hzero : vec.len = 0 := hlen
    refine ⟨s, by simp [Call.step, Heap.pop, vecLen, hv, hzero], ?_⟩
    rwa [List.dropLast_nil, set_eq_self ha]
  · rw [List.length_append, List.length_singleton] at hlen
    have hread : Buffer.read block b.length = some x := by
      rw [hblock.holds.read_eq (by simp)]
      simp
    refine ⟨s.setVec v { vec with len := b.length }, ?_, ?_⟩
    · simp [Call.step, Heap.pop, vecLen, vecPop, hv, hlen, hblock.block_eq, hread]
    · rw [List.dropLast_concat]
      exact h.change hv rfl (fun _ _ _ => rfl) (.inl rfl) (show Owns _ _ _ block from
        ⟨hblock.block_eq, hblock.length, hblock.holds.of_prefix (List.prefix_append _ _), rfl,
          hblock.limit⟩)

lemma reserve_iff (hspec : Call.spec as (.reserve v k) = some (o, as')) :
    (∃ s', Call.step s (.reserve v k) = some (o, s') ∧ Represents s' as') ↔
      ∀ vec ∈ s.vecs[v]?, vec.Fits k := by
  simp only [Call.spec, bind_eq_some, guard_eq_some, exists_const, pure_eq_some,
    Prod.mk.injEq] at hspec
  obtain ⟨a, ha, hk, rfl, rfl⟩ := hspec
  obtain ⟨vec, hv⟩ := h.exists_vec ha
  obtain ⟨block, hblock⟩ := h.owns hv ha
  have hlimit := hblock.limit
  simp only [Allocatable, sizeofWord, isizeMax] at hk
  have hmax : maxMallocSize < 2 ^ 60 := by decide
  simp only [Call.step, map_silent_eq_some, true_and, hv, Option.mem_def, Option.some.injEq,
    forall_eq']
  constructor
  · rintro ⟨s', hgrow, -⟩
    exact ((vecSizedGrow_eq_some hv hlimit (by omega)).mp hgrow).1
  · intro hfits
    obtain ⟨s', -, hgrow, -, -, -, hrep⟩ := h.exists_grow hv ha hfits
    exact ⟨s', hgrow, hrep⟩

lemma Represents.exists_copy {vec2 : Vec} {b : List (BitVec 32)} (hv : s.vecs[v]? = some vec)
    (ha : as[v]? = some a) (hw : s.vecs[w]? = some vec2) (hb : as[w]? = some b)
    (hroom : vec.len + vec2.len ≤ vec.capacity) :
    ∃ block block2 block', s.block vec.mem = some block ∧ s.block vec2.mem = some block2 ∧
      Buffer.copy block2 0 block vec.len vec2.len = some block' ∧
      Represents ((s.setBlock vec.mem block').setVec v
        { vec with len := sizeT (vec.len + vec2.len) }) (as.set v (a ++ b)) := by
  obtain ⟨block, hblock⟩ := h.owns hv ha
  obtain ⟨block2, hblock2⟩ := h.owns hw hb
  have hlimit := hblock.limit
  have hmax : maxMallocSize < 2 ^ 64 := by decide
  have hlt := Heap.lt_of_block hblock.block_eq
  have hfit : a.length + b.length ≤ block.length := by
    rw [← hblock.len, ← hblock2.len, hblock.length]
    exact hroom
  obtain ⟨block', hcopy, hholds, hlength⟩ :=
    hblock2.holds.exists_copy hblock.holds (Nat.zero_add _).le le_rfl hfit
  rw [List.take_length, List.drop_zero, List.take_length] at hholds
  refine ⟨block, block2, block', hblock.block_eq, hblock2.block_eq,
    by rw [hblock.len, hblock2.len, hcopy], ?_⟩
  refine h.change hv rfl (fun mem hne _ => ?_) (.inl rfl) (show Owns _ _ _ block' from
    ⟨?_, ?_, hholds, ?_, hlimit⟩)
  · simp [Heap.block, Heap.setBlock, Heap.setVec, List.getElem?_set_ne hne.symm]
  · simp [Heap.block, Heap.setBlock, Heap.setVec, List.getElem?_set_self hlt]
  · rw [hlength, hblock.length]
  · rw [sizeT_of_lt (by omega), hblock.len, hblock2.len, List.length_append]

end

variable {other : ℕ}

/-- Only the receiver changes. -/
lemma vecs_of_vecAppend (happend : vecAppend s v other = some s') (hne : v ≠ other) :
    s'.vecs[other]? = s.vecs[other]? := by
  simp only [vecAppend, vecSizedGrow, vecGrowExact, Heap.realloc, bind_eq_some, guard_eq_some,
    exists_const, pure_eq_some, Prod.exists, Prod.mk.injEq] at happend
  obtain ⟨_, -, _, ⟨_, -, -, _, -, _, _, ⟨_, -, rfl, rfl⟩, rfl⟩, happend⟩ := happend
  obtain ⟨_, -, _, -, _, -, _, -, _, -, rfl⟩ := happend
  simp [Heap.setVec, Heap.setBlock, List.getElem?_set_ne hne]

/-- The argument is left alone, so it had to be empty. -/
lemma append_iff (h : Represents s as) (hspec : Call.spec as (.append v other) = some (o, as')) :
    (∃ s', Call.step s (.append v other) = some (o, s') ∧ Represents s' as') ↔
      (∀ vec ∈ s.vecs[other]?, vec.len = 0) ∧ ∀ vec ∈ s.vecs[v]?, vec.Fits 0 := by
  simp only [Call.spec, bind_eq_some, guard_eq_some, exists_const, pure_eq_some,
    Prod.mk.injEq] at hspec
  obtain ⟨a, ha, b, hb, ⟨hne, -⟩, rfl, rfl⟩ := hspec
  obtain ⟨vec, hv⟩ := h.exists_vec ha
  obtain ⟨vec2, hw⟩ := h.exists_vec hb
  obtain ⟨block, hblock⟩ := h.owns hv ha
  obtain ⟨block2, hblock2⟩ := h.owns hw hb
  have hlt : v < s.vecs.length := (List.getElem?_eq_some_iff.mp hv).1
  have hlimit := hblock.limit
  have hmax : maxMallocSize < 2 ^ 64 := by decide
  simp only [Call.step, map_silent_eq_some, true_and, hv, hw, Option.mem_def, Option.some.injEq,
    forall_eq']
  constructor
  · rintro ⟨s', happend, hrep⟩
    have hempty : vec2.len = 0 := by
      have hlt' : other < (as.set v (a ++ b)).length := by
        rw [List.length_set]
        exact (List.getElem?_eq_some_iff.mp hb).1
      have hw' := (vecs_of_vecAppend happend hne).trans hw
      obtain ⟨_, howns⟩ := hrep.owns hw' (List.getElem?_set_self hlt')
      exact howns.len
    refine ⟨hempty, ?_⟩
    simp only [vecAppend, hw, some_bind, hempty] at happend
    obtain ⟨u, hgrow, -⟩ := bind_eq_some.mp happend
    exact ((vecSizedGrow_eq_some hv hlimit (by omega)).mp hgrow).1
  · rintro ⟨hempty, hfits⟩
    rw [← hempty] at hfits
    obtain ⟨u, vec', hgrow, hvecs, hlen, hcap, hu⟩ := h.exists_grow hv ha hfits
    have hv' : u.vecs[v]? = some vec' := by rw [hvecs, List.getElem?_set_self hlt]
    have hw' : u.vecs[other]? = some vec2 := by rw [hvecs, List.getElem?_set_ne hne, hw]
    have hle := hblock.le
    obtain ⟨block, block2, block', hread, hread2, hcopy, hrep⟩ :=
      hu.exists_copy hv' ha hw' hb (by omega)
    have hnil : b = [] := List.eq_nil_of_length_eq_zero (hblock2.len ▸ hempty)
    rw [set_eq_self (by rw [List.getElem?_set_ne hne, hb, hnil])]
    exact ⟨_, by simp [vecAppend, hw, hgrow, hv', hw', hread, hread2, hcopy], hrep⟩

end

/-! ### Runs -/

/-- A call is answered like std's vectors do exactly when it is safe. -/
lemma stepIff : StepIff Call.step Call.spec Represents Call.Safe := by
  intro s as call o as' h hspec
  cases call with
  | new => exact new_iff h hspec
  | withCapacity cap => exact withCapacity_iff h hspec
  | push v elem => exact push_iff h hspec
  | pop v => exact pop_iff h hspec
  | append v other => exact append_iff h hspec
  | reserve v additional => exact reserve_iff h hspec

/-- No vector yet. -/
def Heap.empty : Heap := { blocks := [], vecs := [] }

lemma represents_empty : Represents .empty [] where
  length := rfl
  owns _ _ _ hv := nomatch hv
  distinct _ _ _ _ hv := nomatch hv

/-- The stub follows std's vectors of `u32`, those given to `append` too, exactly along the runs
in which `append` is given empty vectors and growing stays within the limit. -/
theorem follows_words_iff (calls : List Call) :
    Follows Call.step Call.spec Represents .empty [] calls ↔
      Along Call.step Call.spec Call.Safe .empty [] calls :=
  follows_iff_along stepIff represents_empty calls

/-- The second operand of `append` keeps its element. -/
theorem not_follows_words_append :
    ¬ Follows Call.step Call.spec Represents .empty []
      [.withCapacity 1, .withCapacity 1, .push 1 7, .append 0 1] := by
  intro h
  obtain ⟨s, hstep, -, h⟩ := h _ _ rfl
  cases hstep
  obtain ⟨s, hstep, -, h⟩ := h _ _ rfl
  cases hstep
  obtain ⟨s, hstep, -, h⟩ := h _ _ rfl
  cases hstep
  obtain ⟨s, hstep, h, -⟩ := h _ _ rfl
  cases hstep
  obtain ⟨_, howns⟩ := h.owns (v := 1) rfl rfl
  exact absurd howns.len (by decide)

/-! ### Reserving -/

/-- What `reserve` promises: room for so many more elements, no less room than before, and no more
than the allocator has. -/
def Vec.Reserves (vec vec' : Vec) (additional : ℕ) : Prop :=
  vec.len + additional ≤ vec'.capacity ∧ vec.capacity ≤ vec'.capacity ∧
    vec'.capacity ≤ maxMallocSize

/-- A call that returns has reserved the room it was asked for, unless the sum of the capacity and
the request wraps around and the double of the capacity is within the limit. -/
theorem vecSizedGrow_reserves_iff {s : Heap} {v additional : ℕ} {vec : Vec}
    (hv : s.vecs[v]? = some vec) (hblock : (s.block vec.mem).isSome = true)
    (hle : vec.len ≤ vec.capacity) (hlimit : vec.capacity ≤ maxMallocSize)
    (hadditional : additional < 2 ^ 64) :
    (∀ s' vec', vecSizedGrow s v additional = some s' → s'.vecs[v]? = some vec' →
      vec.Reserves vec' additional) ↔
      vec.capacity + additional < 2 ^ 64 ∨ maxMallocSize < vec.capacity * 2 := by
  obtain ⟨block, hblock⟩ := Option.isSome_iff_exists.mp hblock
  have hlt : v < s.vecs.length := (List.getElem?_eq_some_iff.mp hv).1
  have hgrown : ∀ newCap, (s.grown v vec block newCap).vecs[v]? =
      some { vec with mem := s.blocks.length, capacity := newCap } := by
    intro newCap
    simp [Heap.grown, hlt]
  have hsmall : maxMallocSize < 2 ^ 63 := by decide
  constructor
  · intro h
    by_contra hnot
    rw [not_or, not_lt, not_lt] at hnot
    obtain ⟨hwraps, hdouble⟩ := hnot
    -- the sum wraps to less than the capacity, and the call returns with the double
    have hsum : sizeT (vec.capacity + additional) = vec.capacity + additional - 2 ^ 64 := by
      rw [sizeT, Nat.mod_eq_sub_mod hwraps, Nat.mod_eq_of_lt (by omega)]
    have hmax : max (sizeT (vec.capacity + additional)) (vec.capacity * 2) ≤ maxMallocSize := by
      rw [hsum]
      omega
    have hrun := (vecSizedGrow_eq_some_sizeT hv hlimit).mpr ⟨hmax, block, hblock, rfl⟩
    obtain ⟨hroom, -, -⟩ := h _ _ hrun (hgrown _)
    change vec.len + additional ≤ max (sizeT (vec.capacity + additional))
      (vec.capacity * 2) at hroom
    omega
  · intro h s' vec' hrun hvec'
    obtain ⟨hmax, block', hblock', rfl⟩ := (vecSizedGrow_eq_some_sizeT hv hlimit).mp hrun
    obtain rfl := Option.some.inj (hblock.symm.trans hblock')
    rw [hgrown, Option.some.injEq] at hvec'
    subst hvec'
    have hsum : vec.capacity + additional < 2 ^ 64 := by
      rcases h with h | h
      · exact h
      · exact absurd ((le_max_right _ _).trans hmax) (not_le.mpr h)
    rw [sizeT_of_lt hsum] at hmax ⊢
    refine ⟨?_, ?_, hmax⟩
    · exact (Nat.add_le_add_right hle _).trans (le_max_left _ _)
    · exact (Nat.le_add_right _ _).trans (le_max_left _ _)

/-- One vector of one element in a block of four. -/
def Heap.single : Heap where
  blocks := [some [some 7, none, none, none]]
  vecs := [{ mem := 0, len := 1, capacity := 4 }]

theorem vecSizedGrow_reserves_two :
    ∃ s' vec', vecSizedGrow .single 0 2 = some s' ∧ s'.vecs[0]? = some vec' ∧
      Vec.Reserves { mem := 0, len := 1, capacity := 4 } vec' 2 := by
  obtain ⟨s', vec', hrun, hvec⟩ : ∃ s' vec', vecSizedGrow .single 0 2 = some s' ∧
      s'.vecs[0]? = some vec' := ⟨_, _, rfl, rfl⟩
  have hone : Heap.single.vecs[0]? = some { mem := 0, len := 1, capacity := 4 } := rfl
  exact ⟨s', vec', hrun, hvec, (vecSizedGrow_reserves_iff hone rfl (by decide) (by decide)
    (by decide)).mpr (by decide) s' vec' hrun hvec⟩

/-- A request that wraps around is answered with room for eight elements. -/
theorem not_reserves_wrapping :
    ∃ s' vec', vecSizedGrow .single 0 (2 ^ 64 - 1) = some s' ∧ s'.vecs[0]? = some vec' ∧
      vec'.capacity = 8 ∧ ¬ Vec.Reserves { mem := 0, len := 1, capacity := 4 } vec' (2 ^ 64 - 1) :=
  ⟨_, _, rfl, rfl, rfl, by unfold Vec.Reserves; decide⟩

end Rmc.Library.CVec

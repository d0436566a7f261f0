import Rmc.Goto.Expr
import Rmc.Lib.Buffer
import Rmc.Lib.Simulation
import Rmc.Lib.Store

/-!
# The vector stub in Rust

`rmc_vec.rs` is a vector over a buffer from `malloc`. A failed assertion, `usize` arithmetic that
leaves the range, an access outside the buffer, the value of a cell that was not written and a
request that the allocator does not serve are `none`. Elements have no drop glue, so dropping one
does nothing. The offsets `as isize` are the indices themselves, as no buffer has more than
`isize::MAX` bytes.

Std's vectors are lists. An operation of the stub does what the list does exactly when the buffer
that it asks for, if it asks for one, is within the limit of the allocator (`follows_lists_iff`).
-/

namespace Rmc.Library.RmcVec

open Simulation

/-! ### Elements and their buffers -/

def defaultCapacity : ℕ := 1024

def minNonZeroCap : ℕ := 1024

def isizeMax : ℕ := 2 ^ 63 - 1

/-- The type of the elements, and the largest request in bytes that the allocator serves. Elements
have a size and no drop glue, and a clone is a duplicate. -/
structure Elem (T : Type) where
  size : ℕ
  size_ne_zero : size ≠ 0
  align : ℕ
  clone : T → T
  clone_eq : ∀ x, clone x = x
  limit : ℕ
  limit_le : limit ≤ isizeMax

variable {T : Type} (e : Elem T)

namespace Elem

/-- So many elements are within the limit of the allocator. -/
def Fits (n : ℕ) : Prop := n * e.size ≤ e.limit

instance (n : ℕ) : Decidable (e.Fits n) := inferInstanceAs (Decidable (_ ≤ _))

/-- `malloc(n * elem_size)` -/
def malloc (n : ℕ) : Option (List (Option T)) := do
  let bytes ← checkedU64 (n * e.size)
  guard (bytes ≤ e.limit)
  return Buffer.alloc n

/-- `realloc(ptr, n * elem_size)` -/
def realloc (mem : List (Option T)) (n : ℕ) : Option (List (Option T)) := do
  let bytes ← checkedU64 (n * e.size)
  guard (bytes ≤ e.limit)
  return Buffer.resize mem n

end Elem

structure RmcRawVec (T : Type) where
  mem : List (Option T)
  cap : ℕ
  deriving DecidableEq, Repr

namespace RmcRawVec

def new : Option (RmcRawVec T) := do
  guard (e.size ≠ 0)
  return { mem := ← e.malloc defaultCapacity, cap := defaultCapacity }

def newWithCapacity (cap : ℕ) : Option (RmcRawVec T) := do
  return { mem := ← e.malloc cap, cap }

def needsToGrow (buf : RmcRawVec T) (len additional : ℕ) : Option Bool := do
  guard (len ≤ buf.cap)
  return additional > buf.cap - len

def grow (buf : RmcRawVec T) (len additional : ℕ) : Option (RmcRawVec T) := do
  let reqCap ← checkedU64 (len + additional)
  let growCap ← checkedU64 (buf.cap * 2)
  let newCap := if reqCap > growCap then reqCap else growCap
  let newCap := if minNonZeroCap > newCap then minNonZeroCap else newCap
  let bytes ← checkedU64 (newCap * e.size)
  guard (bytes ≤ isizeMax)
  return { mem := ← e.realloc buf.mem newCap, cap := newCap }

def reserve (buf : RmcRawVec T) (len additional : ℕ) : Option (RmcRawVec T) := do
  if ← buf.needsToGrow len additional then buf.grow e len additional else return buf

def shrinkToFit (buf : RmcRawVec T) (len : ℕ) : Option (RmcRawVec T) := do
  guard (len ≤ buf.cap)
  return { mem := ← e.realloc buf.mem len, cap := len }

end RmcRawVec

/-! ### The stub -/

structure Vec (T : Type) where
  buf : RmcRawVec T
  len : ℕ
  deriving DecidableEq, Repr

namespace Vec

def new : Option (Vec T) := do
  return { buf := ← RmcRawVec.new e, len := 0 }

def withCapacity (cap : ℕ) : Option (Vec T) := do
  return { buf := ← RmcRawVec.newWithCapacity e cap, len := 0 }

/-- The assignment through the pointer drops what was in the cell, which nothing was written to.
This does nothing only for elements without drop glue. -/
def pushUnsafe (v : Vec T) (elem : T) : Option (Vec T) := do
  let mem ← Buffer.write v.buf.mem v.len elem
  return { buf := { v.buf with mem }, len := ← checkedU64 (v.len + 1) }

def push (v : Vec T) (elem : T) : Option (Vec T) := do
  let buf ← (if v.len = v.buf.cap then v.buf.grow e v.len 1 else some v.buf)
  { v with buf }.pushUnsafe elem

/-- The loops that push without a check. -/
def pushAllUnsafe (v : Vec T) : List T → Option (Vec T)
  | [] => some v
  | elem :: elems => do (← v.pushUnsafe elem).pushAllUnsafe elems

def setLen (v : Vec T) (newLen : ℕ) : Option (Vec T) := do
  guard (newLen ≤ v.buf.cap)
  return { v with len := newLen }

def pop (v : Vec T) : Option (Option T × Vec T) := do
  if v.len = 0 then return (none, v)
  else
    let len := v.len - 1
    return (some (← Buffer.read v.buf.mem len), { v with len })

def insert (v : Vec T) (index : ℕ) (elem : T) : Option (Vec T) := do
  guard (index ≤ v.len)
  let len ← checkedU64 (v.len + 1)
  let buf ← (if v.buf.cap < len then v.buf.grow e v.len 1 else some v.buf)
  let mem ← (if index < v.len then
      Buffer.copy buf.mem index buf.mem (index + 1) (v.len - index)
    else some buf.mem)
  let mem ← Buffer.write mem index elem
  return { buf := { buf with mem }, len }

def remove (v : Vec T) (index : ℕ) : Option (Option T × Vec T) := do
  guard (index < v.len)
  let len := v.len - 1
  let result ← Buffer.read v.buf.mem index
  let mem ← (if len - index > 0 then
      Buffer.copy v.buf.mem (index + 1) v.buf.mem index (len - index)
    else some v.buf.mem)
  return (some result, { buf := { v.buf with mem }, len })

def reserve (v : Vec T) (additional : ℕ) : Option (Vec T) := do
  return { v with buf := ← v.buf.reserve e v.len additional }

/-- The loop of `truncate`, with the number of elements that it drops. -/
def dropLast (v : Vec T) : ℕ → Vec T
  | 0 => v
  | n + 1 => { v with len := v.len - 1 }.dropLast n

def truncate (v : Vec T) (len : ℕ) : Vec T :=
  if len > v.len then v else v.dropLast (v.len - len)

def clear (v : Vec T) : Vec T := v.truncate 0

def swapRemove (v : Vec T) (index : ℕ) : Option (Option T × Vec T) := do
  guard (index < v.len)
  let last ← Buffer.read v.buf.mem (v.len - 1)
  let v ← v.setLen (v.len - 1)
  let prevHole ← Buffer.read v.buf.mem index
  let mem ← Buffer.write v.buf.mem index last
  return (some prevHole, { v with buf := { v.buf with mem } })

/-- The vector with the elements before `at`, and the new one. -/
def splitOff (v : Vec T) (at' : ℕ) : Option (Vec T × Vec T) := do
  guard (at' ≤ v.len)
  let otherLen := v.len - at'
  let other ← withCapacity e otherLen
  let mem ← Buffer.copy v.buf.mem at' other.buf.mem 0 otherLen
  let v ← v.setLen at'
  return (v, ← { other with buf := { other.buf with mem } }.setLen otherLen)

/-- The vector and the one whose elements it took. -/
def append (v other : Vec T) : Option (Vec T × Vec T) := do
  let v ← v.reserve e other.len
  let mem ← Buffer.copy other.buf.mem 0 v.buf.mem v.len other.len
  let len ← checkedU64 (v.len + other.len)
  return ({ buf := { v.buf with mem }, len }, ← other.setLen 0)

/-- The closure is the sequence of what it returns. -/
def resizeWith (v : Vec T) (newLen : ℕ) (f : ℕ → T) : Option (Vec T) :=
  if newLen > v.len then do
    let additional := newLen - v.len
    (← v.reserve e additional).pushAllUnsafe ((List.range additional).map f)
  else some (v.truncate newLen)

def resize (v : Vec T) (newLen : ℕ) (value : T) : Option (Vec T) :=
  if newLen > v.len then do
    let additional := newLen - v.len
    (← v.reserve e additional).pushAllUnsafe (List.replicate additional (e.clone value))
  else some (v.truncate newLen)

def extendFromSlice (v : Vec T) (other : List T) : Option (Vec T) := do
  (← v.reserve e other.length).pushAllUnsafe (other.map e.clone)

def shrinkToFit (v : Vec T) : Option (Vec T) :=
  if v.buf.cap > v.len then do return { v with buf := ← v.buf.shrinkToFit e v.len }
  else some v

def shrinkTo (v : Vec T) (minCapacity : ℕ) : Option (Vec T) :=
  if v.buf.cap > minCapacity then do
    let max := if v.len > minCapacity then v.len else minCapacity
    return { v with buf := ← v.buf.shrinkToFit e max }
  else some v

end Vec

/-- An operation; vectors are named by the order of their creation. -/
inductive Op (T : Type) where
  | new
  | withCapacity (cap : ℕ)
  | push (i : ℕ) (elem : T)
  | pop (i : ℕ)
  | insert (i index : ℕ) (elem : T)
  | remove (i index : ℕ)
  | swapRemove (i index : ℕ)
  | truncate (i len : ℕ)
  | append (i other : ℕ)
  | splitOff (i at' : ℕ)
  | resize (i newLen : ℕ) (value : T)
  | resizeWith (i newLen : ℕ) (f : ℕ → T)
  | extendFromSlice (i : ℕ) (other : List T)
  | reserve (i additional : ℕ)
  | shrinkTo (i minCapacity : ℕ)
  | shrinkToFit (i : ℕ)
  | clear (i : ℕ)

/-- An answer without an element. -/
def silent {α : Type} (a : α) : Option T × α := (none, a)

def Op.step (vs : List (Vec T)) : Op T → Option (Option T × List (Vec T))
  | .new => Store.create vs none (Vec.new e)
  | .withCapacity cap => Store.create vs none (Vec.withCapacity e cap)
  | .push i elem => Store.update vs i fun v => (v.push e elem).map silent
  | .pop i => Store.update vs i fun v => v.pop
  | .insert i index elem => Store.update vs i fun v => (v.insert e index elem).map silent
  | .remove i index => Store.update vs i fun v => v.remove index
  | .swapRemove i index => Store.update vs i fun v => v.swapRemove index
  | .truncate i len => Store.update vs i fun v => some (silent (v.truncate len))
  | .append i other => Store.updateTwo vs i other fun v w => (v.append e w).map silent
  | .splitOff i at' => Store.split vs i fun v => (v.splitOff e at').map silent
  | .resize i newLen value => Store.update vs i fun v => (v.resize e newLen value).map silent
  | .resizeWith i newLen f => Store.update vs i fun v => (v.resizeWith e newLen f).map silent
  | .extendFromSlice i other => Store.update vs i fun v => (v.extendFromSlice e other).map silent
  | .reserve i additional => Store.update vs i fun v => (v.reserve e additional).map silent
  | .shrinkTo i minCapacity => Store.update vs i fun v => (v.shrinkTo e minCapacity).map silent
  | .shrinkToFit i => Store.update vs i fun v => (v.shrinkToFit e).map silent
  | .clear i => Store.update vs i fun v => some (silent v.clear)

/-! ### Std's vectors -/

/-- The list with its last element in the place of the one at an index. -/
def swapRemoveList (a : List T) (index : ℕ) : Option (Option T × List T) := do
  let x ← a[index]?
  let last ← a.getLast?
  return (some x, (a.set index last).dropLast)

/-- The lists of std's vectors; what panics there whatever the sizes, and what the borrow checker
refuses, is rejected. -/
def Op.spec (as : List (List T)) : Op T → Option (Option T × List (List T))
  | .new | .withCapacity _ => Store.create as none (some [])
  | .push i elem => Store.update as i fun a => some (silent (a ++ [elem]))
  | .pop i => Store.update as i fun a => some (a.getLast?, a.dropLast)
  | .insert i index elem => Store.update as i fun a =>
    if index ≤ a.length then some (silent (a.take index ++ elem :: a.drop index)) else none
  | .remove i index => Store.update as i fun a =>
    a[index]?.map fun x => (some x, a.take index ++ a.drop (index + 1))
  | .swapRemove i index => Store.update as i fun a => swapRemoveList a index
  | .truncate i len => Store.update as i fun a => some (silent (a.take len))
  | .append i other => Store.updateTwo as i other fun a b => some (silent (a ++ b, []))
  | .splitOff i at' => Store.split as i fun a =>
    if at' ≤ a.length then some (silent (a.take at', a.drop at')) else none
  | .resize i newLen value => Store.update as i fun a =>
    some (silent (a.take newLen ++ List.replicate (newLen - a.length) value))
  | .resizeWith i newLen f => Store.update as i fun a =>
    some (silent (a.take newLen ++ (List.range (newLen - a.length)).map f))
  | .extendFromSlice i other => Store.update as i fun a => some (silent (a ++ other))
  | .reserve i _ | .shrinkTo i _ | .shrinkToFit i => Store.update as i fun a => some (silent a)
  | .clear i => Store.update as i fun _ => some (silent [])

/-- The buffer starts with the elements of the list, and the rest is spare. -/
structure Models (v : Vec T) (a : List T) : Prop where
  length : v.buf.mem.length = v.buf.cap
  holds : Buffer.Holds v.buf.mem a
  len : v.len = a.length
  fits : e.Fits v.buf.cap

/-- The capacity after growing. -/
def Vec.grownCap (v : Vec T) (additional : ℕ) : ℕ :=
  max (max (v.len + additional) (v.buf.cap * 2)) minNonZeroCap

/-- When there is no room, the grown buffer is within the limit. -/
def Vec.Room (v : Vec T) (additional : ℕ) : Prop :=
  v.buf.cap < v.len + additional → e.Fits (v.grownCap additional)

/-- The buffers that an operation asks for are within the limit of the allocator. -/
def Op.Fits (vs : List (Vec T)) : Op T → Prop
  | .new => e.Fits defaultCapacity
  | .withCapacity cap => e.Fits cap
  | .push i _ | .insert i _ _ => ∀ v ∈ vs[i]?, v.Room e 1
  | .append i other => ∀ v ∈ vs[i]?, ∀ w ∈ vs[other]?, v.Room e w.len
  | .resize i newLen _ | .resizeWith i newLen _ => ∀ v ∈ vs[i]?, v.Room e (newLen - v.len)
  | .extendFromSlice i other => ∀ v ∈ vs[i]?, v.Room e other.length
  | .reserve i additional => ∀ v ∈ vs[i]?, v.Room e additional
  | .pop _ | .remove _ _ | .swapRemove _ _ | .truncate _ _ | .splitOff _ _ | .shrinkTo _ _
  | .shrinkToFit _ | .clear _ => True

/-! ### Buffers within the limit -/

variable {α : Type}

section

variable {e} {v v' w : Vec T} {a a' b b' : List T} {n k : ℕ} {mem : List (Option T)}
  {buf' : RmcRawVec T}

lemma Elem.map_clone (e : Elem T) (xs : List T) : xs.map e.clone = xs := by
  rw [show e.clone = id from funext e.clone_eq, List.map_id]

lemma Elem.Fits.lt (h : e.Fits n) : n < 2 ^ 63 := by
  have hle : n * e.size ≤ isizeMax := le_trans h e.limit_le
  have hsize : n ≤ n * e.size := Nat.le_mul_of_pos_right n (Nat.pos_of_ne_zero e.size_ne_zero)
  rw [isizeMax] at hle
  omega

lemma Elem.Fits.mono (h : e.Fits n) (hle : k ≤ n) : e.Fits k :=
  (Nat.mul_le_mul_right _ hle).trans h

lemma Elem.Fits.checkedU64_eq (h : e.Fits n) : checkedU64 (n * e.size) = some (n * e.size) := by
  have hle : n * e.size ≤ isizeMax := le_trans h e.limit_le
  rw [isizeMax] at hle
  exact checkedU64_of_lt (by omega)

lemma Elem.malloc_eq_some : e.malloc n = some mem ↔ e.Fits n ∧ mem = Buffer.alloc n := by
  simp only [malloc, bind_eq_some, guard_eq_some, exists_const, pure_eq_some]
  constructor
  · rintro ⟨_, hbytes, hfits, rfl⟩
    obtain ⟨-, rfl⟩ := checkedU64_eq_some.mp hbytes
    exact ⟨hfits, rfl⟩
  · rintro ⟨hfits, rfl⟩
    exact ⟨_, hfits.checkedU64_eq, hfits, rfl⟩

lemma Elem.realloc_eq_some {mem' : List (Option T)} :
    e.realloc mem n = some mem' ↔ e.Fits n ∧ mem' = Buffer.resize mem n := by
  simp only [realloc, bind_eq_some, guard_eq_some, exists_const, pure_eq_some]
  constructor
  · rintro ⟨_, hbytes, hfits, rfl⟩
    obtain ⟨-, rfl⟩ := checkedU64_eq_some.mp hbytes
    exact ⟨hfits, rfl⟩
  · rintro ⟨hfits, rfl⟩
    exact ⟨_, hfits.checkedU64_eq, hfits, rfl⟩

lemma RmcRawVec.grow_eq_some :
    v.buf.grow e v.len k = some buf' ↔ e.Fits (v.grownCap k) ∧
      buf' = { mem := Buffer.resize v.buf.mem (v.grownCap k), cap := v.grownCap k } := by
  have hmax : ∀ m n : ℕ, (if m > n then m else n) = max m n := by
    intro m n
    split <;> omega
  have hcap : max minNonZeroCap (max (v.len + k) (v.buf.cap * 2)) = v.grownCap k := max_comm _ _
  simp only [grow, bind_eq_some, guard_eq_some, exists_const, pure_eq_some, hmax,
    Elem.realloc_eq_some]
  constructor
  · rintro ⟨_, hreq, _, hgrow, _, hbytes, hle, _, ⟨hfits, rfl⟩, rfl⟩
    obtain ⟨-, rfl⟩ := checkedU64_eq_some.mp hreq
    obtain ⟨-, rfl⟩ := checkedU64_eq_some.mp hgrow
    rw [hcap] at hfits ⊢
    exact ⟨hfits, rfl⟩
  · rintro ⟨hfits, rfl⟩
    have hlt := hfits.lt
    have hreq : v.len + k ≤ v.grownCap k := (le_max_left _ _).trans (le_max_left _ _)
    have hgrow : v.buf.cap * 2 ≤ v.grownCap k := (le_max_right _ _).trans (le_max_left _ _)
    refine ⟨_, checkedU64_of_lt (by omega), _, checkedU64_of_lt (by omega), ?_⟩
    rw [hcap]
    exact ⟨_, hfits.checkedU64_eq, le_trans hfits e.limit_le, _, ⟨hfits, rfl⟩, rfl⟩

/-! ### Room -/

section

variable (h : Models e v a)

include h

lemma Models.le : v.len ≤ v.buf.cap := by
  rw [h.len, ← h.length]
  exact h.holds.length_le

/-- After growing the elements are there, and there is room. -/
lemma Models.grow (hgrow : v.buf.grow e v.len k = some buf') :
    Models e { v with buf := buf' } a ∧ a.length + k ≤ buf'.cap := by
  obtain ⟨hfits, rfl⟩ := RmcRawVec.grow_eq_some.mp hgrow
  have hreq : v.len + k ≤ v.grownCap k := (le_max_left _ _).trans (le_max_left _ _)
  rw [h.len] at hreq
  exact ⟨⟨Buffer.length_resize _ _, h.holds.resize (by omega), h.len, hfits⟩, hreq⟩

/-- What a computation that makes room first needs, when it does well with room. -/
lemma reserve_bind_iff {β : Type} {f : RmcRawVec T → Option β} {P : β → Prop}
    (hf : ∀ buf, Models e { v with buf } a → a.length + k ≤ buf.cap → ∃ r, f buf = some r ∧ P r) :
    (∃ r, (v.buf.reserve e v.len k).bind f = some r ∧ P r) ↔ v.Room e k := by
  have hle := h.le
  have hlen := h.len
  by_cases hroom : v.buf.cap < v.len + k
  · have hneeds : k > v.buf.cap - v.len := by omega
    have hreserve : v.buf.reserve e v.len k = v.buf.grow e v.len k := by
      simp [RmcRawVec.reserve, RmcRawVec.needsToGrow, hle, hneeds]
    rw [hreserve, Vec.Room, imp_iff_right hroom]
    constructor
    · rintro ⟨r, hr, -⟩
      obtain ⟨buf, hgrow, -⟩ := bind_eq_some.mp hr
      exact (RmcRawVec.grow_eq_some.mp hgrow).1
    · intro hfits
      have hgrow := RmcRawVec.grow_eq_some.mpr ⟨hfits, rfl⟩
      obtain ⟨hmodels, hcap⟩ := h.grow hgrow
      rw [hgrow, Option.bind_some]
      exact hf _ hmodels hcap
  · have hneeds : ¬ k > v.buf.cap - v.len := by omega
    have hreserve : v.buf.reserve e v.len k = some v.buf := by
      simp [RmcRawVec.reserve, RmcRawVec.needsToGrow, hle, hneeds]
    rw [hreserve, Option.bind_some]
    exact iff_of_true (hf _ h (by omega)) fun hlt => absurd hlt hroom

/-- `push` and `insert` test for room themselves. -/
lemma growIfFull_eq_reserve {p : Prop} [Decidable p] (hp : p ↔ v.buf.cap < v.len + 1) :
    (if p then v.buf.grow e v.len 1 else some v.buf) = v.buf.reserve e v.len 1 := by
  have hle := h.le
  have hneeds : 1 > v.buf.cap - v.len ↔ p := by rw [hp]; omega
  simp [RmcRawVec.reserve, RmcRawVec.needsToGrow, hle, hneeds]

lemma Models.exists_pushUnsafe (hroom : a.length < v.buf.cap) (x : T) :
    ∃ v', v.pushUnsafe x = some v' ∧ Models e v' (a ++ [x]) ∧ v'.buf.cap = v.buf.cap := by
  have hlt := h.fits.lt
  obtain ⟨mem, hwrite, hholds, hlength⟩ :=
    h.holds.exists_write_length (x := x) (by rw [h.length]; exact hroom)
  have hlen : checkedU64 (a.length + 1) = some (a.length + 1) := checkedU64_of_lt (by omega)
  refine ⟨{ buf := { v.buf with mem }, len := a.length + 1 }, ?_, ⟨?_, hholds, ?_, h.fits⟩, rfl⟩
  · simp [Vec.pushUnsafe, h.len, hwrite, hlen]
  · rw [hlength, h.length]
  · simp

lemma Models.exists_pushAllUnsafe (xs : List T) (hroom : a.length + xs.length ≤ v.buf.cap) :
    ∃ v', v.pushAllUnsafe xs = some v' ∧ Models e v' (a ++ xs) := by
  induction xs generalizing v a with
  | nil => exact ⟨v, rfl, by rwa [List.append_nil]⟩
  | cons x xs ih =>
    rw [List.length_cons] at hroom
    obtain ⟨u, hpush, hu, hcap⟩ := h.exists_pushUnsafe (by omega) x
    obtain ⟨v', hall, hv'⟩ := ih hu (by rw [List.length_append, List.length_singleton]; omega)
    refine ⟨v', ?_, by simpa using hv'⟩
    rw [Vec.pushAllUnsafe, hpush]
    exact hall

end

/-! ### Operations that need room -/

variable {o : Option T} {x : T} {xs : List T} {index : ℕ}

lemma map_silent_eq_some {y : Option α} {r : α} :
    y.map (silent (T := T)) = some (o, r) ↔ o = none ∧ y = some r := by
  cases y <;> simp [silent, eq_comm]

/-- The vector over a fresh buffer. -/
def Vec.fresh (T : Type) (cap : ℕ) : Vec T :=
  { buf := { mem := Buffer.alloc cap, cap }, len := 0 }

lemma Models.fresh (h : e.Fits n) : Models e (Vec.fresh T n) [] :=
  ⟨Buffer.length_alloc _, .nil _, rfl, h⟩

lemma Vec.new_eq_some :
    Vec.new e = some v ↔ e.Fits defaultCapacity ∧ v = Vec.fresh T defaultCapacity := by
  simp only [Vec.new, RmcRawVec.new, bind_eq_some, guard_eq_some, exists_const, pure_eq_some,
    Elem.malloc_eq_some]
  constructor
  · rintro ⟨_, ⟨-, _, ⟨hfits, rfl⟩, rfl⟩, rfl⟩
    exact ⟨hfits, rfl⟩
  · rintro ⟨hfits, rfl⟩
    exact ⟨_, ⟨e.size_ne_zero, _, ⟨hfits, rfl⟩, rfl⟩, rfl⟩

lemma Vec.withCapacity_eq_some :
    Vec.withCapacity e n = some v ↔ e.Fits n ∧ v = Vec.fresh T n := by
  simp only [Vec.withCapacity, RmcRawVec.newWithCapacity, bind_eq_some, pure_eq_some,
    Elem.malloc_eq_some]
  constructor
  · rintro ⟨_, ⟨_, ⟨hfits, rfl⟩, rfl⟩, rfl⟩
    exact ⟨hfits, rfl⟩
  · rintro ⟨hfits, rfl⟩
    exact ⟨_, ⟨_, ⟨hfits, rfl⟩, rfl⟩, rfl⟩

lemma new_iff (hspec : some [] = some a) :
    (∃ v, Vec.new e = some v ∧ Models e v a) ↔ e.Fits defaultCapacity := by
  cases hspec
  constructor
  · rintro ⟨v, hv, -⟩
    exact (Vec.new_eq_some.mp hv).1
  · intro hfits
    exact ⟨_, Vec.new_eq_some.mpr ⟨hfits, rfl⟩, .fresh hfits⟩

lemma withCapacity_iff (hspec : some [] = some a) :
    (∃ v, Vec.withCapacity e n = some v ∧ Models e v a) ↔ e.Fits n := by
  cases hspec
  constructor
  · rintro ⟨v, hv, -⟩
    exact (Vec.withCapacity_eq_some.mp hv).1
  · intro hfits
    exact ⟨_, Vec.withCapacity_eq_some.mpr ⟨hfits, rfl⟩, .fresh hfits⟩

section

variable (h : Models e v a)

include h

lemma push_iff (hspec : some (silent (a ++ [x])) = some (o, a')) :
    (∃ v', (v.push e x).map silent = some (o, v') ∧ Models e v' a') ↔ v.Room e 1 := by
  cases hspec
  have hfull : v.len = v.buf.cap ↔ v.buf.cap < v.len + 1 := by
    have hle := h.le
    omega
  simp only [map_silent_eq_some, true_and, Vec.push, growIfFull_eq_reserve h hfull]
  refine reserve_bind_iff h fun buf hbuf hroom => ?_
  obtain ⟨v', hpush, hv', -⟩ := hbuf.exists_pushUnsafe (Nat.lt_of_succ_le hroom) x
  exact ⟨v', hpush, hv'⟩

/-- The elements behind the index move up, then the new one is written. -/
lemma exists_insert (hindex : index ≤ a.length) (hroom : a.length + 1 ≤ v.buf.cap) :
    ∃ mem mem', (if index < v.len then
        Buffer.copy v.buf.mem index v.buf.mem (index + 1) (v.len - index)
      else some v.buf.mem) = some mem ∧ Buffer.write mem index x = some mem' ∧
      Models e { buf := { v.buf with mem := mem' }, len := v.len + 1 }
        (a.take index ++ x :: a.drop index) := by
  have hlength := h.length
  have hlen := h.len
  by_cases hlast : index < a.length
  · obtain ⟨mem, hcopy, hholds, hmem⟩ :=
      h.holds.exists_copy h.holds (i := index) (n := a.length - index) (j := index + 1)
        (by omega) (by omega) (by omega)
    rw [List.take_of_length_le (List.length_drop (l := a)).le] at hholds
    obtain ⟨mem', hwrite, hholds', hmem'⟩ :=
      hholds.exists_write (x := x) (i := index) (by simp; omega)
    refine ⟨mem, mem', by rw [if_pos (by omega), hlen, hcopy], hwrite, ?_, ?_, ?_, h.fits⟩
    · exact hmem'.trans (hmem.trans hlength)
    · have hset : (a.take (index + 1) ++ a.drop index).set index x =
          a.take index ++ x :: a.drop index := by
        rw [List.take_succ_eq_append_getElem hlast, List.append_assoc,
          List.set_append_right _ _ (by simp)]
        simp [Nat.min_eq_left hlast.le]
      rwa [hset] at hholds'
    · simp [hlen]
      omega
  · have hend : index = a.length := by omega
    subst hend
    obtain ⟨mem', hwrite, hholds, hmem⟩ := h.holds.exists_write_length (x := x) (by omega)
    refine ⟨_, mem', if_neg (by omega), hwrite, hmem.trans hlength, ?_, ?_, h.fits⟩
    · simpa using hholds
    · simp [hlen]

lemma insert_iff
    (hspec : (if index ≤ a.length then some (silent (a.take index ++ x :: a.drop index))
      else none) = some (o, a')) :
    (∃ v', (v.insert e index x).map silent = some (o, v') ∧ Models e v' a') ↔ v.Room e 1 := by
  split_ifs at hspec with hindex
  cases hspec
  have hlt : v.buf.cap < 2 ^ 63 := h.fits.lt
  have hle := h.le
  have hlen := h.len
  have hchecked : checkedU64 (v.len + 1) = some (v.len + 1) := checkedU64_of_lt (by omega)
  have hindex' : index ≤ v.len := by omega
  simp only [map_silent_eq_some, true_and, Vec.insert, Option.bind_eq_bind, hchecked,
    Option.bind_some, growIfFull_eq_reserve h Iff.rfl, hindex', guard_true, Option.pure_def]
  refine reserve_bind_iff h fun buf hbuf hroom => ?_
  obtain ⟨mem, mem', hcopy, hwrite, hv'⟩ := exists_insert hbuf hindex hroom (x := x)
  exact ⟨_, by simp only [hcopy, Option.bind_some, hwrite], hv'⟩

lemma append_iff (hw : Models e w b) (hspec : some (silent (a ++ b, [])) = some (o, a', b')) :
    (∃ v' w', (v.append e w).map silent = some (o, v', w') ∧ Models e v' a' ∧ Models e w' b') ↔
      v.Room e w.len := by
  cases hspec
  have hlen := h.len
  have hlen' := hw.len
  have hempty : Models e { w with len := 0 } [] := ⟨hw.length, .nil _, rfl, hw.fits⟩
  have hiff := reserve_bind_iff (k := w.len) h (β := Vec T × Vec T)
    (f := fun buf => do
      let mem ← Buffer.copy w.buf.mem 0 buf.mem v.len w.len
      let len ← checkedU64 (v.len + w.len)
      return ({ buf := { buf with mem }, len }, ← w.setLen 0))
    (P := fun r => Models e r.1 (a ++ b) ∧ Models e r.2 []) ?_
  · simpa only [map_silent_eq_some, true_and, Vec.append, Vec.reserve, Option.bind_eq_bind,
      Option.pure_def, Option.bind_assoc, Option.bind_some, Prod.exists] using hiff
  · intro buf hbuf hroom
    have hcap := hbuf.length
    have hlt : buf.cap < 2 ^ 63 := hbuf.fits.lt
    have hfit : a.length + b.length ≤ buf.mem.length := by
      rw [← hlen', hcap]
      exact hroom
    obtain ⟨mem, hcopy, hholds, hmem⟩ :=
      hw.holds.exists_copy hbuf.holds (i := 0) (n := b.length) (by omega) le_rfl hfit
    rw [List.take_length, List.drop_zero, List.take_length] at hholds
    have hchecked : checkedU64 (a.length + b.length) = some (a.length + b.length) :=
      checkedU64_of_lt (by omega)
    refine ⟨({ buf := { buf with mem }, len := a.length + b.length }, { w with len := 0 }), ?_,
      ⟨hmem.trans hcap, hholds, List.length_append.symm, hbuf.fits⟩, hempty⟩
    simp [hlen, hlen', hcopy, hchecked, Vec.setLen]

lemma Models.dropLast (n : ℕ) : Models e (v.dropLast n) (a.take (a.length - n)) := by
  have hdrop : ∀ (n : ℕ) (v : Vec T), v.dropLast n = { v with len := v.len - n } := by
    intro n
    induction n with
    | zero => intro v; rfl
    | succ n ih =>
      intro v
      rw [Vec.dropLast, ih, Nat.sub_sub, Nat.add_comm]
  rw [hdrop]
  refine ⟨h.length, h.holds.of_prefix (List.take_prefix _ _), ?_, h.fits⟩
  simp [h.len]

lemma Models.truncate (n : ℕ) : Models e (v.truncate n) (a.take n) := by
  have hlen := h.len
  rw [Vec.truncate]
  split_ifs with hn
  · rwa [List.take_of_length_le (by omega)]
  · have hdrop := h.dropLast (v.len - n)
    rwa [show a.length - (v.len - n) = n by omega] at hdrop

/-- The three operations that reserve and then push without a check. -/
lemma reserve_pushAll_iff (hxs : xs.length = k) :
    (∃ v', (v.reserve e k).bind (·.pushAllUnsafe xs) = some v' ∧ Models e v' (a ++ xs)) ↔
      v.Room e k := by
  simp only [Vec.reserve, Option.bind_eq_bind, Option.pure_def, Option.bind_assoc, Option.bind_some]
  exact reserve_bind_iff h fun buf hbuf hroom =>
    hbuf.exists_pushAllUnsafe xs (hxs ▸ hroom)

lemma resize_iff (hxs : xs.length = n - a.length) :
    (∃ v', (if n > v.len then (v.reserve e (n - v.len)).bind (·.pushAllUnsafe xs)
      else some (v.truncate n)) = some v' ∧ Models e v' (a.take n ++ xs)) ↔
      v.Room e (n - v.len) := by
  have hlen := h.len
  split_ifs with hn
  · rw [List.take_of_length_le (by omega)]
    exact reserve_pushAll_iff h (by omega)
  · have hnil : xs = [] := List.eq_nil_of_length_eq_zero (by omega)
    subst hnil
    have hle := h.le
    rw [List.append_nil]
    exact iff_of_true ⟨_, rfl, h.truncate n⟩ fun hroom => absurd hroom (by omega)

lemma reserve_iff (hspec : some (silent a) = some (o, a')) :
    (∃ v', (v.reserve e k).map silent = some (o, v') ∧ Models e v' a') ↔ v.Room e k := by
  cases hspec
  simp only [map_silent_eq_some, true_and]
  exact reserve_bind_iff h fun buf hbuf _ => ⟨_, rfl, hbuf⟩

end

/-! ### Operations that always do well -/

section

variable (h : Models e v a)

include h

lemma pop_iff (hspec : some (a.getLast?, a.dropLast) = some (o, a')) :
    (∃ v', v.pop = some (o, v') ∧ Models e v' a') ↔ True := by
  cases hspec
  refine iff_of_true ?_ trivial
  have hlen := h.len
  rcases List.eq_nil_or_concat' a with rfl | ⟨b, x, rfl⟩
  · have hzero : v.len = 0 := hlen
    exact ⟨v, by simp [Vec.pop, hzero], h⟩
  · rw [List.length_append, List.length_singleton] at hlen
    have hread : Buffer.read v.buf.mem b.length = some x := by
      rw [h.holds.read_eq (by simp)]
      simp
    refine ⟨{ v with len := b.length }, ?_, ?_⟩
    · simp [Vec.pop, hlen, hread]
    · rw [List.dropLast_concat]
      exact ⟨h.length, h.holds.of_prefix (List.prefix_append _ _), rfl, h.fits⟩

/-- The elements behind the index move down. -/
lemma remove_iff
    (hspec : (a[index]?.map fun x => (some x, a.take index ++ a.drop (index + 1))) = some (o, a')) :
    (∃ v', v.remove index = some (o, v') ∧ Models e v' a') ↔ True := by
  refine iff_of_true ?_ trivial
  have hlength := h.length
  have hlen := h.len
  have hle := h.le
  obtain ⟨x, hx, hspec⟩ := Option.map_eq_some_iff.mp hspec
  obtain ⟨hindex, rfl⟩ := List.getElem?_eq_some_iff.mp hx
  cases hspec
  have hindex' : index < v.len := by omega
  have hmove : ∃ mem, (if v.len - 1 - index > 0 then
      Buffer.copy v.buf.mem (index + 1) v.buf.mem index (v.len - 1 - index)
      else some v.buf.mem) = some mem ∧
      Buffer.Holds mem (a.take index ++ a.drop (index + 1)) ∧ mem.length = v.buf.mem.length := by
    by_cases hlast : v.len - 1 - index > 0
    · rw [if_pos hlast]
      obtain ⟨mem, hcopy, hholds, hmem⟩ :=
        h.holds.exists_copy h.holds (i := index + 1) (n := v.len - 1 - index) (j := index)
          (by omega) (by omega) (by omega)
      have htail : (a.drop (index + 1)).take (v.len - 1 - index) = a.drop (index + 1) :=
        List.take_of_length_le (by rw [List.length_drop]; omega)
      rw [htail] at hholds
      exact ⟨mem, hcopy, hholds, hmem⟩
    · rw [if_neg hlast, List.drop_eq_nil_of_le (by omega), List.append_nil]
      exact ⟨_, rfl, h.holds.of_prefix (List.take_prefix _ _), rfl⟩
  obtain ⟨mem, hmem, hholds, hmemlen⟩ := hmove
  refine ⟨{ buf := { v.buf with mem }, len := v.len - 1 }, ?_, hmemlen.trans hlength, hholds, ?_,
    h.fits⟩
  · simp only [Vec.remove, hindex', guard_true, Option.pure_def, some_bind, h.holds.read_eq hindex,
      hmem]
  · simp [hlen]
    omega

/-- The last element is written over the removed one. -/
lemma swapRemove_iff (hspec : swapRemoveList a index = some (o, a')) :
    (∃ v', v.swapRemove index = some (o, v') ∧ Models e v' a') ↔ True := by
  refine iff_of_true ?_ trivial
  have hlen := h.len
  have hle := h.le
  simp only [swapRemoveList, bind_eq_some, pure_eq_some, Prod.mk.injEq] at hspec
  obtain ⟨x, hx, last, hlast, rfl, rfl⟩ := hspec
  obtain ⟨hindex, rfl⟩ := List.getElem?_eq_some_iff.mp hx
  obtain ⟨mem, hwrite, hholds, hmem⟩ := h.holds.exists_write (x := last) hindex
  have hread : Buffer.read v.buf.mem (a.length - 1) = some last := by
    rw [List.getLast?_eq_getElem?] at hlast
    obtain ⟨hlt, rfl⟩ := List.getElem?_eq_some_iff.mp hlast
    exact h.holds.read_eq hlt
  have hset : a.length - 1 ≤ v.buf.cap := by omega
  refine ⟨{ buf := { v.buf with mem }, len := a.length - 1 }, ?_, hmem.trans h.length,
    hholds.of_prefix (List.dropLast_prefix _), ?_, h.fits⟩
  · simp [Vec.swapRemove, Vec.setLen, hlen, hindex, hread, hset, h.holds.read_eq hindex, hwrite]
  · simp

lemma truncate_iff (hspec : some (silent (a.take n)) = some (o, a')) :
    (∃ v', some (silent (v.truncate n)) = some (o, v') ∧ Models e v' a') ↔ True := by
  cases hspec
  exact iff_of_true ⟨_, rfl, h.truncate n⟩ trivial

lemma clear_iff (hspec : some (silent ([] : List T)) = some (o, a')) :
    (∃ v', some (silent v.clear) = some (o, v') ∧ Models e v' a') ↔ True := by
  cases hspec
  exact iff_of_true ⟨_, rfl, h.truncate 0⟩ trivial

lemma splitOff_iff
    (hspec : (if n ≤ a.length then some (silent (a.take n, a.drop n)) else none) =
      some (o, a', b')) :
    (∃ v' w, (v.splitOff e n).map silent = some (o, v', w) ∧ Models e v' a' ∧ Models e w b') ↔
      True := by
  split_ifs at hspec with hn
  cases hspec
  refine iff_of_true ?_ trivial
  have hlen := h.len
  have hle := h.le
  have hfits : e.Fits (a.length - n) := h.fits.mono (by omega)
  have hw := Vec.withCapacity_eq_some.mpr ⟨hfits, rfl⟩
  have hmodels := Models.fresh hfits
  have hcap : (Vec.fresh T (a.length - n)).buf.cap = a.length - n := rfl
  obtain ⟨mem, hcopy, hholds, hmem⟩ :=
    h.holds.exists_copy hmodels.holds (i := n) (j := 0) (n := a.length - n) (by omega) le_rfl
      (by rw [hmodels.length]; omega)
  rw [List.take_zero, List.nil_append, List.take_of_length_le (by simp)] at hholds
  have hn' : n ≤ v.buf.cap := by omega
  refine ⟨{ v with len := n }, { buf := { mem, cap := a.length - n }, len := a.length - n }, ?_,
    ⟨h.length, h.holds.of_prefix (List.take_prefix _ _), ?_, h.fits⟩,
    ⟨hmem.trans hmodels.length, hholds, ?_, hmodels.fits⟩⟩
  · simp [Vec.splitOff, hlen, hn, hw, hcopy, Vec.setLen, hn', hcap, silent]
  · simp [Nat.min_eq_left hn]
  · simp

lemma Models.exists_shrinkToFit (hle : a.length ≤ n) (hcap : n ≤ v.buf.cap) :
    ∃ buf, v.buf.shrinkToFit e n = some buf ∧ Models e { v with buf } a := by
  have hrealloc : e.realloc v.buf.mem n = some (Buffer.resize v.buf.mem n) :=
    Elem.realloc_eq_some.mpr ⟨h.fits.mono hcap, rfl⟩
  refine ⟨{ mem := Buffer.resize v.buf.mem n, cap := n }, ?_, Buffer.length_resize _ _,
    h.holds.resize hle, h.len, h.fits.mono hcap⟩
  simp [RmcRawVec.shrinkToFit, hcap, hrealloc]

lemma shrinkToFit_iff (hspec : some (silent a) = some (o, a')) :
    (∃ v', (v.shrinkToFit e).map silent = some (o, v') ∧ Models e v' a') ↔ True := by
  cases hspec
  refine iff_of_true ?_ trivial
  simp only [map_silent_eq_some, true_and]
  by_cases hcap : v.buf.cap > v.len
  · obtain ⟨buf, hbuf, hv'⟩ := h.exists_shrinkToFit h.len.ge hcap.le
    exact ⟨_, by simp [Vec.shrinkToFit, hcap, hbuf], hv'⟩
  · exact ⟨v, if_neg hcap, h⟩

lemma shrinkTo_iff (hspec : some (silent a) = some (o, a')) :
    (∃ v', (v.shrinkTo e n).map silent = some (o, v') ∧ Models e v' a') ↔ True := by
  cases hspec
  refine iff_of_true ?_ trivial
  simp only [map_silent_eq_some, true_and]
  by_cases hcap : v.buf.cap > n
  · have hlen := h.len
    have hle := h.le
    obtain ⟨buf, hbuf, hv'⟩ := h.exists_shrinkToFit (n := if v.len > n then v.len else n)
      (by split <;> omega) (by split <;> omega)
    exact ⟨_, by simp only [Vec.shrinkTo, hcap, if_true, hbuf, some_bind, Option.pure_def], hv'⟩
  · exact ⟨v, if_neg hcap, h⟩

end

end

/-! ### Runs -/

lemma forall_mem_true {x : Option α} : (∀ y ∈ x, True) ↔ True :=
  iff_of_true (fun _ _ => trivial) trivial

/-- An operation does what the lists do exactly when what it asks for is within the limit. -/
lemma stepIff : StepIff (Op.step e) Op.spec (List.Forall₂ (Models e)) (Op.Fits e) := by
  intro vs as op o as' h hspec
  cases op with
  | new => exact Store.create_iff new_iff h hspec
  | withCapacity cap => exact Store.create_iff withCapacity_iff h hspec
  | push i elem => exact Store.update_iff push_iff h hspec
  | pop i => exact (Store.update_iff pop_iff h hspec).trans forall_mem_true
  | insert i index elem => exact Store.update_iff insert_iff h hspec
  | remove i index => exact (Store.update_iff remove_iff h hspec).trans forall_mem_true
  | swapRemove i index => exact (Store.update_iff swapRemove_iff h hspec).trans forall_mem_true
  | truncate i len => exact (Store.update_iff truncate_iff h hspec).trans forall_mem_true
  | append i other => exact Store.updateTwo_iff append_iff h hspec
  | splitOff i at' => exact (Store.split_iff splitOff_iff h hspec).trans forall_mem_true
  | resize i newLen value =>
    refine Store.update_iff (fun h hspec => ?_) h hspec
    cases hspec
    simp only [map_silent_eq_some, true_and, Vec.resize, e.clone_eq, ← h.len]
    exact resize_iff h (by simp [h.len])
  | resizeWith i newLen f =>
    refine Store.update_iff (fun h hspec => ?_) h hspec
    cases hspec
    simp only [map_silent_eq_some, true_and, Vec.resizeWith, ← h.len]
    exact resize_iff h (by simp [h.len])
  | extendFromSlice i other =>
    refine Store.update_iff (fun h hspec => ?_) h hspec
    cases hspec
    simp only [map_silent_eq_some, true_and, Vec.extendFromSlice, e.map_clone]
    exact reserve_pushAll_iff h rfl
  | reserve i additional => exact Store.update_iff reserve_iff h hspec
  | shrinkTo i minCapacity => exact (Store.update_iff shrinkTo_iff h hspec).trans forall_mem_true
  | shrinkToFit i => exact (Store.update_iff shrinkToFit_iff h hspec).trans forall_mem_true
  | clear i => exact (Store.update_iff clear_iff h hspec).trans forall_mem_true

/-- The stub does what std's vectors do, and does not panic, exactly along the runs whose buffers
are within the limit of the allocator. -/
theorem follows_lists_iff (ops : List (Op T)) :
    Follows (Op.step e) Op.spec (List.Forall₂ (Models e)) [] [] ops ↔
      Along (Op.step e) Op.spec (Op.Fits e) [] [] ops :=
  follows_iff_along (stepIff e) .nil ops

end Rmc.Library.RmcVec

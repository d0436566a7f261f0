import Rmc.Library.RmcVec

/-!
# The constructors of the vector stub in Rust

The vectors of `rmc_vec.rs` that are made from other data. They push without a check into a buffer
that they allocated before, so an element that does not fit is written outside the buffer, which is
`none`. `from_iter` cannot know how many elements come and allocates the default capacity;
`from_raw_parts` compares the alignment of the elements with the one of the pointer itself.
-/

namespace Rmc.Library.RmcVec

open Simulation

/-! ### The stub -/

variable {T : Type} (e : Elem T)

/-- `align_of_val(&ptr)`, the alignment of a pointer. -/
def pointerAlign : ℕ := 8

namespace Vec

def fromIter (iter : List T) : Option (Vec T) := do
  (← new e).pushAllUnsafe iter

/-- `From<&[T]>` -/
def fromSlice (s : List T) : Option (Vec T) := do
  (← withCapacity e s.length).pushAllUnsafe (s.map e.clone)

/-- `From<&mut [T]>` -/
def fromMutSlice (s : List T) : Option (Vec T) := fromSlice e s

/-- `From<[T; N]>` -/
def fromArray (s : List T) : Option (Vec T) := do
  (← withCapacity e s.length).pushAllUnsafe s

def clone (v : Vec T) : Option (Vec T) := do
  let s ← Buffer.readAll v.buf.mem v.len
  (← withCapacity e v.len).pushAllUnsafe (s.map e.clone)

def fromRawParts (ptr : List (Option T)) (length capacity : ℕ) : Option (Vec T) := do
  guard (e.align = pointerAlign)
  guard (length ≤ capacity)
  let v ← withCapacity e capacity
  v.pushAllUnsafe (← Buffer.readAll ptr length)

end Vec

/-- A call of an operation or of a constructor. The vector whose parts `from_raw_parts` is given
is forgotten, and the new one takes its place. -/
inductive Call (T : Type) where
  | op (operation : Op T)
  | fromIter (iter : List T)
  | fromSlice (s : List T)
  | fromMutSlice (s : List T)
  | fromArray (s : List T)
  | clone (i : ℕ)
  | fromRawParts (i : ℕ)

def Call.step (vs : List (Vec T)) : Call T → Option (Option T × List (Vec T))
  | .op operation => operation.step e vs
  | .fromIter iter => Store.create vs none (Vec.fromIter e iter)
  | .fromSlice s => Store.create vs none (Vec.fromSlice e s)
  | .fromMutSlice s => Store.create vs none (Vec.fromMutSlice e s)
  | .fromArray s => Store.create vs none (Vec.fromArray e s)
  | .clone i => Store.split vs i fun v => (v.clone e).map fun w => silent (v, w)
  | .fromRawParts i => Store.update vs i fun v =>
    (Vec.fromRawParts e v.buf.mem v.len v.buf.cap).map silent

/-! ### Std's vectors -/

def Call.spec (as : List (List T)) : Call T → Option (Option T × List (List T))
  | .op operation => operation.spec as
  | .fromIter s | .fromSlice s | .fromMutSlice s | .fromArray s => Store.create as none (some s)
  | .clone i => Store.split as i fun a => some (silent (a, a))
  | .fromRawParts i => Store.update as i fun a => some (silent a)

/-- What a call needs of its argument, of the type of the elements and of the vectors before it. -/
def Call.Safe (vs : List (Vec T)) : Call T → Prop
  | .op operation => operation.Fits e vs
  | .fromIter iter => e.Fits defaultCapacity ∧ iter.length ≤ defaultCapacity
  | .fromSlice s | .fromMutSlice s | .fromArray s => e.Fits s.length
  | .clone _ => True
  | .fromRawParts i => ∀ _ ∈ vs[i]?, e.align = pointerAlign

/-! ### Pushing without a check -/

section

variable {e} {v v' : Vec T} {a a' b' xs : List T} {o : Option T} {n : ℕ} {x : T}

lemma cap_of_pushUnsafe (h : v.pushUnsafe x = some v') : v'.buf.cap = v.buf.cap := by
  simp only [Vec.pushUnsafe, bind_eq_some, pure_eq_some] at h
  obtain ⟨mem, -, len, -, rfl⟩ := h
  rfl

lemma cap_of_pushAllUnsafe (h : v.pushAllUnsafe xs = some v') : v'.buf.cap = v.buf.cap := by
  induction xs generalizing v with
  | nil => cases h; rfl
  | cons x xs ih =>
    obtain ⟨u, hpush, hall⟩ := bind_eq_some.mp h
    exact (ih hall).trans (cap_of_pushUnsafe hpush)

/-- The loop writes inside the buffer exactly when the elements fit. -/
lemma pushAllUnsafe_iff (h : Models e v a) :
    (∃ v', v.pushAllUnsafe xs = some v' ∧ Models e v' (a ++ xs)) ↔
      a.length + xs.length ≤ v.buf.cap := by
  constructor
  · rintro ⟨v', hall, hv'⟩
    rw [← cap_of_pushAllUnsafe hall, ← List.length_append, ← hv'.len]
    exact hv'.le
  · exact h.exists_pushAllUnsafe xs

lemma fromIter_iff (hspec : some xs = some a) :
    (∃ v, Vec.fromIter e xs = some v ∧ Models e v a) ↔
      e.Fits defaultCapacity ∧ xs.length ≤ defaultCapacity := by
  cases hspec
  constructor
  · rintro ⟨v, hv, hmodels⟩
    obtain ⟨u, hu, hall⟩ := bind_eq_some.mp hv
    obtain ⟨hfits, rfl⟩ := Vec.new_eq_some.mp hu
    have hle := (pushAllUnsafe_iff (Models.fresh hfits)).mp ⟨v, hall, hmodels⟩
    exact ⟨hfits, (Nat.le_add_left _ _).trans hle⟩
  · rintro ⟨hfits, hle⟩
    have hroom : 0 + a.length ≤ defaultCapacity := by omega
    obtain ⟨v, hall, hmodels⟩ := (Models.fresh hfits).exists_pushAllUnsafe a hroom
    exact ⟨v, bind_eq_some.mpr ⟨_, Vec.new_eq_some.mpr ⟨hfits, rfl⟩, hall⟩, hmodels⟩

/-- A buffer that was allocated for at least so many elements has room for them. -/
lemma withCapacity_pushAllUnsafe_iff (hn : xs.length ≤ n) :
    (∃ v, (Vec.withCapacity e n).bind (·.pushAllUnsafe xs) = some v ∧ Models e v xs) ↔
      e.Fits n := by
  constructor
  · rintro ⟨v, hv, -⟩
    obtain ⟨u, hu, -⟩ := bind_eq_some.mp hv
    exact (Vec.withCapacity_eq_some.mp hu).1
  · intro hfits
    have hroom : 0 + xs.length ≤ n := by omega
    obtain ⟨v, hall, hmodels⟩ := (Models.fresh hfits).exists_pushAllUnsafe xs hroom
    exact ⟨v, bind_eq_some.mpr ⟨_, Vec.withCapacity_eq_some.mpr ⟨hfits, rfl⟩, hall⟩, hmodels⟩

lemma fromArray_iff (hspec : some xs = some a) :
    (∃ v, Vec.fromArray e xs = some v ∧ Models e v a) ↔ e.Fits xs.length := by
  cases hspec
  exact withCapacity_pushAllUnsafe_iff le_rfl

lemma fromSlice_iff (hspec : some xs = some a) :
    (∃ v, Vec.fromSlice e xs = some v ∧ Models e v a) ↔ e.Fits xs.length := by
  rw [Vec.fromSlice, e.map_clone]
  exact fromArray_iff hspec

lemma readAll_eq (h : Models e v a) : Buffer.readAll v.buf.mem v.len = some a := by
  rw [h.len, h.holds.readAll_eq le_rfl, List.take_length]

lemma clone_iff (h : Models e v a) (hspec : some (silent (a, a)) = some (o, a', b')) :
    (∃ v' w, ((v.clone e).map fun w => silent (v, w)) = some (o, v', w) ∧ Models e v' a' ∧
      Models e w b') ↔ True := by
  cases hspec
  have hlen := h.len
  have hle := h.le
  obtain ⟨w, hw, hmodels⟩ :=
    (withCapacity_pushAllUnsafe_iff (hlen.ge : a.length ≤ v.len)).mpr (h.fits.mono hle)
  refine iff_of_true ⟨v, w, ?_, h, hmodels⟩ trivial
  have hclone : v.clone e = some w := by
    simpa only [Vec.clone, readAll_eq h, e.map_clone, Option.bind_eq_bind, Option.bind_some]
      using hw
  rw [hclone]
  rfl

/-- The elements are copied when their alignment is the one of a pointer. -/
lemma fromRawParts_iff (h : Models e v a) (hspec : some (silent a) = some (o, a')) :
    (∃ v', (Vec.fromRawParts e v.buf.mem v.len v.buf.cap).map silent = some (o, v') ∧
      Models e v' a') ↔ e.align = pointerAlign := by
  cases hspec
  have hlen := h.len
  have hle := h.le
  have hcopy := (withCapacity_pushAllUnsafe_iff (hlen ▸ hle : a.length ≤ v.buf.cap)).mpr h.fits
  simp only [map_silent_eq_some, true_and, Vec.fromRawParts, hle, readAll_eq h, Option.bind_eq_bind,
    Option.bind_some, guard_true, Option.pure_def, guard_bind_eq_some]
  constructor
  · rintro ⟨v', ⟨halign, -⟩, -⟩
    exact halign
  · intro halign
    obtain ⟨v', hv', hmodels⟩ := hcopy
    exact ⟨v', ⟨halign, hv'⟩, hmodels⟩

end

/-! ### Runs -/

lemma call_stepIff : StepIff (Call.step e) Call.spec (List.Forall₂ (Models e)) (Call.Safe e) := by
  intro vs as call o as' h hspec
  cases call with
  | op operation => exact stepIff e h hspec
  | fromIter iter => exact Store.create_iff fromIter_iff h hspec
  | fromSlice s => exact Store.create_iff fromSlice_iff h hspec
  | fromMutSlice s => exact Store.create_iff fromSlice_iff h hspec
  | fromArray s => exact Store.create_iff fromArray_iff h hspec
  | clone i => exact (Store.split_iff clone_iff h hspec).trans forall_mem_true
  | fromRawParts i => exact Store.update_iff fromRawParts_iff h hspec

/-- With the constructors, the stub does what std's vectors do, and writes inside its buffers,
exactly along the runs whose buffers are within the limit of the allocator, whose iterators are no
longer than the default capacity and whose parts are of elements aligned like a pointer. -/
theorem follows_constructors_iff (calls : List (Call T)) :
    Follows (Call.step e) Call.spec (List.Forall₂ (Models e)) [] [] calls ↔
      Along (Call.step e) Call.spec (Call.Safe e) [] [] calls :=
  follows_iff_along (call_stepIff e) .nil calls

/-- Elements that are copied bit by bit, and an allocator that serves what Rust can ask for. -/
def Elem.copy (T : Type) (size align : ℕ) (hsize : size ≠ 0) : Elem T where
  size
  size_ne_zero := hsize
  align
  clone := id
  clone_eq _ := rfl
  limit := isizeMax
  limit_le := le_rfl

/-- An iterator of one element more than the default capacity is written past the buffer, and the
parts of a vector of bytes are refused. -/
theorem not_follows_fromIter_fromRawParts :
    let e := Elem.copy UInt8 1 1 (by decide)
    ¬ Follows (Call.step e) Call.spec (List.Forall₂ (Models e)) [] []
        [.fromIter (List.replicate 1025 0)] ∧
      ¬ Follows (Call.step e) Call.spec (List.Forall₂ (Models e)) [] []
        [.op .new, .fromRawParts 0] := by
  intro e
  constructor
  · intro h
    obtain ⟨vs, hstep, hrel, -⟩ := h _ _ rfl
    obtain ⟨-, hle⟩ := (call_stepIff e .nil rfl).mp ⟨vs, hstep, hrel⟩
    rw [List.length_replicate] at hle
    exact absurd hle (by decide)
  · intro h
    obtain ⟨vs, hstep, hrel, h⟩ := h _ _ rfl
    obtain ⟨vs', hstep', hrel', -⟩ := h _ _ rfl
    have halign := (call_stepIff e hrel rfl).mp ⟨vs', hstep', hrel'⟩
    obtain ⟨v, hv, -⟩ := Store.exists_related hrel (i := 0) rfl
    exact absurd (halign v hv) (by decide)

end Rmc.Library.RmcVec

import Rmc.Lib.ByteMemory
import Rmc.Lib.RoundUp
import Rmc.Mir.Ty

/-!
# Places of MIR

A place is a local and a sequence of projections: follow a pointer, take a field, index, select a
variant. `Step` says which projections a place of some type has, and where in memory they lead;
`Run` is a whole sequence. Addresses are numbers modulo the size of the memory. A fat pointer is
the address and then its metadata: a length, or the address of a vtable, which has the alignment of
the value as its third word.

Slice patterns with a rest (`Subslice`) have no step.
-/

namespace Rmc.Mir

open ByteMemory RoundUp

variable {Ty : Type}

/-- One step of a projection. The source calls the bounds of a rest pattern `from` and `to`. -/
inductive ProjectionElem (Ty : Type) where
  | deref
  | field (f : ℕ) (ty : Ty)
  | index (i : ℕ)
  | constantIndex (offset minLength : ℕ) (fromEnd : Bool)
  | subslice (start stop : ℕ) (fromEnd : Bool)
  | downcast (idx : ℕ)
  deriving DecidableEq, Repr

structure Place (Ty : Type) where
  base : ℕ
  projection : List (ProjectionElem Ty)
  deriving DecidableEq, Repr

/-- The type of a place; after a downcast, a variant of a type. -/
inductive PlaceTy (Ty : Type) where
  | type (ty : Ty)
  | variant (ty : Ty) (idx : ℕ)
  deriving DecidableEq, Repr

/-- What the compiler knows about the values of types: what a box points to, and in bytes, how
large they are, where their fields are, and where the pointer of a box is. -/
structure LayoutQueries (Ty : Type) extends TyQueries Ty where
  boxedTy : Ty → Ty
  size : Ty → ℕ
  fieldOffset : PlaceTy Ty → ℕ → ℕ
  boxPointerOffset : Ty → ℕ

/-- The memory, and where the locals of a function are. -/
structure Frame where
  pointerWidth : ℕ
  isBigEndian : Bool
  memory : Memory
  address : ℕ → ℕ

namespace Frame

variable (fr : Frame)

def ptrBytes : ℕ := fr.pointerWidth / 8

/-- The number of a pointer's size at an address. -/
def loadPtr (p : ℕ) : ℕ := load fr.isBigEndian fr.memory p fr.ptrBytes

/-- The address so many bytes further. -/
def shift (p o : ℕ) : ℕ := (p + o) % 2 ^ fr.pointerWidth

/-- The metadata of the fat pointer at an address. -/
def metadata (p : ℕ) : ℕ := fr.loadPtr (fr.shift p fr.ptrBytes)

/-- The alignment of the value that the fat pointer at an address points to. -/
def dynamicAlign (p : ℕ) : ℕ := fr.loadPtr (fr.shift (fr.metadata p) (2 * fr.ptrBytes))

end Frame

/-- Where a place is. Also recorded is whether it was just reached through a pointer, and the last
fat pointer that was followed on the way: where it is, and the type that it points to. -/
structure Located (Ty : Type) where
  ty : PlaceTy Ty
  loc : ℕ
  behindPtr : Bool
  fatPtr : Option (ℕ × Ty)

section

variable (q : LayoutQueries Ty) (fr : Frame) (localTy : ℕ → Ty)

/-- What a value of this type points to (`builtin_deref`). -/
def LayoutQueries.pointee (t : Ty) : Option Ty :=
  match q.kind t with
  | .ref p | .rawPtr p => some p
  | .adt adtDef => if adtDef.isBox then some (q.boxedTy t) else none
  | _ => none

def LayoutQueries.isBox (t : Ty) : Bool :=
  match q.kind t with
  | .adt adtDef => adtDef.isBox
  | _ => false

/-- The elements of an array or slice. -/
def LayoutQueries.element (t : Ty) : Option Ty :=
  match q.kind t with
  | .array element _ | .slice element => some element
  | _ => none

/-- The field of a place of this type, and its type. The locals that a generator saves are not part
of its kind. -/
inductive FieldTy : PlaceTy Ty → ℕ → Ty → Prop
  | tuple {t ty : Ty} {elements : List Ty} {f : ℕ} (hkind : q.kind t = .tuple elements)
      (hf : elements[f]? = some ty) : FieldTy (.type t) f ty
  | closure {t ty : Ty} {upvars : List Ty} {f : ℕ} (hkind : q.kind t = .closure upvars)
      (hf : upvars[f]? = some ty) : FieldTy (.type t) f ty
  | adt {t ty : Ty} {adtDef : AdtDef Ty} {v : VariantDef Ty} {name : String} {f : ℕ}
      (hkind : q.kind t = .adt adtDef) (henum : adtDef.kind ≠ .enum)
      (hv : adtDef.variants[0]? = some v) (hf : v.fields[f]? = some (name, ty)) :
      FieldTy (.type t) f ty
  | variant {t ty : Ty} {adtDef : AdtDef Ty} {v : VariantDef Ty} {name : String} {idx f : ℕ}
      (hkind : q.kind t = .adt adtDef) (hv : adtDef.variants[idx]? = some v)
      (hf : v.fields[f]? = some (name, ty)) : FieldTy (.variant t idx) f ty
  | generator {t ty returnTy : Ty} {upvars : List Ty} {f : ℕ}
      (hkind : q.kind t = .generator upvars returnTy) (hf : upvars[f]? = some ty) :
      FieldTy (.type t) f ty
  | generatorVariant {t ty returnTy : Ty} {upvars : List Ty} {idx f : ℕ}
      (hkind : q.kind t = .generator upvars returnTy) : FieldTy (.variant t idx) f ty

/-- Where the pointer is in a reference, raw pointer or box. -/
def LayoutQueries.pointerAt (t : Ty) (loc : ℕ) : ℕ :=
  if q.isBox t then fr.shift loc (q.boxPointerOffset t) else loc

/-- The offset of a field. A field whose alignment is known only at run time is at the next
multiple of it; variants have no such fields. -/
def LayoutQueries.offsetIn (s : Located Ty) (f : ℕ) (ty : Ty) : ℕ :=
  match s.ty, q.ptrMetadataTy ty, s.fatPtr with
  | .type _, .vtable, some (p, _) => roundUp (q.fieldOffset s.ty f) (fr.dynamicAlign p)
  | _, _, _ => q.fieldOffset s.ty f

/-- One step of a projection from a place of a type that has it. -/
inductive Step : Located Ty → ProjectionElem Ty → Located Ty → Prop
  | deref {t p : Ty} {loc : ℕ} {b : Bool} {fat : Option (ℕ × Ty)} (hp : q.pointee t = some p) :
      Step ⟨.type t, loc, b, fat⟩ .deref
        ⟨.type p, fr.loadPtr (q.pointerAt fr t loc), true,
          if q.isUnsized p then some (q.pointerAt fr t loc, p) else fat⟩
  | field {s : Located Ty} {f : ℕ} {ty : Ty} (hf : FieldTy q s.ty f ty) :
      Step s (.field f ty) ⟨.type ty, fr.shift s.loc (q.offsetIn fr s f ty), false, s.fatPtr⟩
  | index {t element : Ty} {loc i : ℕ} {b : Bool} {fat : Option (ℕ × Ty)}
      (helement : q.element t = some element) (hi : q.kind (localTy i) = .uint .usize) :
      Step ⟨.type t, loc, b, fat⟩ (.index i)
        ⟨.type element, fr.shift loc (fr.loadPtr (fr.address i) * q.size element), false, fat⟩
  | constantIndexArray {t element : Ty} {loc len offset minLength : ℕ} {b fromEnd : Bool}
      {fat : Option (ℕ × Ty)} (hkind : q.kind t = .array element len) (hmin : minLength ≤ len)
      (hoffset : offset ≤ minLength) :
      Step ⟨.type t, loc, b, fat⟩ (.constantIndex offset minLength fromEnd)
        ⟨.type element, fr.shift loc ((if fromEnd then len - offset else offset) * q.size element),
          false, fat⟩
  | constantIndexFront {t element : Ty} {loc offset minLength : ℕ} {b : Bool}
      {fat : Option (ℕ × Ty)} (hkind : q.kind t = .slice element) :
      Step ⟨.type t, loc, b, fat⟩ (.constantIndex offset minLength false)
        ⟨.type element, fr.shift loc (offset * q.size element), false, fat⟩
  | constantIndexBack {t element pointee : Ty} {loc p offset minLength : ℕ} {b : Bool}
      (hkind : q.kind t = .slice element) (hlen : offset ≤ fr.metadata p) :
      -- the pattern has been tested against the length before
      Step ⟨.type t, loc, b, some (p, pointee)⟩ (.constantIndex offset minLength true)
        ⟨.type element, fr.shift loc ((fr.metadata p - offset) * q.size element), false,
          some (p, pointee)⟩
  | downcast {t : Ty} {adtDef : AdtDef Ty} {v : VariantDef Ty} {loc idx : ℕ} {b : Bool}
      {fat : Option (ℕ × Ty)} (hkind : q.kind t = .adt adtDef) (henum : adtDef.kind = .enum)
      (hv : adtDef.variants[idx]? = some v) :
      Step ⟨.type t, loc, b, fat⟩ (.downcast idx) ⟨.variant t idx, loc, false, fat⟩
  | downcastGenerator {t returnTy : Ty} {upvars : List Ty} {loc idx : ℕ} {b : Bool}
      {fat : Option (ℕ × Ty)} (hkind : q.kind t = .generator upvars returnTy) :
      Step ⟨.type t, loc, b, fat⟩ (.downcast idx) ⟨.variant t idx, loc, false, fat⟩

/-- Where the local of a place is. -/
def Located.start (l : ℕ) : Located Ty := ⟨.type (localTy l), fr.address l, false, none⟩

/-- A sequence of projections. -/
inductive Run : Located Ty → List (ProjectionElem Ty) → Located Ty → Prop
  | nil (s : Located Ty) : Run s [] s
  | cons {s s' s'' : Located Ty} {proj : ProjectionElem Ty} {projs : List (ProjectionElem Ty)}
      (step : Step q fr localTy s proj s') (run : Run s' projs s'') : Run s (proj :: projs) s''

variable {q fr localTy} {s s' s'' : Located Ty} {proj : ProjectionElem Ty}
  {projs : List (ProjectionElem Ty)}

/-- A place has at most one continuation by a projection. -/
lemma Step.unique (h : Step q fr localTy s proj s') (h' : Step q fr localTy s proj s'') :
    s' = s'' := by
  cases h with
  | deref hp =>
    cases h' with
    | deref hp' =>
      rw [hp, Option.some.injEq] at hp'
      subst hp'
      rfl
  | field hf =>
    cases h' with
    | field hf' => rfl
  | index helement hi =>
    cases h' with
    | index helement' hi' =>
      rw [helement, Option.some.injEq] at helement'
      subst helement'
      rfl
  | constantIndexArray hkind hmin hoffset =>
    cases h' with
    | constantIndexArray hkind' =>
      rw [hkind] at hkind'
      cases hkind'
      rfl
    | constantIndexFront hkind' | constantIndexBack hkind' =>
      rw [hkind] at hkind'
      cases hkind'
  | constantIndexFront hkind =>
    cases h' with
    | constantIndexArray hkind' =>
      rw [hkind] at hkind'
      cases hkind'
    | constantIndexFront hkind' =>
      rw [hkind] at hkind'
      cases hkind'
      rfl
  | constantIndexBack hkind hlen =>
    cases h' with
    | constantIndexArray hkind' =>
      rw [hkind] at hkind'
      cases hkind'
    | constantIndexBack hkind' =>
      rw [hkind] at hkind'
      cases hkind'
      rfl
  | downcast hkind henum hv | downcastGenerator hkind =>
    cases h' with
    | downcast hkind' | downcastGenerator hkind' => rfl

lemma Run.append {projs' : List (ProjectionElem Ty)} (h : Run q fr localTy s projs s')
    (h' : Run q fr localTy s' projs' s'') :
    Run q fr localTy s (projs ++ projs') s'' := by
  induction h with
  | nil s => exact h'
  | cons hstep _ ih => exact .cons hstep (ih h')

lemma run_concat :
    Run q fr localTy s (projs ++ [proj]) s'' ↔
      ∃ s', Run q fr localTy s projs s' ∧ Step q fr localTy s' proj s'' := by
  induction projs generalizing s with
  | nil =>
    constructor
    · rintro (_ | ⟨hstep, _ | _⟩)
      exact ⟨s, .nil s, hstep⟩
    · rintro ⟨s', _ | _, hstep⟩
      exact .cons hstep (.nil s'')
  | cons first projs ih =>
    constructor
    · rintro (_ | ⟨hstep, hrun⟩)
      obtain ⟨s', hrun, hlast⟩ := ih.mp hrun
      exact ⟨s', .cons hstep hrun, hlast⟩
    · rintro ⟨s', _ | ⟨hstep, hrun⟩, hlast⟩
      exact .cons hstep (ih.mpr ⟨s', hrun, hlast⟩)

lemma Run.unique (h : Run q fr localTy s projs s') (h' : Run q fr localTy s projs s'') :
    s' = s'' := by
  induction h with
  | nil s =>
    cases h'
    rfl
  | cons hstep _ ih =>
    obtain _ | ⟨hstep', hrun'⟩ := h'
    rw [hstep.unique hstep'] at ih
    exact ih hrun'

/-- A sequence of projections goes through a place before each of them. -/
lemma Run.exists_step (h : Run q fr localTy s projs s'') {n : ℕ} (hn : n < projs.length) :
    ∃ s₁ s₂, Run q fr localTy s (projs.take n) s₁ ∧ Step q fr localTy s₁ projs[n] s₂ := by
  induction h generalizing n with
  | nil s => simp at hn
  | cons hstep _ ih =>
    cases n with
    | zero => exact ⟨_, _, .nil _, hstep⟩
    | succ n =>
      obtain ⟨s₁, s₂, hrun, hstep'⟩ := ih (by simpa using hn)
      exact ⟨s₁, s₂, .cons hstep hrun, hstep'⟩

/-! ### Invariants -/

variable (q fr) in
/-- Places are within the memory, and a place of unknown size behind a pointer is what the last fat
pointer points to. -/
structure Located.Ok (s : Located Ty) : Prop where
  loc_lt : s.loc < 2 ^ fr.pointerWidth
  fatPtr : ∀ t, s.ty = .type t → s.behindPtr = true → q.isUnsized t = true →
    ∃ p, s.fatPtr = some (p, t)

lemma Frame.shift_lt (fr : Frame) (p o : ℕ) : fr.shift p o < 2 ^ fr.pointerWidth :=
  Nat.mod_lt _ (Nat.two_pow_pos _)

lemma Frame.loadPtr_lt (h : fr.pointerWidth % 8 = 0) (p : ℕ) :
    fr.loadPtr p < 2 ^ fr.pointerWidth := by
  have hlt := load_lt fr.isBigEndian fr.memory p fr.ptrBytes
  rwa [Frame.ptrBytes, Nat.mul_div_cancel' (Nat.dvd_of_mod_eq_zero h)] at hlt

lemma Step.ok (hwidth : fr.pointerWidth % 8 = 0) (h : Step q fr localTy s proj s')
    (hs : s.Ok q fr) :
    s'.Ok q fr := by
  cases h with
  | deref hp =>
    refine ⟨Frame.loadPtr_lt hwidth _, ?_⟩
    rintro t ht - hunsized
    cases ht
    exact ⟨_, if_pos hunsized⟩
  | field | index | constantIndexArray | constantIndexFront | constantIndexBack =>
    exact ⟨fr.shift_lt _ _, by simp⟩
  | downcast | downcastGenerator => exact ⟨hs.loc_lt, by simp⟩

lemma Run.ok (hwidth : fr.pointerWidth % 8 = 0) (h : Run q fr localTy s projs s') (hs : s.Ok q fr) :
    s'.Ok q fr := by
  induction h with
  | nil s => exact hs
  | cons hstep _ ih => exact ih (hstep.ok hwidth hs)

end

end Rmc.Mir

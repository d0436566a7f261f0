import Rmc.Codegen.Projection
import Rmc.Goto.Lvalue

/-!
# What the translation of a place denotes

The expression that `codegen_place` makes for a place denotes the place when it is at the same
location and has the translated type. Regular projections are those that the translation follows:
at most one pointer to a type of unknown size, types whose structs in the symbol table have their
parts where the compiler lays them out, and none of a few types that the translation does not
cover.
-/

namespace Rmc.Codegen

open OrdMap Mir TwosComplement ByteMemory

/-! ### Assumptions -/

section Assumptions

variable {Ty : Type}

/-- The types without a size that are known by their pointers. -/
def isDst : TyKind Ty → Bool
  | .slice _ | .str | .dynamic => true
  | _ => false

/-- Which types have no size, and what the pointers to them carry. -/
structure Lawful (q : TyQueries Ty) : Prop where
  slice : ∀ {t element}, q.kind t = .slice element →
    q.isUnsized t = true ∧ q.ptrMetadataTy t = .usize
  str : ∀ {t}, q.kind t = .str → q.isUnsized t = true ∧ q.ptrMetadataTy t = .usize
  dynamic : ∀ {t}, q.kind t = .dynamic → q.isUnsized t = true ∧ q.ptrMetadataTy t = .vtable
  foreign : ∀ {t}, q.kind t = .foreign → q.ptrMetadataTy t = .unit
  kind_of_isUnsized : ∀ {t}, q.isUnsized t = true → isDst (q.kind t) = true ∨
    q.kind t = .foreign ∨ (∃ adtDef, q.kind t = .adt adtDef ∧ adtDef.simd = false) ∨
    ∃ elements, q.kind t = .tuple elements

variable [Ranked String]

/-- The table has a struct with these components under the tag. -/
def StructEntered (st : SymbolTable) (t : Typ) (cs : List DatatypeComponent) : Prop :=
  ∃ tag s name, t = .structTag tag ∧ st.lookup tag = some s ∧ s.typ = .struct name cs

/-- A struct without components. -/
def EmptyStruct (st : SymbolTable) (t : Typ) : Prop :=
  t.isStructLike = true ∧ st.lookupComponentsInType t = some []

namespace PlaceCtx

variable (ctx : PlaceCtx Ty)

/-- The number of addresses. -/
def addresses : ℕ := 2 ^ ctx.symbolTable.machineModel.pointerWidth

/-- The struct of a fat pointer to a type. -/
def fatPtrTyp (p : Ty) : Option Typ := codegenFatPtr ctx.toTyQueries ctx.depth ctx.codegenTy p

/-- What the data pointer of a fat pointer to a type points to. -/
def dataTyp (p : Ty) : Option Typ :=
  match ctx.kind p with
  | .slice element => ctx.codegenTy element
  | .str => some .cChar
  | .dynamic => some .empty
  | .adt _ => ctx.codegenTy p
  | _ => none

/-- A box in the table: its pointer in a struct of its own, and its allocator. There is padding when
the allocator has a larger alignment. The pointer is where the compiler has it when there is none
and the allocator is empty. -/
structure BoxEntered (t : Ty) (boxTyp uniqueTyp allocTyp markerTyp pointerTyp : Typ)
    (boxFields uniqueFields : List DatatypeComponent) : Prop where
  alloc : ctx.codegenTy (ctx.allocTy t) = some allocTyp
  kind_mkPtr : ctx.kind (ctx.mkPtr (ctx.boxedTy t)) = .rawPtr (ctx.boxedTy t)
  pointer : ctx.codegenTy (ctx.mkPtr (ctx.boxedTy t)) = some pointerTyp
  box : StructEntered ctx.symbolTable boxTyp boxFields
  perm_box : (boxFields.filter fun c => !c.isPadding).Perm
    [.field "0" uniqueTyp, .field "1" allocTyp]
  unique : StructEntered ctx.symbolTable uniqueTyp uniqueFields
  perm_unique : uniqueFields.Perm [.field "_marker" markerTyp, .field "pointer" pointerTyp]
  marker : EmptyStruct ctx.symbolTable markerTyp
  placed : EmptyStruct ctx.symbolTable allocTyp → boxFields.length = 2 → ∃ o o',
    fieldOffset ctx.symbolTable boxTyp "0" = some o ∧
    fieldOffset ctx.symbolTable uniqueTyp "pointer" = some o' ∧
    o + o' ≡ ctx.boxPointerOffset t [MOD ctx.addresses]

/-- What the translation of types has put into the symbol table. -/
structure Entered : Prop where
  slicePtr : ∀ {p t}, ctx.fatPtrTyp p = some t → useSliceFatPointer ctx.toTyQueries p = true →
    ∃ e, ctx.dataTyp p = some e ∧
      StructEntered ctx.symbolTable t [.field "data" (.pointer e), .field "len" .sizeT]
  vtablePtr : ∀ {p t}, ctx.fatPtrTyp p = some t → useSliceFatPointer ctx.toTyQueries p = false →
    ∃ v, StructEntered ctx.symbolTable t [.field "data" .voidPointer, .field "vtable" (.pointer v)]
  arrayOfUnits : ∀ {a t element len}, ctx.codegenTy a = some t → ctx.kind a = .array element len →
    ctx.kind element = .tuple [] → StructEntered ctx.symbolTable t []
  array : ∀ {a t element len}, ctx.codegenTy a = some t → ctx.kind a = .array element len →
    ctx.kind element ≠ .tuple [] → ∃ e, ctx.codegenTy element = some e ∧
      StructEntered ctx.symbolTable t [.field "0" (.array e len)]
  box : ∀ {b t}, ctx.codegenTy b = some t → ctx.isBox b = true →
    ∃ uniqueTyp allocTyp markerTyp pointerTyp boxFields uniqueFields,
      ctx.BoxEntered b t uniqueTyp allocTyp markerTyp pointerTyp boxFields uniqueFields

/-- A machine with whole bytes, types in the table, and variables in memory apart from functions. -/
structure Valid (σ : State) : Prop where
  lawful : Lawful ctx.toTyQueries
  entered : ctx.Entered
  width : ctx.symbolTable.machineModel.pointerWidth % 8 = 0
  depth_pos : 0 < ctx.depth
  address_lt : ∀ x, σ.address x < ctx.addresses
  separate : ∀ t l, σ.address (ctx.fnName t) ≠ σ.address (ctx.codegenVarName l)

/-! ### What is to be shown -/

/-- The frame of the current function in a state. -/
def frame (σ : State) : Frame where
  pointerWidth := ctx.symbolTable.machineModel.pointerWidth
  isBigEndian := ctx.symbolTable.machineModel.isBigEndian
  memory := σ.memory
  address := fun l => σ.address (ctx.codegenVarName l)

/-- The struct or union has the field with its translated type, at an offset. -/
def FieldPlaced (t : Typ) (name : String) (ty : Ty) (offset : ℕ) : Prop :=
  ∃ t' o, ctx.codegenTy ty = some t' ∧ HasField ctx.symbolTable t name t' o ∧
    o ≡ offset [MOD ctx.addresses]

/-- The expression stands for a place. A slice, a `str` or a trait object behind a pointer is known
by the pointer to its data, every other place of a type by an lvalue of the translated type. A
variant is known by its fields. -/
def DenotesExpr (σ : State) (e : Expr) (tv : TypeOrVariant Ty) (s : Located Ty) : Prop :=
  match s.ty with
  | .type t => tv = .type t ∧
    if s.behindPtr && isDst (ctx.kind t) then
      (∃ d, ctx.dataTyp t = some d ∧ e.typ = .pointer d) ∧ e.eval ctx.symbolTable σ = some s.loc
    else ctx.codegenTy t = some e.typ ∧ e.addr ctx.symbolTable σ = some s.loc
  | .variant t idx => ∃ adtDef v a, ctx.kind t = .adt adtDef ∧ adtDef.variants[idx]? = some v ∧
    tv = .variant v ∧ e.addr ctx.symbolTable σ = some a ∧
    ∀ f name ty, v.fields[f]? = some (name, ty) →
      ∃ t' o, ctx.codegenTy ty = some t' ∧ HasField ctx.symbolTable e.typ name t' o ∧
        a + o ≡ s.loc + ctx.fieldOffset (.variant t idx) f [MOD ctx.addresses]

/-- The fat pointer that is kept is the last one that was followed. -/
def DenotesFatPtr (σ : State) (fatPtr : Option Expr) (fatPtrMirTyp : Option Ty) :
    Option (ℕ × Ty) → Prop
  | none => fatPtr = none ∧ fatPtrMirTyp = none
  | some (p, pointee) => ∃ f ty, fatPtr = some f ∧ fatPtrMirTyp = some ty ∧
    ctx.codegenTy ty = some f.typ ∧ ctx.fatPtrTyp pointee = some f.typ ∧
    f.addr ctx.symbolTable σ = some p

/-- The projected place is the place. -/
structure Denotes (σ : State) (p : ProjectedPlace Ty) (s : Located Ty) : Prop where
  expr : ctx.DenotesExpr σ p.gotoExpr p.mirTypOrVariant s
  fatPtr : ctx.DenotesFatPtr σ p.fatPtrGotoExpr p.fatPtrMirTyp s.fatPtr

/-- The translation of a place completes and denotes the place. -/
def Follows (σ : State) (place : Place Ty) : Prop :=
  ∃ s p, Run ctx.toLayoutQueries (ctx.frame σ) ctx.localTy
      (.start (ctx.frame σ) ctx.localTy place.base) place.projection s ∧
    ctx.codegenPlace place = some p ∧ ctx.Denotes σ p s

/-! ### Regular projections -/

/-- The type of a local is not a function item, nor raw pointers and boxes around one. -/
def EndsPlain : ℕ → Ty → Prop
  | 0, _ => False
  | n + 1, t =>
    match ctx.kind t with
    | .fnDef _ => False
    | .rawPtr p => EndsPlain n p
    | .adt adtDef =>
      if adtDef.isBox then (ctx.codegenTy t).isSome = true ∧ EndsPlain n (ctx.boxedTy t) else True
    | _ => True

/-- A local that the translation knows by its variable. -/
def RegularLocal (l : ℕ) : Prop :=
  (ctx.codegenTy (ctx.localTy l)).isSome = true ∧ ctx.EndsPlain ctx.depth (ctx.localTy l)

/-- The `i`-th element is so many elements of the translated type from the start. -/
def ElementPlaced (element : Ty) (i : ℕ) : Prop :=
  ∃ t n, ctx.codegenTy element = some t ∧ t.bytes ctx.symbolTable = some n ∧
    i * n ≡ i * ctx.size element [MOD ctx.addresses]

/-- The fields of a variant in the struct of the variant, which starts so far in the enum. -/
def VariantPlaced (t : Ty) (idx : ℕ) (v : Mir.VariantDef Ty) (caseTyp : Typ) (start : ℕ) : Prop :=
  ∀ f name ty, v.fields[f]? = some (name, ty) →
    ∃ t' o, ctx.codegenTy ty = some t' ∧ HasField ctx.symbolTable caseTyp name t' o ∧
      start + o ≡ ctx.fieldOffset (.variant t idx) f [MOD ctx.addresses]

/-- A box of a pointer and an empty allocator, without padding. -/
def PlainBox (t : Ty) : Prop :=
  (∃ a, ctx.codegenTy (ctx.allocTy t) = some a ∧ EmptyStruct ctx.symbolTable a) ∧
    ∃ t' components, ctx.codegenTy t = some t' ∧
      ctx.symbolTable.lookupComponentsInType t' = some components ∧ components.length = 2

/-- The projections that the translation follows, by the place that they are applied to. -/
inductive Regular (σ : State) (s : Located Ty) : ProjectionElem Ty → Prop
  | deref {t p : Ty} (ht : s.ty = .type t) (hp : ctx.pointee t = some p)
      (hfat : ctx.isUnsized p = true → s.fatPtr = none ∧ ctx.ptrMetadataTy p ≠ .unit)
      (hbox : ctx.isBox t = true → ctx.PlainBox t) : Regular σ s .deref
  | tupleField {t ty : Ty} {elements : List Ty} {t' : Typ} {f : ℕ} (ht : s.ty = .type t)
      (hkind : ctx.kind t = .tuple elements) (ht' : ctx.codegenTy t = some t')
      (hf : ctx.FieldPlaced t' (toString f) ty (ctx.offsetIn (ctx.frame σ) s f ty)) :
      Regular σ s (.field f ty)
  | closureField {t ty : Ty} {upvars : List Ty} {t' : Typ} {f : ℕ} (ht : s.ty = .type t)
      (hkind : ctx.kind t = .closure upvars) (ht' : ctx.codegenTy t = some t')
      (hf : ctx.FieldPlaced t' (toString f) ty (ctx.offsetIn (ctx.frame σ) s f ty)) :
      Regular σ s (.field f ty)
  | adtField {t ty ty' : Ty} {adtDef : AdtDef Ty} {v : Mir.VariantDef Ty} {t' : Typ} {f : ℕ}
      {name : String} (ht : s.ty = .type t) (hkind : ctx.kind t = .adt adtDef)
      (hsimd : adtDef.simd = false) (hv : adtDef.variants[0]? = some v)
      (hname : v.fields[f]? = some (name, ty')) (ht' : ctx.codegenTy t = some t')
      (hf : ctx.FieldPlaced t' name ty (ctx.offsetIn (ctx.frame σ) s f ty)) :
      Regular σ s (.field f ty)
  | lane {t ty : Ty} {adtDef : AdtDef Ty} {lane : Typ} {f n size : ℕ} (ht : s.ty = .type t)
      (hkind : ctx.kind t = .adt adtDef) (hsimd : adtDef.simd = true)
      (ht' : ctx.codegenTy t = some (.vector lane n)) (hlane : ctx.codegenTy ty = some lane)
      (hsize : lane.bytes ctx.symbolTable = some size)
      (hf : f * size ≡ ctx.offsetIn (ctx.frame σ) s f ty [MOD ctx.addresses]) :
      Regular σ s (.field f ty)
  | variantField {t ty : Ty} {idx f : ℕ} (ht : s.ty = .variant t idx) : Regular σ s (.field f ty)
  | indexArray {t element : Ty} {len i : ℕ} (ht : s.ty = .type t)
      (hkind : ctx.kind t = .array element len) (hunit : ctx.kind element ≠ .tuple [])
      (hi : ctx.ElementPlaced element ((ctx.frame σ).loadPtr ((ctx.frame σ).address i))) :
      Regular σ s (.index i)
  | indexSlice {t element : Ty} {i : ℕ} (ht : s.ty = .type t) (hkind : ctx.kind t = .slice element)
      (hi : ctx.ElementPlaced element ((ctx.frame σ).loadPtr ((ctx.frame σ).address i))) :
      Regular σ s (.index i)
  | constantIndexArray {t element : Ty} {len offset minLength : ℕ} {fromEnd : Bool}
      (ht : s.ty = .type t) (hkind : ctx.kind t = .array element len)
      (hunit : ctx.kind element ≠ .tuple [])
      (hi : ctx.ElementPlaced element (if fromEnd then len - offset else offset)) :
      Regular σ s (.constantIndex offset minLength fromEnd)
  | constantIndexFront {t element : Ty} {offset minLength : ℕ} (ht : s.ty = .type t)
      (hkind : ctx.kind t = .slice element) (hbehind : s.behindPtr = true)
      (hi : ctx.ElementPlaced element offset) : Regular σ s (.constantIndex offset minLength false)
  | constantIndexBack {t element pointee : Ty} {p offset minLength : ℕ} (ht : s.ty = .type t)
      (hkind : ctx.kind t = .slice element) (hbehind : s.behindPtr = true)
      (hfat : s.fatPtr = some (p, pointee))
      (hi : ctx.ElementPlaced element ((ctx.frame σ).metadata p - offset)) :
      Regular σ s (.constantIndex offset minLength true)
  | downcast {t : Ty} {adtDef : AdtDef Ty} {v : Mir.VariantDef Ty} {t' : Typ} {idx : ℕ}
      (ht : s.ty = .type t) (hkind : ctx.kind t = .adt adtDef)
      (hv : adtDef.variants[idx]? = some v) (ht' : ctx.codegenTy t = some t')
      (hdirect : ∀ tag, ctx.variants t ≠ .multiple tag .direct)
      (hplaced : ctx.VariantPlaced t idx v t' 0) : Regular σ s (.downcast idx)
  | downcastDirect {t : Ty} {adtDef : AdtDef Ty} {v : Mir.VariantDef Ty} {tag : Primitive}
      {t' casesTyp caseTyp : Typ} {idx o o' : ℕ}
      (ht : s.ty = .type t) (hkind : ctx.kind t = .adt adtDef)
      (hv : adtDef.variants[idx]? = some v) (ht' : ctx.codegenTy t = some t')
      (hdirect : ctx.variants t = .multiple tag .direct)
      (hcases : HasField ctx.symbolTable t' "cases" casesTyp o)
      (hcase : HasField ctx.symbolTable casesTyp v.name caseTyp o')
      (hplaced : ctx.VariantPlaced t idx v caseTyp (o + o')) : Regular σ s (.downcast idx)

/-- Each projection is regular at the place that the ones before it lead to. -/
def RegularRun (σ : State) (place : Place Ty) : Prop :=
  ctx.RegularLocal place.base ∧ ∀ n s proj,
    Run ctx.toLayoutQueries (ctx.frame σ) ctx.localTy
      (.start (ctx.frame σ) ctx.localTy place.base) (place.projection.take n) s →
    place.projection[n]? = some proj → ctx.Regular σ s proj

end PlaceCtx

end Assumptions

end Rmc.Codegen

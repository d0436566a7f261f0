import Rmc.Codegen.Discriminant
import Rmc.Codegen.MirTy
import Rmc.Mir.Place

/-!
# Translation of places

`codegen_place` (`place.rs`) follows the projections of a place and makes the expression for each
place on the way. A place of a slice, a `str` or a trait object that was reached through a pointer
becomes the pointer to its data. The last fat pointer that was followed is kept for those who need
its length or vtable.

`none` is a panic. The chain of pointers to a function item is followed to the same depth as the
unsized tails of `codegen_ty`.
-/

namespace Rmc.Codegen

open OrdMap Mir

/-! ### Shapes of structs -/

section Shapes

variable [Ranked String] (st : SymbolTable)

/-- Some component has the name, and a type as required. -/
def hasComponent (cs : List DatatypeComponent) (name : String) (p : Typ → Bool) : Option Bool :=
  cs.anyM fun c => if c.name = name then do return p (← c.typ) else some false

/-- A struct of two components, a pointer `data` and the metadata. -/
def isFatPtrStruct (metadata : String) (p : Typ → Bool) : Typ → Option Bool
  | .struct _ cs =>
    if cs.length = 2 then do
      if ← hasComponent cs "data" Typ.isPointer then hasComponent cs metadata p
      else return false
    else some false
  | _ => some false

/-- The struct under a tag. What the table has under the tag of a struct is never a tag again. -/
def resolveTag : Typ → Option Typ
  | .structTag tag => do return (← st.lookup tag).typ
  | t => some t

def isRustSliceFatPtr (t : Typ) : Option Bool := do
  isFatPtrStruct "len" Typ.isInteger (← resolveTag st t)

def isRustTraitFatPtr (t : Typ) : Option Bool := do
  isFatPtrStruct "vtable" Typ.isPointer (← resolveTag st t)

def isRustFatPtr (t : Typ) : Option Bool := do
  if ← isRustSliceFatPtr st t then return true else isRustTraitFatPtr st t

/-- A struct without components. -/
def assertIsEmptyStruct (t : Typ) : Option Unit := do
  guard t.isStructLike
  guard ((← st.lookupComponentsInType t).length = 0)

def assertIsRustGlobalAllocLike (t : Typ) : Option Unit := assertIsEmptyStruct st t

def assertIsRustPhantomDataLike (t : Typ) : Option Unit := assertIsEmptyStruct st t

def assertIsRustUniquePointerLike (t : Typ) : Option Unit := do
  guard t.isStructLike
  let components ← st.lookupComponentsInType t
  guard (components.length = 2)
  components.forM fun c =>
    if c.name = "_marker" then do assertIsRustPhantomDataLike st (← c.typ)
    else if c.name = "pointer" then do
      let t ← c.typ
      if t.isPointer then return () else guard (← isRustFatPtr st t)
    else none

def assertIsRustBoxLike (t : Typ) : Option Unit := do
  guard t.isStructLike
  let components ← st.lookupComponentsInType t
  guard (components.length = 2)
  components.forM fun c =>
    if c.name = "0" then do assertIsRustUniquePointerLike st (← c.typ)
    else if c.name = "1" then do assertIsRustGlobalAllocLike st (← c.typ)
    else none

/-- The pointer of a box. -/
def derefBox (e : Expr) : Option Expr := do
  assertIsRustBoxLike st e.typ
  (← e.member "0" st).member "pointer" st

/-- A box with a pointer in it. -/
def boxValue (boxedValue : Expr) (boxedType : Typ) : Option Expr := do
  assertIsRustBoxLike st boxedType
  let uniquePtrTyp ← st.lookupFieldTypeInType boxedType "0"
  assertIsRustUniquePointerLike st uniquePtrTyp
  let uniquePtrPointerTyp ← st.lookupFieldTypeInType uniquePtrTyp "pointer"
  guard (uniquePtrPointerTyp == boxedValue.typ)
  let uniquePtrVal ← Expr.structExprWithNondetFields uniquePtrTyp
    (OrdMap.empty.insert "pointer" boxedValue) st
  Expr.structExprWithNondetFields boxedType (OrdMap.empty.insert "0" uniquePtrVal) st

def sliceFatPtr (typ : Typ) (data len : Expr) : Option Expr :=
  Expr.structExpr typ ((OrdMap.empty.insert "data" data).insert "len" len) st

def dynamicFatPtr (typ : Typ) (data vtable : Expr) : Option Expr :=
  Expr.structExpr typ ((OrdMap.empty.insert "data" data).insert "vtable" vtable) st

/-- An element of an array. The translation wraps arrays in a struct. -/
def codegenIdxArray (arr idx : Expr) : Option Expr := do (← arr.member "0" st).indexArray idx

end Shapes

/-- The result of an expression goes to a place, unless the place is of the unit type. -/
def codegenExprToPlace [DebugTyp] (isUnit : Bool) (place e : Expr) : Option Stmt :=
  if isUnit then some (Stmt.codeExpression e .none) else Stmt.assign place e .none

/-- An expression for what is not supported: it fails an assertion and then has any value. -/
def codegenUnimplemented (operationName : String) (t : Typ) (loc : Location) (url : String) :
    Option Expr := do
  let body := [
    ← Stmt.assertFalse (operationName ++
      " is not currently supported by RMC. Please post your example at " ++ url ++ " ") loc,
    ← Stmt.assume Expr.boolFalse loc,
    Stmt.codeExpression t.nondet loc]
  return (← Expr.statementExpression body t).withLocation loc

/-! ### The context -/

/-- What the compiler answers in the translation of places: the allocator of a box, pointers to
types and slices of them, how variants are laid out, and the symbols of function items. -/
structure PlaceQueries (Ty : Type) extends LayoutQueries Ty where
  allocTy : Ty → Ty
  mkPtr : Ty → Ty
  mkSlice : Ty → Ty
  variants : Ty → Variants
  fnName : Ty → String

/-- The state of the translation in a function, as far as places depend on it. -/
structure PlaceCtx [Ranked String] (Ty : Type) extends PlaceQueries Ty where
  depth : ℕ
  translation : TyTranslation toTyQueries depth
  symbolTable : SymbolTable
  localTy : ℕ → Ty
  codegenVarName : ℕ → String

/-- A projection is to a type or, after a downcast, to a variant. -/
inductive TypeOrVariant (Ty : Type) where
  | type (ty : Ty)
  | variant (v : Mir.VariantDef Ty)

def TypeOrVariant.expectType {Ty : Type} : TypeOrVariant Ty → Option Ty
  | .type t => some t
  | .variant _ => none

/-- The expression for a place, its type, and the fat pointer that was followed to it. -/
structure ProjectedPlace (Ty : Type) where
  gotoExpr : Expr
  mirTypOrVariant : TypeOrVariant Ty
  fatPtrGotoExpr : Option Expr
  fatPtrMirTyp : Option Ty

/-- The type of the place, which is not a variant. -/
def ProjectedPlace.mirTyp {Ty : Type} (p : ProjectedPlace Ty) : Option Ty :=
  p.mirTypOrVariant.expectType

namespace PlaceCtx

variable [Ranked String] {Ty : Type} (ctx : PlaceCtx Ty)

def codegenTy (t : Ty) : Option Typ := ctx.translation.codegenTy t

def isRefOfUnsized (t : Ty) : Bool :=
  match ctx.kind t with
  | .ref p | .rawPtr p => ctx.isUnsized p
  | _ => false

def isBoxOfUnsized (t : Ty) : Bool := ctx.isBox t && ctx.isUnsized (ctx.boxedTy t)

/-! ### Locals -/

def codegenFndef (ty : Ty) : Option Expr := do
  return Expr.symbolExpression (ctx.fnName ty) (← ctx.codegenTy ty)

/-- The function that a local of this type stands for. The local may be the function item, or raw
pointers and boxes around it. -/
def codegenLocalFndef : ℕ → Ty → Option (Option Expr)
  | 0, _ => none
  | depth + 1, ty =>
    match ctx.kind ty with
    | .fnDef _ => do return some (← ctx.codegenFndef ty)
    | .rawPtr inner => do
      match ← codegenLocalFndef depth inner with
      | some f => if f.canTakeAddressOf then return some (← f.addressOf) else return some f
      | none => return none
    | .adt adtDef =>
      if adtDef.isBox then do
        let boxedTy ← ctx.codegenTy ty
        match ← codegenLocalFndef depth (ctx.boxedTy ty) with
        | some f => return some (← boxValue ctx.symbolTable (← f.addressOf) boxedTy)
        | none => return none
      else some none
    | _ => some none

def codegenLocal (l : ℕ) : Option Expr := do
  match ← ctx.codegenLocalFndef ctx.depth (ctx.localTy l) with
  | some fnDef => return fnDef
  | none => return Expr.symbolExpression (ctx.codegenVarName l) (← ctx.codegenTy (ctx.localTy l))

/-! ### Projections -/

/-- The fat pointer has the shape of one, and the type of its MIR type. -/
def checkFatPtrTyp (fatPtr : Option Expr) (fatPtrTyp : Option Ty) : Option Bool :=
  match fatPtr with
  | some fatPtr => do
    if ← isRustFatPtr ctx.symbolTable fatPtr.typ then
      return fatPtr.typ == (← ctx.codegenTy (← fatPtrTyp))
    else return false
  | none => some true

/-- A projected place, after its checks. That the types of the expression and of the place differ
is only a warning, but the type of the place is translated for it. -/
def projectedPlace (gotoExpr : Expr) (mirTypOrVariant : TypeOrVariant Ty)
    (fatPtrGotoExpr : Option Expr) (fatPtrMirTyp : Option Ty) : Option (ProjectedPlace Ty) := do
  match fatPtrGotoExpr with
  | some fatPtr => guard (← isRustFatPtr ctx.symbolTable fatPtr.typ)
  | none => pure ()
  match mirTypOrVariant with
  | .type t => let _ ← ctx.codegenTy t
  | .variant _ => pure ()
  guard (← ctx.checkFatPtrTyp fatPtrGotoExpr fatPtrMirTyp)
  return ⟨gotoExpr, mirTypOrVariant, fatPtrGotoExpr, fatPtrMirTyp⟩

def codegenField (res : Expr) (t : TypeOrVariant Ty) (f : ℕ) : Option Expr :=
  match t with
  | .type t =>
    match ctx.kind t with
    | .tuple _ => res.member (toString f) ctx.symbolTable
    | .adt adtDef =>
      if adtDef.simd then do
        -- the field is an element of a vector
        res.indexArray (← Expr.intConstant f .sizeT)
      else do
        let (name, _) ← (← adtDef.variants[0]?).fields[f]?
        res.member name ctx.symbolTable
    | .closure _ => res.member (toString f) ctx.symbolTable
    | .generator _ _ =>
      codegenUnimplemented "ty::Generator" (.code [] .empty) res.location
        "https://github.com/model-checking/rmc/issues/416"
    | _ => none
  | .variant v => do
    let (name, _) ← v.fields[f]?
    res.member name ctx.symbolTable

/-- The pointer that is followed, which in a box is one of its fields. -/
def innerGotoExpr (baseType : Ty) (e : Expr) : Option Expr :=
  if ctx.isBox baseType then derefBox ctx.symbolTable e else some e

/-- The type of the fat pointer after a pointer is followed. The one of a box is a raw pointer. -/
def derefFatPtrMirTyp (before : ProjectedPlace Ty) (baseType innerMirTyp : Ty) :
    Option (Option Ty) :=
  if ctx.isBoxOfUnsized baseType then do
    guard before.fatPtrMirTyp.isNone
    return some (ctx.mkPtr innerMirTyp)
  else if ctx.isRefOfUnsized baseType then do
    guard before.fatPtrMirTyp.isNone
    return some baseType
  else some before.fatPtrMirTyp

def derefFatPtrGotoExpr (before : ProjectedPlace Ty) (baseType : Ty) (innerGotoExpr : Expr) :
    Option (Option Expr) :=
  if ctx.isBoxOfUnsized baseType || ctx.isRefOfUnsized baseType then do
    guard before.fatPtrGotoExpr.isNone
    return some innerGotoExpr
  else some before.fatPtrGotoExpr

/-- A valid trait or slice fat pointer. -/
def assertIsFatPtr (fatPtr : Option Expr) : Option Unit :=
  match fatPtr with
  | some fatPtr => do
    if ← isRustTraitFatPtr ctx.symbolTable fatPtr.typ then return ()
    else guard (← isRustSliceFatPtr ctx.symbolTable fatPtr.typ)
  | none => some ()

/-- The expression for what a pointer leads to. -/
def derefExpr (innerMirTyp : Ty) (innerGotoExpr : Expr) : Option Expr :=
  match ctx.kind innerMirTyp with
  | .slice _ | .str | .dynamic => innerGotoExpr.member "data" ctx.symbolTable
  | .adt _ =>
    if ctx.isUnsized innerMirTyp then do
      -- the data of a vtable fat pointer is a void pointer
      let data ← innerGotoExpr.member "data" ctx.symbolTable
      (← data.castTo (← ctx.codegenTy innerMirTyp).toPointer).dereference
    else innerGotoExpr.dereference
  | _ => innerGotoExpr.dereference

def codegenDeref (before : ProjectedPlace Ty) : Option (ProjectedPlace Ty) := do
  let baseType ← before.mirTyp
  let innerGotoExpr ← ctx.innerGotoExpr baseType before.gotoExpr
  let innerMirTyp ← ctx.pointee baseType
  let fatPtrMirTyp ← ctx.derefFatPtrMirTyp before baseType innerMirTyp
  let fatPtrGotoExpr ← ctx.derefFatPtrGotoExpr before baseType innerGotoExpr
  ctx.assertIsFatPtr fatPtrGotoExpr
  let expr ← ctx.derefExpr innerMirTyp innerGotoExpr
  ctx.projectedPlace expr (.type innerMirTyp) fatPtrGotoExpr fatPtrMirTyp

/-- The element of an array or slice. -/
def indexExpr (baseType : Ty) (e idxe : Expr) : Option (Expr × Ty) :=
  match ctx.kind baseType with
  | .array element _ => do return (← codegenIdxArray ctx.symbolTable e idxe, element)
  | .slice element => do return (← e.index idxe, element)
  | _ => none

def codegenIndex (before : ProjectedPlace Ty) (i : ℕ) : Option (ProjectedPlace Ty) := do
  let baseType ← before.mirTyp
  let idxe ← ctx.codegenLocal i
  let (expr, element) ← ctx.indexExpr baseType before.gotoExpr idxe
  ctx.projectedPlace expr (.type element) before.fatPtrGotoExpr before.fatPtrMirTyp

/-- The index in a slice, which may count from its end. -/
def sliceIndex (before : ProjectedPlace Ty) (offset : ℕ) (fromEnd : Bool) : Option Expr := do
  let offsetE ← Expr.intConstant offset .sizeT
  if fromEnd then do
    let length ← (← before.fatPtrGotoExpr).member "len" ctx.symbolTable
    length.sub offsetE
  else return offsetE

/-- The element of a slice pattern. -/
def codegenConstantIndex (before : ProjectedPlace Ty) (offset minLength : ℕ) (fromEnd : Bool) :
    Option (ProjectedPlace Ty) := do
  match ctx.kind (← before.mirTyp) with
  | .array element length => do
    guard (minLength ≤ length)
    let idx := if fromEnd then length - offset else offset
    let idxe ← Expr.intConstant idx .ssizeT
    let expr ← codegenIdxArray ctx.symbolTable before.gotoExpr idxe
    ctx.projectedPlace expr (.type element) before.fatPtrGotoExpr before.fatPtrMirTyp
  | .slice element => do
    let idxe ← ctx.sliceIndex before offset fromEnd
    let expr ← (← before.gotoExpr.plus idxe).dereference
    ctx.projectedPlace expr (.type element) before.fatPtrGotoExpr before.fatPtrMirTyp
  | _ => none

/-- The rest of a slice pattern, which is a fat pointer of its own. -/
def codegenSubslice (before : ProjectedPlace Ty) (start stop : ℕ) (fromEnd : Bool) :
    Option (ProjectedPlace Ty) := do
  match ctx.kind (← before.mirTyp) with
  | .slice element =>
    let len ←
      if fromEnd then do
        let olen ← (← before.fatPtrGotoExpr).member "len" ctx.symbolTable
        olen.sub (← Expr.intConstant (stop + start) .sizeT)
      else Expr.intConstant ((stop : ℤ) - start) .sizeT
    let ptrTyp := ctx.mkPtr (ctx.mkSlice element)
    let gotoType ← ctx.codegenTy ptrTyp
    let fromElem ← before.gotoExpr.index (← Expr.intConstant start .ssizeT)
    let fatPtr ← sliceFatPtr ctx.symbolTable gotoType (← fromElem.addressOf) len
    ctx.projectedPlace fatPtr (.type ptrTyp) (some fatPtr) (some ptrTyp)
  | _ => none

/-- The part of an enum that has the fields of a variant. -/
def variantExpr (t : Ty) (variant : Mir.VariantDef Ty) (e : Expr) : Option Expr :=
  match ctx.variants t with
  | .multiple _ .direct => do
    (← e.member "cases" ctx.symbolTable).member variant.name ctx.symbolTable
  | .single _ | .multiple _ (.niche _ _ _ _) => some e

/-- One of the cases of an enum. -/
def codegenDowncast (before : ProjectedPlace Ty) (idx : ℕ) : Option (ProjectedPlace Ty) := do
  let t ← before.mirTyp
  match ctx.kind t with
  | .adt adtDef => do
    let variant ← adtDef.variants[idx]?
    let expr ← ctx.variantExpr t variant before.gotoExpr
    ctx.projectedPlace expr (.variant variant) before.fatPtrGotoExpr before.fatPtrMirTyp
  | _ => none

def codegenProjection (before : ProjectedPlace Ty) : ProjectionElem Ty → Option (ProjectedPlace Ty)
  | .deref => ctx.codegenDeref before
  | .field f t => do
    let expr ← ctx.codegenField before.gotoExpr before.mirTypOrVariant f
    ctx.projectedPlace expr (.type t) before.fatPtrGotoExpr before.fatPtrMirTyp
  | .index i => ctx.codegenIndex before i
  | .constantIndex offset minLength fromEnd =>
    ctx.codegenConstantIndex before offset minLength fromEnd
  | .subslice start stop fromEnd => ctx.codegenSubslice before start stop fromEnd
  | .downcast idx => ctx.codegenDowncast before idx

/-- The place of a local. -/
def initialProjection (l : ℕ) : Option (ProjectedPlace Ty) := do
  ctx.projectedPlace (← ctx.codegenLocal l) (.type (ctx.localTy l)) none none

def codegenPlace (p : Place Ty) : Option (ProjectedPlace Ty) := do
  p.projection.foldlM ctx.codegenProjection (← ctx.initialProjection p.base)

end PlaceCtx

end Rmc.Codegen

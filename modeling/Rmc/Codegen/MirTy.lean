import Rmc.Codegen.UnsizedTail
import Rmc.Goto.Typ

/-!
# Types of MIR as types of goto programs

The type that `codegen_ty` (`typ.rs`) gives for a type of MIR. It is recursive through pointers and
function signatures, so the arms of `codegen_ty_inner` are an operator, and `codegen_ty` is a
function that the operator leaves as it is (`TyTranslation`). Structs and unions are referred to by
their tags here; what stands in the symbol table under a tag is not part of this.
-/

namespace Rmc.Codegen

open OrdMap Mir

variable {Ty : Type}

/-- A variable of this type is not passed to a function. -/
def ignoreVarTy (tcx : TyCtxt Ty) (ty : Ty) : Bool :=
  match tcx.kind ty with
  | .fnDef _ => true
  | _ => false

def codegenIint : IntTy → Typ
  | .i8 => .signedbv 8
  | .i16 => .signedbv 16
  | .i32 => .signedbv 32
  | .i64 => .signedbv 64
  | .i128 => .signedbv 128
  | .isize => .ssizeT

def codegenUint : UintTy → Typ
  | .u8 => .unsignedbv 8
  | .u16 => .unsignedbv 16
  | .u32 => .unsignedbv 32
  | .u64 => .unsignedbv 64
  | .u128 => .unsignedbv 128
  | .usize => .sizeT

section Pointers

variable (q : TyQueries Ty)

def useThinPointer (mirType : Ty) : Bool := !q.isUnsized mirType || q.ptrMetadataTy mirType == .unit

def useSliceFatPointer (mirType : Ty) : Bool := q.ptrMetadataTy mirType == .usize

def useVtableFatPointer (mirType : Ty) : Bool :=
  q.ptrMetadataTy mirType != .unit && q.ptrMetadataTy mirType != .usize

end Pointers

section Inner

variable [Ranked String] (q : TyQueries Ty) (depth : ℕ) (codegenTy : Ty → Option Typ)

/-- The type of a function with this signature. -/
def codegenFunctionSig (sig : FnSig Ty) : Option Typ := do
  let params ← (sig.inputs.filter fun t => !ignoreVarTy q.toTyCtxt t).mapM codegenTy
  if sig.cVariadic then
    return .variadicCodeWithUnnamedParameters params (← codegenTy sig.output)
  else Typ.codeWithUnnamedParameters params (← codegenTy sig.output)

/-- The struct of a pointer with its metadata. -/
def codegenFatPtr (mirType : Ty) : Option Typ :=
  if useThinPointer q mirType then none
  else if useSliceFatPointer q mirType then
    match q.kind mirType with
    | .slice element => do
      let _ ← codegenTy element
      return .mkStructTag (q.tyMangledName mirType)
    | .str => some (.mkStructTag "str")
    | .adt _ => do
      let _ ← codegenTy mirType
      return .mkStructTag ("&" ++ q.tyMangledName mirType)
    | _ => none
  else do
    let (_, traitType) ← (← nestedPairOfConcreteAndTraitTypes q.toTyCtxt depth mirType mirType)
    return .mkStructTag (q.tyMangledName traitType)

/-- The type of references and raw pointers to a type. -/
def codegenTyRef (pointeeType : Ty) : Option Typ :=
  if !useThinPointer q pointeeType then codegenFatPtr q depth codegenTy pointeeType
  else match q.kind pointeeType with
    | .dynamic | .slice _ | .str | .generator _ _ => none
    | _ => do return (← codegenTy pointeeType).toPointer

/-- The arms of the translation of types. -/
def codegenTyInner (ty : Ty) : Option Typ :=
  match q.kind ty with
  | .int k => some (codegenIint k)
  | .bool => some .cBool
  | .char => Typ.signedInt 32
  | .uint k => some (codegenUint k)
  | .float .f32 => some .float
  | .float .f64 => some .double
  | .adt adtDef =>
    if adtDef.simd then do
      let (element, size) ← q.vectorAbi ty
      Typ.mkVector (← codegenTy element) size
    else match adtDef.kind with
      | .struct | .enum => some (.mkStructTag (q.tyMangledName ty))
      | .union => some (.mkUnionTag (q.tyMangledName ty))
  | .foreign => some (.mkStructTag (q.tyMangledName ty))
  | .array element len =>
    some (.mkStructTag ("[" ++ q.tyMangledName element ++ "; " ++ toString len ++ "]"))
  | .dynamic => codegenFatPtr q depth codegenTy ty
  | .slice element => do return (← codegenTy element).flexibleArrayOf
  | .str => some (Typ.cChar.arrayOf 0)
  | .ref pointee | .rawPtr pointee => codegenTyRef q depth codegenTy pointee
  | .fnDef sig => codegenFunctionSig q codegenTy sig
  | .fnPtr sig => do return (← codegenFunctionSig q codegenTy sig).toPointer
  | .closure _ => some (.mkStructTag (q.tyMangledName ty))
  | .generator upvars returnTy => do
    let tys ← upvars.mapM codegenTy
    Typ.codeWithUnnamedParameters tys (← codegenTy returnTy)
  | .never => some (.mkStructTag "Never")
  | .tuple [] => some (.mkStructTag "Unit")
  | .tuple (_ :: _) => some (.mkStructTag (q.tyMangledName ty))

end Inner

/-- A function that the arms of the translation leave as it is. `none` is a panic. -/
structure TyTranslation [Ranked String] (q : TyQueries Ty) (depth : ℕ) where
  codegenTy : Ty → Option Typ
  codegenTy_eq : ∀ ty, codegenTy ty = codegenTyInner q depth codegenTy ty

/-! ### Types of parameters -/

/-- Types whose translation can be passed to a function. -/
def isPassable : TyKind Ty → Bool
  | .fnDef _ | .generator _ _ | .slice _ | .str => false
  | _ => true

section Passable

variable [Ranked String] {q : TyQueries Ty} {depth : ℕ} {codegenTy : Ty → Option Typ} {t : Typ}

lemma isLvalue_of_codegenFatPtr {mirType : Ty}
    (h : codegenFatPtr q depth codegenTy mirType = some t) :
    t.isLvalue = true := by
  have htag : ∃ name, t = .mkStructTag name := by
    unfold codegenFatPtr at h
    split_ifs at h
    · split at h
      · simp only [bind_eq_some, pure_eq_some] at h
        obtain ⟨_, _, rfl⟩ := h
        exact ⟨_, rfl⟩
      · exact ⟨_, (Option.some.inj h).symm⟩
      · simp only [bind_eq_some, pure_eq_some] at h
        obtain ⟨_, _, rfl⟩ := h
        exact ⟨_, rfl⟩
      · cases h
    · simp only [bind_eq_some, pure_eq_some] at h
      obtain ⟨_, _, _, _, rfl⟩ := h
      exact ⟨_, rfl⟩
  obtain ⟨name, rfl⟩ := htag
  rfl

lemma isLvalue_of_codegenTyRef {pointee : Ty}
    (h : codegenTyRef q depth codegenTy pointee = some t) :
    t.isLvalue = true := by
  unfold codegenTyRef at h
  split_ifs at h with hthin
  · exact isLvalue_of_codegenFatPtr h
  · split at h <;> simp only [bind_eq_some, pure_eq_some, reduceCtorEq] at h
    obtain ⟨_, _, rfl⟩ := h
    rfl

omit [Ranked String] in
lemma isLvalue_of_codeWithUnnamedParameters {params : List Typ} {returnType : Typ}
    (h : Typ.codeWithUnnamedParameters params returnType = some t) :
    t.isLvalue = false := by
  simp only [Typ.codeWithUnnamedParameters, bind_eq_some, pure_eq_some] at h
  obtain ⟨_, _, rfl⟩ := h
  rfl

omit [Ranked String] in
lemma isLvalue_of_codegenFunctionSig {sig : FnSig Ty}
    (h : codegenFunctionSig q codegenTy sig = some t) :
    t.isLvalue = false := by
  simp only [codegenFunctionSig, bind_eq_some] at h
  obtain ⟨params, -, h⟩ := h
  split_ifs at h
  · simp only [bind_eq_some, pure_eq_some] at h
    obtain ⟨_, _, rfl⟩ := h
    rfl
  · obtain ⟨_, _, h⟩ := bind_eq_some.mp h
    exact isLvalue_of_codeWithUnnamedParameters h

/-- Whether a translated type can be passed to a function is seen from its kind. -/
lemma isLvalue_of_codegenTyInner {ty : Ty} (h : codegenTyInner q depth codegenTy ty = some t) :
    t.isLvalue = isPassable (q.kind ty) := by
  cases hkind : q.kind ty with
  | int k =>
    simp only [codegenTyInner, hkind, Option.some.injEq] at h
    subst h
    cases k <;> rfl
  | uint k =>
    simp only [codegenTyInner, hkind, Option.some.injEq] at h
    subst h
    cases k <;> rfl
  | float k =>
    cases k <;> simp only [codegenTyInner, hkind, Option.some.injEq] at h <;> subst h <;> rfl
  | adt adtDef =>
    simp only [codegenTyInner, hkind] at h
    split_ifs at h
    · simp only [bind_eq_some, Typ.mkVector, Option.ite_none_right_eq_some, Option.some.injEq] at h
      obtain ⟨_, _, _, _, _, rfl⟩ := h
      rfl
    · cases hadt : adtDef.kind <;> simp only [hadt, Option.some.injEq] at h <;> subst h <;> rfl
  | dynamic =>
    simp only [codegenTyInner, hkind] at h
    exact isLvalue_of_codegenFatPtr h
  | slice element =>
    simp only [codegenTyInner, hkind, bind_eq_some, pure_eq_some] at h
    obtain ⟨_, _, rfl⟩ := h
    rfl
  | ref pointee | rawPtr pointee =>
    simp only [codegenTyInner, hkind] at h
    exact isLvalue_of_codegenTyRef h
  | fnDef sig =>
    simp only [codegenTyInner, hkind] at h
    exact isLvalue_of_codegenFunctionSig h
  | fnPtr sig =>
    simp only [codegenTyInner, hkind, bind_eq_some, pure_eq_some] at h
    obtain ⟨_, _, rfl⟩ := h
    rfl
  | generator upvars returnTy =>
    simp only [codegenTyInner, hkind, bind_eq_some] at h
    obtain ⟨_, _, _, _, h⟩ := h
    exact isLvalue_of_codeWithUnnamedParameters h
  | tuple elements =>
    cases elements <;> simp only [codegenTyInner, hkind, Option.some.injEq] at h <;> subst h <;> rfl
  | char =>
    simp only [codegenTyInner, hkind, Typ.signedInt] at h
    rw [if_pos (by decide), Option.some.injEq] at h
    subst h
    rfl
  | bool | foreign | str | array _ _ | closure _ | never =>
    simp only [codegenTyInner, hkind, Option.some.injEq] at h
    subst h
    rfl

end Passable

end Rmc.Codegen

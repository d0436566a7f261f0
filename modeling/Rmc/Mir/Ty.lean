import Mathlib.Tactic.Common

/-!
# Types of MIR

A type of MIR is known by its kind, which is one layer of its structure: the types that it is made
of are again known by theirs. `Ty` stands for the interned types of the compiler, so a type may be
part of itself behind a pointer. All types are monomorphic, and field types have the arguments of
their definition filled in.
-/

namespace Rmc.Mir

inductive IntTy where
  | isize | i8 | i16 | i32 | i64 | i128
  deriving DecidableEq, Repr

inductive UintTy where
  | usize | u8 | u16 | u32 | u64 | u128
  deriving DecidableEq, Repr

inductive FloatTy where
  | f32 | f64
  deriving DecidableEq, Repr

/-- Of the calling conventions only the one of closures is told apart. -/
inductive Abi where
  | rustCall | other
  deriving DecidableEq, Repr

structure FnSig (Ty : Type) where
  inputs : List Ty
  output : Ty
  cVariadic : Bool
  abi : Abi
  deriving DecidableEq, Repr

/-- A variant of an ADT with the names and types of its fields, in the order of the source. -/
structure VariantDef (Ty : Type) where
  name : String
  fields : List (String × Ty)
  distinct : (fields.map Prod.fst).Nodup
  deriving DecidableEq, Repr

inductive AdtKind where
  | struct | union | enum
  deriving DecidableEq, Repr

structure AdtDef (Ty : Type) where
  kind : AdtKind
  isBox : Bool
  simd : Bool
  variants : List (VariantDef Ty)
  deriving DecidableEq, Repr

/-- The outermost layer of a type. -/
inductive TyKind (Ty : Type) where
  | bool
  | char
  | int (k : IntTy)
  | uint (k : UintTy)
  | float (k : FloatTy)
  | adt (adtDef : AdtDef Ty)
  | foreign
  | str
  | array (element : Ty) (len : ℕ)
  | slice (element : Ty)
  | rawPtr (pointee : Ty)
  | ref (pointee : Ty)
  | fnDef (sig : FnSig Ty)
  | fnPtr (sig : FnSig Ty)
  | dynamic
  | closure (upvars : List Ty)
  | generator (upvars : List Ty) (returnTy : Ty)
  | never
  | tuple (elements : List Ty)
  deriving DecidableEq, Repr

namespace TyKind

variable {Ty : Type}

def isPrimitive : TyKind Ty → Bool
  | .bool | .char | .int _ | .uint _ | .float _ => true
  | _ => false

def isPointer : TyKind Ty → Bool
  | .ref _ | .rawPtr _ => true
  | _ => false

end TyKind

/-- What the compiler knows about types. -/
structure TyCtxt (Ty : Type) where
  kind : Ty → TyKind Ty

/-- What a pointer to a type carries besides the address. -/
inductive PtrMetadata where
  | unit | usize | vtable
  deriving DecidableEq, Repr

/-- Questions about types that the compiler answers: the name that stands for a type, whether its
size is unknown, what pointers to it carry, and the elements of a SIMD vector. -/
structure TyQueries (Ty : Type) extends TyCtxt Ty where
  tyMangledName : Ty → String
  isUnsized : Ty → Bool
  ptrMetadataTy : Ty → PtrMetadata
  vectorAbi : Ty → Option (Ty × ℕ)

end Rmc.Mir

import Mathlib.Algebra.BigOperators.Ring.List
import Mathlib.Tactic.IntervalCases
import Rmc.Codegen.Aggregate
import Rmc.Codegen.PlaceFollows

/-!
# Borrowing a place

`codegen_rvalue_ref` (`rvalue.rs`) makes the pointer to a place. A place without a size gets a fat
pointer, with the metadata of the fat pointer that was followed to it. The last field of a struct is
such a place when it is a slice, a `str` or a trait object, or again such a struct.

A trait object in a struct is translated to a fat pointer, and a place of that type is returned as
it is (`codegenRvalueRef_tail_iff`).
-/

namespace Rmc.Codegen

open OrdMap Mir TwosComplement ByteMemory

namespace PlaceCtx

variable [Ranked String] {Ty : Type} (ctx : PlaceCtx Ty)

/-- The thin pointer to a place: a place may be known by a pointer already, and an array by its
first element. -/
def thinPointer (placeGotoExpr : Expr) : Option Expr :=
  if placeGotoExpr.typ.isPointer then some placeGotoExpr
  else if placeGotoExpr.typ.isArrayLike then placeGotoExpr.arrayToPtr
  else placeGotoExpr.addressOf

/-- A fat pointer with the metadata of another one. -/
def fatPointerTo (placeMirType : Ty) (resultGotoType : Typ)
    (intermediateFatPointer thinPointer : Expr) : Option Expr :=
  if useSliceFatPointer ctx.toTyQueries placeMirType then do
    let metadata ← intermediateFatPointer.member "len" ctx.symbolTable
    sliceFatPtr ctx.symbolTable resultGotoType thinPointer metadata
  else if useVtableFatPointer ctx.toTyQueries placeMirType then do
    let metadata ← intermediateFatPointer.member "vtable" ctx.symbolTable
    dynamicFatPtr ctx.symbolTable resultGotoType (← thinPointer.castTo .voidPointer) metadata
  else none

/-- The pointer to a place of type `placeMirType`. -/
def codegenRvalueRef (place : Place Ty) (placeMirType resultMirType : Ty) : Option Expr := do
  let projection ← ctx.codegenPlace place
  guard (ctx.kind resultMirType).isPointer
  let resultGotoType ← ctx.codegenTy resultMirType
  if useThinPointer ctx.toTyQueries placeMirType then projection.gotoExpr.addressOf
  else if ← isRustFatPtr ctx.symbolTable projection.gotoExpr.typ then return projection.gotoExpr
  else do
    let intermediateFatPointer ← projection.fatPtrGotoExpr
    ctx.fatPointerTo placeMirType resultGotoType intermediateFatPointer
      (← thinPointer projection.gotoExpr)

/-! ### Structs without a size -/

section Tails

variable (q : LayoutQueries Ty)

/-- The last field of a struct. -/
structure LastField (t : Ty) (v : Mir.VariantDef Ty) (f : ℕ) (name : String) (ty : Ty) : Prop where
  kind : ∃ adtDef, q.kind t = .adt adtDef ∧ adtDef.kind = .struct ∧ adtDef.simd = false ∧
    adtDef.variants = [v]
  length : v.fields.length = f + 1
  field : v.fields[f]? = some (name, ty)

/-- The projections from a struct to the slice, `str` or trait object at its end, which may be in
structs at the end of structs. `offset` is the distance in the layouts of these structs, and
`prefixes` are the types of the fields before the last ones. -/
inductive TailPath : Ty → List (ProjectionElem Ty) → (offset : ℕ) → (prefixes : List Ty) →
    (tail : Ty) → Prop
  | last {t tail : Ty} {v : Mir.VariantDef Ty} {f : ℕ} {name : String}
      (h : LastField q t v f name tail) (hdst : isDst (q.kind tail) = true) :
      TailPath t [.field f tail] (q.fieldOffset (.type t) f)
        ((v.fields.eraseIdx f).map Prod.snd) tail
  | cons {t ty tail : Ty} {v : Mir.VariantDef Ty} {f offset : ℕ} {name : String}
      {projs : List (ProjectionElem Ty)} {prefixes : List Ty} (h : LastField q t v f name ty)
      (rest : TailPath ty projs offset prefixes tail) :
      TailPath t (.field f ty :: projs) (q.fieldOffset (.type t) f + offset)
        ((v.fields.eraseIdx f).map Prod.snd ++ prefixes) tail

/-- A struct has no size when its last field has none, and its pointers carry the same. -/
def LawfulTails : Prop :=
  ∀ {t ty : Ty} {v : Mir.VariantDef Ty} {f : ℕ} {name : String}, LastField q t v f name ty →
    q.isUnsized ty = true → q.isUnsized t = true ∧ q.ptrMetadataTy t = q.ptrMetadataTy ty

/-- What the table has for structs whose last field has no size: the components that
`codegen_struct_fields` makes of the layout, in which the last field is last in memory as well. The
translated types of the other fields have sizes, which need not be those of the layout. -/
def StructsEntered (bytes : Ty → ℕ) : Prop :=
  ∀ {t ty : Ty} {v : Mir.VariantDef Ty} {f : ℕ} {name : String} {t' : Typ},
    LastField ctx.toLayoutQueries t v f name ty → ctx.isUnsized ty = true →
    ctx.codegenTy t = some t' → ∃ cs offsets memoryIndex align,
      StructEntered ctx.symbolTable t' cs ∧
      codegenStructFields (fun ty st => (ctx.codegenTy ty).map fun t => (t, st))
        (fun ty => 8 * ctx.size ty) v.fields ⟨.arbitrary offsets memoryIndex, align⟩ 0
        ctx.symbolTable = some (cs, ctx.symbolTable) ∧
      Arranged (fun ty => 8 * ctx.size ty) v.fields offsets memoryIndex ∧
      memoryIndex[f]? = some (offsets.length - 1) ∧
      offsets[f]? = some (8 * ctx.fieldOffset (.type t) f) ∧
      8 * (ctx.fieldOffset (.type t) f + ((v.fields.eraseIdx f).map fun fld => bytes fld.2).sum) <
        2 ^ 64 ∧
      ∀ fld ∈ v.fields.eraseIdx f, ∃ t, ctx.codegenTy fld.2 = some t ∧
        t.sizeofInBits ctx.symbolTable = some (8 * bytes fld.2)

end Tails

/-! ### What is to be shown -/

/-- The parts of a fat pointer. -/
def IsFatPtr (σ : State) (e : Expr) (metadataName : String) (data metadata : ℕ) : Prop :=
  ∃ d m, e.member "data" ctx.symbolTable = some d ∧ d.eval ctx.symbolTable σ = some data ∧
    e.member metadataName ctx.symbolTable = some m ∧ m.eval ctx.symbolTable σ = some metadata

def metadataName (t : Ty) : String :=
  if useSliceFatPointer ctx.toTyQueries t then "len" else "vtable"

/-- A place that has the pointer in it. There is no other pointer on the way to it, so where it is
does not depend on the memory. -/
structure PointerPlace (σ : State) (place : Place Ty) (s : Located Ty) : Prop where
  run : ∀ m, Run ctx.toLayoutQueries (ctx.frame { σ with memory := m }) ctx.localTy
    (.start (ctx.frame { σ with memory := m }) ctx.localTy place.base) place.projection s
  denotes : ∀ m, ∃ p, ctx.codegenPlace place = some p ∧ ctx.Denotes { σ with memory := m } p s
  fatPtr : s.fatPtr = none

/-- The borrow of a place behind the pointer has the address of the place and the metadata of the
pointer. -/
def BorrowsTail (σ : State) (place : Place Ty) (pointerAt : ℕ) (projs : List (ProjectionElem Ty))
    (tail resultMirType : Ty) : Prop :=
  ∃ s r, Run ctx.toLayoutQueries (ctx.frame σ) ctx.localTy
      (.start (ctx.frame σ) ctx.localTy place.base) (place.projection ++ .deref :: projs) s ∧
    ctx.codegenRvalueRef ⟨place.base, place.projection ++ .deref :: projs⟩ tail resultMirType =
      some r ∧
    ctx.codegenTy resultMirType = some r.typ ∧
    ctx.IsFatPtr σ r (ctx.metadataName tail) s.loc ((ctx.frame σ).metadata pointerAt)

section

variable {ctx} {σ : State} {t ty p tail : Ty} {v : Mir.VariantDef Ty} {f o loc : ℕ} {name : String}
  {projs : List (ProjectionElem Ty)} {prefixes : List Ty} {bytes : Ty → ℕ} {q : LayoutQueries Ty}

/-! ### The way to the tail -/

omit [Ranked String] in
lemma TailPath.isDst (h : TailPath q p projs o prefixes tail) : isDst (q.kind tail) = true := by
  induction h with
  | last _ hdst => exact hdst
  | cons _ _ ih => exact ih

omit [Ranked String] in
lemma LastField.fieldTy (h : LastField q t v f name ty) : FieldTy q (.type t) f ty := by
  obtain ⟨adtDef, hkind, hstruct, -, hvariants⟩ := h.kind
  exact .adt hkind (by simp [hstruct]) (by simp [hvariants]) h.field

section Laws

variable (hlawful : Lawful q.toTyQueries) (htails : LawfulTails q)

omit [Ranked String]

include hlawful

lemma isUnsized_of_isDst (hdst : Codegen.isDst (q.kind t) = true) :
    q.isUnsized t = true ∧ q.ptrMetadataTy t ≠ .unit := by
  cases hkind : q.kind t with
  | slice element => simp [hlawful.slice hkind]
  | str => simp [hlawful.str hkind]
  | dynamic => simp [hlawful.dynamic hkind]
  | _ => simp [hkind, Codegen.isDst] at hdst

include htails

/-- A struct is without a size like its tail. -/
lemma TailPath.isUnsized (h : TailPath q p projs o prefixes tail) :
    q.isUnsized p = true ∧ q.ptrMetadataTy p = q.ptrMetadataTy tail := by
  induction h with
  | last h hdst => exact htails h (isUnsized_of_isDst hlawful hdst).1
  | cons h _ ih =>
    obtain ⟨hunsized, hmetadata⟩ := htails h ih.1
    exact ⟨hunsized, hmetadata.trans ih.2⟩

/-- There is a way to the tail. Its end is where the layouts say unless the alignment of the tail is
known only at run time. -/
lemma TailPath.exists_run (h : TailPath q p projs o prefixes tail) (fr : Frame) (localTy : ℕ → Ty)
    (loc : ℕ) (b : Bool) (fat : Option (ℕ × Ty)) :
    ∃ loc', Run q fr localTy ⟨.type p, loc, b, fat⟩ projs ⟨.type tail, loc', false, fat⟩ ∧
      (q.ptrMetadataTy tail ≠ .vtable → loc' = fr.shift loc o) := by
  induction h generalizing loc b with
  | @last t tail v f name h hdst =>
    refine ⟨_, .cons (.field h.fieldTy) (.nil _), ?_⟩
    intro hmetadata
    cases htail : q.ptrMetadataTy tail <;> simp_all [LayoutQueries.offsetIn]
  | @cons t ty tail v f offset name projs prefixes h rest ih =>
    obtain ⟨loc', hrun, hloc'⟩ := ih (fr.shift loc (q.offsetIn fr ⟨.type t, loc, b, fat⟩ f ty))
      false
    refine ⟨loc', .cons (.field h.fieldTy) hrun, ?_⟩
    intro hmetadata
    have hty := (rest.isUnsized hlawful htails).2
    have hoffset : q.offsetIn fr ⟨.type t, loc, b, fat⟩ f ty = q.fieldOffset (.type t) f := by
      cases htail : q.ptrMetadataTy ty <;> simp_all [LayoutQueries.offsetIn]
    rw [hloc' hmetadata, hoffset]
    simp [Frame.shift, Nat.add_assoc]

end Laws

/-- The last field of a struct in the table is as far from where the layout has it as the sizes of
the other fields are from those of the layout. -/
lemma LastField.exists_fieldPlaced (hstructs : ctx.StructsEntered bytes)
    (h : LastField ctx.toLayoutQueries t v f name ty) (hunsized : ctx.isUnsized ty = true)
    {t' : Typ} (ht' : ctx.codegenTy t = some t') :
    ∃ n, ctx.FieldPlaced t' name ty n ∧
      n + (((v.fields.eraseIdx f).map Prod.snd).map ctx.size).sum =
        ctx.fieldOffset (.type t) f + (((v.fields.eraseIdx f).map Prod.snd).map bytes).sum := by
  obtain ⟨cs, offsets, memoryIndex, align, hentered, hcs, harranged, hlast, hoffset, hlt, hsized⟩ :=
    hstructs h hunsized ht'
  have hbits (size : Ty → ℕ) : ((v.fields.eraseIdx f).map fun fld => 8 * size fld.2).sum =
      8 * (((v.fields.eraseIdx f).map Prod.snd).map size).sum := by
    rw [List.map_map, ← List.sum_map_mul_left]
    rfl
  obtain ⟨tyTyp, n, htyTyp, hmem, hnames, hplaced, hsum⟩ :=
    harranged.fieldOffsetInBits_last (fun ty => 8 * bytes ty) hlast h.field hoffset hsized
      (by rw [hbits]; simpa [Nat.mul_add, Function.comp_def] using hlt) hcs
  rw [hbits, hbits] at hsum
  obtain ⟨n, rfl⟩ : ∃ k, n = 8 * k := ⟨n / 8, by omega⟩
  refine ⟨n, ⟨tyTyp, n, htyTyp, hentered.hasField_of_mem hnames hmem ?_, Nat.ModEq.refl _⟩,
    by omega⟩
  have hfield := hentered.fieldOffset_eq hplaced (Nat.mul_mod_right 8 _)
  rwa [Nat.mul_div_cancel_left _ (by omega)] at hfield

variable {before : ProjectedPlace Ty} {fatPtr : Option (ℕ × Ty)} {place : Place Ty} {s : Located Ty}
  {R : Ty}

lemma exists_codegenProjection_last (hv : ctx.Valid σ) (hstructs : ctx.StructsEntered bytes)
    (h : LastField ctx.toLayoutQueries t v f name ty) (hunsized : ctx.isUnsized ty = true)
    (htv : before.mirTypOrVariant = .type t) (he : ctx.codegenTy t = some before.gotoExpr.typ)
    (haddr : before.gotoExpr.addr ctx.symbolTable σ = some loc)
    (hfat : ctx.DenotesFatPtr σ before.fatPtrGotoExpr before.fatPtrMirTyp fatPtr) :
    ∃ r n, ctx.codegenProjection before (.field f ty) =
        some ⟨r, .type ty, before.fatPtrGotoExpr, before.fatPtrMirTyp⟩ ∧
      ctx.codegenTy ty = some r.typ ∧
      r.addr ctx.symbolTable σ = some ((ctx.frame σ).shift loc n) ∧
      n + (((v.fields.eraseIdx f).map Prod.snd).map ctx.size).sum =
        ctx.fieldOffset (.type t) f + (((v.fields.eraseIdx f).map Prod.snd).map bytes).sum := by
  obtain ⟨n, hplaced, hsum⟩ := h.exists_fieldPlaced hstructs hunsized he
  obtain ⟨r, hr, hrtyp, hraddr⟩ := (member_iff haddr name _).mpr hplaced
  obtain ⟨adtDef, hkind, -, hsimd, hvariants⟩ := h.kind
  have hfield : ctx.codegenField before.gotoExpr before.mirTypOrVariant f = some r := by
    simp [codegenField, htv, hkind, hsimd, hvariants, h.field, hr]
  refine ⟨r, n, ?_, hrtyp, hraddr, hsum⟩
  rw [codegenProjection, hfield, Option.bind_eq_bind, Option.bind_some,
    projectedPlace_type_eq hv.entered hfat, hrtyp, Option.map_some]

/-- The place of the tail is as far from where the layouts have it as the sizes of the fields on the
way are from those of the layouts. -/
lemma TailPath.exists_foldlM (hv : ctx.Valid σ) (htails : LawfulTails ctx.toLayoutQueries)
    (hstructs : ctx.StructsEntered bytes)
    (h : TailPath ctx.toLayoutQueries p projs o prefixes tail)
    (htv : before.mirTypOrVariant = .type p) (he : ctx.codegenTy p = some before.gotoExpr.typ)
    (haddr : before.gotoExpr.addr ctx.symbolTable σ = some loc)
    (hfat : ctx.DenotesFatPtr σ before.fatPtrGotoExpr before.fatPtrMirTyp fatPtr) :
    ∃ r n, projs.foldlM ctx.codegenProjection before =
        some ⟨r, .type tail, before.fatPtrGotoExpr, before.fatPtrMirTyp⟩ ∧
      ctx.codegenTy tail = some r.typ ∧
      r.addr ctx.symbolTable σ = some ((ctx.frame σ).shift loc n) ∧
      n + (prefixes.map ctx.size).sum = o + (prefixes.map bytes).sum := by
  induction h generalizing before loc with
  | last h hdst =>
    obtain ⟨r, n, hr, hrtyp, hraddr, hsum⟩ := exists_codegenProjection_last hv hstructs h
      (isUnsized_of_isDst hv.lawful hdst).1 htv he haddr hfat
    exact ⟨r, n, by simp [hr], hrtyp, hraddr, hsum⟩
  | cons h rest ih =>
    obtain ⟨r, n, hr, hrtyp, hraddr, hsum⟩ := exists_codegenProjection_last hv hstructs h
      (rest.isUnsized hv.lawful htails).1 htv he haddr hfat
    obtain ⟨r', n', hr', hrtyp', hraddr', hsum'⟩ := @ih _ ⟨r, .type _, _, _⟩ rfl hrtyp hraddr hfat
    refine ⟨r', n + n', ?_, hrtyp', ?_, ?_⟩
    · rw [List.foldlM_cons, hr]
      exact hr'
    · rw [hraddr']
      simp [Frame.shift, Nat.add_assoc]
    · rw [List.map_append, List.map_append, List.sum_append, List.sum_append]
      omega

/-! ### The pointer to the tail -/

omit [Ranked String] in
/-- Two distances lead to one address when what they differ by is nothing in the address space. -/
lemma shift_eq_shift_iff (fr : Frame) {n o a b : ℕ} (h : n + a = o + b) (p : ℕ) :
    fr.shift p n = fr.shift p o ↔ b ≡ a [MOD 2 ^ fr.pointerWidth] := by
  constructor
  · intro heq
    refine Nat.ModEq.add_left_cancel (Nat.ModEq.add_left_cancel' p heq).symm ?_
    rw [h]
  · intro hmod
    refine Nat.ModEq.add_left p (Nat.ModEq.add_right_cancel hmod.symm ?_)
    rw [h]

/-- Borrows of a place without a size that is not a fat pointer itself. -/
lemma codegenRvalueRef_eq {place : Place Ty} {projection : ProjectedPlace Ty} {R : Ty}
    {resultTyp : Typ} (hplace : ctx.codegenPlace place = some projection)
    (hR : ctx.kind R = .ref tail ∨ ctx.kind R = .rawPtr tail)
    (hresult : ctx.codegenTy R = some resultTyp)
    (hthin : useThinPointer ctx.toTyQueries tail = false) :
    ctx.codegenRvalueRef place tail R =
      (isRustFatPtr ctx.symbolTable projection.gotoExpr.typ).bind fun isFat =>
        if isFat then some projection.gotoExpr
        else projection.fatPtrGotoExpr.bind fun fat =>
          (thinPointer projection.gotoExpr).bind fun thin =>
            ctx.fatPointerTo tail resultTyp fat thin := by
  have hpointer : (ctx.kind R).isPointer = true := by
    rcases hR with hR | hR <;> simp [hR, TyKind.isPointer]
  simp only [codegenRvalueRef, hplace, hpointer, hresult, hthin, Option.bind_eq_bind,
    Option.bind_some, guard_true, Option.pure_def, Bool.false_eq_true, if_false]

lemma exists_fatPtrTyp (hv : ctx.Valid σ) (hdst : isDst (ctx.kind tail) = true) {t : Typ}
    (ht : ctx.codegenTy tail = some t) : ∃ t', ctx.fatPtrTyp tail = some t' := by
  have heq := ctx.translation.codegenTy_eq tail
  rw [show ctx.translation.codegenTy tail = some t from ht] at heq
  cases hkind : ctx.kind tail with
  | slice element =>
    obtain ⟨hunsized, hmetadata⟩ := hv.lawful.slice hkind
    simp only [codegenTyInner, hkind, Option.bind_eq_bind] at heq
    obtain ⟨d, hd, -⟩ := Option.bind_eq_some_iff.mp heq.symm
    have hd' : ctx.codegenTy element = some d := hd
    simp [fatPtrTyp, codegenFatPtr, useThinPointer, useSliceFatPointer, hunsized, hmetadata, hkind,
      hd']
  | str =>
    obtain ⟨hunsized, hmetadata⟩ := hv.lawful.str hkind
    simp [fatPtrTyp, codegenFatPtr, useThinPointer, useSliceFatPointer, hunsized, hmetadata, hkind]
  | dynamic =>
    simp only [codegenTyInner, hkind] at heq
    exact ⟨t, heq.symm⟩
  | _ => simp [hkind, isDst] at hdst

section

variable (hv : ctx.Valid σ)

include hv

lemma exists_codegenPlace_tail (htails : LawfulTails ctx.toLayoutQueries)
    (hstructs : ctx.StructsEntered bytes)
    (hpath : TailPath ctx.toLayoutQueries p projs o prefixes tail)
    (hden : ∃ p₀, ctx.codegenPlace place = some p₀ ∧ ctx.Denotes σ p₀ s) (hfat : s.fatPtr = none)
    (hloc : s.loc < ctx.addresses) (ht : s.ty = .type t) (hp : ctx.pointee t = some p)
    (hbox : ctx.isBox t = true → ctx.PlainBox t) :
    ∃ e f fatTy n, ctx.codegenPlace ⟨place.base, place.projection ++ .deref :: projs⟩ =
        some ⟨e, .type tail, some f, some fatTy⟩ ∧ ctx.codegenTy tail = some e.typ ∧
      e.addr ctx.symbolTable σ = some ((ctx.frame σ).shift
        ((ctx.frame σ).loadPtr (ctx.pointerAt (ctx.frame σ) t s.loc)) n) ∧
      n + (prefixes.map ctx.size).sum = o + (prefixes.map bytes).sum ∧
      ctx.fatPtrTyp p = some f.typ ∧
      f.addr ctx.symbolTable σ = some (ctx.pointerAt (ctx.frame σ) t s.loc) := by
  obtain ⟨sty, loc, b, fat⟩ := s
  cases ht
  cases hfat
  obtain ⟨p₀, hp₀, hden⟩ := hden
  obtain ⟨hunsized, hmetadata⟩ := hpath.isUnsized hv.lawful htails
  have hunit : ctx.ptrMetadataTy p ≠ .unit := by
    rw [hmetadata]
    exact (isUnsized_of_isDst hv.lawful hpath.isDst).2
  obtain ⟨p₁, hp₁, hden₁⟩ := (deref_iff hv hden hloc hp).mpr
    (.deref rfl hp (fun _ => ⟨rfl, hunit⟩) hbox)
  have hkind : isDst (ctx.kind p) = false := by
    cases hpath with
    | last h _ | cons h _ =>
      obtain ⟨adtDef, hkind, -⟩ := h.kind
      simp [hkind, isDst]
  obtain ⟨htv, he, haddr⟩ := hden₁.lvalue hkind
  have hfat₁ := hden₁.fatPtr
  simp only [hunsized, if_true] at hfat₁
  obtain ⟨e, n, he', htyp, headdr, hsum⟩ :=
    hpath.exists_foldlM hv htails hstructs htv he haddr hfat₁
  obtain ⟨f, fatTy, hf, hfatTy, -, hftyp, hfaddr⟩ := hfat₁
  refine ⟨e, f, fatTy, n, ?_, htyp, headdr, hsum, hftyp, hfaddr⟩
  have hcons : (ProjectionElem.deref :: projs).foldlM ctx.codegenProjection p₀ =
      projs.foldlM ctx.codegenProjection p₁ := by
    rw [List.foldlM_cons]
    show (ctx.codegenDeref p₀).bind _ = _
    rw [hp₁, Option.bind_some]
  rw [codegenPlace_append, hp₀, Option.bind_some, hcons, he', hf, hfatTy]

lemma exists_array_of_ne_dynamic (hdst : isDst (ctx.kind tail) = true)
    (hdyn : ctx.kind tail ≠ .dynamic) {t : Typ} (ht : ctx.codegenTy tail = some t) :
    useSliceFatPointer ctx.toTyQueries tail = true ∧ isRustFatPtr ctx.symbolTable t = some false ∧
      t.isPointer = false ∧ t.isArrayLike = true ∧
      ∃ d, ctx.dataTyp tail = some d ∧ t.baseType = some d := by
  have heq := ctx.translation.codegenTy_eq tail
  rw [show ctx.translation.codegenTy tail = some t from ht] at heq
  cases hkind : ctx.kind tail with
  | slice element =>
    simp only [codegenTyInner, hkind, Option.bind_eq_bind] at heq
    obtain ⟨d, hd, heq⟩ := Option.bind_eq_some_iff.mp heq.symm
    cases heq
    exact ⟨by simp [useSliceFatPointer, (hv.lawful.slice hkind).2], rfl, rfl, rfl, d,
      by simpa [dataTyp, hkind, codegenTy] using hd, rfl⟩
  | str =>
    simp only [codegenTyInner, hkind, Option.some.injEq] at heq
    subst heq
    exact ⟨by simp [useSliceFatPointer, (hv.lawful.str hkind).2], rfl, rfl, rfl, .cChar,
      by simp [dataTyp, hkind], rfl⟩
  | dynamic => exact absurd hkind hdyn
  | _ => simp [hkind, isDst] at hdst

/-- A slice or `str` at the end of a struct is borrowed with the address of its first element in the
translated structs, which is its address when the fields on the way take the right space. -/
lemma borrowsTail_iff_of_ne_dynamic (htails : LawfulTails ctx.toLayoutQueries)
    (hstructs : ctx.StructsEntered bytes)
    (hpath : TailPath ctx.toLayoutQueries p projs o prefixes tail)
    (hrun : Run ctx.toLayoutQueries (ctx.frame σ) ctx.localTy
      (.start (ctx.frame σ) ctx.localTy place.base) place.projection s)
    (hden : ∃ p₀, ctx.codegenPlace place = some p₀ ∧ ctx.Denotes σ p₀ s) (hfat : s.fatPtr = none)
    (ht : s.ty = .type t) (hp : ctx.pointee t = some p)
    (hbox : ctx.isBox t = true → ctx.PlainBox t)
    (hR : ctx.kind R = .ref tail ∨ ctx.kind R = .rawPtr tail) (hdyn : ctx.kind tail ≠ .dynamic)
    (hsize : ∀ d, ctx.dataTyp tail = some d → ∃ n, d.bytes ctx.symbolTable = some n) :
    ctx.BorrowsTail σ place (ctx.pointerAt (ctx.frame σ) t s.loc) projs tail R ↔
      (prefixes.map bytes).sum ≡ (prefixes.map ctx.size).sum [MOD ctx.addresses] := by
  have hloc : s.loc < ctx.addresses := (hrun.ok hv.width (start_ok hv place.base)).loc_lt
  obtain ⟨e, f, fatTy, offset, hplace, htyp, haddr, hsum, hftyp, hfaddr⟩ :=
    exists_codegenPlace_tail hv htails hstructs hpath hden hfat hloc ht hp hbox
  obtain ⟨hslice, hnotFat, hnotPointer, harray, d, hd, hbase⟩ :=
    exists_array_of_ne_dynamic hv hpath.isDst hdyn htyp
  obtain ⟨hunsized, hmetadata⟩ := hpath.isUnsized hv.lawful htails
  obtain ⟨n, hn⟩ := hsize d hd
  -- the thin pointer and the length
  obtain ⟨thin, hthin, hthinTyp, hthinEval⟩ := Expr.exists_arrayToPtr hbase harray hn
  have hslice' : useSliceFatPointer ctx.toTyQueries p = true := by
    rw [useSliceFatPointer, hmetadata]
    exact hslice
  obtain ⟨len, hlen, hlenTyp, hlenEval⟩ := exists_member_len hv hftyp hslice' hfaddr
  -- the struct of the result
  obtain ⟨resultTyp, hresultTyp⟩ := exists_fatPtrTyp hv hpath.isDst htyp
  obtain ⟨d', hd', hentered⟩ := hv.entered.slicePtr hresultTyp hslice
  cases hd.symm.trans hd'
  have hthinFalse : useThinPointer ctx.toTyQueries tail = false := by
    obtain ⟨hunsized, hunit⟩ := isUnsized_of_isDst hv.lawful hpath.isDst
    simp [useThinPointer, hunsized, hunit]
  have hresult : ctx.codegenTy R = some resultTyp := by
    rw [codegenTy_eq_codegenTyRef hR, codegenTyRef, hthinFalse]
    exact hresultTyp
  obtain ⟨r, hr, hrtyp, ⟨x, hx, -, hxeval⟩, y, hy, -, hyeval⟩ :=
    hentered.exists_structExpr_pair (by decide) hthinTyp hlenTyp
  obtain ⟨loc', hrun', hloc'⟩ := hpath.exists_run hv.lawful htails (ctx.frame σ) ctx.localTy
    ((ctx.frame σ).loadPtr (ctx.pointerAt (ctx.frame σ) t s.loc)) true
    (some (ctx.pointerAt (ctx.frame σ) t s.loc, p))
  have hvtable : ctx.ptrMetadataTy tail ≠ .vtable := by
    intro h
    simp [useSliceFatPointer, h] at hslice
  rw [hloc' hvtable] at hrun'
  have hderef : Step ctx.toLayoutQueries (ctx.frame σ) ctx.localTy s .deref ⟨.type p,
      (ctx.frame σ).loadPtr (ctx.pointerAt (ctx.frame σ) t s.loc), true,
      some (ctx.pointerAt (ctx.frame σ) t s.loc, p)⟩ := by
    obtain ⟨sty, loc, b, fat⟩ := s
    cases ht
    have hstep : Step ctx.toLayoutQueries (ctx.frame σ) ctx.localTy ⟨.type t, loc, b, fat⟩ .deref
        _ := .deref hp
    simpa only [hunsized, if_true] using hstep
  have hborrow : ctx.codegenRvalueRef ⟨place.base, place.projection ++ .deref :: projs⟩ tail R =
      some r := by
    rw [codegenRvalueRef_eq hplace hR hresult hthinFalse, hnotFat]
    simp [thinPointer, hnotPointer, harray, hthin, fatPointerTo, hslice, hlen, sliceFatPtr, hr]
  have hdata : x.eval ctx.symbolTable σ = some ((ctx.frame σ).shift
      ((ctx.frame σ).loadPtr (ctx.pointerAt (ctx.frame σ) t s.loc)) offset) := by
    rw [hxeval]
    exact hthinEval σ _ ((ctx.frame σ).shift_lt _ _) haddr
  -- the address is right when the distance is
  refine Iff.trans ?_ (shift_eq_shift_iff (ctx.frame σ) hsum
    ((ctx.frame σ).loadPtr (ctx.pointerAt (ctx.frame σ) t s.loc)))
  constructor
  · rintro ⟨s', r', hrun'', hborrow', -, d, -, hd, hdeval, -⟩
    cases hborrow.symm.trans hborrow'
    cases hx.symm.trans hd
    cases hrun''.unique (hrun.append (.cons hderef hrun'))
    exact Option.some.inj (hdata.symm.trans hdeval)
  · intro heq
    refine ⟨_, r, hrun.append (.cons hderef hrun'), hborrow, by rw [hrtyp, hresult], x, y, hx, ?_,
      ?_, ?_⟩
    · rw [hdata, heq]
    · rwa [metadataName, hslice]
    · rw [hyeval, hlenEval]

/-- The borrow of a trait object at the end of a struct is what the memory has at the place of the
trait object. -/
lemma metadata_of_dynamic (htails : LawfulTails ctx.toLayoutQueries)
    (hstructs : ctx.StructsEntered bytes)
    (hpath : TailPath ctx.toLayoutQueries p projs o prefixes tail)
    (hden : ∃ p₀, ctx.codegenPlace place = some p₀ ∧ ctx.Denotes σ p₀ s) (hfat : s.fatPtr = none)
    (hloc : s.loc < ctx.addresses) (ht : s.ty = .type t) (hp : ctx.pointee t = some p)
    (hbox : ctx.isBox t = true → ctx.PlainBox t)
    (hR : ctx.kind R = .ref tail ∨ ctx.kind R = .rawPtr tail) (hdyn : ctx.kind tail = .dynamic)
    (h : ctx.BorrowsTail σ place (ctx.pointerAt (ctx.frame σ) t s.loc) projs tail R) :
    ∃ n, n + (prefixes.map ctx.size).sum = o + (prefixes.map bytes).sum ∧
      (ctx.frame σ).metadata (ctx.pointerAt (ctx.frame σ) t s.loc) =
        (ctx.frame σ).metadata ((ctx.frame σ).shift
          ((ctx.frame σ).loadPtr (ctx.pointerAt (ctx.frame σ) t s.loc)) n) := by
  obtain ⟨e, f, fatTy, n, hplace, htyp, haddr, hsum, -, -⟩ :=
    exists_codegenPlace_tail hv htails hstructs hpath hden hfat hloc ht hp hbox
  obtain ⟨s', r, -, hr, hrtyp, d, m, -, -, hm, hmeval⟩ := h
  have hfatTyp : ctx.fatPtrTyp tail = some e.typ := by
    have heq := ctx.translation.codegenTy_eq tail
    simp only [codegenTyInner, hdyn] at heq
    exact heq.symm.trans htyp
  obtain ⟨hunsized, hmetadata⟩ := hv.lawful.dynamic hdyn
  have hthinFalse : useThinPointer ctx.toTyQueries tail = false := by
    simp [useThinPointer, hunsized, hmetadata]
  have hslice : useSliceFatPointer ctx.toTyQueries tail = false := by
    simp [useSliceFatPointer, hmetadata]
  -- the place has the type of a fat pointer, and is the result
  rw [codegenRvalueRef_eq hplace hR hrtyp hthinFalse, hv.entered.isRustFatPtr_eq hfatTyp] at hr
  cases hr
  obtain ⟨v, hfield⟩ := hv.entered.exists_hasField_vtable hv.width hfatTyp hslice
  obtain ⟨m', hm', hm'typ, hm'addr⟩ := hfield.exists_member
  rw [metadataName, hslice] at hm
  cases hm'.symm.trans hm
  rw [eval_pointer hv hm'typ (hm'addr σ _ haddr), Option.some.injEq] at hmeval
  exact ⟨n, hsum, hmeval.symm⟩

end

/-! ### Memories -/

omit [Ranked String] in
/-- A memory in which the pointer at an address leads, at some distance, to other metadata than its
own. -/
lemma exists_memory_metadata_ne (fr : Frame) (hwidth : fr.pointerWidth % 8 = 0)
    (hpos : 0 < fr.pointerWidth) {a : ℕ} (ha : a < 2 ^ fr.pointerWidth) (o : ℕ) :
    ∃ m, let fr' := { fr with memory := m }
      fr'.metadata a ≠ fr'.metadata (fr'.shift (fr'.loadPtr a) o) := by
  set M := 2 ^ fr.pointerWidth with hM
  set P := fr.pointerWidth / 8 with hP
  have hbits : 8 * P = fr.pointerWidth := by omega
  have hroom : 8 * P < M := by
    rw [hbits]
    exact Nat.lt_two_pow_self
  -- the pointer, its metadata and the word behind them are apart
  set b := (a + P) % M with hb
  set c := (b + P) % M with hc
  have hbM : b < M := Nat.mod_lt _ (by omega)
  have hb' : b = a + P ∨ b + M = a + P := by
    rcases Nat.lt_or_ge (a + P) M with h | h
    · exact .inl (Nat.mod_eq_of_lt h)
    · right
      rw [hb, Nat.mod_eq_sub_mod h, Nat.mod_eq_of_lt (by omega)]
      omega
  have hc' : c = b + P ∨ c + M = b + P := by
    rcases Nat.lt_or_ge (b + P) M with h | h
    · exact .inl (Nat.mod_eq_of_lt h)
    · right
      rw [hc, Nat.mod_eq_sub_mod h, Nat.mod_eq_of_lt (by omega)]
      omega
  -- the pointer leads to its own metadata
  set d := (b + (M - o % M)) % M with hd
  have hdo : (d + o) % M = b := by
    have hlt : o % M < M := Nat.mod_lt _ (by omega)
    rw [hd, Nat.mod_add_mod, ← Nat.add_mod_mod, Nat.add_assoc, Nat.sub_add_cancel hlt.le,
      Nat.add_mod_right, Nat.mod_eq_of_lt hbM]
  set m := store fr.isBigEndian (store fr.isBigEndian (fun _ => 0#8) a P d) b P 1 with hm
  have hload : load fr.isBigEndian m a P = d := by
    rw [hm, load_store_of_disjoint _ _ _ (by omega), load_store, hbits]
    exact Nat.mod_eq_of_lt (Nat.mod_lt _ (by omega))
  have hmeta : load fr.isBigEndian m b P = 1 := by
    rw [hm, load_store]
    exact Nat.mod_eq_of_lt (Nat.one_lt_two_pow (by omega))
  have hother : load fr.isBigEndian m c P = 0 := by
    rw [hm, load_store_of_disjoint _ _ _ (by omega), load_store_of_disjoint _ _ _ (by omega),
      load_zero]
  refine ⟨m, ?_⟩
  have h₁ : ({ fr with memory := m } : Frame).metadata a = 1 := hmeta
  have h₂ : ({ fr with memory := m } : Frame).loadPtr a = d := hload
  have h₃ : ({ fr with memory := m } : Frame).shift d o = b := hdo
  have h₄ : ({ fr with memory := m } : Frame).metadata b = 0 := hother
  simp only [h₁, h₂, h₃, h₄]
  decide

/-- The assumptions do not depend on the memory. -/
lemma Valid.withMemory (hv : ctx.Valid σ) (m : Memory) : ctx.Valid { σ with memory := m } :=
  ⟨hv.lawful, hv.entered, hv.width, hv.depth_pos, hv.address_lt, hv.separate⟩

/-- The borrow of the tail of a struct is right in every memory exactly when the tail is not a trait
object and the fields on the way to it take together, when they are translated, the space that they
take in the layouts. -/
theorem codegenRvalueRef_tail_iff (hv : ctx.Valid σ)
    (hwidth : 0 < ctx.symbolTable.machineModel.pointerWidth)
    (htails : LawfulTails ctx.toLayoutQueries) (hstructs : ctx.StructsEntered bytes)
    (hplace : ctx.PointerPlace σ place s) (ht : s.ty = .type t) (hp : ctx.pointee t = some p)
    (hbox : ctx.isBox t = true → ctx.PlainBox t)
    (hpath : TailPath ctx.toLayoutQueries p projs o prefixes tail)
    (hsize : ctx.kind tail ≠ .dynamic → ∀ d, ctx.dataTyp tail = some d →
      ∃ n, d.bytes ctx.symbolTable = some n)
    (hR : ctx.kind R = .ref tail ∨ ctx.kind R = .rawPtr tail) :
    (∀ m, ctx.BorrowsTail { σ with memory := m } place (ctx.pointerAt (ctx.frame σ) t s.loc) projs
      tail R) ↔ ctx.kind tail ≠ .dynamic ∧
        (prefixes.map bytes).sum ≡ (prefixes.map ctx.size).sum [MOD ctx.addresses] := by
  have hloc : s.loc < ctx.addresses :=
    ((hplace.run σ.memory).ok hv.width (start_ok hv place.base)).loc_lt
  by_cases hdyn : ctx.kind tail = .dynamic
  · refine iff_of_false (fun h => ?_) (fun h => h.1 hdyn)
    have hat : ctx.pointerAt (ctx.frame σ) t s.loc < ctx.addresses := by
      unfold LayoutQueries.pointerAt
      split_ifs
      · exact Frame.shift_lt _ _ _
      · exact hloc
    obtain ⟨m, hm⟩ := exists_memory_metadata_ne (ctx.frame σ) hv.width hwidth hat
      (o + (prefixes.map bytes).sum - (prefixes.map ctx.size).sum)
    obtain ⟨n, hsum, hmetadata⟩ := metadata_of_dynamic (hv.withMemory m) htails hstructs hpath
      (hplace.denotes m) hplace.fatPtr hloc ht hp hbox hR hdyn (h m)
    rw [← Nat.eq_sub_of_add_eq hsum] at hm
    exact hm hmetadata
  · rw [and_iff_right hdyn]
    have hiff (m : Memory) := borrowsTail_iff_of_ne_dynamic (hv.withMemory m) htails hstructs hpath
      (hplace.run m) (hplace.denotes m) hplace.fatPtr ht hp hbox hR hdyn (hsize hdyn)
    exact ⟨fun h => (hiff σ.memory).mp (h _), fun h m => (hiff m).mpr h⟩

end

/-! ### A byte and a tail -/

section ByteAndTail

omit [Ranked String] in
lemma nodup_byteAndTail :
    (([("head", 0), ("tail", 1)] : List (String × ℕ)).map Prod.fst).Nodup := by
  decide

/-- The types of a struct (`2`) of a byte (`0`) and a tail (`1`), which is a trait object or a slice
of bytes, with the references to both (`3`, `4`). -/
def tailQueries (dyn : Bool) : PlaceQueries ℕ where
  kind t :=
    let kinds := [.uint .u8, if dyn then .dynamic else .slice 0,
      .adt ⟨.struct, false, false, [⟨"S", [("head", 0), ("tail", 1)], nodup_byteAndTail⟩]⟩,
      .ref 2, .ref 1]
    kinds.getD t .never
  tyMangledName t := "_" ++ toString t
  isUnsized t := t = 1 ∨ t = 2
  ptrMetadataTy t := if t = 1 ∨ t = 2 then (if dyn then .vtable else .usize) else .unit
  vectorAbi _ := none
  boxedTy t := t
  size
    | 0 => 1
    | 3 | 4 => 16
    | _ => 0
  fieldOffset _ f := f
  boxPointerOffset _ := 0
  allocTy t := t
  mkPtr t := t
  mkSlice t := t
  variants _ := .single 0
  fnName _ := "f"

def tailTranslation (dyn : Bool) : TyTranslation (tailQueries dyn).toTyQueries 2 where
  codegenTy :=
    let step := codegenTyInner (tailQueries dyn).toTyQueries 2
    step (step (step fun _ => none))
  codegenTy_eq ty := by
    match ty with
    | 0 | 1 | 2 | 3 | 4 => cases dyn <;> rfl
    | n + 5 => rfl

/-- A table with the structs of the type and of the references. -/
def tailTable (dyn : Bool) : SymbolTable :=
  let st := (SymbolTable.empty (machineModelFromSession none "x86_64" false 64)).set
    (structSymbol "_2" [.field "head" (.unsignedbv 8), .field "tail"
      (if dyn then .structTag "tag-_1" else .flexibleArray (.unsignedbv 8))])
  if dyn then
    st.set (structSymbol "_1" [.field "data" .voidPointer, .field "vtable" (.pointer .empty)])
  else
    (st.set (structSymbol "_1" [.field "data" (.pointer (.unsignedbv 8)), .field "len" .sizeT])).set
      (structSymbol "&_2" [.field "data" (.pointer (.structTag "tag-_2")), .field "len" .sizeT])

/-- A function with the reference to the struct as its local. -/
def tailCtx (dyn : Bool) : PlaceCtx ℕ where
  toPlaceQueries := tailQueries dyn
  depth := 2
  translation := tailTranslation dyn
  symbolTable := tailTable dyn
  localTy _ := 3
  codegenVarName _ := "x"

/-- The local is at the start of a memory that is empty but for its second word. -/
def tailState : State := ⟨fun p => if p = 8 then 1#8 else 0#8, fun x => if x = "f" then 1 else 0⟩

variable {dyn : Bool}

lemma lastField_tail {t ty f : ℕ} {v : Mir.VariantDef ℕ} {name : String}
    (h : LastField (tailCtx dyn).toLayoutQueries t v f name ty) :
    t = 2 ∧ v = ⟨"S", [("head", 0), ("tail", 1)], nodup_byteAndTail⟩ ∧ f = 1 ∧ name = "tail" ∧
      ty = 1 := by
  obtain ⟨⟨adtDef, hkind, -, -, hvariants⟩, hlength, hfield⟩ := h
  match t with
  | 2 =>
    cases hkind
    cases hvariants
    cases hlength
    cases hfield
    exact ⟨rfl, rfl, rfl, rfl, rfl⟩
  | 0 | 3 | 4 => cases hkind
  | 1 => cases dyn <;> cases hkind
  | n + 5 => cases hkind

lemma arranged_tail (dyn : Bool) : Arranged (fun ty => 8 * (tailCtx dyn).size ty)
    [("head", 0), ("tail", 1)] [0, 8] [0, 1] :=
  Arranged.arranged_pair (by decide) (not_isPadName_of_head _ (by decide))
    (not_isPadName_of_head _ (by decide)) (.inl ⟨rfl, le_rfl⟩)

lemma lookup_tail (dyn : Bool) : (tailCtx dyn).symbolTable.lookup "tag-_2" = some (structSymbol "_2"
    [.field "head" (.unsignedbv 8), .field "tail"
      (if dyn then .structTag "tag-_1" else .flexibleArray (.unsignedbv 8))]) := by
  cases dyn <;> simp [tailCtx, tailTable, SymbolTable.lookup_set, structSymbol]

lemma structsEntered_tail (dyn : Bool) :
    (tailCtx dyn).StructsEntered (tailQueries dyn).size := by
  intro t ty v f name t' h _ ht'
  obtain ⟨rfl, rfl, rfl, rfl, rfl⟩ := lastField_tail h
  cases ht'
  refine ⟨_, [0, 8], [0, 1], 8, ⟨"tag-_2", _, "_2", rfl, lookup_tail dyn, rfl⟩, ?_,
    arranged_tail dyn, rfl, rfl, ?_, ?_⟩
  · have horder : (FieldsShape.arbitrary [0, 8] [0, 1]).indexByIncreasingOffset = some [0, 1] := by
      decide
    have hhead : (tailCtx dyn).codegenTy 0 = some (.unsignedbv 8) := rfl
    have htail : (tailCtx dyn).codegenTy 1 =
        some (if dyn then .structTag "tag-_1" else .flexibleArray (.unsignedbv 8)) := by
      cases dyn <;> rfl
    have hsizes : (tailCtx dyn).size 0 = 1 ∧ (tailCtx dyn).size 1 = 0 := ⟨rfl, rfl⟩
    simp [codegenStructFields, horder, codegenStructField, codegenStructPadding, hhead, htail,
      hsizes, checkedU64, codegenAlignPadding]
  · show 8 * (1 + 1) < 2 ^ 64
    decide
  · intro fld hfld
    cases List.mem_singleton.mp hfld
    exact ⟨.unsignedbv 8, rfl, rfl⟩

lemma kind_tail (dyn : Bool) (t : ℕ) :
    (tailCtx dyn).kind t ∈ [TyKind.uint .u8, .dynamic, .slice 0, .ref 2, .ref 1, .never] ∨
      ∃ adtDef, (tailCtx dyn).kind t = .adt adtDef := by
  match t with
  | 1 => cases dyn <;> simp [tailCtx, tailQueries]
  | 0 | 2 | 3 | 4 => simp [tailCtx, tailQueries]
  | n + 5 => simp [tailCtx, tailQueries]

lemma lawful_tail (dyn : Bool) : Lawful (tailCtx dyn).toTyQueries where
  slice {t _} hkind := by
    match t with
    | 1 =>
      cases dyn
      · exact ⟨rfl, rfl⟩
      · cases hkind
    | 0 | 2 | 3 | 4 => cases hkind
    | n + 5 => cases hkind
  str {t} hkind := by simpa [hkind] using kind_tail dyn t
  dynamic {t} hkind := by
    match t with
    | 1 =>
      cases dyn
      · cases hkind
      · exact ⟨rfl, rfl⟩
    | 0 | 2 | 3 | 4 => cases hkind
    | n + 5 => cases hkind
  foreign {t} hkind := by simpa [hkind] using kind_tail dyn t
  kind_of_isUnsized {t} h := by
    match t with
    | 1 => cases dyn <;> exact .inl rfl
    | 2 => exact .inr (.inr (.inl ⟨_, rfl, rfl⟩))
    | 0 | 3 | 4 => cases h
    | n + 5 => simp [tailCtx, tailQueries] at h

omit [Ranked String] in
lemma fatPtrTyp_tail {p : ℕ} : let _ : Ranked String := rankedString
    (tailCtx dyn).fatPtrTyp p = some t →
    (p = 1 ∧ t = .structTag "tag-_1") ∨
      (p = 2 ∧ t = .structTag (if dyn then "tag-_1" else "tag-&_2")) := by
  intro _ h
  match p with
  | 1 =>
    refine .inl ⟨rfl, ?_⟩
    cases dyn <;> exact (Option.some.inj h).symm
  | 2 =>
    refine .inr ⟨rfl, ?_⟩
    cases dyn <;> exact (Option.some.inj h).symm
  | 0 | 3 | 4 => cases h
  | n + 5 =>
    simp [fatPtrTyp, codegenFatPtr, useThinPointer, tailCtx, tailQueries] at h

omit [Ranked String] in
lemma entered_tail (dyn : Bool) :
    let _ : Ranked String := rankedString
    (tailCtx dyn).Entered := by
  intro _
  refine ⟨?_, ?_, ?_, ?_, ?_⟩
  · intro p t h hslice
    cases dyn with
    | true => rcases fatPtrTyp_tail h with ⟨rfl, rfl⟩ | ⟨rfl, rfl⟩ <;> cases hslice
    | false =>
      rcases fatPtrTyp_tail h with ⟨rfl, rfl⟩ | ⟨rfl, rfl⟩
      · refine ⟨.unsignedbv 8, rfl, "tag-_1", structSymbol "_1" _, "_1", rfl, ?_, rfl⟩
        simp [tailCtx, tailTable, SymbolTable.lookup_set, structSymbol]
      · refine ⟨.structTag "tag-_2", rfl, "tag-&_2", structSymbol "&_2" _, "&_2", rfl, ?_, rfl⟩
        simp [tailCtx, tailTable, SymbolTable.lookup_set, structSymbol]
  · intro p t h hslice
    cases dyn with
    | true =>
      have ht : t = .structTag "tag-_1" := by
        rcases fatPtrTyp_tail h with ⟨-, rfl⟩ | ⟨-, rfl⟩ <;> rfl
      refine ⟨.empty, "tag-_1", structSymbol "_1" _, "_1", ht, ?_, rfl⟩
      simp [tailCtx, tailTable, SymbolTable.lookup_set, structSymbol]
    | false => rcases fatPtrTyp_tail h with ⟨rfl, rfl⟩ | ⟨rfl, rfl⟩ <;> cases hslice
  · intro a t element len _ hkind
    simpa [hkind] using kind_tail dyn a
  · intro a t element len _ hkind
    simpa [hkind] using kind_tail dyn a
  · intro b t _ hbox
    rcases Nat.lt_or_ge b 5 with hb | hb
    · interval_cases b <;> cases dyn <;> cases hbox
    · obtain ⟨n, rfl⟩ := Nat.exists_eq_add_of_le' hb
      cases hbox

lemma pointerWidth_tail (dyn : Bool) :
    (tailCtx dyn).symbolTable.machineModel.pointerWidth = 64 := by
  cases dyn <;> rfl

lemma lawfulTails_tail (dyn : Bool) : LawfulTails (tailCtx dyn).toLayoutQueries := by
  intro t ty v f name h _
  obtain ⟨rfl, rfl, rfl, rfl, rfl⟩ := lastField_tail h
  exact ⟨rfl, rfl⟩

section

omit [Ranked String]

lemma valid_tail (dyn : Bool) :
    let _ : Ranked String := rankedString
    (tailCtx dyn).Valid tailState := by
  intro _
  refine ⟨lawful_tail dyn, entered_tail dyn, by rw [pointerWidth_tail], Nat.two_pos, ?_, ?_⟩
  · intro x
    have hx : tailState.address x ≤ 1 := by
      simp only [tailState]
      split_ifs <;> omega
    rw [addresses, pointerWidth_tail]
    omega
  · intro t l
    show (if "f" = "f" then 1 else 0) ≠ if "x" = "f" then 1 else 0
    decide

lemma pointerPlace_tail (dyn : Bool) :
    let _ : Ranked String := rankedString
    (tailCtx dyn).PointerPlace tailState ⟨0, []⟩
      (.start ((tailCtx dyn).frame tailState) (tailCtx dyn).localTy 0) := by
  intro _
  refine ⟨fun m => .nil _, fun m => ?_, rfl⟩
  have hregular : (tailCtx dyn).RegularLocal 0 := ⟨by cases dyn <;> rfl, trivial⟩
  obtain ⟨p, hp, hden⟩ := (initialProjection_iff ((valid_tail dyn).withMemory m) 0).mpr hregular
  exact ⟨p, by simpa [codegenPlace] using hp, hden⟩

lemma tailPath_tail (dyn : Bool) :
    TailPath (tailQueries dyn).toLayoutQueries 2 [.field 1 1] 1 [0] 1 := by
  have hlast : LastField (tailQueries dyn).toLayoutQueries 2
      ⟨"S", [("head", 0), ("tail", 1)], nodup_byteAndTail⟩ 1 "tail" 1 :=
    ⟨⟨_, rfl, rfl, rfl, rfl⟩, rfl, rfl⟩
  exact .last hlast (by cases dyn <;> rfl)

/-- The borrow of a trait object behind a byte does not have the vtable of the reference. -/
theorem not_borrowsTail_dynamic :
    let _ : Ranked String := rankedString
    ¬ (tailCtx true).BorrowsTail tailState ⟨0, []⟩ 0 [.field 1 1] 1 4 := by
  intro _ h
  obtain ⟨n, hn, hmetadata⟩ := metadata_of_dynamic (valid_tail true) (lawfulTails_tail true)
    (structsEntered_tail true) (tailPath_tail true)
    ((pointerPlace_tail true).denotes tailState.memory) rfl
    ((valid_tail true).address_lt "x") rfl rfl (fun h => by cases h) (.inl rfl) rfl h
  obtain rfl : n = 1 := Nat.add_right_cancel hn
  exact absurd hmetadata (by decide +kernel)

theorem borrowsTail_slice :
    let _ : Ranked String := rankedString
    ∀ m, (tailCtx false).BorrowsTail { tailState with memory := m } ⟨0, []⟩ 0 [.field 1 1] 1 4 := by
  intro _
  refine (codegenRvalueRef_tail_iff (valid_tail false) ?_ (lawfulTails_tail false)
    (structsEntered_tail false) (pointerPlace_tail false) rfl rfl (fun h => by cases h)
    (tailPath_tail false) ?_ (.inl rfl)).mpr ⟨by decide, rfl⟩
  · rw [pointerWidth_tail]
    decide
  · intro _ d hd
    cases hd
    exact ⟨1, by decide +kernel⟩

end

end ByteAndTail

end PlaceCtx

end Rmc.Codegen

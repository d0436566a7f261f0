import Rmc.Goto.Typ
import Rmc.Lib.Run
import Rmc.Link.Restrictions

/-!
# Vtables and virtual calls

With vtable restrictions every function that is put into a vtable is recorded under the trait type
the vtable is built for (`codegen_vtable_method_field`, `codegen_vtable_drop_in_place`), and every
virtual call is registered under the trait type of its fat pointer
(`virtual_call_with_restricted_fn_ptr`). A cast between fat pointers keeps the vtable and changes
the trait type, so a vtable can reach calls under a name it was not recorded with.

The symbol table is modelled by the names in it, and a vtable by the functions in its slots.
-/

namespace Rmc.Codegen

open Rmc.Link Run

/-! ### Vtables -/

/-- The entries of a vtable as the compiler lays them out. A method is given by the name of the
function. -/
inductive VtblEntry where
  | metadataDropInPlace
  | metadataSize
  | metadataAlign
  | vacant
  | method (fnName : String)
  | traitVPtr
  deriving DecidableEq, Repr

def commonVtableEntries : List VtblEntry := [.metadataDropInPlace, .metadataSize, .metadataAlign]

/-- The vtable index for drop. -/
def dropIndex : ℕ := 0

/-- What a slot of a vtable holds. -/
inductive Slot where
  | fn (name : String)
  | null
  | size
  | align
  deriving DecidableEq, Repr

/-- A vtable: its variable, the trait type it was built for, and its slots by their indices. -/
structure Vtable (TraitTy : Type) where
  name : String
  traitTy : TraitTy
  slots : List (ℕ × Slot)

/-- What is read of a crate: the hashes of trait types, the mangled names of the other types, the
entries of vtables, the names of drop glue, and the crate's name in wrappers. The compiler puts
drop glue into the first entry and into no other. -/
structure Crate (TraitTy SrcTy : Type) where
  typeIdHash : TraitTy → ℕ
  tyMangledName : SrcTy → String
  vtableEntries : SrcTy → TraitTy → List VtblEntry
  dropSymName : SrcTy → String
  fullCrateName : String
  drop_first : ∀ {src t i}, (vtableEntries src t)[i]? = some .metadataDropInPlace → i = dropIndex

variable {TraitTy SrcTy : Type} (crate : Crate TraitTy SrcTy)

/-- The name of a trait type; it is no `repr(C)` type, so its name is its hash. -/
def normalizedTraitName (t : TraitTy) : String := "_" ++ toString (crate.typeIdHash t)

def vtableName (t : TraitTy) : String := normalizedTraitName crate t ++ "::vtable"

def vtableImplName (src : SrcTy) (t : TraitTy) : String :=
  vtableName crate t ++ "_impl_for_" ++ crate.tyMangledName src

/-! ### The context -/

/-- What is recorded about virtual calls. -/
structure VtableCtx where
  possibleMethods : AList fun _ : TraitDefinedMethod => List String
  callSites : List CallSite
  callSiteGlobalIdx : ℕ

namespace VtableCtx

def empty : VtableCtx := ⟨∅, [], 0⟩

/-- The implementations that are recorded for a trait method. -/
def possibilities (ctx : VtableCtx) (key : TraitDefinedMethod) : List String :=
  (ctx.possibleMethods.lookup key).getD []

def addPossibleMethod (ctx : VtableCtx) (traitName : String) (method : ℕ) (imp : String) :
    VtableCtx :=
  let key : TraitDefinedMethod := ⟨traitName, method⟩
  match ctx.possibleMethods.lookup key with
  | some possibilities =>
    { ctx with possibleMethods := ctx.possibleMethods.insert key (possibilities ++ [imp]) }
  | none => { ctx with possibleMethods := ctx.possibleMethods.insert key [imp] }

def getCallSiteGlobalIdx (ctx : VtableCtx) : ℕ × VtableCtx :=
  (ctx.callSiteGlobalIdx + 1, { ctx with callSiteGlobalIdx := ctx.callSiteGlobalIdx + 1 })

def addCallSite (ctx : VtableCtx) (traitName : String) (method : ℕ) (functionName : String) :
    VtableCtx :=
  { ctx with callSites := ctx.callSites ++ [⟨⟨traitName, method⟩, functionName⟩] }

@[simp] lemma callSites_addPossibleMethod (ctx : VtableCtx) (traitName : String) (method : ℕ)
    (imp : String) : (ctx.addPossibleMethod traitName method imp).callSites = ctx.callSites := by
  unfold addPossibleMethod
  dsimp only
  split <;> rfl

@[simp] lemma callSiteGlobalIdx_addPossibleMethod (ctx : VtableCtx) (traitName : String)
    (method : ℕ) (imp : String) :
    (ctx.addPossibleMethod traitName method imp).callSiteGlobalIdx = ctx.callSiteGlobalIdx := by
  unfold addPossibleMethod
  dsimp only
  split <;> rfl

/-- An implementation is recorded in addition to the others. -/
lemma mem_possibilities_addPossibleMethod {ctx : VtableCtx} {traitName imp imp' : String}
    {method : ℕ} {key : TraitDefinedMethod} :
    imp' ∈ (ctx.addPossibleMethod traitName method imp).possibilities key ↔
      imp' ∈ ctx.possibilities key ∨ key = ⟨traitName, method⟩ ∧ imp' = imp := by
  by_cases hkey : key = ⟨traitName, method⟩
  · subst hkey
    cases hlookup : ctx.possibleMethods.lookup ⟨traitName, method⟩ <;>
      simp [addPossibleMethod, possibilities, hlookup]
  · cases hlookup : ctx.possibleMethods.lookup ⟨traitName, method⟩ <;>
      simp [addPossibleMethod, possibilities, hlookup, AList.lookup_insert_ne hkey, hkey]

end VtableCtx

/-- The context of code generation: the names in the symbol table, the trait types by the tags of
their fat pointers, the vtables that get an initializer, and what is recorded. -/
structure GotocCtx (TraitTy : Type) where
  symbols : List String
  typeMap : AList fun _ : String => TraitTy
  vtables : List (Vtable TraitTy)
  vtableCtx : VtableCtx

namespace GotocCtx

/-- A context before any code generation; the table may have symbols already. -/
def initial (TraitTy : Type) (symbols : List String) : GotocCtx TraitTy :=
  ⟨symbols, ∅, [], .empty⟩

/-- Insert a symbol that is not in the table yet. -/
def insertSymbol (ctx : GotocCtx TraitTy) (name : String) : Option (GotocCtx TraitTy) :=
  if name ∈ ctx.symbols then none else some { ctx with symbols := name :: ctx.symbols }

def addPossibleMethod (ctx : GotocCtx TraitTy) (traitName : String) (method : ℕ) (imp : String) :
    GotocCtx TraitTy :=
  { ctx with vtableCtx := ctx.vtableCtx.addPossibleMethod traitName method imp }

end GotocCtx

/-! ### Code generation -/

/-- A type is entered into the type map under the tag of its fat pointer, unless the tag is
there. -/
def codegenTraitTy (t : TraitTy) (ctx : GotocCtx TraitTy) : GotocCtx TraitTy :=
  let tag := aggrTag (normalizedTraitName crate t)
  if (ctx.typeMap.lookup tag).isSome then ctx
  else { ctx with typeMap := ctx.typeMap.insert tag t }

/-- The slot of a method; a function that is not in the table leaves a null pointer. -/
def codegenVtableMethodField (fnName : String) (t : TraitTy) (idx : ℕ)
    (ctx : GotocCtx TraitTy) : Slot × GotocCtx TraitTy :=
  if fnName ∈ ctx.symbols then
    (.fn fnName, ctx.addPossibleMethod (normalizedTraitName crate t) idx fnName)
  else (.null, ctx)

/-- The name of the function that stands for drop glue that is not in the table. -/
def unimplementedName (src : SrcTy) : String := crate.dropSymName src ++ "_unimplemented"

/-- The slot of drop glue. Drop glue that is not in the table is replaced by a function that calls
an unimplemented block, with a parameter of its own. -/
def codegenVtableDropInPlace (src : SrcTy) (t : TraitTy) (ctx : GotocCtx TraitTy) :
    Option (Slot × GotocCtx TraitTy) :=
  let dropSymName := crate.dropSymName src
  if dropSymName ∈ ctx.symbols then
    some (.fn dropSymName,
      ctx.addPossibleMethod (normalizedTraitName crate t) dropIndex dropSymName)
  else
    let name := unimplementedName crate src
    if name ∈ ctx.symbols then some (.fn name, ctx)
    else do
      let ctx ← ctx.insertSymbol (name ++ "::1::var0")
      let ctx ← ctx.insertSymbol name
      return (.fn name, ctx)

/-- One entry of a vtable, after the fields so far. -/
def codegenVtableField (src : SrcTy) (t : TraitTy)
    (acc : List (ℕ × Slot) × GotocCtx TraitTy) (entry : VtblEntry × ℕ) :
    Option (List (ℕ × Slot) × GotocCtx TraitTy) :=
  match entry with
  | (.metadataDropInPlace, idx) => do
    let (slot, ctx) ← codegenVtableDropInPlace crate src t acc.2
    return (acc.1 ++ [(idx, slot)], ctx)
  | (.metadataSize, idx) => some (acc.1 ++ [(idx, .size)], acc.2)
  | (.metadataAlign, idx) => some (acc.1 ++ [(idx, .align)], acc.2)
  | (.vacant, _) => some acc
  | (.traitVPtr, _) => some acc
  | (.method fnName, idx) =>
    let (slot, ctx) := codegenVtableMethodField crate fnName t idx acc.2
    some (acc.1 ++ [(idx, slot)], ctx)

/-- The vtable gets its contents from an initializer, unless a function of that name exists. -/
def registerVtableInitializer (vtable : Vtable TraitTy) (ctx : GotocCtx TraitTy) :
    GotocCtx TraitTy :=
  let fnName := vtable.name ++ "_init"
  if fnName ∈ ctx.symbols then ctx
  else { ctx with symbols := fnName :: ctx.symbols, vtables := ctx.vtables ++ [vtable] }

/-- The vtable of a type for a trait type, which is built unless its variable is in the table. -/
def codegenVtable (src : SrcTy) (t : TraitTy) (ctx : GotocCtx TraitTy) :
    Option (GotocCtx TraitTy) :=
  let name := vtableImplName crate src t
  if name ∈ ctx.symbols then some ctx
  else do
    let ctx ← ctx.insertSymbol name
    let (slots, ctx) ←
      (crate.vtableEntries src t).zipIdx.foldlM (codegenVtableField crate src t) ([], ctx)
    return registerVtableInitializer ⟨name, t, slots⟩ ctx

/-- The names of the wrapper of a virtual call and of its parameters. -/
def wrapperName (n : ℕ) : String := "restricted_call_" ++ crate.fullCrateName ++ "_" ++ toString n

def wrapperParameter (wrapper : String) (i : ℕ) : String := wrapper ++ "_" ++ toString i

/-- Wrap a virtual call and register it. Of the trait type only the tag of its fat pointer is
known; the type map gives the type back. -/
def virtualCallWithRestrictedFnPtr (tag : String) (vtableIdx parameters : ℕ)
    (ctx : GotocCtx TraitTy) : Option (GotocCtx TraitTy) := do
  let (idx, vtableCtx) := ctx.vtableCtx.getCallSiteGlobalIdx
  let wrapper := wrapperName crate idx
  let t ← ctx.typeMap.lookup tag
  let vtableCtx := vtableCtx.addCallSite (normalizedTraitName crate t) vtableIdx wrapper
  let ctx := { ctx with vtableCtx := vtableCtx }
  let ctx ← ((List.range parameters).map (wrapperParameter wrapper)).foldlM
    GotocCtx.insertSymbol ctx
  ctx.insertSymbol wrapper

/-- A call of the method in a slot, through a fat pointer of the trait type. -/
def codegenVirtualFuncall (t : TraitTy) (idx parameters : ℕ) (ctx : GotocCtx TraitTy) :
    Option (GotocCtx TraitTy) :=
  virtualCallWithRestrictedFnPtr crate (aggrTag (normalizedTraitName crate t)) idx parameters
    (codegenTraitTy crate t ctx)

/-- The drop of a value behind a fat pointer of the trait type; drop glue has one parameter. -/
def codegenVirtualDrop (t : TraitTy) (ctx : GotocCtx TraitTy) : Option (GotocCtx TraitTy) :=
  codegenVirtualFuncall crate t dropIndex 1 ctx

/-! ### Runs -/

/-- What code generation comes across. -/
inductive VtableEvent (TraitTy SrcTy : Type) where
  | symbol (name : String)
  | traitTy (t : TraitTy)
  | vtable (src : SrcTy) (t : TraitTy)
  | castDyn (src dst : TraitTy)
  | virtualCall (t : TraitTy) (idx parameters : ℕ)
  | virtualDrop (t : TraitTy)
  deriving DecidableEq

namespace VtableEvent

/-- One step of code generation. A cast between fat pointers only translates the type. -/
def step (ctx : GotocCtx TraitTy) : VtableEvent TraitTy SrcTy → Option (GotocCtx TraitTy)
  | .symbol name => ctx.insertSymbol name
  | .traitTy t => some (codegenTraitTy crate t ctx)
  | .vtable src t => codegenVtable crate src t (codegenTraitTy crate t ctx)
  | .castDyn _ dst => some (codegenTraitTy crate dst ctx)
  | .virtualCall t idx parameters => codegenVirtualFuncall crate t idx parameters ctx
  | .virtualDrop t => codegenVirtualDrop crate t ctx

/-- A virtual call: the trait type and the slot. -/
def call : VtableEvent TraitTy SrcTy → Option (TraitTy × ℕ)
  | .virtualCall t idx _ => some (t, idx)
  | .virtualDrop t => some (t, dropIndex)
  | _ => none

end VtableEvent

/-- A fat pointer of one trait type can become one of the other. -/
def CastsTo (es : List (VtableEvent TraitTy SrcTy)) : TraitTy → TraitTy → Prop :=
  Relation.ReflTransGen fun t t' => .castDyn t t' ∈ es

/-- A fat pointer of the trait type can hold the vtable of that name. -/
def Reaches (es : List (VtableEvent TraitTy SrcTy)) (name : String) (t : TraitTy) : Prop :=
  ∃ src t₀, .vtable src t₀ ∈ es ∧ vtableImplName crate src t₀ = name ∧ CastsTo es t₀ t

/-- Every virtual call is registered under its trait type and slot, and every function that a
vtable can bring to the call is recorded under what the call is registered with. -/
def OverApproximates (es : List (VtableEvent TraitTy SrcTy)) (ctx : GotocCtx TraitTy) : Prop :=
  ∀ (n : ℕ) (t : TraitTy) (idx : ℕ), (es.filterMap VtableEvent.call)[n]? = some (t, idx) →
    ∃ site, ctx.vtableCtx.callSites[n]? = some site ∧
      site.traitMethod = ⟨normalizedTraitName crate t, idx⟩ ∧
      ∀ v ∈ ctx.vtables, Reaches crate es v.name t → ∀ f, (idx, .fn f) ∈ v.slots →
        f ∈ ctx.vtableCtx.possibilities site.traitMethod

/-! ### What a step changes -/

/-- Nothing but new symbols and new records. -/
structure Gains (ctx ctx' : GotocCtx TraitTy) : Prop where
  typeMap : ctx'.typeMap = ctx.typeMap
  vtables : ctx'.vtables = ctx.vtables
  callSites : ctx'.vtableCtx.callSites = ctx.vtableCtx.callSites
  callSiteGlobalIdx : ctx'.vtableCtx.callSiteGlobalIdx = ctx.vtableCtx.callSiteGlobalIdx
  symbols : ∀ {name}, name ∈ ctx.symbols → name ∈ ctx'.symbols
  possibilities : ∀ {f key}, f ∈ ctx.vtableCtx.possibilities key →
    f ∈ ctx'.vtableCtx.possibilities key

variable {idx parameters : ℕ} {tag : String}

section Steps

variable {crate} {ctx ctx' : GotocCtx TraitTy} {src : SrcTy} {t : TraitTy}

namespace Gains

lemma refl (ctx : GotocCtx TraitTy) : Gains ctx ctx := ⟨rfl, rfl, rfl, rfl, id, id⟩

lemma trans {ctx'' : GotocCtx TraitTy} (h : Gains ctx ctx') (h' : Gains ctx' ctx'') :
    Gains ctx ctx'' where
  typeMap := h'.typeMap.trans h.typeMap
  vtables := h'.vtables.trans h.vtables
  callSites := h'.callSites.trans h.callSites
  callSiteGlobalIdx := h'.callSiteGlobalIdx.trans h.callSiteGlobalIdx
  symbols hname := h'.symbols (h.symbols hname)
  possibilities hf := h'.possibilities (h.possibilities hf)

lemma insertSymbol {name : String} (h : ctx.insertSymbol name = some ctx') : Gains ctx ctx' := by
  unfold GotocCtx.insertSymbol at h
  split at h
  · cases h
  · cases h
    exact ⟨rfl, rfl, rfl, rfl, List.mem_cons_of_mem _, id⟩

lemma insertSymbols {names : List String}
    (h : names.foldlM GotocCtx.insertSymbol ctx = some ctx') : Gains ctx ctx' := by
  induction names generalizing ctx with
  | nil =>
    obtain rfl : ctx = ctx' := by simpa using h
    exact .refl ctx
  | cons name names ih =>
    obtain ⟨ctx₁, h₁, h₂⟩ := bind_eq_some.mp h
    exact (insertSymbol h₁).trans (ih h₂)

lemma addPossibleMethod (ctx : GotocCtx TraitTy) (traitName : String) (method : ℕ)
    (imp : String) : Gains ctx (ctx.addPossibleMethod traitName method imp) := by
  refine ⟨rfl, rfl, ?_, ?_, id, fun hf => ?_⟩
  · exact ctx.vtableCtx.callSites_addPossibleMethod _ _ _
  · exact ctx.vtableCtx.callSiteGlobalIdx_addPossibleMethod _ _ _
  · exact VtableCtx.mem_possibilities_addPossibleMethod.mpr (.inl hf)

end Gains

variable (crate ctx t) in
/-- A function that is put into a slot is recorded. -/
lemma codegenVtableMethodField_spec (fnName : String) (idx : ℕ) :
    Gains ctx (codegenVtableMethodField crate fnName t idx ctx).2 ∧
      ∀ f, (codegenVtableMethodField crate fnName t idx ctx).1 = .fn f →
        f ∈ (codegenVtableMethodField crate fnName t idx ctx).2.vtableCtx.possibilities
          ⟨normalizedTraitName crate t, idx⟩ := by
  unfold codegenVtableMethodField
  split
  · refine ⟨.addPossibleMethod _ _ _ _, fun f hf => ?_⟩
    obtain rfl : fnName = f := by simpa using hf
    exact VtableCtx.mem_possibilities_addPossibleMethod.mpr (.inr ⟨rfl, rfl⟩)
  · exact ⟨.refl ctx, by simp⟩

/-- Drop glue that is put into its slot is recorded, and its replacement is not. -/
lemma codegenVtableDropInPlace_spec {slot : Slot}
    (h : codegenVtableDropInPlace crate src t ctx = some (slot, ctx')) :
    Gains ctx ctx' ∧ ∀ f, slot = .fn f →
      f ∈ ctx'.vtableCtx.possibilities ⟨normalizedTraitName crate t, dropIndex⟩ ∨
        crate.dropSymName src ∉ ctx.symbols := by
  unfold codegenVtableDropInPlace at h
  by_cases hdrop : crate.dropSymName src ∈ ctx.symbols
  · simp only [hdrop, if_true, Option.some.injEq, Prod.mk.injEq] at h
    obtain ⟨rfl, rfl⟩ := h
    refine ⟨.addPossibleMethod _ _ _ _, fun f hf => .inl ?_⟩
    obtain rfl : crate.dropSymName src = f := by simpa using hf
    exact VtableCtx.mem_possibilities_addPossibleMethod.mpr (.inr ⟨rfl, rfl⟩)
  · refine ⟨?_, fun f _ => .inr hdrop⟩
    simp only [hdrop, if_false] at h
    split at h
    · cases h
      exact .refl ctx
    · simp only [bind_eq_some, pure_eq_some, Prod.mk.injEq] at h
      obtain ⟨ctx₁, h₁, ctx₂, h₂, -, rfl⟩ := h
      exact (Gains.insertSymbol h₁).trans (.insertSymbol h₂)

variable (crate) in
/-- Every function in the slots is recorded for the trait type, as far as drop glue was in the
table when the vtable was begun. -/
def SlotsRecorded (src : SrcTy) (t : TraitTy) (ctx₀ ctx : GotocCtx TraitTy)
    (slots : List (ℕ × Slot)) : Prop :=
  ∀ idx f, (idx, .fn f) ∈ slots →
    f ∈ ctx.vtableCtx.possibilities ⟨normalizedTraitName crate t, idx⟩ ∨
      crate.dropSymName src ∉ ctx₀.symbols

variable {slots slots' : List (ℕ × Slot)} {ctx₀ : GotocCtx TraitTy}

lemma SlotsRecorded.gains (h : SlotsRecorded crate src t ctx₀ ctx slots) (hgains : Gains ctx ctx') :
    SlotsRecorded crate src t ctx₀ ctx' slots := fun idx f hf =>
  (h idx f hf).imp_left hgains.possibilities

lemma codegenVtableField_spec {entry : VtblEntry × ℕ} (hgains : Gains ctx₀ ctx)
    (hdrop : entry.1 = .metadataDropInPlace → entry.2 = dropIndex)
    (hslots : SlotsRecorded crate src t ctx₀ ctx slots)
    (h : codegenVtableField crate src t (slots, ctx) entry = some (slots', ctx')) :
    Gains ctx ctx' ∧ SlotsRecorded crate src t ctx₀ ctx' slots' := by
  -- a slot that holds no function keeps the slots recorded
  have hother : ∀ idx slot, (∀ f, slot ≠ .fn f) →
      SlotsRecorded crate src t ctx₀ ctx (slots ++ [(idx, slot)]) := by
    intro idx slot hslot idx' f hf
    rcases List.mem_append.mp hf with hf | hf
    · exact hslots idx' f hf
    · have heq := List.mem_singleton.mp hf
      rw [Prod.mk.injEq] at heq
      exact absurd heq.2.symm (hslot f)
  obtain ⟨kind, idx⟩ := entry
  cases kind with
  | metadataSize | metadataAlign =>
    cases h
    exact ⟨.refl ctx, hother idx _ (by simp)⟩
  | vacant | traitVPtr =>
    cases h
    exact ⟨.refl ctx, hslots⟩
  | metadataDropInPlace =>
    obtain rfl : idx = dropIndex := hdrop rfl
    simp only [codegenVtableField, bind_eq_some, pure_eq_some, Prod.mk.injEq, Prod.exists] at h
    obtain ⟨slot, ctx₁, hgen, rfl, rfl⟩ := h
    obtain ⟨hgains₁, hrecorded⟩ := codegenVtableDropInPlace_spec hgen
    refine ⟨hgains₁, fun idx' f hf => ?_⟩
    rcases List.mem_append.mp hf with hf | hf
    · exact hslots.gains hgains₁ idx' f hf
    · have heq := List.mem_singleton.mp hf
      rw [Prod.mk.injEq] at heq
      rw [heq.1]
      exact (hrecorded f heq.2.symm).imp_right fun hmissing hmem =>
        hmissing (hgains.symbols hmem)
  | method fnName =>
    have hspec := codegenVtableMethodField_spec crate ctx t fnName idx
    simp only [codegenVtableField, Option.some.injEq, Prod.mk.injEq] at h
    obtain ⟨rfl, rfl⟩ := h
    refine ⟨hspec.1, fun idx' f hf => ?_⟩
    rcases List.mem_append.mp hf with hf | hf
    · exact hslots.gains hspec.1 idx' f hf
    · have heq := List.mem_singleton.mp hf
      rw [Prod.mk.injEq] at heq
      rw [heq.1]
      exact .inl (hspec.2 f heq.2.symm)

lemma foldlM_codegenVtableField_spec {entries : List (VtblEntry × ℕ)} (hgains : Gains ctx₀ ctx)
    (hdrop : ∀ entry ∈ entries, entry.1 = .metadataDropInPlace → entry.2 = dropIndex)
    (hslots : SlotsRecorded crate src t ctx₀ ctx slots)
    (h : entries.foldlM (codegenVtableField crate src t) (slots, ctx) = some (slots', ctx')) :
    Gains ctx₀ ctx' ∧ SlotsRecorded crate src t ctx₀ ctx' slots' := by
  induction entries generalizing slots ctx with
  | nil =>
    obtain ⟨rfl, rfl⟩ : slots = slots' ∧ ctx = ctx' := by simpa using h
    exact ⟨hgains, hslots⟩
  | cons entry entries ih =>
    rw [List.forall_mem_cons] at hdrop
    obtain ⟨⟨slots₁, ctx₁⟩, h₁, h₂⟩ := bind_eq_some.mp h
    obtain ⟨hgains₁, hslots₁⟩ := codegenVtableField_spec hgains hdrop.1 hslots h₁
    exact ih (hgains.trans hgains₁) hdrop.2 hslots₁ h₂

/-- What building a vtable changes: its functions are recorded, and it may be a new vtable. -/
lemma codegenVtable_spec (h : codegenVtable crate src t ctx = some ctx') :
    ∃ ctx₁ slots, Gains ctx ctx₁ ∧
      (vtableImplName crate src t ∉ ctx.symbols → SlotsRecorded crate src t ctx ctx₁ slots) ∧
      (ctx' = ctx₁ ∨ vtableImplName crate src t ∉ ctx.symbols ∧
        ctx' = { ctx₁ with
          symbols := (vtableImplName crate src t ++ "_init") :: ctx₁.symbols
          vtables := ctx₁.vtables ++ [⟨vtableImplName crate src t, t, slots⟩] }) := by
  unfold codegenVtable at h
  by_cases hname : vtableImplName crate src t ∈ ctx.symbols
  · simp only [hname, if_true, Option.some.injEq] at h
    subst h
    exact ⟨ctx, [], .refl ctx, fun hnot => absurd hname hnot, .inl rfl⟩
  simp only [hname, if_false, bind_eq_some, pure_eq_some, Prod.exists] at h
  obtain ⟨ctx₁, hinsert, slots, ctx₂, hfold, hregister⟩ := h
  have hdrop : ∀ entry ∈ (crate.vtableEntries src t).zipIdx,
      entry.1 = .metadataDropInPlace → entry.2 = dropIndex := by
    intro entry hentry hkind
    exact crate.drop_first (hkind ▸ List.mem_zipIdx_iff_getElem?.mp hentry)
  obtain ⟨hgains, hslots⟩ := foldlM_codegenVtableField_spec (Gains.insertSymbol hinsert) hdrop
    (fun idx f hf => by simp at hf) hfold
  refine ⟨ctx₂, slots, hgains, fun _ => hslots, ?_⟩
  unfold registerVtableInitializer at hregister
  dsimp only at hregister
  split at hregister
  · exact .inl hregister.symm
  · exact .inr ⟨hname, hregister.symm⟩

/-- What a virtual call changes: it is registered under the type that the type map gives. -/
lemma virtualCallWithRestrictedFnPtr_spec
    (h : virtualCallWithRestrictedFnPtr crate tag idx parameters ctx = some ctx') :
    ∃ t', ctx.typeMap.lookup tag = some t' ∧ ctx'.typeMap = ctx.typeMap ∧
      ctx'.vtables = ctx.vtables ∧
      ctx'.vtableCtx.callSites = ctx.vtableCtx.callSites ++
        [⟨⟨normalizedTraitName crate t', idx⟩,
          wrapperName crate (ctx.vtableCtx.callSiteGlobalIdx + 1)⟩] ∧
      ctx'.vtableCtx.callSiteGlobalIdx = ctx.vtableCtx.callSiteGlobalIdx + 1 ∧
      ∀ {f key}, f ∈ ctx.vtableCtx.possibilities key → f ∈ ctx'.vtableCtx.possibilities key := by
  unfold virtualCallWithRestrictedFnPtr at h
  simp only [bind_eq_some] at h
  obtain ⟨t', ht', ctx₂, hparameters, hwrapper⟩ := h
  have hgains := (Gains.insertSymbols hparameters).trans (.insertSymbol hwrapper)
  exact ⟨t', ht', hgains.typeMap, hgains.vtables, hgains.callSites, hgains.callSiteGlobalIdx,
    hgains.possibilities⟩

variable (crate) in
/-- The type map gives a type of the name that the tag has. -/
lemma codegenTraitTy_spec (ctx : GotocCtx TraitTy) (t : TraitTy) :
    (∀ {tag t'}, (codegenTraitTy crate t ctx).typeMap.lookup tag = some t' →
      ctx.typeMap.lookup tag = some t' ∨ tag = aggrTag (normalizedTraitName crate t) ∧ t' = t) ∧
    (codegenTraitTy crate t ctx).vtables = ctx.vtables ∧
    (codegenTraitTy crate t ctx).vtableCtx = ctx.vtableCtx ∧
    (codegenTraitTy crate t ctx).symbols = ctx.symbols := by
  unfold codegenTraitTy
  dsimp only
  split
  · exact ⟨.inl, rfl, rfl, rfl⟩
  · refine ⟨fun {tag t'} h => ?_, rfl, rfl, rfl⟩
    by_cases htag : tag = aggrTag (normalizedTraitName crate t)
    · subst htag
      rw [AList.lookup_insert, Option.some.injEq] at h
      exact .inr ⟨rfl, h.symm⟩
    · rw [AList.lookup_insert_ne htag] at h
      exact .inl h

end Steps

/-! ### Names -/

section Names

variable {crate}

lemma not_mem_normalizedTraitName (t : TraitTy) : ':' ∉ (normalizedTraitName crate t).toList := by
  intro hmem
  rw [normalizedTraitName, String.toList_append, List.mem_append] at hmem
  rcases hmem with hmem | hmem
  · revert hmem
    decide
  · have hdigits : (toString (crate.typeIdHash t)).toList =
        Nat.toDigits 10 (crate.typeIdHash t) := by
      simp [Nat.repr]
    rw [hdigits] at hmem
    have hdigit := Nat.isDigit_of_mem_toDigits (by decide) (by decide) hmem
    revert hdigit
    decide

/-- The name of a vtable determines the name of its trait type: a colon ends it. -/
lemma normalizedTraitName_eq_of_vtableImplName_eq {src src' : SrcTy} {t t' : TraitTy}
    (h : vtableImplName crate src t = vtableImplName crate src' t') :
    normalizedTraitName crate t = normalizedTraitName crate t' := by
  have htake : ∀ (src : SrcTy) (t : TraitTy),
      (vtableImplName crate src t).toList.takeWhile (· ≠ ':') =
        (normalizedTraitName crate t).toList := by
    intro src t
    have hcolon : ("::vtable" ++ "_impl_for_" : String).toList =
        ':' :: (":vtable_impl_for_" : String).toList := by
      decide
    have hsplit : (vtableImplName crate src t).toList = (normalizedTraitName crate t).toList ++
        (':' :: (":vtable_impl_for_" : String).toList ++ (crate.tyMangledName src).toList) := by
      rw [vtableImplName, vtableName, ← hcolon]
      simp only [String.toList_append, List.append_assoc]
    rw [hsplit, List.takeWhile_append_of_pos]
    · simp
    · intro c hc
      simp only [ne_eq, decide_not, Bool.not_eq_eq_eq_not, Bool.not_true, decide_eq_false_iff_not]
      rintro rfl
      exact not_mem_normalizedTraitName t hc
  rw [← String.toList_inj, ← htake src t, ← htake src' t', h]

lemma aggrTag_inj {n n' : String} (h : aggrTag n = aggrTag n') : n = n' := by
  simpa [aggrTag] using h

end Names

/-! ### Recording along a run -/

section Invariant

variable (symbols : List String)

/-- The vtable was begun by an event of the run, and the functions in its slots are recorded, as
far as drop glue was in the table at that point. -/
def Begun (es : List (VtableEvent TraitTy SrcTy)) (ctx : GotocCtx TraitTy) (v : Vtable TraitTy) :
    Prop :=
  ∃ src pre post ctx₀, es = pre ++ .vtable src v.traitTy :: post ∧
    run (VtableEvent.step crate) (.initial TraitTy symbols) pre = some ctx₀ ∧
    vtableImplName crate src v.traitTy ∉ ctx₀.symbols ∧
    v.name = vtableImplName crate src v.traitTy ∧
    SlotsRecorded crate src v.traitTy ctx₀ ctx v.slots

/-- What holds after every run. -/
structure Invariant (es : List (VtableEvent TraitTy SrcTy)) (ctx : GotocCtx TraitTy) : Prop where
  typeMap : ∀ {tag t}, ctx.typeMap.lookup tag = some t → tag = aggrTag (normalizedTraitName crate t)
  callSites : ctx.vtableCtx.callSites.map CallSite.traitMethod =
    (es.filterMap VtableEvent.call).map fun call => ⟨normalizedTraitName crate call.1, call.2⟩
  vtables : ∀ v ∈ ctx.vtables, Begun crate symbols es ctx v

variable {crate symbols} {es : List (VtableEvent TraitTy SrcTy)} {ctx ctx' : GotocCtx TraitTy}

lemma Begun.mono {v : Vtable TraitTy} (h : Begun crate symbols es ctx v)
    (e : VtableEvent TraitTy SrcTy)
    (hposs : ∀ {f key}, f ∈ ctx.vtableCtx.possibilities key →
      f ∈ ctx'.vtableCtx.possibilities key) : Begun crate symbols (es ++ [e]) ctx' v := by
  obtain ⟨src, pre, post, ctx₀, rfl, hrun, hnew, hname, hslots⟩ := h
  exact ⟨src, pre, post ++ [e], ctx₀, by simp, hrun, hnew, hname,
    fun idx f hf => (hslots idx f hf).imp_left hposs⟩

namespace Invariant

variable {e : VtableEvent TraitTy SrcTy}

section

variable (h : Invariant crate symbols es ctx)

include h

/-- An event that is no call, adds no vtable and only records more. -/
lemma concat
    (hcall : e.call = none)
    (htypeMap : ∀ {tag t}, ctx'.typeMap.lookup tag = some t →
      tag = aggrTag (normalizedTraitName crate t))
    (hvtables : ctx'.vtables = ctx.vtables)
    (hcallSites : ctx'.vtableCtx.callSites = ctx.vtableCtx.callSites)
    (hposs : ∀ {f key}, f ∈ ctx.vtableCtx.possibilities key →
      f ∈ ctx'.vtableCtx.possibilities key) : Invariant crate symbols (es ++ [e]) ctx' where
  typeMap := htypeMap
  callSites := by
    rw [hcallSites, h.callSites]
    simp [hcall]
  vtables := by
    rw [hvtables]
    exact fun v hv => (h.vtables v hv).mono e hposs

lemma typeMap_codegenTraitTy {t : TraitTy} {t' : TraitTy}
    (ht' : (codegenTraitTy crate t ctx).typeMap.lookup tag = some t') :
    tag = aggrTag (normalizedTraitName crate t') := by
  rcases (codegenTraitTy_spec crate ctx t).1 ht' with hold | ⟨rfl, rfl⟩
  · exact h.typeMap hold
  · rfl

lemma codegenTraitTy (hcall : e.call = none) (t : TraitTy) :
    Invariant crate symbols (es ++ [e]) (codegenTraitTy crate t ctx) := by
  obtain ⟨-, hvtables, hvtableCtx, -⟩ := codegenTraitTy_spec crate ctx t
  refine h.concat hcall h.typeMap_codegenTraitTy hvtables (by rw [hvtableCtx]) ?_
  rw [hvtableCtx]
  exact id

/-- A virtual call is registered under the name of its trait type. -/
lemma virtualFuncall {t : TraitTy} (hcall : e.call = some (t, idx))
    (hgen : codegenVirtualFuncall crate t idx parameters ctx = some ctx') :
    Invariant crate symbols (es ++ [e]) ctx' := by
  obtain ⟨-, hvtables, hvtableCtx, -⟩ := codegenTraitTy_spec crate ctx t
  obtain ⟨t', ht', htypeMap', hvtables', hcallSites', -, hposs'⟩ :=
    virtualCallWithRestrictedFnPtr_spec hgen
  rw [hvtableCtx] at hcallSites' hposs'
  have hname : normalizedTraitName crate t = normalizedTraitName crate t' :=
    aggrTag_inj (h.typeMap_codegenTraitTy ht')
  refine ⟨?_, ?_, ?_⟩
  · rw [htypeMap']
    exact h.typeMap_codegenTraitTy
  · rw [hcallSites', List.map_append, h.callSites]
    simp [hcall, hname]
  · rw [hvtables', hvtables]
    exact fun v hv => (h.vtables v hv).mono e hposs'

/-- Building a vtable. -/
lemma vtable (hrun : run (VtableEvent.step crate) (.initial TraitTy symbols) es = some ctx)
    {src : SrcTy} {t : TraitTy}
    (hgen : codegenVtable crate src t (Codegen.codegenTraitTy crate t ctx) = some ctx') :
    Invariant crate symbols (es ++ [.vtable src t]) ctx' := by
  obtain ⟨-, hvtables, hvtableCtx, hsymbols⟩ := codegenTraitTy_spec crate ctx t
  obtain ⟨ctx₁, slots, hgains, hslots, hctx'⟩ := codegenVtable_spec hgen
  have hposs : ∀ {f key}, f ∈ ctx.vtableCtx.possibilities key →
      f ∈ ctx₁.vtableCtx.possibilities key := by
    rw [← hvtableCtx]
    exact hgains.possibilities
  have hctx₁ : Invariant crate symbols (es ++ [.vtable src t]) ctx₁ := by
    refine h.concat rfl ?_ (hgains.vtables.trans hvtables) ?_ hposs
    · rw [hgains.typeMap]
      exact h.typeMap_codegenTraitTy
    · rw [hgains.callSites, hvtableCtx]
  rcases hctx' with rfl | ⟨hnew, rfl⟩
  · exact hctx₁
  · refine ⟨hctx₁.typeMap, hctx₁.callSites, fun v hv => ?_⟩
    rcases List.mem_append.mp hv with hv | hv
    · exact hctx₁.vtables v hv
    · -- the new vtable was begun by this event
      obtain rfl := List.mem_singleton.mp hv
      rw [hsymbols] at hnew
      refine ⟨src, es, [], ctx, rfl, hrun, hnew, rfl, fun idx f hf => ?_⟩
      have hrecorded := hslots (hsymbols ▸ hnew) idx f hf
      rwa [hsymbols] at hrecorded

end

lemma of_run (hrun : run (VtableEvent.step crate) (.initial TraitTy symbols) es = some ctx) :
    Invariant crate symbols es ctx := by
  refine run_invariant ⟨by simp [GotocCtx.initial], rfl, by simp [GotocCtx.initial]⟩ ?_ hrun
  intro es ctx e ctx' hrun h hstep
  cases e with
  | symbol name =>
    have hgains := Gains.insertSymbol hstep
    exact h.concat rfl (by rw [hgains.typeMap]; exact h.typeMap) hgains.vtables hgains.callSites
      hgains.possibilities
  | traitTy t =>
    obtain rfl := Option.some_inj.mp hstep
    exact h.codegenTraitTy rfl t
  | vtable src t => exact h.vtable hrun hstep
  | castDyn src dst =>
    obtain rfl := Option.some_inj.mp hstep
    exact h.codegenTraitTy rfl dst
  | virtualCall t idx parameters => exact h.virtualFuncall rfl hstep
  | virtualDrop t => exact h.virtualFuncall rfl hstep

end Invariant

/-- The restrictions of a run over-approximate when no vtable reaches a call under another name
than that of the trait type it was built for, and when drop glue is in the table whenever a vtable
is begun. -/
theorem overApproximates_of_run
    (hrun : run (VtableEvent.step crate) (.initial TraitTy symbols) es = some ctx)
    (hcasts : ∀ src t₀ t idx, .vtable src t₀ ∈ es → (t, idx) ∈ es.filterMap VtableEvent.call →
      CastsTo es t₀ t → normalizedTraitName crate t₀ = normalizedTraitName crate t)
    (hdrops : ∀ pre src t post ctx₀, es = pre ++ .vtable src t :: post →
      run (VtableEvent.step crate) (.initial TraitTy symbols) pre = some ctx₀ →
      vtableImplName crate src t ∉ ctx₀.symbols → crate.dropSymName src ∈ ctx₀.symbols) :
    OverApproximates crate es ctx := by
  have hinv := Invariant.of_run hrun
  intro n t idx hcall
  have hsites := congrArg (fun l => l[n]?) hinv.callSites
  simp only [List.getElem?_map, hcall, Option.map_some, Option.map_eq_some_iff] at hsites
  obtain ⟨site, hsite, hkey⟩ := hsites
  refine ⟨site, hsite, hkey, fun v hv hreaches f hf => ?_⟩
  obtain ⟨src, pre, post, ctx₀, hes, hpre, hnew, hname, hslots⟩ := hinv.vtables v hv
  obtain ⟨src', t₀, hmem, hname', hcastsTo⟩ := hreaches
  -- the vtable has one name, so it was built for a trait type of the call's name
  have htrait : normalizedTraitName crate v.traitTy = normalizedTraitName crate t :=
    (normalizedTraitName_eq_of_vtableImplName_eq (hname.symm.trans hname'.symm)).trans
      (hcasts src' t₀ t idx hmem (List.mem_of_getElem? hcall) hcastsTo)
  rw [hkey, ← htrait]
  exact (hslots idx f hf).resolve_right
    (not_not.mpr (hdrops pre src v.traitTy post ctx₀ hes hpre hnew))

end Invariant

/-! ### One trait, with and without `Send` -/

/-- Two trait types, `dyn A + Send` and `dyn A`, and one type that implements `A`. -/
def sendCrate : Crate Bool Unit where
  typeIdHash send := if send then 1 else 2
  tyMangledName _ := "_3"
  vtableEntries _ _ := commonVtableEntries ++ [.method "f"]
  dropSymName _ := "drop"
  fullCrateName := "c"
  drop_first {src t i} h := by
    rcases i with _ | _ | _ | _ | i
    · rfl
    all_goals simp [commonVtableEntries] at h

theorem overApproximates_without_cast :
    ∃ ctx, run (VtableEvent.step sendCrate) (.initial Bool ["drop", "f"])
        [.vtable () false, .virtualCall false 3 1] = some ctx ∧
      OverApproximates sendCrate [.vtable () false, .virtualCall false 3 1] ctx := by
  obtain ⟨ctx, hrun⟩ : ∃ ctx, run (VtableEvent.step sendCrate) (.initial Bool ["drop", "f"])
      [.vtable () false, .virtualCall false 3 1] = some ctx :=
    Option.isSome_iff_exists.mp (by decide)
  refine ⟨ctx, hrun, overApproximates_of_run hrun ?_ ?_⟩
  · intro src t₀ t idx hvtable hcall _
    simp only [List.mem_cons, List.not_mem_nil, VtableEvent.vtable.injEq, reduceCtorEq,
      or_false] at hvtable
    simp only [List.filterMap_cons, VtableEvent.call, List.filterMap_nil, List.mem_cons,
      List.not_mem_nil, Prod.mk.injEq, or_false] at hcall
    rw [hvtable.2, hcall.1]
  · intro pre src t post ctx₀ hes hpre _
    obtain rfl : pre = [] := by
      rcases pre with _ | ⟨e, pre⟩
      · rfl
      · have htail := congrArg List.tail hes
        rcases pre with _ | ⟨e', pre⟩ <;> simp at htail
    obtain rfl := Option.some_inj.mp hpre
    simp [sendCrate, GotocCtx.initial]

/-- A vtable of `dyn A + Send` is cast to `dyn A`: the call through `dyn A` can reach `f`, which is
recorded under `dyn A + Send` only. -/
theorem not_overApproximates_send :
    ∃ ctx, run (VtableEvent.step sendCrate) (.initial Bool ["drop", "f"])
        [.vtable () true, .castDyn true false, .virtualCall false 3 1] = some ctx ∧
      ¬ OverApproximates sendCrate
        [.vtable () true, .castDyn true false, .virtualCall false 3 1] ctx := by
  let es : List (VtableEvent Bool Unit) :=
    [.vtable () true, .castDyn true false, .virtualCall false 3 1]
  let ctx := (run (VtableEvent.step sendCrate) (.initial Bool ["drop", "f"]) es).get (by decide)
  refine ⟨ctx, Option.some_get _ |>.symm, fun h => ?_⟩
  obtain ⟨site, hsite, hkey, hrecorded⟩ := h 0 false 3 rfl
  let v : Vtable Bool :=
    ⟨"_1::vtable_impl_for__3", true, [(0, .fn "drop"), (1, .size), (2, .align), (3, .fn "f")]⟩
  have hreaches : Reaches sendCrate es v.name false :=
    ⟨(), true, by simp [es], by decide, .single (by simp [es])⟩
  have hv : v ∈ ctx.vtables := by
    have hvtables : ctx.vtables = [v] := rfl
    simp [hvtables]
  have hf := hrecorded v hv hreaches "f" (by simp [v])
  rw [hkey] at hf
  revert hf
  decide

end Rmc.Codegen

import Mathlib.Data.List.AList
import Rmc.Codegen.Aggregate
import Rmc.Goto.Builtin
import Rmc.Goto.Stmt
import Rmc.Lib.ByteMemory
import Rmc.Lib.Run

/-!
# Statics and their initializers

A static is declared as a global variable (`declare_static`) and gets its value from a function
`<name>_init` that runs before the program (`codegen_static`, `register_initializer`). The value
is an allocation of the compiler's interpreter: bytes, and pointers to other allocations at some
offsets. Constants of the program are allocations too.

The code keeps one location for equal immutable allocations (`alloc_map`), whatever they are the
value of, and it skips an initializer whose name is in the table. So the second of two equal
immutable statics has no initializer. `initialized_of_run` is what holds over all runs: a static
whose allocation is not shared and whose initializer has its name for itself gets its own value.
-/

namespace Rmc.Codegen

open OrdMap ByteMemory Run

/-! ### Allocations -/

/-- A piece of memory of the compiler's interpreter. The relocations are the offsets that hold a
pointer, with the allocation it points into; the bytes there are the offset of the pointer. -/
structure Allocation where
  bytes : List (BitVec 8)
  relocations : List (ℕ × ℕ)
  initMask : List Bool
  align : ℕ
  isMut : Bool
  deriving DecidableEq

/-- A static item with the allocation it evaluates to. -/
structure StaticItem (Ty : Type) where
  symbolName : String
  ty : Ty
  span : Location
  hasLinkage : Bool
  alloc : Allocation

/-- What an allocation id stands for. -/
inductive GlobalAlloc (Ty : Type) where
  | function (fn : String)
  | static (item : StaticItem Ty)
  | memory (alloc : Allocation)

/-- The pieces of an allocation: plain bytes, and pointers. -/
inductive AllocData where
  | bytes (bs : List (BitVec 8))
  | expr (e : Expr)

namespace Allocation

/-- The bytes of a range, which has to lie in the allocation. -/
def inspect (alloc : Allocation) (start stop : ℕ) : Option (List (BitVec 8)) := do
  guard (start ≤ stop ∧ stop ≤ alloc.bytes.length)
  return (alloc.bytes.drop start).take (stop - start)

end Allocation

section

variable [Ranked String]

/-- The part of the compiler that the translation of statics asks. Allocations in memory do not
point at themselves, so each has a depth. -/
structure Tcx (Ty : Type) where
  fullCrateName : String
  bigEndian : Bool
  globalAlloc : ℕ → GlobalAlloc Ty
  debugAllocId : ℕ → String
  codegenTy : Ty → Gen Typ
  codegenFuncExpr : String → Gen Expr
  depth : ℕ → ℕ
  depth_lt : ∀ {id alloc}, globalAlloc id = .memory alloc → ∀ r ∈ alloc.relocations,
    depth r.2 < depth id

/-- The fields of the context that statics use. -/
structure StaticCtx where
  symbolTable : SymbolTable
  globalVarCount : ℕ
  allocMap : AList fun _ : Allocation => String

instance : TableState StaticCtx where
  table := StaticCtx.symbolTable
  withTable st ctx := { ctx with symbolTable := st }
  table_withTable _ _ := rfl

/-- Code generation that only touches the symbol table. -/
def onTable {α : Type} (g : Gen α) : GenOn StaticCtx α := fun ctx => do
  let (a, st) ← g ctx.symbolTable
  return (a, withTable st ctx)

/-! ### The symbols of a static -/

def initializerFnName (varName : String) : String := varName ++ "_init"

/-- The symbol of that name, which is entered as `f` makes it unless it is in the table. -/
def ensure (name : String) (f : String → GenOn StaticCtx Symbol) : GenOn StaticCtx Symbol :=
  fun ctx =>
    if ctx.symbolTable.contains name then do
      let sym ← ctx.symbolTable.lookup name
      return (sym, ctx)
    else do
      let (sym, ctx₁) ← f name ctx
      let st ← ctx₁.symbolTable.insert sym
      let found ← st.lookup name
      return (found, withTable st ctx₁)

/-- The function that the initializer of a variable is. -/
def initializer (varName : String) (body : Stmt) : Symbol :=
  { Symbol.function (initializerFnName varName) (.code [] .constructor)
      (some (Stmt.block [body] .none)) none .none with isFileLocal := true }

def registerInitializer (varName : String) (body : Stmt) : GenOn StaticCtx Symbol :=
  ensure (initializerFnName varName) fun _ ctx => some (initializer varName body, ctx)

/-- The global variable of that name, which is entered with an initializer if `initFn` makes one
unless it is in the table. -/
def ensureGlobalVar (name : String) (isFileLocal : Bool) (t : Typ) (loc : Location)
    (initFn : Expr → GenOn StaticCtx (Option Stmt)) : GenOn StaticCtx Expr := fun ctx =>
  if ctx.symbolTable.contains name then do
    let sym ← ctx.symbolTable.lookup name
    return (sym.toExpr, ctx)
  else do
    let sym := { Symbol.staticVariable name name t loc with isFileLocal := isFileLocal }
    let st ← ctx.symbolTable.insert sym
    match ← initFn sym.toExpr (withTable st ctx) with
    | (some body, ctx₂) => do
      let (_, ctx₃) ← registerInitializer name body ctx₂
      let found ← ctx₃.symbolTable.lookup name
      return (found.toExpr, ctx₃)
    | (none, ctx₂) => do
      let found ← ctx₂.symbolTable.lookup name
      return (found.toExpr, ctx₂)

def genStackVariable (c : ℕ) (fname pre : String) (t : Typ) (loc : Location) :
    GenOn StaticCtx Symbol := fun ctx => do
  let baseName := pre ++ "_" ++ toString c
  let symbol := Symbol.mkVariable (fname ++ "::1::" ++ baseName) baseName t loc
  let st ← ctx.symbolTable.insert symbol
  return (symbol, withTable st ctx)

def genFunctionLocalVariable (c : ℕ) (fname : String) (t : Typ) : GenOn StaticCtx Symbol :=
  genStackVariable c fname "var" t .none

/-! ### Allocations as expressions -/

namespace AllocData

def componentTyp : AllocData → Option Typ
  | .bytes bs => do return (← Typ.unsignedInt 8).arrayOf bs.length
  | .expr e => some e.typ

/-- The expression of a piece: an array of its bytes, or the pointer. -/
def value : AllocData → Option Expr
  | .bytes bs => do
    let elems ← bs.mapM fun b => do Expr.intConstant b.toNat (← Typ.unsignedInt 8)
    Expr.arrayExpr ((← Typ.unsignedInt 8).arrayOf bs.length) elems
  | .expr e => some e

/-- The components of the struct that an allocation is laid out as. -/
def components (data : List AllocData) : Option (List DatatypeComponent) :=
  data.zipIdx.mapM fun (d, i) => do return .field (toString i) (← d.componentTyp)

end AllocData

section Translation

variable {Ty : Type} [DebugTyp] (tcx : Tcx Ty)

def nextGlobalName : GenOn StaticCtx String := fun ctx =>
  some (tcx.fullCrateName ++ "::global::" ++ toString ctx.globalVarCount ++ "::",
    { ctx with globalVarCount := ctx.globalVarCount + 1 })

section Open

/-! The functions below call each other; `inMemory` stands for `codegen_alloc_in_memory`. -/

variable (inMemory : Allocation → String → GenOn StaticCtx Unit)

/-- The name for an immutable allocation that was not given one. -/
def immutableName : Option String → GenOn StaticCtx String
  | some name => fun ctx => some (name, ctx)
  | none => nextGlobalName tcx

/-- The context with a location for an immutable allocation. -/
def ensureAllocated (alloc : Allocation) (name : Option String) (ctx : StaticCtx) :
    Option StaticCtx :=
  if (ctx.allocMap.lookup alloc).isSome then some ctx
  else do
    let (name, ctx₁) ← immutableName tcx name ctx
    let (_, ctx₂) ← inMemory alloc name ctx₁
    return ctx₂

/-- An immutable allocation has one location, found by its content. -/
def codegenImmutableAllocation (alloc : Allocation) (name : Option String) :
    GenOn StaticCtx Expr := fun ctx => do
  let ctx₁ ← ensureAllocated tcx inMemory alloc name ctx
  let name ← ctx₁.allocMap.lookup alloc
  let sym ← ctx₁.symbolTable.lookup name
  return (sym.toExpr, ctx₁)

def codegenAllocationWith (alloc : Allocation) (mutName : GenOn StaticCtx String)
    (immName : Option String) : GenOn StaticCtx Expr := fun ctx =>
  if alloc.isMut then do
    let (name, ctx₁) ← mutName ctx
    let (_, ctx₂) ← inMemory alloc name ctx₁
    let sym ← ctx₂.symbolTable.lookup name
    return (← sym.toExpr.addressOf, ctx₂)
  else do
    let (memVar, ctx₁) ← codegenImmutableAllocation tcx inMemory alloc immName ctx
    return (← memVar.addressOf, ctx₁)

/-- The symbol of a static that another allocation points at. -/
def staticSymbol (item : StaticItem Ty) (name : String) : GenOn StaticCtx Symbol := fun ctx => do
  let (typ, ctx₁) ← onTable (tcx.codegenTy item.ty) ctx
  return ({ Symbol.staticVariable name name typ item.span with isExtern := !item.hasLinkage }, ctx₁)

def memoryName (allocId : ℕ) : String := tcx.fullCrateName ++ "::" ++ tcx.debugAllocId allocId

/-- The address of the start of what an allocation id stands for. -/
def baseAddr (allocId : ℕ) : GenOn StaticCtx Expr := fun ctx =>
  match tcx.globalAlloc allocId with
  | .function fn => do
    let (e, ctx₁) ← onTable (tcx.codegenFuncExpr fn) ctx
    return (← e.addressOf, ctx₁)
  | .static item => do
    let (sym, ctx₁) ← ensure item.symbolName (staticSymbol tcx item) ctx
    return (← sym.toExpr.addressOf, ctx₁)
  | .memory alloc =>
    codegenAllocationWith tcx inMemory alloc (fun ctx => some (memoryName tcx allocId, ctx))
      (some (memoryName tcx allocId)) ctx

/-- The address `offset` bytes after `base`, as a pointer of type `resT`. -/
def pointerAt (base : Expr) (resT : Typ) (offset : ℕ) : Option Expr := do
  let bytePtr ← base.castTo (← Typ.unsignedInt 8).toPointer
  let sum ← bytePtr.plus (← Expr.intConstant offset (← Typ.unsignedInt 64))
  sum.castTo resT

def codegenAllocPointerWith (resT : Typ) (allocId offset : ℕ) : GenOn StaticCtx Expr :=
  fun ctx => do
    let (base, ctx₁) ← baseAddr tcx inMemory allocId ctx
    return (← pointerAt base resT offset, ctx₁)

/-- The bytes between the end of the last pointer and the next one. -/
def gapData (alloc : Allocation) (nextOffset offset : ℕ) : Option (List AllocData) :=
  if nextOffset < offset then do return [.bytes (← alloc.inspect nextOffset offset)]
  else some []

/-- The offset that the bytes of a pointer hold. -/
def pointerOffset (alloc : Allocation) (pointerSize offset : ℕ) : Option ℕ := do
  let bs ← alloc.inspect offset (offset + pointerSize)
  checkedU64 (decode (order tcx.bigEndian bs))

/-- The loop over the relocations. -/
def allocationDataFrom (alloc : Allocation) (pointerSize : ℕ) :
    ℕ → List (ℕ × ℕ) → GenOn StaticCtx (List AllocData)
  | nextOffset, [] => fun ctx =>
    if nextOffset ≤ alloc.bytes.length then do
      return ([.bytes (← alloc.inspect nextOffset alloc.bytes.length)], ctx)
    else some ([], ctx)
  | nextOffset, (offset, allocId) :: relocations => fun ctx => do
    let gap ← gapData alloc nextOffset offset
    let ptrOffset ← pointerOffset tcx alloc pointerSize offset
    let (e, ctx₁) ← codegenAllocPointerWith tcx inMemory (← Typ.signedInt 8).toPointer allocId
      ptrOffset ctx
    let (rest, ctx₂) ← allocationDataFrom alloc pointerSize (offset + pointerSize) relocations ctx₁
    return (gap ++ .expr e :: rest, ctx₂)

def codegenAllocationData (alloc : Allocation) : GenOn StaticCtx (List AllocData) := fun ctx =>
  allocationDataFrom tcx inMemory alloc (ctx.symbolTable.machineModel.pointerWidth / 8) 0
    alloc.relocations ctx

/-- The components of the type of an allocation. -/
def allocationComponents (alloc : Allocation) : GenOn StaticCtx (List DatatypeComponent) :=
  fun ctx => do
    let (data, ctx₁) ← codegenAllocationData tcx inMemory alloc ctx
    return (← AllocData.components data, ctx₁)

/-- The body of an initializer: the value goes through a variable of the allocation's type, so
that it can be read as the type of the static. -/
def initializerBody (var tempVar val : Expr) (st : SymbolTable) : Option Stmt := do
  let decl ← Stmt.decl tempVar (some val) .none
  let assign ← Stmt.assign var (← tempVar.transmuteTo var.typ st) .none
  return Stmt.block [decl, assign] .none

/-- One unfolding of `codegen_alloc_in_memory`. -/
def codegenAllocInMemoryWith (alloc : Allocation) (name : String) : GenOn StaticCtx Unit :=
  fun ctx => do
    let (allocTyp, ctx₁) ← ensureStruct (name ++ "::struct") none
      (fun _ => allocationComponents tcx inMemory alloc) ctx
    let (var, ctx₂) ← ensureGlobalVar name false allocTyp .none (fun _ ctx => some (none, ctx)) ctx₁
    let (data, ctx₃) ← codegenAllocationData tcx inMemory alloc ctx₂
    let val ← Expr.structExprFromValues allocTyp (← data.mapM AllocData.value) ctx₃.symbolTable
    let (tempVar, ctx₄) ← genFunctionLocalVariable 0 (initializerFnName name) allocTyp ctx₃
    let body ← initializerBody var tempVar.toExpr val ctx₄.symbolTable
    let (_, ctx₅) ← registerInitializer name body ctx₄
    return ((), { ctx₅ with allocMap := ctx₅.allocMap.insert alloc name })

end Open

/-- Allocations that nest at most `fuel` deep. -/
def codegenAllocInMemory : ℕ → Allocation → String → GenOn StaticCtx Unit
  | 0, _, _ => fun _ => none
  | fuel + 1, alloc, name => codegenAllocInMemoryWith tcx (codegenAllocInMemory fuel) alloc name

/-- How deep the allocations nest that an allocation points at. -/
def nesting (alloc : Allocation) : ℕ :=
  (alloc.relocations.map fun r => tcx.depth r.2 + 1).foldr max 0

def codegenAllocation (alloc : Allocation) (mutName : GenOn StaticCtx String)
    (immName : Option String) : GenOn StaticCtx Expr :=
  codegenAllocationWith tcx (codegenAllocInMemory tcx (nesting tcx alloc + 1)) alloc mutName immName

def codegenAllocPointer (resT : Typ) (allocId offset : ℕ) : GenOn StaticCtx Expr :=
  codegenAllocPointerWith tcx (codegenAllocInMemory tcx (tcx.depth allocId + 1)) resT allocId offset

def codegenAllocationAutoImmName (alloc : Allocation) (mutName : GenOn StaticCtx String) :
    GenOn StaticCtx Expr :=
  codegenAllocation tcx alloc mutName none

/-! ### The items of a crate -/

def declareStatic (item : StaticItem Ty) (ctx : StaticCtx) : Option StaticCtx := do
  let (typ, ctx₁) ← onTable (tcx.codegenTy item.ty) ctx
  let st ← ctx₁.symbolTable.insert
    (Symbol.staticVariable item.symbolName item.symbolName typ item.span)
  return withTable st ctx₁

def codegenStatic (item : StaticItem Ty) (ctx : StaticCtx) : Option StaticCtx := do
  let (_, ctx₁) ← codegenAllocation tcx item.alloc (fun ctx => some (item.symbolName, ctx))
    (some item.symbolName) ctx
  return ctx₁

/-- What is processed: a static is declared or translated, a constant refers to an allocation by
its content or points into one. -/
inductive StaticEvent (Ty : Type) where
  | declareStatic (item : StaticItem Ty)
  | codegenStatic (item : StaticItem Ty)
  | constant (alloc : Allocation)
  | pointer (resT : Typ) (allocId offset : ℕ)

def StaticEvent.step (ctx : StaticCtx) : StaticEvent Ty → Option StaticCtx
  | .declareStatic item => Codegen.declareStatic tcx item ctx
  | .codegenStatic item => Codegen.codegenStatic tcx item ctx
  | .constant alloc => do
    let (_, ctx₁) ← codegenAllocationAutoImmName tcx alloc (nextGlobalName tcx) ctx
    return ctx₁
  | .pointer resT allocId offset => do
    let (_, ctx₁) ← codegenAllocPointer tcx resT allocId offset ctx
    return ctx₁

/-- The context before the first item. -/
def StaticCtx.new (mm : MachineModel) : Option StaticCtx := do
  return { symbolTable := ← SymbolTable.new mm, globalVarCount := 0, allocMap := ∅ }

end Translation

variable {body : Stmt} {name : String} {alloc : Allocation} {st : SymbolTable}
  {nextOffset pointerSize : ℕ} {val var : Expr} {relocations : List (ℕ × ℕ)} {data : List AllocData}

section Symbols

variable {Ty : Type} (tcx : Tcx Ty) {t : Typ} {allocId c : ℕ} {fname : String}
  {f : String → GenOn StaticCtx Symbol}

/-! ### What the steps do -/

/-- The address of a symbol. -/
def addressOfSymbol (s : Symbol) : Expr := .new (.addressOf s.toExpr) (.pointer s.typ)

/-- The type of the component for a piece. -/
def AllocData.typ : AllocData → Typ
  | .bytes bs => .array (.unsignedbv 8) bs.length
  | .expr e => e.typ

/-- The components for pieces whose first one has the index `k`. -/
def componentsFrom (k : ℕ) (data : List AllocData) : List DatatypeComponent :=
  (data.zipIdx k).map fun p => .field (toString p.2) p.1.typ

section Steps

variable {tcx} {inMemory : Allocation → String → GenOn StaticCtx Unit}
  {mutName : GenOn StaticCtx String} {immName : Option String} {ctx ctx' ctx₁ : StaticCtx}

lemma ensure_eq_some {sym : Symbol} (h : ensure name f ctx = some (sym, ctx')) :
    ctx' = ctx ∨ ∃ entered ctx₁,
      f name ctx = some (entered, ctx₁) ∧ ctx₁.symbolTable.lookup entered.name = none ∧
      ctx' = withTable (ctx₁.symbolTable.set entered) ctx₁ := by
  rw [ensure] at h
  split at h
  · simp only [bind_eq_some, pure_eq_some, Prod.mk.injEq] at h
    obtain ⟨_, _, rfl, rfl⟩ := h
    exact .inl rfl
  · simp only [bind_eq_some, pure_eq_some, Prod.exists, Prod.mk.injEq,
      SymbolTable.insert_eq_some] at h
    obtain ⟨entered, ctx₁, hrun, _, ⟨hnew, rfl⟩, _, _, _, rfl⟩ := h
    exact .inr ⟨entered, ctx₁, hrun, hnew, rfl⟩

lemma registerInitializer_eq (hnew : ctx.symbolTable.lookup (initializerFnName name) = none) :
    registerInitializer name body ctx = some (initializer name body,
      withTable (ctx.symbolTable.set (initializer name body)) ctx) := by
  have hcontains := SymbolTable.contains_eq_false_iff.mpr hnew
  have hinsert : ctx.symbolTable.insert (initializer name body) =
      some (ctx.symbolTable.set (initializer name body)) :=
    SymbolTable.insert_eq_some.mpr ⟨hnew, rfl⟩
  have hlookup : (ctx.symbolTable.set (initializer name body)).lookup (initializerFnName name) =
      some (initializer name body) := SymbolTable.lookup_set_self _ _
  simp [registerInitializer, ensure, hcontains, hinsert, hlookup]

lemma exists_ensureGlobalVar (name : String) (t : Typ) (ctx : StaticCtx) :
    ∃ s ctx', ensureGlobalVar name false t .none (fun _ ctx => some (none, ctx)) ctx =
        some (s.toExpr, ctx') ∧ ctx'.symbolTable.lookup name = some s ∧
      (ctx.symbolTable.lookup name = some s ∧ ctx' = ctx ∨
        ctx.symbolTable.lookup name = none ∧ s.name = name ∧ s.typ = t ∧
          ctx' = withTable (ctx.symbolTable.set s) ctx) := by
  cases hs : ctx.symbolTable.lookup name with
  | some s =>
    have hcontains := SymbolTable.contains_iff.mpr ⟨s, hs⟩
    exact ⟨s, ctx, by simp [ensureGlobalVar, hcontains, hs], hs, .inl ⟨rfl, rfl⟩⟩
  | none =>
    have hcontains := SymbolTable.contains_eq_false_iff.mpr hs
    let s : Symbol := { Symbol.staticVariable name name t .none with isFileLocal := false }
    have hinsert : ctx.symbolTable.insert s = some (ctx.symbolTable.set s) :=
      SymbolTable.insert_eq_some.mpr ⟨hs, rfl⟩
    have hlookup : (ctx.symbolTable.set s).lookup name = some s := SymbolTable.lookup_set_self _ s
    refine ⟨s, withTable (ctx.symbolTable.set s) ctx, ?_, hlookup, .inr ⟨rfl, rfl, rfl, rfl⟩⟩
    simp only [ensureGlobalVar, hcontains, Bool.false_eq_true, if_false, Option.bind_eq_bind]
    rw [show ctx.symbolTable.insert { Symbol.staticVariable name name t .none with
      isFileLocal := false } = some (ctx.symbolTable.set s) from hinsert]
    simp only [Option.bind_some]
    rw [show (withTable (ctx.symbolTable.set s) ctx).symbolTable.lookup name = some s from hlookup]
    rfl

lemma ensureGlobalVar_eq_some
    (h : ensureGlobalVar name false t .none (fun _ ctx => some (none, ctx)) ctx =
      some (var, ctx')) : ∃ s, var = s.toExpr ∧ s.name = name ∧
        (ctx' = ctx ∨ ctx.symbolTable.lookup name = none ∧
          ctx' = withTable (ctx.symbolTable.set s) ctx) := by
  obtain ⟨s, _, hrun, hs, hcases⟩ := exists_ensureGlobalVar name t ctx
  cases hrun.symm.trans h
  exact ⟨s, rfl, SymbolTable.lookup_name hs, hcases.imp And.right fun h => ⟨h.1, h.2.2.2⟩⟩

lemma genFunctionLocalVariable_iff {temp : Symbol} :
    genFunctionLocalVariable c fname t ctx = some (temp, ctx') ↔
      temp = Symbol.mkVariable (fname ++ "::1::" ++ ("var_" ++ toString c)) ("var_" ++ toString c) t
        .none ∧ ctx.symbolTable.lookup (fname ++ "::1::" ++ ("var_" ++ toString c)) = none ∧
      ctx' = withTable (ctx.symbolTable.set temp) ctx := by
  simp only [genFunctionLocalVariable, genStackVariable, bind_eq_some, pure_eq_some, Prod.mk.injEq,
    SymbolTable.insert_eq_some]
  constructor
  · rintro ⟨_, ⟨hnew, rfl⟩, rfl, rfl⟩
    exact ⟨rfl, hnew, rfl⟩
  · rintro ⟨rfl, hnew, rfl⟩
    exact ⟨_, ⟨hnew, rfl⟩, rfl, rfl⟩

omit [Ranked String] in
lemma addressOf_toExpr (s : Symbol) : s.toExpr.addressOf = some (addressOfSymbol s) := by
  rw [Expr.addressOf_eq_some]
  exact ⟨rfl, rfl⟩

variable {e : Expr} {values : List Expr}

/-- An allocation that was translated was found or put into memory. -/
lemma codegenAllocationWith_eq_some
    (h : codegenAllocationWith tcx inMemory alloc mutName immName ctx = some (e, ctx')) :
    (∃ s, e = addressOfSymbol s) ∧
      ((alloc.isMut = false ∧ ctx' = ctx ∧ ∃ n, ctx.allocMap.lookup alloc = some n) ∨
        (alloc.isMut = false → ctx.allocMap.lookup alloc = none) ∧ ∃ name ctx₁,
          (if alloc.isMut then mutName ctx else immutableName tcx immName ctx) =
            some (name, ctx₁) ∧ inMemory alloc name ctx₁ = some ((), ctx')) := by
  cases hmut : alloc.isMut with
  | true =>
    simp only [codegenAllocationWith, hmut, if_true, bind_eq_some, pure_eq_some, Prod.exists,
      Prod.mk.injEq, addressOf_toExpr, Option.some.injEq] at h
    obtain ⟨name, ctx₁, hname, _, _, hrun, s, _, _, rfl, rfl, rfl⟩ := h
    exact ⟨⟨s, rfl⟩, .inr ⟨by simp, name, ctx₁, hname, hrun⟩⟩
  | false =>
    simp only [codegenAllocationWith, codegenImmutableAllocation, hmut, Bool.false_eq_true,
      if_false, bind_eq_some, pure_eq_some, Prod.exists, Prod.mk.injEq] at h
    obtain ⟨_, _, ⟨ctx₁, hrun, _, _, s, _, rfl, rfl⟩, _, he, rfl, rfl⟩ := h
    rw [addressOf_toExpr, Option.some.injEq] at he
    refine ⟨⟨s, he.symm⟩, ?_⟩
    rw [ensureAllocated] at hrun
    split at hrun
    · next hfound =>
      cases hrun
      exact .inl ⟨rfl, rfl, Option.isSome_iff_exists.mp hfound⟩
    · next hfound =>
      simp only [bind_eq_some, pure_eq_some, Prod.exists] at hrun
      obtain ⟨name, ctx₂, hname, _, _, hrun, rfl⟩ := hrun
      exact .inr ⟨fun _ => by simpa using hfound, name, ctx₂, hname, hrun⟩

/-- What an allocation id stands for is found or entered. -/
lemma baseAddr_eq_some (h : baseAddr tcx inMemory allocId ctx = some (e, ctx')) :
    ∃ t, e.typ = .pointer t ∧
      ((∃ fn x, onTable (tcx.codegenFuncExpr fn) ctx = some (x, ctx')) ∨
        (∃ item sym, tcx.globalAlloc allocId = .static item ∧
          ensure item.symbolName (staticSymbol tcx item) ctx = some (sym, ctx')) ∨
        ∃ alloc, tcx.globalAlloc allocId = .memory alloc ∧
          codegenAllocationWith tcx inMemory alloc (fun ctx => some (memoryName tcx allocId, ctx))
            (some (memoryName tcx allocId)) ctx = some (e, ctx')) := by
  rw [baseAddr] at h
  split at h
  · simp only [bind_eq_some, pure_eq_some, Prod.exists, Prod.mk.injEq, Expr.addressOf_eq_some] at h
    obtain ⟨_, _, hrun, _, ⟨-, rfl⟩, rfl, rfl⟩ := h
    exact ⟨_, rfl, .inl ⟨_, _, hrun⟩⟩
  · next item hitem =>
    simp only [bind_eq_some, pure_eq_some, Prod.exists, Prod.mk.injEq, Expr.addressOf_eq_some] at h
    obtain ⟨_, _, hrun, _, ⟨-, rfl⟩, rfl, rfl⟩ := h
    exact ⟨_, rfl, .inr (.inl ⟨item, _, hitem, hrun⟩)⟩
  · next alloc halloc =>
    obtain ⟨s, rfl⟩ := (codegenAllocationWith_eq_some h).1
    exact ⟨_, rfl, .inr (.inr ⟨alloc, halloc, h⟩)⟩

lemma allocationDataFrom_nil_eq_some :
    allocationDataFrom tcx inMemory alloc pointerSize nextOffset [] ctx = some (data, ctx') ↔
      data = (if nextOffset ≤ alloc.bytes.length then [.bytes (alloc.bytes.drop nextOffset)]
        else []) ∧ ctx' = ctx := by
  rw [allocationDataFrom]
  split
  · next hle =>
    have hrest : (alloc.bytes.drop nextOffset).take (alloc.bytes.length - nextOffset) =
        alloc.bytes.drop nextOffset := List.take_of_length_le (by simp)
    simp [Allocation.inspect, hle, hrest, eq_comm]
  · simp [eq_comm]

section

omit [Ranked String]

lemma AllocData.componentTyp_eq (d : AllocData) : d.componentTyp = some d.typ := by
  cases d <;> rfl

lemma components_eq (data : List AllocData) :
    AllocData.components data = some (componentsFrom 0 data) := by
  rw [AllocData.components, Checked.mapM_eq_some_iff, componentsFrom, List.forall₂_map_right_iff,
    List.forall₂_same]
  intro p _
  simp [AllocData.componentTyp_eq]

lemma isPadding_componentsFrom (k : ℕ) (data : List AllocData) :
    ∀ c ∈ componentsFrom k data, c.isPadding = false := by
  intro c hc
  obtain ⟨p, -, rfl⟩ := List.mem_map.mp hc
  rfl

/-- Without padding the values of a struct are those that were given. -/
lemma padValues_eq {fields : List DatatypeComponent} (hfields : ∀ c ∈ fields, c.isPadding = false)
    (hlength : fields.length = values.length) :
    Expr.padValues fields values = some values := by
  induction fields generalizing values with
  | nil =>
    rw [List.length_nil, eq_comm, List.length_eq_zero_iff] at hlength
    rw [hlength, Expr.padValues]
  | cons f fields ih =>
    cases values with
    | nil => simp at hlength
    | cons v values =>
      rw [List.forall_mem_cons] at hfields
      have hrest := ih hfields.2 (by simpa using hlength)
      simp [Expr.padValues, hfields.1, hrest]

end

lemma structExprFromValues_eq_some {typ : Typ} {components : List DatatypeComponent}
    (hcomponents : st.lookupFieldsInType typ = some components)
    (hpadding : ∀ c ∈ components, c.isPadding = false) :
    Expr.structExprFromValues typ values st = some val ↔
      typ.isStructTag = true ∧ components.length = values.length ∧
        Expr.valuesMatchFields components values = true ∧ val = .new (.struct values) typ := by
  have hfilter : (components.filter fun x => !x.isPadding) = components :=
    List.filter_eq_self.mpr fun c hc => by simp [hpadding c hc]
  simp only [Expr.structExprFromValues, hcomponents, some_bind, hfilter, bind_eq_some,
    guard_eq_some, exists_const, Expr.structExprWithExplicitPadding_eq_some]
  constructor
  · rintro ⟨htag, hlength, htyped, values', hvalues, -, rfl⟩
    rw [padValues_eq hpadding hlength, Option.some.injEq] at hvalues
    exact ⟨htag, hlength, htyped, by rw [hvalues]⟩
  · rintro ⟨htag, hlength, htyped, rfl⟩
    exact ⟨htag, hlength, htyped, values, padValues_eq hpadding hlength, ⟨hlength, htyped⟩, rfl⟩

end Steps

/-! ### The nesting of allocations is enough fuel -/

section Fuel

variable {tcx} {inMemory inMemory' : Allocation → String → GenOn StaticCtx Unit}

lemma codegenAllocationWith_congr (h : inMemory alloc = inMemory' alloc) :
    codegenAllocationWith tcx inMemory alloc = codegenAllocationWith tcx inMemory' alloc := by
  funext mutName immName ctx
  simp only [codegenAllocationWith, codegenImmutableAllocation, ensureAllocated, h]

lemma codegenAllocPointerWith_congr
    (h : ∀ {alloc}, tcx.globalAlloc allocId = .memory alloc → inMemory alloc = inMemory' alloc)
    (resT : Typ) (offset : ℕ) :
    codegenAllocPointerWith tcx inMemory resT allocId offset =
      codegenAllocPointerWith tcx inMemory' resT allocId offset := by
  funext ctx
  simp only [codegenAllocPointerWith, baseAddr]
  cases hid : tcx.globalAlloc allocId with
  | function fn => rfl
  | static item => rfl
  | memory alloc => simp only [codegenAllocationWith_congr (h hid)]

lemma allocationDataFrom_congr
    (h : ∀ r ∈ relocations, ∀ {alloc}, tcx.globalAlloc r.2 = .memory alloc →
      inMemory alloc = inMemory' alloc) (alloc : Allocation) (pointerSize nextOffset : ℕ) :
    allocationDataFrom tcx inMemory alloc pointerSize nextOffset relocations =
      allocationDataFrom tcx inMemory' alloc pointerSize nextOffset relocations := by
  induction relocations generalizing nextOffset with
  | nil => rfl
  | cons r relocations ih =>
    rw [List.forall_mem_cons] at h
    funext ctx
    simp only [allocationDataFrom, codegenAllocPointerWith_congr h.1, ih h.2]

lemma nesting_lt_of_mem {alloc' : Allocation} {r : ℕ × ℕ} (hr : r ∈ alloc.relocations)
    (h : tcx.globalAlloc r.2 = .memory alloc') :
    nesting tcx alloc' < nesting tcx alloc := by
  have hdepth : tcx.depth r.2 + 1 ≤ nesting tcx alloc :=
    (foldr_max_le_iff.mp le_rfl).2 _ (List.mem_map_of_mem hr)
  have hnesting : nesting tcx alloc' ≤ tcx.depth r.2 := by
    rw [nesting, foldr_max_le_iff]
    refine ⟨Nat.zero_le _, fun n hn => ?_⟩
    obtain ⟨r', hr', rfl⟩ := List.mem_map.mp hn
    exact tcx.depth_lt h r' hr'
  omega

end Fuel

/-! ### What the steps enter -/

/-- The step only enters new symbols, and none of the reserved ones. -/
def Spares {σ α : Type} [TableState σ] (reserved : String → Prop) (g : GenOn σ α) : Prop :=
  ∀ ⦃ctx a ctx'⦄, g ctx = some (a, ctx') → Grows reserved (table ctx) (table ctx')

section Spares

variable {reserved : String → Prop}

lemma Spares.onTable {α : Type} {g : Gen α} (hg : Spares reserved g) :
    Spares reserved (onTable g) := by
  intro ctx a ctx' h
  simp only [Codegen.onTable, bind_eq_some, pure_eq_some, Prod.exists, Prod.mk.injEq] at h
  obtain ⟨_, st, hrun, rfl, rfl⟩ := h
  exact hg hrun

lemma spares_ensureAggr {σ : Type} [TableState σ] {k : Aggr} {prettyName : Option String}
    {f : String → GenOn σ (List DatatypeComponent)} (hname : ¬ reserved (aggrTag name))
    (hf : Spares reserved (f name)) :
    Spares reserved (ensureAggr k name prettyName f) := by
  intro ctx t ctx' h
  obtain ⟨-, ⟨-, rfl⟩ | ⟨hnew, components, ctx₂, hrun, rfl⟩⟩ := ensureAggr_eq_some h
  · exact .refl _
  · -- the incomplete type is new, so its completion changes nothing that was there before
    have hgrows := hf hrun
    rw [table_withTable] at hgrows ⊢
    exact (((Grows.refl _).set hnew hname).trans hgrows).set hnew hname

lemma spares_ensure (hname : ¬ reserved name) (hf : Spares reserved (f name))
    (hsym : ∀ {ctx sym ctx'}, f name ctx = some (sym, ctx') → sym.name = name) :
    Spares reserved (ensure name f) := by
  intro ctx sym ctx' h
  rcases ensure_eq_some h with rfl | ⟨entered, ctx₁, hrun, hnew, rfl⟩
  · exact .refl _
  · have hset : Grows reserved (table ctx₁) (ctx₁.symbolTable.set entered) :=
      (Grows.refl _).set hnew (hsym hrun ▸ hname)
    exact (hf hrun).trans hset

lemma spares_registerInitializer {varName : String}
    (hname : ¬ reserved (initializerFnName varName)) :
    Spares reserved (registerInitializer varName body) := by
  refine spares_ensure hname ?_ ?_
  · intro ctx sym ctx' h
    cases h
    exact .refl _
  · intro ctx sym ctx' h
    cases h
    rfl

lemma spares_ensureGlobalVar (hname : ¬ reserved name) :
    Spares reserved (ensureGlobalVar name false t .none fun _ ctx => some (none, ctx)) := by
  intro ctx e ctx' h
  obtain ⟨s, -, rfl, rfl | ⟨hnew, rfl⟩⟩ := ensureGlobalVar_eq_some h
  · exact .refl _
  · exact (Grows.refl _).set hnew hname

lemma spares_genFunctionLocalVariable
    (hname : ¬ reserved (fname ++ "::1::" ++ ("var_" ++ toString c))) :
    Spares reserved (genFunctionLocalVariable c fname t) := by
  intro ctx sym ctx' h
  obtain ⟨rfl, hnew, rfl⟩ := genFunctionLocalVariable_iff.mp h
  exact (Grows.refl _).set hnew hname

end Spares

/-! ### What an allocation enters -/

/-- The symbols that an allocation in memory gets under a name: its type, the variable, the
temporary of the initializer and the initializer. -/
def enteredNames (name : String) : List String :=
  [aggrTag (name ++ "::struct"), name, initializerFnName name ++ "::1::" ++ ("var_" ++ toString 0),
    initializerFnName name]

/-- A source of names that is free of side effects on the table and whose names are not
reserved. -/
def SparesNames (reserved : String → Prop) (g : GenOn StaticCtx String) : Prop :=
  ∀ ⦃ctx name ctx'⦄, g ctx = some (name, ctx') →
    (∀ n ∈ enteredNames name, ¬ reserved n) ∧ ctx'.symbolTable = ctx.symbolTable

/-- Nothing that an allocation can point at is entered under a reserved name, and types and
functions enter none. -/
structure Tcx.Spares (reserved : String → Prop) : Prop where
  codegenTy : ∀ ty, Codegen.Spares reserved (tcx.codegenTy ty)
  codegenFuncExpr : ∀ fn, Codegen.Spares reserved (tcx.codegenFuncExpr fn)
  static : ∀ {id item}, tcx.globalAlloc id = .static item → ¬ reserved item.symbolName
  memory : ∀ {id alloc}, tcx.globalAlloc id = .memory alloc →
    ∀ n ∈ enteredNames (memoryName tcx id), ¬ reserved n

section Entered

variable {tcx} {reserved : String → Prop} {inMemory : Allocation → String → GenOn StaticCtx Unit}

lemma sparesNames_pure (h : ∀ n ∈ enteredNames name, ¬ reserved n) :
    SparesNames reserved fun ctx => some (name, ctx) := by
  intro ctx n ctx' hrun
  cases hrun
  exact ⟨h, rfl⟩

lemma spares_codegenAllocationWith {mutName : GenOn StaticCtx String}
    {immName : Option String}
    (hmem : ∀ {name}, (∀ n ∈ enteredNames name, ¬ reserved n) →
      Spares reserved (inMemory alloc name))
    (hmut : SparesNames reserved mutName)
    (himm : SparesNames reserved (immutableName tcx immName)) :
    Spares reserved (codegenAllocationWith tcx inMemory alloc mutName immName) := by
  intro ctx e ctx' h
  obtain ⟨-, ⟨-, rfl, -⟩ | ⟨-, name, ctx₁, hname, hrun⟩⟩ := codegenAllocationWith_eq_some h
  · exact .refl _
  · obtain ⟨hfree, htable⟩ : (∀ n ∈ enteredNames name, ¬ reserved n) ∧
        ctx₁.symbolTable = ctx.symbolTable := by
      split at hname
      · exact hmut hname
      · exact himm hname
    have hgrows := hmem hfree hrun
    rwa [show table ctx₁ = table ctx from htable] at hgrows

section

variable (htcx : tcx.Spares reserved)
  (hmem : ∀ {alloc name}, (∀ n ∈ enteredNames name, ¬ reserved n) →
    Spares reserved (inMemory alloc name))

include htcx hmem

lemma spares_baseAddr (allocId : ℕ) : Spares reserved (baseAddr tcx inMemory allocId) := by
  intro ctx e ctx' h
  obtain ⟨_, -, ⟨_, _, hrun⟩ | ⟨item, _, hitem, hrun⟩ | ⟨alloc, halloc, hrun⟩⟩ := baseAddr_eq_some h
  · exact (htcx.codegenFuncExpr _).onTable hrun
  · refine spares_ensure (htcx.static hitem) ?_ ?_ hrun
    all_goals
      intro ctx sym ctx' h
      simp only [staticSymbol, bind_eq_some, pure_eq_some, Prod.exists, Prod.mk.injEq] at h
      obtain ⟨_, _, hty, rfl, rfl⟩ := h
    · exact (htcx.codegenTy _).onTable hty
    · rfl
  · have hname := sparesNames_pure (htcx.memory halloc)
    have himm : SparesNames reserved (immutableName tcx (some (memoryName tcx allocId))) := hname
    exact spares_codegenAllocationWith hmem hname himm hrun

lemma spares_codegenAllocPointerWith (resT : Typ) (allocId offset : ℕ) :
    Spares reserved (codegenAllocPointerWith tcx inMemory resT allocId offset) := by
  intro ctx e ctx' h
  simp only [codegenAllocPointerWith, bind_eq_some, pure_eq_some, Prod.exists, Prod.mk.injEq] at h
  obtain ⟨_, _, hrun, _, _, _, rfl⟩ := h
  exact spares_baseAddr htcx hmem allocId hrun

lemma spares_allocationDataFrom (alloc : Allocation) (pointerSize : ℕ)
    (relocations : List (ℕ × ℕ)) (nextOffset : ℕ) : Spares reserved
      (allocationDataFrom tcx inMemory alloc pointerSize nextOffset relocations) := by
  induction relocations generalizing nextOffset with
  | nil =>
    intro ctx data ctx' h
    obtain ⟨-, rfl⟩ := allocationDataFrom_nil_eq_some.mp h
    exact .refl _
  | cons r relocations ih =>
    intro ctx data ctx' h
    simp only [allocationDataFrom, bind_eq_some, pure_eq_some, Prod.exists, Prod.mk.injEq] at h
    obtain ⟨_, _, _, _, _, _, _, ctx₁, hpointer, _, _, hrest, _, rfl⟩ := h
    exact (spares_codegenAllocPointerWith htcx hmem _ _ _ hpointer).trans (ih _ hrest)

lemma spares_codegenAllocationData (alloc : Allocation) :
    Spares reserved (codegenAllocationData tcx inMemory alloc) := by
  intro ctx data ctx' h
  exact spares_allocationDataFrom htcx hmem alloc _ _ _ h

lemma spares_allocationComponents (alloc : Allocation) :
    Spares reserved (allocationComponents tcx inMemory alloc) := by
  intro ctx components ctx' h
  simp only [allocationComponents, bind_eq_some, pure_eq_some, Prod.exists, Prod.mk.injEq] at h
  obtain ⟨_, _, hrun, _, _, _, rfl⟩ := h
  exact spares_codegenAllocationData htcx hmem alloc hrun

end

omit [Ranked String] in
/-- The name of an initializer is none of the other names that come with it. -/
lemma initializerFnName_ne (name : String) :
    aggrTag (name ++ "::struct") ≠ initializerFnName name ∧ name ≠ initializerFnName name ∧
      initializerFnName name ++ "::1::" ++ ("var_" ++ toString 0) ≠ initializerFnName name := by
  have htag : "tag-".length = 4 := rfl
  have hstruct : "::struct".length = 8 := rfl
  have hinit : "_init".length = 5 := rfl
  have hblock : "::1::".length = 5 := rfl
  refine ⟨?_, ?_, ?_⟩ <;> intro h <;> have hlength := congrArg String.length h <;>
    simp only [initializerFnName, aggrTag, String.length_append] at hlength <;> omega

end Entered

end Symbols

section Initializers

variable {Ty : Type} [DebugTyp] (tcx : Tcx Ty) {ctx ctx' : StaticCtx} {u : Unit}

section Entered

variable {tcx} {reserved : String → Prop} {inMemory : Allocation → String → GenOn StaticCtx Unit}

variable (tcx) in
/-- The steps of an allocation in memory. -/
structure InMemoryRun (inMemory : Allocation → String → GenOn StaticCtx Unit) (alloc : Allocation)
    (name : String) (ctx ctx₁ ctx₂ ctx₃ ctx₄ ctx₅ : StaticCtx) (allocTyp : Typ) (var : Expr)
    (data : List AllocData) (values : List Expr) (val : Expr) (temp : Symbol) (body : Stmt) :
    Prop where
  hstruct : ensureStruct (name ++ "::struct") none
    (fun _ => allocationComponents tcx inMemory alloc) ctx = some (allocTyp, ctx₁)
  hvar : ensureGlobalVar name false allocTyp .none (fun _ ctx => some (none, ctx)) ctx₁ =
    some (var, ctx₂)
  hdata : codegenAllocationData tcx inMemory alloc ctx₂ = some (data, ctx₃)
  hvalues : data.mapM AllocData.value = some values
  hval : Expr.structExprFromValues allocTyp values ctx₃.symbolTable = some val
  htemp : genFunctionLocalVariable 0 (initializerFnName name) allocTyp ctx₃ = some (temp, ctx₄)
  hbody : initializerBody var temp.toExpr val ctx₄.symbolTable = some body
  hregister : ∃ sym, registerInitializer name body ctx₄ = some (sym, ctx₅)

lemma codegenAllocInMemoryWith_eq_some
    (h : codegenAllocInMemoryWith tcx inMemory alloc name ctx = some (u, ctx')) :
    ∃ ctx₁ ctx₂ ctx₃ ctx₄ ctx₅ allocTyp var data values val temp body,
      InMemoryRun tcx inMemory alloc name ctx ctx₁ ctx₂ ctx₃ ctx₄ ctx₅ allocTyp var data values
          val temp body ∧
        ctx' = { ctx₅ with allocMap := ctx₅.allocMap.insert alloc name } := by
  simp only [codegenAllocInMemoryWith, bind_eq_some, pure_eq_some, Prod.exists, Prod.mk.injEq] at h
  obtain ⟨allocTyp, ctx₁, hstruct, var, ctx₂, hvar, data, ctx₃, hdata, values, hvalues, val, hval,
    temp, ctx₄, htemp, body, hbody, sym, ctx₅, hregister, -, rfl⟩ := h
  exact ⟨ctx₁, ctx₂, ctx₃, ctx₄, ctx₅, allocTyp, var, data, values, val, temp, body,
    ⟨hstruct, hvar, hdata, hvalues, hval, htemp, hbody, sym, hregister⟩, rfl⟩

namespace InMemoryRun

variable {ctx₁ ctx₂ ctx₃ ctx₄ ctx₅ : StaticCtx} {allocTyp : Typ} {values : List Expr}
  {temp : Symbol}
  (h : InMemoryRun tcx inMemory alloc name ctx ctx₁ ctx₂ ctx₃ ctx₄ ctx₅ allocTyp var data values val
    temp body)
  (htcx : tcx.Spares reserved)
  (hmem : ∀ {alloc name}, (∀ n ∈ enteredNames name, ¬ reserved n) →
    Spares reserved (inMemory alloc name))

include h htcx hmem

lemma grows_struct (hstruct : ¬ reserved (aggrTag (name ++ "::struct"))) :
    Grows reserved ctx.symbolTable ctx₁.symbolTable :=
  spares_ensureAggr hstruct (spares_allocationComponents htcx hmem alloc) h.hstruct

/-- Everything but the initializer itself. -/
lemma grows (hname : ¬ reserved name)
    (htemp : ¬ reserved (initializerFnName name ++ "::1::" ++ ("var_" ++ toString 0))) :
    Grows reserved ctx₁.symbolTable ctx₃.symbolTable ∧
      Grows reserved ctx₃.symbolTable ctx₄.symbolTable :=
  ⟨(spares_ensureGlobalVar hname h.hvar).trans
    (spares_codegenAllocationData htcx hmem alloc h.hdata),
    spares_genFunctionLocalVariable htemp h.htemp⟩

end InMemoryRun

lemma spares_codegenAllocInMemoryWith (htcx : tcx.Spares reserved)
    (hmem : ∀ {alloc name}, (∀ n ∈ enteredNames name, ¬ reserved n) →
      Spares reserved (inMemory alloc name))
    (hnames : ∀ n ∈ enteredNames name, ¬ reserved n) :
    Spares reserved (codegenAllocInMemoryWith tcx inMemory alloc name) := by
  intro ctx u ctx' h
  obtain ⟨ctx₁, ctx₂, ctx₃, ctx₄, ctx₅, _, _, _, _, _, _, body, hrun, rfl⟩ :=
    codegenAllocInMemoryWith_eq_some h
  obtain ⟨sym, hregister⟩ := hrun.hregister
  simp only [enteredNames, List.mem_cons, List.not_mem_nil, or_false, forall_eq_or_imp,
    forall_eq] at hnames
  obtain ⟨hstruct, hname, htemp, hinit⟩ := hnames
  obtain ⟨hgrows, hgrows'⟩ := hrun.grows htcx hmem hname htemp
  have hinitializer : Grows reserved ctx₄.symbolTable ctx₅.symbolTable :=
    spares_registerInitializer hinit hregister
  exact (((hrun.grows_struct htcx hmem hstruct).trans hgrows).trans hgrows').trans hinitializer

lemma spares_codegenAllocInMemory (htcx : tcx.Spares reserved) (fuel : ℕ)
    (hnames : ∀ n ∈ enteredNames name, ¬ reserved n) :
    Spares reserved (codegenAllocInMemory tcx fuel alloc name) := by
  induction fuel generalizing alloc name with
  | zero =>
    intro ctx u ctx' h
    cases h
  | succ fuel ih => exact spares_codegenAllocInMemoryWith htcx ih hnames

end Entered

/-! ### Initializers -/

/-- The pieces that an allocation is cut into from an offset on: its bytes between the pointers,
and for every relocation a pointer to what it stands for. -/
inductive Pieces (alloc : Allocation) (pointerSize : ℕ) :
    ℕ → List (ℕ × ℕ) → List AllocData → Prop where
  | past {nextOffset : ℕ} (h : alloc.bytes.length < nextOffset) :
    Pieces alloc pointerSize nextOffset [] []
  | rest {nextOffset : ℕ} (h : nextOffset ≤ alloc.bytes.length) :
    Pieces alloc pointerSize nextOffset [] [.bytes (alloc.bytes.drop nextOffset)]
  | pointer {nextOffset offset allocId ptrOffset fuel : ℕ} {relocations : List (ℕ × ℕ)}
    {gap data : List AllocData} {resT : Typ} {e : Expr} {ctx ctx' : StaticCtx}
    (hgap : gapData alloc nextOffset offset = some gap)
    (hoffset : pointerOffset tcx alloc pointerSize offset = some ptrOffset)
    (hresT : Typ.signedInt 8 = some resT)
    (he : codegenAllocPointerWith tcx (codegenAllocInMemory tcx fuel) resT.toPointer allocId
      ptrOffset ctx = some (e, ctx'))
    (hdata : Pieces alloc pointerSize (offset + pointerSize) relocations data) :
    Pieces alloc pointerSize nextOffset ((offset, allocId) :: relocations) (gap ++ .expr e :: data)

/-- The initializer of `name` stands in the table. It declares a temporary whose struct type has
one component for each piece of the allocation and no padding, gives it the pieces, and assigns
it, read as the type of the variable, to the variable. -/
structure InitializedWith (st : SymbolTable) (name : String) (alloc : Allocation)
    (components : List DatatypeComponent) (data : List AllocData) (values : List Expr)
    (varTyp : Typ) : Prop where
  pieces : Pieces tcx alloc (st.machineModel.pointerWidth / 8) 0 alloc.relocations data
  mapM_value : data.mapM AllocData.value = some values
  allocTyp : st.lookup (aggrTag (name ++ "::struct")) =
    some (Aggr.symbol (name ++ "::struct") none (.struct (name ++ "::struct") components))
  noPadding : ∀ c ∈ components, c.isPadding = false
  length : components.length = values.length
  typed : Expr.valuesMatchFields components values = true
  size : ∃ n, (Typ.mkStructTag (name ++ "::struct")).sizeofInBits st = some n ∧
    varTyp.sizeofInBits st = some n
  initializer :
    let temp : Expr := .mk (.symbol (initializerFnName name ++ "::1::" ++ ("var_" ++ toString 0)))
      (.mkStructTag (name ++ "::struct")) .none
    st.lookup (initializerFnName name) = some (initializer name (Stmt.block
      [.mk (.decl temp (some (.new (.struct values) (.mkStructTag (name ++ "::struct"))))) .none,
       .mk (.assign (.mk (.symbol name) varTyp .none) (.new (.byteExtract temp 0) varTyp)) .none]
      .none))

/-- The variable `name` gets the value of the allocation before the program runs. -/
def Initialized (st : SymbolTable) (name : String) (alloc : Allocation) : Prop :=
  ∃ components data values varTyp, InitializedWith tcx st name alloc components data values varTyp

variable {fuel : ℕ}

section Initializers

variable {tcx}

lemma pieces_of_allocationDataFrom
    (h : allocationDataFrom tcx (codegenAllocInMemory tcx fuel) alloc pointerSize nextOffset
      relocations ctx = some (data, ctx')) :
    Pieces tcx alloc pointerSize nextOffset relocations data := by
  induction relocations generalizing nextOffset ctx data with
  | nil =>
    obtain ⟨rfl, -⟩ := allocationDataFrom_nil_eq_some.mp h
    split
    · exact .rest (by assumption)
    · exact .past (by omega)
  | cons r relocations ih =>
    simp only [allocationDataFrom, bind_eq_some, pure_eq_some, Prod.exists, Prod.mk.injEq] at h
    obtain ⟨gap, hgap, ptrOffset, hoffset, resT, hresT, e, ctx₁, he, rest, _, hrest, rfl, rfl⟩ := h
    exact .pointer hgap hoffset hresT he (ih hrest)

/-- The body of an initializer assigns: the two sides have the type of the variable. -/
lemma initializerBody_eq_some {temp : Expr} (h : initializerBody var temp val st = some body) :
    (∃ n, temp.typ.sizeofInBits st = some n ∧ var.typ.sizeofInBits st = some n) ∧
      body = Stmt.block [.mk (.decl temp (some val)) .none,
        .mk (.assign var (.new (.byteExtract temp 0) var.typ)) .none] .none := by
  simp only [initializerBody, Stmt.decl, bind_eq_some, guard_eq_some, exists_const, pure_eq_some,
    Expr.transmuteTo_eq_some, Stmt.assign] at h
  obtain ⟨_, ⟨-, -, rfl⟩, _, ⟨n, hn, hm, rfl⟩, _, hassign, rfl⟩ := h
  rw [Expr.typ_new, if_pos (by simp)] at hassign
  cases hassign
  exact ⟨⟨n, hn, hm⟩, rfl⟩

lemma Initialized.mono {st' : SymbolTable} (h : Initialized tcx st name alloc)
    (hkeeps : Keeps st st') :
    Initialized tcx st' name alloc := by
  obtain ⟨components, data, values, varTyp, h⟩ := h
  obtain ⟨n, hn, hm⟩ := h.size
  refine ⟨components, data, values, varTyp, ?_, h.mapM_value, hkeeps.lookup h.allocTyp,
    h.noPadding, h.length, h.typed, ⟨n, hkeeps.le.sizeofInBits hn, hkeeps.le.sizeofInBits hm⟩,
    hkeeps.lookup h.initializer⟩
  rw [hkeeps.machineModel]
  exact h.pieces

/-- An allocation in memory under a free name gets its initializer. -/
lemma initialized_codegenAllocInMemory (htcx : tcx.Spares (· = initializerFnName name))
    (hinit : ctx.symbolTable.lookup (initializerFnName name) = none)
    (hstruct : ctx.symbolTable.lookup (aggrTag (name ++ "::struct")) = none)
    (h : codegenAllocInMemory tcx fuel alloc name ctx = some (u, ctx')) :
    Initialized tcx ctx'.symbolTable name alloc := by
  cases fuel with
  | zero => cases h
  | succ fuel =>
    obtain ⟨ctx₁, ctx₂, ctx₃, ctx₄, ctx₅, allocTyp, var, data, values, val, temp, body,
      hrun, rfl⟩ := codegenAllocInMemoryWith_eq_some h
    obtain ⟨hneStruct, hneName, hneTemp⟩ := initializerFnName_ne name
    have hmem : ∀ {alloc name'}, (∀ n ∈ enteredNames name', ¬ n = initializerFnName name) →
        Spares (· = initializerFnName name) (codegenAllocInMemory tcx fuel alloc name') :=
      fun hnames => spares_codegenAllocInMemory htcx fuel hnames
    have hgrows₁ := hrun.grows_struct htcx hmem hneStruct
    obtain ⟨hgrows₃, hgrows₄⟩ := hrun.grows htcx hmem hneName hneTemp
    -- nothing took the name of the initializer on the way, so it is entered
    have hinit₄ := hgrows₄.fresh rfl (hgrows₃.fresh rfl (hgrows₁.fresh rfl hinit))
    obtain ⟨sym, hregister⟩ := hrun.hregister
    cases (registerInitializer_eq hinit₄).symm.trans hregister
    have hkeeps₅ : Keeps ctx₄.symbolTable (ctx₄.symbolTable.set (initializer name body)) :=
      (Keeps.refl _).set hinit₄
    -- the type of the allocation is entered by this very step
    obtain ⟨rfl, ⟨⟨s, hs⟩, -⟩ | ⟨-, components, ctx₀, hcomponents, rfl⟩⟩ :=
      ensureAggr_eq_some hrun.hstruct
    · cases hstruct.symm.trans hs
    have htyp₃ := hgrows₃.keeps.lookup (ctx₀.symbolTable.lookup_set_self
      (Aggr.symbol (name ++ "::struct") none (Aggr.completeTyp .struct _ components)))
    simp only [allocationComponents, bind_eq_some, pure_eq_some, Prod.exists, components_eq,
      Option.some.injEq, Prod.mk.injEq] at hcomponents
    obtain ⟨data₀, _, -, _, rfl, rfl, rfl⟩ := hcomponents
    have hpadding := isPadding_componentsFrom 0 data₀
    obtain ⟨-, hlength, htyped, rfl⟩ := (structExprFromValues_eq_some
      (lookupFieldsInType_of_lookup htyp₃) hpadding).mp hrun.hval
    obtain ⟨s, rfl, rfl, -⟩ := ensureGlobalVar_eq_some hrun.hvar
    obtain ⟨rfl, -⟩ := genFunctionLocalVariable_iff.mp hrun.htemp
    obtain ⟨⟨n, hn, hm⟩, rfl⟩ := initializerBody_eq_some hrun.hbody
    refine ⟨_, data, values, s.typ, ?_, hrun.hvalues,
      hkeeps₅.lookup (hgrows₄.keeps.lookup htyp₃), hpadding, hlength, htyped,
      ⟨n, hkeeps₅.le.sizeofInBits hn, hkeeps₅.le.sizeofInBits hm⟩, ?_⟩
    · have hgrows : Grows _ ctx₂.symbolTable ctx₃.symbolTable :=
        spares_codegenAllocationData htcx hmem alloc hrun.hdata
      have hpieces := pieces_of_allocationDataFrom hrun.hdata
      rw [← hgrows.keeps.machineModel, ← hgrows₄.keeps.machineModel] at hpieces
      exact hpieces
    · exact SymbolTable.lookup_set_self _ _

end Initializers

section Fuel

variable {tcx} {inMemory inMemory' : Allocation → String → GenOn StaticCtx Unit}

lemma codegenAllocInMemoryWith_congr
    (h : ∀ r ∈ alloc.relocations, ∀ {alloc'}, tcx.globalAlloc r.2 = .memory alloc' →
      inMemory alloc' = inMemory' alloc') :
    codegenAllocInMemoryWith tcx inMemory alloc = codegenAllocInMemoryWith tcx inMemory' alloc := by
  have hdata : codegenAllocationData tcx inMemory alloc =
      codegenAllocationData tcx inMemory' alloc := by
    funext ctx
    rw [codegenAllocationData, codegenAllocationData, allocationDataFrom_congr h]
  have hcomponents : allocationComponents tcx inMemory alloc =
      allocationComponents tcx inMemory' alloc := by
    funext ctx
    rw [allocationComponents, allocationComponents, hdata]
  funext name ctx
  simp only [codegenAllocInMemoryWith, hcomponents, hdata]

/-- More fuel than an allocation nests deep does not change what is generated for it. -/
theorem codegenAllocInMemory_of_nesting_lt (h : nesting tcx alloc < fuel) :
    codegenAllocInMemory tcx fuel alloc =
      codegenAllocInMemory tcx (nesting tcx alloc + 1) alloc := by
  induction fuel using Nat.strong_induction_on generalizing alloc with
  | _ fuel ih =>
    obtain ⟨fuel, rfl⟩ := Nat.exists_eq_add_one_of_ne_zero (Nat.ne_zero_of_lt h)
    have hcongr : codegenAllocInMemoryWith tcx (codegenAllocInMemory tcx fuel) alloc =
        codegenAllocInMemoryWith tcx (codegenAllocInMemory tcx (nesting tcx alloc)) alloc := by
      refine codegenAllocInMemoryWith_congr fun r hr alloc' halloc' => ?_
      have hlt := nesting_lt_of_mem hr halloc'
      rw [ih fuel (by omega) (by omega), ih (nesting tcx alloc) h hlt]
    funext name
    exact congrFun hcongr name

end Fuel

/-! ### Runs -/

/-- What a static needs before it is translated: its allocation has no location yet, unless it is
mutable, and the names of its initializer and of its allocation's type are free. Nothing of the
crate that an allocation can point at takes the name of the initializer. -/
structure Owned (ctx : StaticCtx) (item : StaticItem Ty) : Prop where
  alloc : item.alloc.isMut = true ∨ ctx.allocMap.lookup item.alloc = none
  initializer : ctx.symbolTable.lookup (initializerFnName item.symbolName) = none
  allocTyp : ctx.symbolTable.lookup (aggrTag (item.symbolName ++ "::struct")) = none
  spares : tcx.Spares (· = initializerFnName item.symbolName)

/-- Every static of a run is owned when it is translated. -/
def OwnedAlong (ctx : StaticCtx) (events : List (StaticEvent Ty)) : Prop :=
  ∀ before item after ctx₁, events = before ++ .codegenStatic item :: after →
    run (StaticEvent.step tcx) ctx before = some ctx₁ → Owned tcx ctx₁ item

section Runs

variable {tcx} {item : StaticItem Ty} {event : StaticEvent Ty}

/-- A static that was translated was found or put into memory under its name. -/
lemma codegenStatic_eq_some (h : codegenStatic tcx item ctx = some ctx') :
    (item.alloc.isMut = false ∧ ctx' = ctx ∧ ∃ n, ctx.allocMap.lookup item.alloc = some n) ∨
      (item.alloc.isMut = false → ctx.allocMap.lookup item.alloc = none) ∧
        codegenAllocInMemory tcx (nesting tcx item.alloc + 1) item.alloc item.symbolName ctx =
          some ((), ctx') := by
  simp only [codegenStatic, codegenAllocation, bind_eq_some, pure_eq_some, Prod.exists] at h
  obtain ⟨_, _, h, rfl⟩ := h
  refine (codegenAllocationWith_eq_some h).2.imp_right ?_
  rintro ⟨hnew, name, ctx₁, hname, hrun⟩
  simp only [immutableName, ite_self, Option.some.injEq, Prod.mk.injEq] at hname
  obtain ⟨rfl, rfl⟩ := hname
  exact ⟨hnew, hrun⟩

lemma initialized_codegenStatic (howned : Owned tcx ctx item)
    (h : codegenStatic tcx item ctx = some ctx') :
    Initialized tcx ctx'.symbolTable item.symbolName item.alloc := by
  rcases codegenStatic_eq_some h with ⟨hmut, -, n, hn⟩ | ⟨-, hrun⟩
  · rcases howned.alloc with hmut' | hnone
    · cases hmut.symm.trans hmut'
    · cases hnone.symm.trans hn
  · exact initialized_codegenAllocInMemory howned.spares howned.initializer howned.allocTyp hrun

lemma keeps_step (htcx : tcx.Spares fun _ => False)
    (h : StaticEvent.step tcx ctx event = some ctx') :
    Keeps ctx.symbolTable ctx'.symbolTable := by
  have hmem : ∀ fuel {alloc name}, Spares (fun _ => False)
      (codegenAllocInMemory tcx fuel alloc name) := fun fuel {_ _} =>
    spares_codegenAllocInMemory htcx fuel fun _ _ => id
  cases event with
  | declareStatic item =>
    simp only [StaticEvent.step, declareStatic, bind_eq_some, pure_eq_some, Prod.exists,
      SymbolTable.insert_eq_some] at h
    obtain ⟨_, ctx₁, hty, _, ⟨hnew, rfl⟩, rfl⟩ := h
    exact ((htcx.codegenTy _).onTable hty).keeps.trans ((Keeps.refl _).set hnew)
  | codegenStatic item =>
    rcases codegenStatic_eq_some h with ⟨-, rfl, -⟩ | ⟨-, hrun⟩
    · exact .refl _
    · exact (hmem _ hrun).keeps
  | constant alloc =>
    have hname : SparesNames (fun _ => False) (nextGlobalName tcx) := by
      intro ctx name ctx' h
      cases h
      exact ⟨fun _ _ => id, rfl⟩
    simp only [StaticEvent.step, codegenAllocationAutoImmName, bind_eq_some, pure_eq_some,
      Prod.exists] at h
    obtain ⟨_, _, h, rfl⟩ := h
    have himm : SparesNames (fun _ => False) (immutableName tcx none) := hname
    exact (spares_codegenAllocationWith (fun _ => hmem _) hname himm h).keeps
  | pointer resT allocId offset =>
    simp only [StaticEvent.step, codegenAllocPointer, bind_eq_some, pure_eq_some, Prod.exists] at h
    obtain ⟨_, _, h, rfl⟩ := h
    exact (spares_codegenAllocPointerWith htcx (fun _ => hmem _) _ _ _ h).keeps

lemma OwnedAlong.of_concat {events : List (StaticEvent Ty)}
    (h : OwnedAlong tcx ctx (events ++ [event])) :
    OwnedAlong tcx ctx events := by
  intro before item after ctx₁ heq hrun
  exact h before item (after ++ [event]) ctx₁ (by simp [heq]) hrun

lemma Initialized.contains (h : Initialized tcx st name alloc) :
    st.contains (initializerFnName name) = true := by
  obtain ⟨_, _, _, _, h⟩ := h
  exact SymbolTable.contains_iff.mpr ⟨_, h.initializer⟩

end Runs

/-! ### Statics of one byte -/

lemma ownedAlong_nil (ctx : StaticCtx) : OwnedAlong tcx ctx [] :=
  fun before item after _ heq _ => absurd heq (by simp)

lemma ownedAlong_cons {ctx₁ : StaticCtx} {event : StaticEvent Ty} {events : List (StaticEvent Ty)}
    (hstep : StaticEvent.step tcx ctx event = some ctx₁)
    (h : ∀ item, event = .codegenStatic item → Owned tcx ctx item)
    (hrest : OwnedAlong tcx ctx₁ events) : OwnedAlong tcx ctx (event :: events) := by
  intro before item after ctx₂ heq hbefore
  cases before with
  | nil =>
    cases heq
    cases hbefore
    exact h item rfl
  | cons event' before =>
    cases heq
    rw [run_cons, hstep] at hbefore
    exact hrest before item after ctx₂ rfl hbefore

/-- A crate in which every type is `u8` and no allocation holds a pointer. -/
def byteTcx : Tcx Unit where
  fullCrateName := "crate"
  bigEndian := false
  globalAlloc _ := .function "main"
  debugAllocId _ := "alloc"
  codegenTy _ st := some (.unsignedbv 8, st)
  codegenFuncExpr _ _ := none
  depth _ := 0
  depth_lt h := by cases h

/-- An immutable static of type `u8`. -/
def byteStatic (name : String) (b : BitVec 8) : StaticItem Unit :=
  { symbolName := name, ty := (), span := .none, hasLinkage := false,
    alloc := { bytes := [b], relocations := [], initMask := [true], align := 1, isMut := false } }

omit [DebugTyp] in
lemma spares_byteTcx (reserved : String → Prop) : byteTcx.Spares reserved where
  codegenTy _ ctx t ctx' h := by
    cases h
    exact .refl _
  codegenFuncExpr _ ctx e ctx' h := by cases h
  static h := by cases h
  memory h := by cases h

end Initializers

end

end Rmc.Codegen

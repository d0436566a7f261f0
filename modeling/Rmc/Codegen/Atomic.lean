import Rmc.Codegen.CheckedOp
import Rmc.Codegen.Projection
import Rmc.Goto.Exec

/-!
# Atomic operations

The translation of the atomic intrinsics that change memory. All of them become a block that saves
the previous value in a temporary variable, updates the memory, and assigns the saved value to the
destination; a compare-exchange assigns a pair of it and a flag. The flag is always set.

`codegenAtomic_sequential_iff` says when a block does what the operation does in a sequential
program: always, except for a compare-exchange of a value that is not the expected one.
-/

namespace Rmc.Codegen

open OrdMap TwosComplement ByteMemory

/-! ### The translation -/

/-- The operations of the read-modify-write intrinsics. -/
inductive AtomicOp where
  | and
  | or
  | xor
  | xadd
  | xsub
  deriving DecidableEq, Repr

def AtomicOp.operand : AtomicOp → BinaryOperand
  | .and => .bitand
  | .or => .bitor
  | .xor => .bitxor
  | .xadd => .plus
  | .xsub => .minus

/-- The atomic intrinsics that change memory, without their orderings. -/
inductive AtomicKind where
  | binop (op : AtomicOp)
  | cxchg
  | store
  | xchg
  deriving DecidableEq, Repr

/-- The operation that an intrinsic is. -/
def atomicKind (intrinsic : String) : Option AtomicKind :=
  match intrinsic with
  | "atomic_and" | "atomic_and_acq" | "atomic_and_acqrel" | "atomic_and_rel"
  | "atomic_and_relaxed" => some (.binop .and)
  | "atomic_or" | "atomic_or_acq" | "atomic_or_acqrel" | "atomic_or_rel"
  | "atomic_or_relaxed" => some (.binop .or)
  | "atomic_store" | "atomic_store_rel" | "atomic_store_relaxed" | "atomic_store_unordered" =>
    some .store
  | "atomic_xadd" | "atomic_xadd_acq" | "atomic_xadd_acqrel" | "atomic_xadd_rel"
  | "atomic_xadd_relaxed" => some (.binop .xadd)
  | "atomic_xchg" | "atomic_xchg_acq" | "atomic_xchg_acqrel" | "atomic_xchg_rel"
  | "atomic_xchg_relaxed" => some .xchg
  | "atomic_xor" | "atomic_xor_acq" | "atomic_xor_acqrel" | "atomic_xor_rel"
  | "atomic_xor_relaxed" => some (.binop .xor)
  | "atomic_xsub" | "atomic_xsub_acq" | "atomic_xsub_acqrel" | "atomic_xsub_rel"
  | "atomic_xsub_relaxed" => some (.binop .xsub)
  | name => if "atomic_cxchg".toList.isPrefixOf name.toList then some .cxchg else none

section

variable [Ranked String]

/-- The fields of the context that temporary variables need. -/
structure FnCtx where
  symbolTable : SymbolTable
  name : String
  tempVarCounter : ℕ

/-- The name of the next temporary variable. -/
def FnCtx.tempName (ctx : FnCtx) : String :=
  ctx.name ++ "::1::" ++ ("temp_" ++ toString ctx.tempVarCounter)

def genTempVariable (t : Typ) (loc : Location) (ctx : FnCtx) : Option (Symbol × FnCtx) := do
  let symbol := Symbol.mkVariable ctx.tempName ("temp_" ++ toString ctx.tempVarCounter) t loc
  let st ← ctx.symbolTable.insert symbol
  return (symbol, { ctx with symbolTable := st, tempVarCounter := ctx.tempVarCounter + 1 })

variable [DebugTyp] (isUnit : Bool) (place : Expr) (loc : Location)

/-- `tmp = *var1; *var1 = op(*var1, var2); var = tmp;` -/
def codegenAtomicBinop (op : BinaryOperand) (fargs : List Expr) (ctx : FnCtx) :
    Option (Stmt × FnCtx) :=
  match fargs with
  | var1Ref :: var2 :: _ => do
    let var1 ← var1Ref.dereference
    let (tmp, ctx₁) ← genTempVariable var1.typ loc ctx
    let declStmt ← Stmt.decl tmp.toExpr (some var1) loc
    let opExpr := (← var1.binop op var2).withLocation loc
    let assignStmt ← Stmt.assign var1 opExpr loc
    let resStmt ← codegenExprToPlace isUnit place tmp.toExpr
    return (Stmt.atomicBlock [declStmt, assignStmt, resStmt] loc, ctx₁)
  | _ => none

/-- `tmp = *var1; if (*var1 == var2) *var1 = var3; var = (tmp, true);` -/
def codegenAtomicCxchg (resType : Typ) (fargs : List Expr) (ctx : FnCtx) :
    Option (Stmt × FnCtx) :=
  match fargs with
  | var1Ref :: var2 :: var3 :: _ => do
    let var1 := (← var1Ref.dereference).withLocation loc
    let (tmp, ctx₁) ← genTempVariable var1.typ loc ctx
    let declStmt ← Stmt.decl tmp.toExpr (some var1) loc
    let var2 := var2.withLocation loc
    let var3 := var3.withLocation loc
    let eqExpr ← var1.eq var2
    let assignStmt ← Stmt.assign var1 var3 loc
    let condUpdateStmt ← Stmt.ifThenElse eqExpr assignStmt none loc
    let tupleExpr ← Expr.structExprFromValues resType [tmp.toExpr, Expr.cTrue] ctx₁.symbolTable
    let resStmt ← codegenExprToPlace isUnit place (tupleExpr.withLocation loc)
    return (Stmt.atomicBlock [declStmt, condUpdateStmt, resStmt] loc, ctx₁)
  | _ => none

/-- `tmp = *var1; *var1 = var2; var = tmp;` -/
def codegenAtomicStore (fargs : List Expr) (ctx : FnCtx) : Option (Stmt × FnCtx) :=
  match fargs with
  | var1Ref :: var2 :: _ => do
    let var1 := (← var1Ref.dereference).withLocation loc
    let (tmp, ctx₁) ← genTempVariable var1.typ loc ctx
    let declStmt ← Stmt.decl tmp.toExpr (some var1) loc
    let var2 := var2.withLocation loc
    let assignStmt ← Stmt.assign var1 var2 loc
    let resStmt ← codegenExprToPlace isUnit place tmp.toExpr
    return (Stmt.atomicBlock [declStmt, assignStmt, resStmt] loc, ctx₁)
  | _ => none

/-- The block of an atomic intrinsic; `resType` is the translated type of its result. -/
def codegenAtomic (intrinsic : String) (resType : Typ) (fargs : List Expr) (ctx : FnCtx) :
    Option (Stmt × FnCtx) := do
  match ← atomicKind intrinsic with
  | .binop op => codegenAtomicBinop isUnit place loc op.operand fargs ctx
  | .cxchg => codegenAtomicCxchg isUnit place loc resType fargs ctx
  | .store | .xchg => codegenAtomicStore isUnit place loc fargs ctx

end

/-! ### Sequential programs -/

section

variable {w : ℕ}

/-- Arithmetic wraps around. -/
def AtomicOp.apply (op : AtomicOp) (x y : BitVec w) : BitVec w :=
  match op with
  | .and => x &&& y
  | .or => x ||| y
  | .xor => x ^^^ y
  | .xadd => x + y
  | .xsub => x - y

namespace AtomicKind

/-- How many arguments there are after the pointer. -/
def arity : AtomicKind → ℕ
  | cxchg => 2
  | binop _ | store | xchg => 1

/-- Stores return nothing. -/
def isUnit : AtomicKind → Bool
  | store => true
  | binop _ | cxchg | xchg => false

/-- The value that is left in memory, from the previous one and the arguments. -/
def update (prev : BitVec w) : AtomicKind → List (BitVec w) → BitVec w
  | binop op, y :: _ => op.apply prev y
  | cxchg, expected :: y :: _ => if prev = expected then y else prev
  | store, y :: _ | xchg, y :: _ => y
  | _, _ => prev

end AtomicKind

variable [Ranked String] (st : SymbolTable)

/-- What an operation does to its destination at address `d`, of the type `resType`: most put the
previous value there, a compare-exchange a pair of it and whether it was the expected one, with
any padding. -/
def Returns (t : IntegerTy) (resType : Typ) (d : ℕ) (kind : AtomicKind) (prev : BitVec w)
    (ys : List (BitVec w)) (σ σ' : State) : Prop :=
  match kind with
  | .store => σ' = σ
  | .binop _ | .xchg => σ.storeTyp st t.codegenTy d prev.toNat = some σ'
  | .cxchg => ∃ size offset offset', resType.bytes st = some size ∧
    fieldOffset st resType "0" = some offset ∧ fieldOffset st resType "1" = some offset' ∧
    σ'.address = σ.address ∧ (∀ q, q < d ∨ d + size ≤ q → σ'.memory q = σ.memory q) ∧
    σ'.loadTyp st t.codegenTy (d + offset) = some prev.toNat ∧
    σ'.loadTyp st .cBool (d + offset') = some (decide (ys.head? = some prev)).toNat

end

/-! ### Temporary variables -/

section

variable [Ranked String] {st : SymbolTable} {ctx : FnCtx} {t : IntegerTy} {σ σ' : State}
  {ptr : Expr} {loc loc' : Location}

/-- The number of bytes of a type. -/
def IntegerTy.byteWidth (mm : MachineModel) (t : IntegerTy) : ℕ := t.bitWidth mm / 8

omit [Ranked String] in
lemma IntegerTy.bitWidth_eq {mm : MachineModel} (h : mm.pointerWidth % 8 = 0) (t : IntegerTy) :
    t.bitWidth mm = 8 * t.byteWidth mm := by
  have hdvd : t.bitWidth mm % 8 = 0 := by
    cases t with
    | int k => cases k <;> simp [bitWidth, h]
    | uint k => cases k <;> simp [bitWidth, h]
  rw [byteWidth]
  omega

lemma IntegerTy.bytes_codegenTy (h : st.machineModel.pointerWidth % 8 = 0) (t : IntegerTy) :
    t.codegenTy.bytes st = some (t.byteWidth st.machineModel) := by
  have hbits : t.codegenTy.sizeofInBits st = some (t.bitWidth st.machineModel) := by
    cases t with
    | int k => cases k <;> rfl
    | uint k => cases k <;> rfl
  have hmod := t.bitWidth_eq h
  have hdvd : t.bitWidth st.machineModel % 8 = 0 := by omega
  simp [Typ.bytes, hbits, hdvd, byteWidth]

/-- The context after a temporary variable has been made. -/
def FnCtx.withTemp (ctx : FnCtx) (t : Typ) (loc : Location) : FnCtx :=
  { ctx with
    symbolTable := ctx.symbolTable.set
      (Symbol.mkVariable ctx.tempName ("temp_" ++ toString ctx.tempVarCounter) t loc)
    tempVarCounter := ctx.tempVarCounter + 1 }

/-- The variable as an expression. -/
def FnCtx.temp (ctx : FnCtx) (t : IntegerTy) : Expr :=
  .mk (.symbol ctx.tempName) t.codegenTy .none

lemma exists_genTempVariable (hfresh : ctx.symbolTable.lookup ctx.tempName = none)
    (t : IntegerTy) (loc : Location) :
    ∃ tmp, genTempVariable t.codegenTy loc ctx = some (tmp, ctx.withTemp t.codegenTy loc) ∧
      tmp.toExpr = ctx.temp t := by
  refine ⟨Symbol.mkVariable ctx.tempName ("temp_" ++ toString ctx.tempVarCounter) t.codegenTy loc,
    ?_, rfl⟩
  have hinsert : ctx.symbolTable.insert (Symbol.mkVariable ctx.tempName
      ("temp_" ++ toString ctx.tempVarCounter) t.codegenTy loc) =
        some (ctx.withTemp t.codegenTy loc).symbolTable :=
    SymbolTable.insert_eq_some.mpr ⟨hfresh, rfl⟩
  simp only [genTempVariable, hinsert, some_bind, Option.pure_def]
  rfl

/-- The value that the pointer points to. -/
def pointee (ptr : Expr) (t : IntegerTy) (loc : Location) : Expr :=
  .mk (.dereference ptr) t.codegenTy loc

omit [Ranked String] in
lemma dereference_eq (hptr : ptr.typ = .pointer t.codegenTy) :
    ptr.dereference = some (pointee ptr t .none) := by
  simp [Expr.dereference, hptr, Typ.isPointer, Typ.baseType, pointee, Expr.new]

lemma addr_pointee : (pointee ptr t loc).addr st σ = ptr.eval st σ := by
  simp [pointee, Expr.addr, ExprValue.addr]

lemma eval_pointee (hbytes : st.machineModel.pointerWidth % 8 = 0) {p : ℕ}
    (hp : ptr.eval st σ = some p) : (pointee ptr t loc).eval st σ =
      some (load st.machineModel.isBigEndian σ.memory p (t.byteWidth st.machineModel)) := by
  simp [pointee, Expr.eval, ExprValue.eval, hp, State.loadTyp_eq (t.bytes_codegenTy hbytes)]

/-! ### Operands -/

/-- The value at an address. -/
def valueAt (st : SymbolTable) (σ : State) (t : IntegerTy) (p : ℕ) :
    BitVec (t.bitWidth st.machineModel) :=
  BitVec.ofNat _ (load st.machineModel.isBigEndian σ.memory p (t.byteWidth st.machineModel))

lemma toNat_valueAt (hbytes : st.machineModel.pointerWidth % 8 = 0) (p : ℕ) :
    (valueAt st σ t p).toNat =
      load st.machineModel.isBigEndian σ.memory p (t.byteWidth st.machineModel) := by
  rw [valueAt, BitVec.toNat_ofNat, Nat.mod_eq_of_lt]
  rw [t.bitWidth_eq hbytes]
  exact load_lt _ _ _ _

/-- The state with a value at an address. -/
def putValue (st : SymbolTable) (σ : State) (t : IntegerTy) (p : ℕ)
    (x : BitVec (t.bitWidth st.machineModel)) : State :=
  σ.put st p (t.byteWidth st.machineModel) x.toNat

/-- The state with a value in the temporary variable. -/
def putTemp (st : SymbolTable) (σ : State) (t : IntegerTy) (ctx : FnCtx)
    (x : BitVec (t.bitWidth st.machineModel)) : State :=
  putValue st σ t (σ.address ctx.tempName) x

/-- The operands of an atomic operation: a pointer to `p` and the values `ys`. The temporary
variable is new, so it is not in the way of the value at `p`, and none of the operands reads it. -/
structure AtomicOperands (st : SymbolTable) (σ : State) (t : IntegerTy) (ctx : FnCtx)
    (ptr : Expr) (args : List Expr) (p : ℕ) (ys : List (BitVec (t.bitWidth st.machineModel))) :
    Prop where
  target : ∀ x, ptr.eval st (putTemp st σ t ctx x) = some p
  args : ∀ x, evalEach st (putTemp st σ t ctx x) args = ys.map fun y => some y.toNat
  disjoint : p + t.byteWidth st.machineModel ≤ σ.address ctx.tempName ∨
    σ.address ctx.tempName + t.byteWidth st.machineModel ≤ p

/-- The destination is at `d`, whatever is in the temporary variable and at `p`. -/
def StableAt (st : SymbolTable) (σ : State) (t : IntegerTy) (ctx : FnCtx) (place : Expr)
    (p d : ℕ) : Prop :=
  ∀ x y, place.addr st (putValue st (putTemp st σ t ctx x) t p y) = some d

variable {e : Expr}

section

variable {args : List Expr} {p : ℕ} {ys : List (BitVec (t.bitWidth st.machineModel))}

/-- Putting into the temporary variable what it holds changes nothing. -/
lemma putTemp_self (hbytes : st.machineModel.pointerWidth % 8 = 0) :
    putTemp st σ t ctx (valueAt st σ t (σ.address ctx.tempName)) = σ := by
  rw [putTemp, putValue, toNat_valueAt hbytes, State.put_load]

section

variable (h : AtomicOperands st σ t ctx ptr args p ys)

include h

/-- The previous value is still there after it has been saved. -/
lemma AtomicOperands.load_putTemp (x : BitVec (t.bitWidth st.machineModel)) :
    load st.machineModel.isBigEndian (putTemp st σ t ctx x).memory p
        (t.byteWidth st.machineModel) =
      load st.machineModel.isBigEndian σ.memory p (t.byteWidth st.machineModel) :=
  State.load_put_of_disjoint h.disjoint

lemma AtomicOperands.eval_pointee (hbytes : st.machineModel.pointerWidth % 8 = 0)
    (x : BitVec (t.bitWidth st.machineModel)) :
    (pointee ptr t loc).eval st (putTemp st σ t ctx x) = some (valueAt st σ t p).toNat := by
  rw [Codegen.eval_pointee hbytes (h.target x), h.load_putTemp, toNat_valueAt hbytes]

lemma AtomicOperands.runs_save (hbytes : st.machineModel.pointerWidth % 8 = 0) :
    (Stmt.mk (.decl (ctx.temp t) (some (pointee ptr t loc))) loc').Runs st σ σ' ↔
      σ' = putTemp st σ t ctx (valueAt st σ t p) := by
  have heval : (pointee ptr t loc).eval st
      (putTemp st σ t ctx (valueAt st σ t (σ.address ctx.tempName))) =
        some (valueAt st σ t p).toNat :=
    h.eval_pointee hbytes _
  rw [putTemp_self hbytes] at heval
  rw [Stmt.Runs, StmtBody.Runs]
  exact State.assigns_iff_of_eval (by simp [FnCtx.temp, Expr.addr, ExprValue.addr])
    (t.bytes_codegenTy hbytes) heval

end

variable {rhs e' place : Expr} {kind : AtomicKind} {resType : Typ} {d : ℕ}

lemma AtomicOperands.runs_update (h : AtomicOperands st σ t ctx ptr args p ys)
    (hbytes : st.machineModel.pointerWidth % 8 = 0) {x y : BitVec (t.bitWidth st.machineModel)}
    (hrhs : rhs.eval st (putTemp st σ t ctx x) = some y.toNat) :
    (Stmt.mk (.assign (pointee ptr t loc) rhs) loc').Runs st (putTemp st σ t ctx x) σ' ↔
      σ' = putValue st (putTemp st σ t ctx x) t p y := by
  rw [Stmt.Runs, StmtBody.Runs]
  exact State.assigns_iff_of_eval (by rw [addr_pointee, h.target]) (t.bytes_codegenTy hbytes) hrhs

/-- The saved value is still there after the update. -/
lemma AtomicOperands.eval_temp (h : AtomicOperands st σ t ctx ptr args p ys)
    (hbytes : st.machineModel.pointerWidth % 8 = 0) (x y : BitVec (t.bitWidth st.machineModel)) :
    (ctx.temp t).eval st (putValue st (putTemp st σ t ctx x) t p y) = some x.toNat := by
  have hx : x.toNat < 2 ^ (8 * t.byteWidth st.machineModel) := by
    rw [← t.bitWidth_eq hbytes]
    exact x.isLt
  have hload : load st.machineModel.isBigEndian
      (putValue st (putTemp st σ t ctx x) t p y).memory (σ.address ctx.tempName)
        (t.byteWidth st.machineModel) = x.toNat := by
    rw [putValue, State.load_put_of_disjoint h.disjoint.symm, putTemp, putValue, State.load_put hx]
  simp only [FnCtx.temp, Expr.eval, ExprValue.eval, State.loadTyp_eq (t.bytes_codegenTy hbytes)]
  exact congrArg some hload

/-! ### Updates -/

/-- The operation on words is the one that the translation computes. -/
lemma AtomicOp.exists_binop (hpw : 0 < st.machineModel.pointerWidth) (op : AtomicOp)
    (he : e.typ = t.codegenTy) (he' : e'.typ = t.codegenTy) :
    ∃ r, e.binop op.operand e' = some r ∧ r.typ = t.codegenTy ∧
      ∀ σ (x y : BitVec (t.bitWidth st.machineModel)), e.eval st σ = some x.toNat →
        e'.eval st σ = some y.toNat → r.eval st σ = some (op.apply x y).toNat := by
  have ht := (t.isWord_codegenTy hpw).isIntegral
  have hvalue : ∀ x : BitVec (t.bitWidth st.machineModel),
      TwosComplement.value t.isSigned (t.bitWidth st.machineModel) x.toNat ≡ x.toNat
        [ZMOD 2 ^ t.bitWidth st.machineModel] := fun x => value_modEq _ _ _
  have hbitwise : ∀ f : BinaryOperand, f = .bitand ∨ f = .bitor ∨ f = .bitxor →
      ∃ r, e.binop f e' = some r ∧ r.typ = t.codegenTy ∧ ∀ σ x y, e.eval st σ = some x →
        e'.eval st σ = some y → r.eval st σ = f.bitwise x y :=
    fun f hf => Expr.exists_bitwise ht he he' hf
  cases op with
  | and =>
    obtain ⟨r, hr, htyp, heval⟩ := hbitwise .bitand (.inl rfl)
    exact ⟨r, hr, htyp, fun σ x y hx hy => by
      rw [heval σ _ _ hx hy, AtomicOp.apply, BitVec.toNat_and, BinaryOperand.bitwise]⟩
  | or =>
    obtain ⟨r, hr, htyp, heval⟩ := hbitwise .bitor (.inr (.inl rfl))
    exact ⟨r, hr, htyp, fun σ x y hx hy => by
      rw [heval σ _ _ hx hy, AtomicOp.apply, BitVec.toNat_or, BinaryOperand.bitwise]⟩
  | xor =>
    obtain ⟨r, hr, htyp, heval⟩ := hbitwise .bitxor (.inr (.inr rfl))
    exact ⟨r, hr, htyp, fun σ x y hx hy => by
      rw [heval σ _ _ hx hy, AtomicOp.apply, BitVec.toNat_xor, BinaryOperand.bitwise]⟩
  | xadd =>
    obtain ⟨r, hr, htyp, heval⟩ := Expr.exists_arithmetic ht he he' (.inl rfl)
    refine ⟨r, hr, htyp, fun σ x y hx hy => ?_⟩
    rw [heval σ _ _ hx hy, AtomicOp.apply, BitVec.toNat_add, ← pattern_natCast]
    simp only [BinaryOperand.exact, Option.map_some, Option.some.injEq]
    rw [pattern_eq_pattern_iff, Nat.cast_add]
    exact (hvalue x).add (hvalue y)
  | xsub =>
    obtain ⟨r, hr, htyp, heval⟩ := Expr.exists_arithmetic ht he he' (.inr (.inl rfl))
    refine ⟨r, hr, htyp, fun σ x y hx hy => ?_⟩
    rw [heval σ _ _ hx hy, AtomicOp.apply, BitVec.toNat_sub, ← pattern_natCast]
    simp only [BinaryOperand.exact, Option.map_some, Option.some.injEq]
    rw [pattern_eq_pattern_iff, Nat.cast_add, Nat.cast_sub y.isLt.le]
    refine ((hvalue x).sub (hvalue y)).trans (Int.modEq_iff_dvd.mpr ⟨1, ?_⟩)
    push_cast
    ring

/-- Values are equal as integers when they are equal as words. -/
lemma exists_eqExpr (hpw : 0 < st.machineModel.pointerWidth) (he : e.typ = t.codegenTy)
    (he' : e'.typ = t.codegenTy) :
    ∃ r, e.eq e' = some r ∧ r.typ = .bool ∧
      ∀ σ (x y : BitVec (t.bitWidth st.machineModel)), e.eval st σ = some x.toNat →
        e'.eval st σ = some y.toNat → r.eval st σ = some (decide (x = y)).toNat := by
  have ht := (t.isWord_codegenTy hpw).isIntegral
  obtain ⟨r, hr, htyp, heval⟩ :=
    Expr.exists_compare ht he he' (.inr (.inr (.inr (.inr rfl))))
  refine ⟨r, hr, htyp, fun σ x y hx hy => ?_⟩
  have hiff : TwosComplement.value t.isSigned (t.bitWidth st.machineModel) x.toNat =
      TwosComplement.value t.isSigned (t.bitWidth st.machineModel) y.toNat ↔ x = y := by
    constructor
    · intro h
      have hpattern := congrArg (pattern (t.bitWidth st.machineModel)) h
      rw [pattern_value x.isLt, pattern_value y.isLt] at hpattern
      exact BitVec.eq_of_toNat_eq hpattern
    · rintro rfl
      rfl
  rw [heval σ _ _ hx hy]
  simp [BinaryOperand.compare, hiff]

/-! ### Blocks -/

lemma runs_atomicBlock {s s₁ s₂ : Stmt} :
    (Stmt.atomicBlock [s, s₁, s₂] loc).Runs st σ σ' ↔
      ∃ σ₁, s.Runs st σ σ₁ ∧ ∃ σ₂, s₁.Runs st σ₁ σ₂ ∧ s₂.Runs st σ₂ σ' := by
  simp [Stmt.atomicBlock, Stmt.Runs, StmtBody.Runs, RunsAll]

/-- The statement runs, and each of its runs does what the operation does in a sequential
program. -/
def Sequential (st : SymbolTable) (σ : State) (t : IntegerTy) (ctx : FnCtx) (resType : Typ)
    (kind : AtomicKind) (p d : ℕ) (ys : List (BitVec (t.bitWidth st.machineModel)))
    (stmt : Stmt) : Prop :=
  (∃ σ', stmt.Runs st σ σ') ∧ ∀ σ', stmt.Runs st σ σ' →
    Returns st t resType d kind (valueAt st σ t p) ys
      (putValue st (putTemp st σ t ctx (valueAt st σ t p)) t p
        (kind.update (valueAt st σ t p) ys)) σ'

/-- The destination has the type of the values, unless nothing is returned. -/
def ReturnsValue (t : IntegerTy) (kind : AtomicKind) (place : Expr) : Prop :=
  kind ≠ .cxchg ∧ (kind.isUnit = false → place.typ = t.codegenTy)

/-- The saved value is returned, unless nothing is. -/
def returnStmt (kind : AtomicKind) (place tmp : Expr) : Stmt :=
  if kind.isUnit then Stmt.codeExpression tmp .none else .mk (.assign place tmp) .none

lemma codegenExprToPlace_temp [DebugTyp] (hreturns : ReturnsValue t kind place) :
    codegenExprToPlace kind.isUnit place (ctx.temp t) =
      some (returnStmt kind place (ctx.temp t)) := by
  cases hunit : kind.isUnit with
  | true => simp [codegenExprToPlace, returnStmt, hunit]
  | false =>
    have htyp : (place.typ == (ctx.temp t).typ) = true := by
      rw [hreturns.2 hunit]
      exact Typ.beq_self t.codegenTy
    simp [codegenExprToPlace, returnStmt, hunit, Stmt.assign, htyp]

lemma AtomicOperands.runs_returnStmt (h : AtomicOperands st σ t ctx ptr args p ys)
    (hbytes : st.machineModel.pointerWidth % 8 = 0) (hreturns : ReturnsValue t kind place)
    (hstable : kind.isUnit = false → StableAt st σ t ctx place p d)
    (x y : BitVec (t.bitWidth st.machineModel)) :
    (returnStmt kind place (ctx.temp t)).Runs st (putValue st (putTemp st σ t ctx x) t p y) σ' ↔
      Returns st t resType d kind x ys (putValue st (putTemp st σ t ctx x) t p y) σ' := by
  have htemp := h.eval_temp hbytes x y
  -- a value is assigned to the destination
  have hassign : kind.isUnit = false →
      ((Stmt.mk (.assign place (ctx.temp t)) .none).Runs st
        (putValue st (putTemp st σ t ctx x) t p y) σ' ↔
          (putValue st (putTemp st σ t ctx x) t p y).storeTyp st t.codegenTy d x.toNat =
            some σ') := by
    intro hunit
    have hplace : place.typ.bytes st = some (t.byteWidth st.machineModel) := by
      rw [hreturns.2 hunit]
      exact t.bytes_codegenTy hbytes
    rw [Stmt.Runs, StmtBody.Runs, State.assigns_iff_of_eval (hstable hunit x y) hplace htemp,
      State.storeTyp_eq (t.bytes_codegenTy hbytes), Option.some.injEq, eq_comm]
  cases kind with
  | cxchg => exact absurd rfl hreturns.1
  | store =>
    simp only [returnStmt, AtomicKind.isUnit, if_true, Stmt.codeExpression, Stmt.Runs,
      StmtBody.Runs, Returns, Expr.yields_iff htemp, exists_eq, true_and]
  | binop op => exact hassign rfl
  | xchg => exact hassign rfl

/-- A block that saves the previous value, updates the memory and returns the saved value. -/
lemma AtomicOperands.sequential_of_update (h : AtomicOperands st σ t ctx ptr args p ys)
    (hbytes : st.machineModel.pointerWidth % 8 = 0) (hreturns : ReturnsValue t kind place)
    (hstable : kind.isUnit = false → StableAt st σ t ctx place p d)
    (hrhs : rhs.eval st (putTemp st σ t ctx (valueAt st σ t p)) =
      some (kind.update (valueAt st σ t p) ys).toNat) :
    Sequential st σ t ctx resType kind p d ys (Stmt.atomicBlock
      [.mk (.decl (ctx.temp t) (some (pointee ptr t loc))) loc',
        .mk (.assign (pointee ptr t loc) rhs) loc', returnStmt kind place (ctx.temp t)] loc') := by
  have hruns : ∀ σ', (Stmt.atomicBlock
      [.mk (.decl (ctx.temp t) (some (pointee ptr t loc))) loc',
        .mk (.assign (pointee ptr t loc) rhs) loc', returnStmt kind place (ctx.temp t)]
          loc').Runs st σ σ' ↔
      Returns st t resType d kind (valueAt st σ t p) ys
        (putValue st (putTemp st σ t ctx (valueAt st σ t p)) t p
          (kind.update (valueAt st σ t p) ys)) σ' := by
    intro σ'
    rw [runs_atomicBlock]
    simp only [h.runs_save hbytes, exists_eq_left, h.runs_update hbytes hrhs]
    exact h.runs_returnStmt hbytes hreturns hstable _ _
  refine ⟨?_, fun σ' => (hruns σ').mp⟩
  simp only [hruns]
  cases kind with
  | cxchg => exact absurd rfl hreturns.1
  | store => exact ⟨_, rfl⟩
  | binop op => exact ⟨_, State.storeTyp_eq (t.bytes_codegenTy hbytes)⟩
  | xchg => exact ⟨_, State.storeTyp_eq (t.bytes_codegenTy hbytes)⟩

/-! ### Pairs -/

/-- Where the components of the pair of a compare-exchange are. -/
structure PairLayout (st : SymbolTable) (resType : Typ) (fields : List DatatypeComponent)
    (size offset offset' flagSize : ℕ) : Prop where
  bytes : resType.bytes st = some size
  sum : sizeofSum st.machineModel st.sizeofTag fields = some (8 * size)
  offset : fieldOffset st resType "0" = some offset
  offset' : fieldOffset st resType "1" = some offset'
  flag : Typ.cBool.bytes st = some flagSize
  flag_pos : 0 < flagSize

section

variable {fields : List DatatypeComponent} {size offset offset' flagSize : ℕ} {values : List Expr}

section

variable (h : AtomicOperands st σ t ctx ptr args p ys)

include h

variable {parts : List (ℕ × ℕ)}

section

variable (hbytes : st.machineModel.pointerWidth % 8 = 0)

include hbytes

/-- The parts of the pair fit into its components. -/
lemma AtomicOperands.parts_lt
    (hlayout : PairLayout st resType fields size offset offset' flagSize)
    (hvalues : Expr.padValues fields [ctx.temp t, Expr.cTrue] = some values)
    (x y : BitVec (t.bitWidth st.machineModel))
    (hparts : List.Forall₂ (Expr.Part st (putValue st (putTemp st σ t ctx x) t p y)) values parts) :
    ∀ part ∈ parts, part.2 < 2 ^ part.1 := by
  have hlt : ∀ v ∈ values, ∀ part, v.Part st (putValue st (putTemp st σ t ctx x) t p y) part →
      part.2 < 2 ^ part.1 := by
    rintro v hv ⟨w, n⟩ ⟨hw, heval | ⟨-, hn⟩⟩
    · rcases mem_padValues hvalues hv with hnondet | hmem
      · obtain ⟨value, typ, loc⟩ := v
        cases hnondet
        simp [Expr.eval, ExprValue.eval] at heval
      · simp only [List.mem_cons, List.not_mem_nil, or_false] at hmem
        rcases hmem with rfl | rfl
        · obtain rfl : x.toNat = n := Option.some.inj ((h.eval_temp hbytes x y).symm.trans heval)
          have hbits : (ctx.temp t).typ.sizeofInBits st = some (t.bitWidth st.machineModel) := by
            cases t with
            | int k => cases k <;> rfl
            | uint k => cases k <;> rfl
          cases hbits.symm.trans hw
          exact x.isLt
        · obtain rfl : 1 = n := by
            simpa [Expr.cTrue, Expr.cBoolConstant, ExprValue.eval] using heval
          have hflag := hlayout.flag
          simp only [Typ.bytes, bind_eq_some, guard_eq_some, exists_const, pure_eq_some] at hflag
          obtain ⟨w', hw', -, hdiv⟩ := hflag
          cases hw'.symm.trans hw
          have hpos := hlayout.flag_pos
          exact Nat.one_lt_two_pow (by omega)
    · exact hn
  clear hvalues
  induction hparts with
  | nil => simp
  | cons hpart hparts ih =>
    intro part hmem
    rcases List.mem_cons.mp hmem with rfl | hmem
    · exact hlt _ List.mem_cons_self _ hpart
    · exact ih (fun v hv => hlt v (List.mem_cons_of_mem _ hv)) part hmem

/-- The pair that is assigned always has its flag set. -/
lemma AtomicOperands.returns_pair_iff (hpair : IsOverflowPair st t resType fields)
    (hlayout : PairLayout st resType fields size offset offset' flagSize)
    (hvalues : Expr.padValues fields [ctx.temp t, Expr.cTrue] = some values)
    (x y : BitVec (t.bitWidth st.machineModel))
    (hparts : List.Forall₂ (Expr.Part st (putValue st (putTemp st σ t ctx x) t p y)) values parts) :
    Returns st t resType d .cxchg x ys (putValue st (putTemp st σ t ctx x) t p y)
        ((putValue st (putTemp st σ t ctx x) t p y).put st d size
          (concat st.machineModel.isBigEndian parts).2) ↔ ys.head? = some x := by
  have htypes : HaveTypes fields values := by
    refine haveTypes_padValues hvalues ?_
    rw [hpair.nonPadding]
    exact .cons rfl (.cons rfl .nil)
  have hunion : resType.isUnionTag = false := by
    have := hpair.isStructTag
    cases resType <;> simp_all [Typ.isStructTag, Typ.isUnionTag]
  have hsmall := h.parts_lt hbytes hlayout hvalues x y hparts
  -- both values are found at the offsets of their components
  obtain ⟨i, hi, hv⟩ := Expr.getElem?_padValues (k := 0) hvalues hpair.names
    (by rw [hpair.nonPadding]; rfl) rfl
  obtain ⟨j, hj, hv'⟩ := Expr.getElem?_padValues (k := 1) hvalues hpair.names
    (by rw [hpair.nonPadding]; rfl) rfl
  have hload := load_put_component hunion hpair.lookup htypes hparts hsmall hlayout.sum
    hlayout.offset hi hv (t.bytes_codegenTy hbytes) (h.eval_temp hbytes x y)
    (putValue st (putTemp st σ t ctx x) t p y) d
  have htrue : Expr.cTrue.eval st (putValue st (putTemp st σ t ctx x) t p y) = some 1 := by
    simp [Expr.cTrue, Expr.cBoolConstant, ExprValue.eval]
  have hload' := load_put_component hunion hpair.lookup htypes hparts hsmall hlayout.sum
    hlayout.offset' hj hv' hlayout.flag htrue (putValue st (putTemp st σ t ctx x) t p y) d
  constructor
  · rintro ⟨_, _, o, -, -, ho, -, -, -, hflag⟩
    cases hlayout.offset'.symm.trans ho
    rw [State.loadTyp_eq hlayout.flag, hload', Option.some.injEq] at hflag
    by_contra hne
    simp [hne] at hflag
  · intro heq
    refine ⟨size, offset, offset', hlayout.bytes, hlayout.offset, hlayout.offset', rfl, ?_, ?_, ?_⟩
    · intro q hq
      exact store_of_disjoint _ _ _ hq
    · rw [State.loadTyp_eq (t.bytes_codegenTy hbytes), hload]
    · rw [State.loadTyp_eq hlayout.flag, hload', heq]
      simp

/-- Leaving the previous value is putting it there. -/
lemma AtomicOperands.putValue_self (x : BitVec (t.bitWidth st.machineModel)) :
    putValue st (putTemp st σ t ctx x) t p (valueAt st σ t p) = putTemp st σ t ctx x := by
  rw [putValue, toNat_valueAt hbytes, ← h.load_putTemp x, State.put_load]

end

end

/-- A block that saves the previous value, updates the memory if it is the expected one, and
returns the pair. -/
lemma AtomicOperands.sequential_cxchg_iff {expected new : BitVec (t.bitWidth st.machineModel)}
    {ys' : List (BitVec (t.bitWidth st.machineModel))}
    (h : AtomicOperands st σ t ctx ptr args p (expected :: new :: ys'))
    (hbytes : st.machineModel.pointerWidth % 8 = 0) (hpair : IsOverflowPair st t resType fields)
    (hlayout : PairLayout st resType fields size offset offset' flagSize)
    (hvalues : Expr.padValues fields [ctx.temp t, Expr.cTrue] = some values)
    (hplace : place.typ = resType) (hstable : StableAt st σ t ctx place p d) {cond : Expr}
    (hcond : cond.eval st (putTemp st σ t ctx (valueAt st σ t p)) =
      some (decide (valueAt st σ t p = expected)).toNat)
    (hrhs : rhs.eval st (putTemp st σ t ctx (valueAt st σ t p)) = some new.toNat) :
    Sequential st σ t ctx resType .cxchg p d (expected :: new :: ys') (Stmt.atomicBlock
      [.mk (.decl (ctx.temp t) (some (pointee ptr t loc))) loc,
        .mk (.ifthenelse cond (.mk (.assign (pointee ptr t loc) rhs) loc) none) loc,
        .mk (.assign place (.mk (.struct values) resType loc)) .none] loc) ↔
      expected = valueAt st σ t p := by
  set prev := valueAt st σ t p with hprev
  set σ₂ := putValue st (putTemp st σ t ctx prev) t p
    (AtomicKind.cxchg.update prev (expected :: new :: ys')) with hσ₂
  have hupdate : ∀ σ', (Stmt.mk (.ifthenelse cond (.mk (.assign (pointee ptr t loc) rhs) loc) none)
      loc).Runs st (putTemp st σ t ctx prev) σ' ↔ σ' = σ₂ := by
    intro σ'
    rw [Stmt.Runs, StmtBody.Runs]
    simp only [hcond, Option.some.injEq, exists_eq_left', h.runs_update hbytes hrhs]
    by_cases heq : prev = expected
    · simp [heq, hσ₂, AtomicKind.update]
    · have hself : σ₂ = putTemp st σ t ctx prev := by
        rw [hσ₂, AtomicKind.update, if_neg heq]
        exact h.putValue_self hbytes prev
      simp [heq, hself]
  have hassign : ∀ σ', (Stmt.mk (.assign place (.mk (.struct values) resType loc)) .none).Runs st σ₂
      σ' ↔ ∃ parts, List.Forall₂ (Expr.Part st σ₂) values parts ∧
        σ' = σ₂.put st d size (concat st.machineModel.isBigEndian parts).2 := by
    intro σ'
    rw [Stmt.Runs, StmtBody.Runs,
      State.assigns_iff (hstable _ _) (by rw [hplace]; exact hlayout.bytes)]
    simp only [Expr.yields_struct_iff]
    constructor
    · rintro ⟨_, ⟨parts, hparts, rfl⟩, rfl⟩
      exact ⟨parts, hparts, rfl⟩
    · rintro ⟨parts, hparts, rfl⟩
      exact ⟨_, ⟨parts, hparts, rfl⟩, rfl⟩
  have hruns : ∀ σ', (Stmt.atomicBlock
      [.mk (.decl (ctx.temp t) (some (pointee ptr t loc))) loc,
        .mk (.ifthenelse cond (.mk (.assign (pointee ptr t loc) rhs) loc) none) loc,
        .mk (.assign place (.mk (.struct values) resType loc)) .none] loc).Runs st σ σ' ↔
      ∃ parts, List.Forall₂ (Expr.Part st σ₂) values parts ∧
        σ' = σ₂.put st d size (concat st.machineModel.isBigEndian parts).2 := by
    intro σ'
    rw [runs_atomicBlock]
    simp only [h.runs_save hbytes, exists_eq_left, ← hprev, hupdate, hassign]
  have hreturns : ∀ {parts}, List.Forall₂ (Expr.Part st σ₂) values parts →
      (Returns st t resType d .cxchg prev (expected :: new :: ys') σ₂
        (σ₂.put st d size (concat st.machineModel.isBigEndian parts).2) ↔ expected = prev) := by
    intro parts hparts
    rw [h.returns_pair_iff hbytes hpair hlayout hvalues _ _ hparts]
    simp
  -- the padding of a run can be chosen
  obtain ⟨parts, hparts⟩ : ∃ parts, List.Forall₂ (Expr.Part st σ₂) values parts := by
    refine exists_parts (haveTypes_padValues hvalues ?_) ?_ hlayout.sum
    · rw [hpair.nonPadding]
      exact .cons rfl (.cons rfl .nil)
    · intro v hv
      refine (mem_padValues hvalues hv).imp_right fun hmem => ?_
      simp only [List.mem_cons, List.not_mem_nil, or_false] at hmem
      rcases hmem with rfl | rfl
      · exact ⟨_, h.eval_temp hbytes _ _⟩
      · exact ⟨1, by simp [Expr.cTrue, Expr.cBoolConstant, ExprValue.eval]⟩
  constructor
  · rintro ⟨-, hall⟩
    exact (hreturns hparts).mp (hall _ ((hruns _).mpr ⟨parts, hparts, rfl⟩))
  · intro heq
    refine ⟨⟨_, (hruns _).mpr ⟨parts, hparts, rfl⟩⟩, fun σ' hσ' => ?_⟩
    obtain ⟨parts', hparts', rfl⟩ := (hruns σ').mp hσ'
    exact (hreturns hparts').mpr heq

/-! ### The translation of each operation -/

/-- The destination has the type that the operation returns. -/
def ReturnsTo (st : SymbolTable) (t : IntegerTy) (kind : AtomicKind) (place : Expr)
    (resType : Typ) (fields : List DatatypeComponent) : Prop :=
  match kind with
  | .store => True
  | .binop _ | .xchg => place.typ = t.codegenTy
  | .cxchg => place.typ = resType ∧ IsOverflowPair st t resType fields

lemma decl_temp : Stmt.decl (ctx.temp t) (some (pointee ptr t loc)) loc' =
    some (.mk (.decl (ctx.temp t) (some (pointee ptr t loc))) loc') := by
  have hsymbol : (ctx.temp t).isSymbol = true := rfl
  have htyp : ((ctx.temp t).typ == (pointee ptr t loc).typ) = true := Typ.beq_self t.codegenTy
  simp [Stmt.decl, hsymbol, htyp]

omit [Ranked String] in
lemma assign_pointee [DebugTyp] (ptr : Expr) (loc loc' : Location) (hrhs : rhs.typ = t.codegenTy) :
    Stmt.assign (pointee ptr t loc) rhs loc' =
      some (.mk (.assign (pointee ptr t loc) rhs) loc') := by
  have htyp : ((pointee ptr t loc).typ == rhs.typ) = true := by
    rw [hrhs]
    exact Typ.beq_self t.codegenTy
  simp [Stmt.assign, htyp]

lemma le_of_le_withTemp (hfresh : ctx.symbolTable.lookup ctx.tempName = none)
    (hle : (ctx.withTemp t.codegenTy loc).symbolTable.Le st) : ctx.symbolTable.Le st :=
  (SymbolTable.le_insert (SymbolTable.insert_eq_some.mpr ⟨hfresh, rfl⟩)).trans hle

variable [DebugTyp] (hpw : 0 < ctx.symbolTable.machineModel.pointerWidth)
  (hfresh : ctx.symbolTable.lookup ctx.tempName = none) (hptr : ptr.typ = .pointer t.codegenTy)

include hpw hfresh hptr

variable {var2 : Expr} {rest : List Expr}

lemma exists_codegenAtomicBinop (op : AtomicOp) (hvar2 : var2.typ = t.codegenTy)
    (hreturns : ReturnsValue t kind place) :
    ∃ rhs, codegenAtomicBinop kind.isUnit place loc op.operand (ptr :: var2 :: rest) ctx =
        some (Stmt.atomicBlock
          [.mk (.decl (ctx.temp t) (some (pointee ptr t .none))) loc,
            .mk (.assign (pointee ptr t .none) rhs) loc, returnStmt kind place (ctx.temp t)] loc,
          ctx.withTemp t.codegenTy loc) ∧
      ∀ (st : SymbolTable) σ (x y : BitVec (t.bitWidth st.machineModel)),
        0 < st.machineModel.pointerWidth → (pointee ptr t .none).eval st σ = some x.toNat →
          var2.eval st σ = some y.toNat → rhs.eval st σ = some (op.apply x y).toNat := by
  have hvar1 : (pointee ptr t .none).typ = t.codegenTy := rfl
  obtain ⟨r, hr, hrtyp, -⟩ := op.exists_binop hpw hvar1 hvar2
  obtain ⟨tmp, htmp, htmpExpr⟩ := exists_genTempVariable hfresh t loc
  have hassign := assign_pointee ptr .none loc
    (show (r.withLocation loc).typ = t.codegenTy by rw [Expr.typ_withLocation, hrtyp])
  refine ⟨r.withLocation loc, ?_, ?_⟩
  · simp only [codegenAtomicBinop, dereference_eq hptr, hvar1, htmp, htmpExpr, decl_temp, hr,
      hassign, codegenExprToPlace_temp hreturns, some_bind,
      Option.pure_def]
  · intro st σ x y hpw' hx hy
    obtain ⟨r', hr', -, heval⟩ := op.exists_binop hpw' hvar1 hvar2
    cases hr.symm.trans hr'
    rw [Expr.eval_withLocation, heval σ x y hx hy]

omit hpw in
lemma codegenAtomicStore_eq (hvar2 : var2.typ = t.codegenTy)
    (hreturns : ReturnsValue t kind place) :
    codegenAtomicStore kind.isUnit place loc (ptr :: var2 :: rest) ctx =
      some (Stmt.atomicBlock
        [.mk (.decl (ctx.temp t) (some (pointee ptr t loc))) loc,
          .mk (.assign (pointee ptr t loc) (var2.withLocation loc)) loc,
          returnStmt kind place (ctx.temp t)] loc,
        ctx.withTemp t.codegenTy loc) := by
  obtain ⟨tmp, htmp, htmpExpr⟩ := exists_genTempVariable hfresh t loc
  have hassign := assign_pointee ptr loc loc
    (show (var2.withLocation loc).typ = t.codegenTy by rw [Expr.typ_withLocation, hvar2])
  have hvar1 : (pointee ptr t .none).withLocation loc = pointee ptr t loc := rfl
  have htyp : (pointee ptr t loc).typ = t.codegenTy := rfl
  simp only [codegenAtomicStore, dereference_eq hptr, hvar1, htyp, htmp, htmpExpr, decl_temp,
    hassign, codegenExprToPlace_temp hreturns, some_bind,
    Option.pure_def]

lemma exists_codegenAtomicCxchg {var3 : Expr} (hvar2 : var2.typ = t.codegenTy)
    (hvar3 : var3.typ = t.codegenTy) (rest : List Expr)
    (hpair : IsOverflowPair ctx.symbolTable t resType fields) (hplace : place.typ = resType) :
    ∃ cond values, codegenAtomicCxchg false place loc resType (ptr :: var2 :: var3 :: rest) ctx =
        some (Stmt.atomicBlock
          [.mk (.decl (ctx.temp t) (some (pointee ptr t loc))) loc,
            .mk (.ifthenelse cond
              (.mk (.assign (pointee ptr t loc) (var3.withLocation loc)) loc) none) loc,
            .mk (.assign place (.mk (.struct values) resType loc)) .none] loc,
          ctx.withTemp t.codegenTy loc) ∧
      Expr.padValues fields [ctx.temp t, Expr.cTrue] = some values ∧
      ∀ (st : SymbolTable) σ (x y : BitVec (t.bitWidth st.machineModel)),
        0 < st.machineModel.pointerWidth → (pointee ptr t loc).eval st σ = some x.toNat →
          var2.eval st σ = some y.toNat → cond.eval st σ = some (decide (x = y)).toNat := by
  have htyp : (pointee ptr t loc).typ = t.codegenTy := rfl
  have htyp' : (var2.withLocation loc).typ = t.codegenTy := by rw [Expr.typ_withLocation, hvar2]
  obtain ⟨c, hc, hctyp, -⟩ := exists_eqExpr hpw htyp htyp'
  obtain ⟨tmp, htmp, htmpExpr⟩ := exists_genTempVariable hfresh t loc
  have hle : ctx.symbolTable.Le (ctx.withTemp t.codegenTy loc).symbolTable :=
    SymbolTable.le_insert (SymbolTable.insert_eq_some.mpr ⟨hfresh, rfl⟩)
  obtain ⟨values, hvalues, hstruct⟩ := (hpair.mono hle).exists_structExpr
    (show (ctx.temp t).typ = t.codegenTy from rfl) (show Expr.cTrue.typ = .cBool from rfl)
  have hassign := assign_pointee ptr loc loc
    (show (var3.withLocation loc).typ = t.codegenTy by rw [Expr.typ_withLocation, hvar3])
  refine ⟨c, values, ?_, hvalues, ?_⟩
  · have hvar1 : (pointee ptr t .none).withLocation loc = pointee ptr t loc := rfl
    have htuple : (Expr.new (.struct values) resType).withLocation loc =
        .mk (.struct values) resType loc := rfl
    have hbool : c.typ.isBool = true := by rw [hctyp]; rfl
    have hreturn : Stmt.assign place (.mk (.struct values) resType loc) .none =
        some (.mk (.assign place (.mk (.struct values) resType loc)) .none) := by
      simp [Stmt.assign, hplace]
    simp only [codegenAtomicCxchg, dereference_eq hptr, hvar1, htyp, htmp, htmpExpr, decl_temp, hc,
      hassign, Stmt.ifThenElse, hbool, guard_true, hstruct, htuple, codegenExprToPlace, hreturn,
      Bool.false_eq_true, if_false, some_bind, Option.pure_def]
  · intro st σ x y hpw' hx hy
    obtain ⟨c', hc', -, heval⟩ := exists_eqExpr hpw' htyp htyp'
    cases hc.symm.trans hc'
    exact heval σ x y hx (by rw [Expr.eval_withLocation, hy])

end

end

/-! ### The theorem -/

lemma eval_of_evalEach_cons {es : List Expr} {w : ℕ} {ys : List (BitVec w)}
    (h : evalEach st σ (e :: es) = ys.map fun y => some y.toNat) :
    ∃ y ys', ys = y :: ys' ∧ e.eval st σ = some y.toNat ∧
      evalEach st σ es = ys'.map fun y => some y.toNat := by
  cases ys with
  | nil => simp [evalEach] at h
  | cons y ys =>
    rw [evalEach, List.map_cons, List.cons.injEq] at h
    exact ⟨y, ys, rfl, h.1, h.2⟩

/-- An atomic operation does what it does in a sequential program, except for a compare-exchange,
which does so exactly when the previous value is the expected one. -/
theorem codegenAtomic_sequential_iff [DebugTyp] {intrinsic : String} {kind : AtomicKind}
    {args : List Expr} {place : Expr} {resType : Typ} {fields : List DatatypeComponent}
    (hkind : atomicKind intrinsic = some kind)
    (hpw : 0 < ctx.symbolTable.machineModel.pointerWidth)
    (hbytes : ctx.symbolTable.machineModel.pointerWidth % 8 = 0)
    (hfresh : ctx.symbolTable.lookup ctx.tempName = none) (hptr : ptr.typ = .pointer t.codegenTy)
    (hargs : ∀ e ∈ args, e.typ = t.codegenTy) (harity : args.length = kind.arity)
    (hreturns : ReturnsTo ctx.symbolTable t kind place resType fields) :
    ∃ stmt ctx', codegenAtomic kind.isUnit place loc intrinsic resType (ptr :: args) ctx =
        some (stmt, ctx') ∧
      ∀ st σ p d ys, ctx'.symbolTable.Le st → AtomicOperands st σ t ctx ptr args p ys →
        (kind.isUnit = false → StableAt st σ t ctx place p d) →
        (kind = .cxchg → ∃ size offset offset' flagSize,
          PairLayout st resType fields size offset offset' flagSize) →
        (Sequential st σ t ctx resType kind p d ys stmt ↔
          (kind = .cxchg → ys.head? = some (valueAt st σ t p))) := by
  have hmm : ∀ {st : SymbolTable}, (ctx.withTemp t.codegenTy loc).symbolTable.Le st →
      ctx.symbolTable.Le st ∧ 0 < st.machineModel.pointerWidth ∧
        st.machineModel.pointerWidth % 8 = 0 := by
    intro st hle
    have hle' := le_of_le_withTemp hfresh hle
    refine ⟨hle', ?_⟩
    rw [hle'.machineModel]
    exact ⟨hpw, hbytes⟩
  simp only [codegenAtomic, hkind, some_bind]
  cases kind with
  | binop op =>
    obtain ⟨var2, rfl⟩ := List.length_eq_one_iff.mp harity
    have hvar2 := hargs var2 List.mem_cons_self
    have hvalue : ReturnsValue t (.binop op) place := ⟨nofun, fun _ => hreturns⟩
    obtain ⟨rhs, hcodegen, hrhs⟩ := exists_codegenAtomicBinop hpw hfresh hptr op hvar2 hvalue
    refine ⟨_, _, hcodegen, fun st σ p d ys hle h hstable _ => iff_of_true ?_ nofun⟩
    obtain ⟨-, hpw', hbytes'⟩ := hmm hle
    obtain ⟨y, ys', rfl, hy, -⟩ := eval_of_evalEach_cons (h.args (valueAt st σ t p))
    exact h.sequential_of_update hbytes' hvalue hstable
      (hrhs st _ _ y hpw' (h.eval_pointee hbytes' _) hy)
  | store =>
    obtain ⟨var2, rfl⟩ := List.length_eq_one_iff.mp harity
    have hvalue : ReturnsValue t .store place := ⟨nofun, nofun⟩
    refine ⟨_, _, codegenAtomicStore_eq hfresh hptr (hargs var2 List.mem_cons_self) hvalue,
      fun st σ p d ys hle h hstable _ => iff_of_true ?_ nofun⟩
    obtain ⟨y, ys', rfl, hy, -⟩ := eval_of_evalEach_cons (h.args (valueAt st σ t p))
    exact h.sequential_of_update (hmm hle).2.2 hvalue hstable
      (by rw [Expr.eval_withLocation, hy, AtomicKind.update])
  | xchg =>
    obtain ⟨var2, rfl⟩ := List.length_eq_one_iff.mp harity
    have hvalue : ReturnsValue t .xchg place := ⟨nofun, fun _ => hreturns⟩
    refine ⟨_, _, codegenAtomicStore_eq hfresh hptr (hargs var2 List.mem_cons_self) hvalue,
      fun st σ p d ys hle h hstable _ => iff_of_true ?_ nofun⟩
    obtain ⟨y, ys', rfl, hy, -⟩ := eval_of_evalEach_cons (h.args (valueAt st σ t p))
    exact h.sequential_of_update (hmm hle).2.2 hvalue hstable
      (by rw [Expr.eval_withLocation, hy, AtomicKind.update])
  | cxchg =>
    obtain ⟨var2, var3, rfl⟩ := List.length_eq_two.mp harity
    have hvar2 := hargs var2 List.mem_cons_self
    have hvar3 := hargs var3 (List.mem_cons_of_mem _ List.mem_cons_self)
    obtain ⟨cond, values, hcodegen, hvalues, hcond⟩ :=
      exists_codegenAtomicCxchg hpw hfresh hptr hvar2 hvar3 [] hreturns.2 hreturns.1
    refine ⟨_, _, hcodegen, fun st σ p d ys hle h hstable hlayout => ?_⟩
    obtain ⟨hle', hpw', hbytes'⟩ := hmm hle
    obtain ⟨size, offset, offset', flagSize, hlayout⟩ := hlayout rfl
    obtain ⟨expected, _, rfl, hexpected, hargs'⟩ :=
      eval_of_evalEach_cons (h.args (valueAt st σ t p))
    obtain ⟨new, ys', rfl, hnew, -⟩ := eval_of_evalEach_cons hargs'
    rw [h.sequential_cxchg_iff hbytes' (hreturns.2.mono hle') hlayout hvalues hreturns.1
      (hstable rfl) (hcond st _ _ expected hpw' (h.eval_pointee hbytes' _) hexpected)
      (by rw [Expr.eval_withLocation, hnew])]
    simp

/-! ### Operations on a variable -/

/-- A pointer to a variable. -/
def variablePtr (t : IntegerTy) (x : String) : Expr :=
  .new (.addressOf (.new (.symbol x) t.codegenTy)) (.pointer t.codegenTy)

/-- A constant. -/
def constantArg {w : ℕ} (t : IntegerTy) (y : BitVec w) : Expr :=
  .new (.intConstant y.toNat) t.codegenTy

/-- A pointer to a variable and constants are operands, wherever the temporary variable is. -/
lemma atomicOperands_variable (hpw : 0 < st.machineModel.pointerWidth) {x : String}
    (hdisjoint : σ.address x + t.byteWidth st.machineModel ≤ σ.address ctx.tempName ∨
      σ.address ctx.tempName + t.byteWidth st.machineModel ≤ σ.address x)
    (ys : List (BitVec (t.bitWidth st.machineModel))) :
    AtomicOperands st σ t ctx (variablePtr t x) (ys.map (constantArg t)) (σ.address x) ys where
  target y := by
    simp [variablePtr, ExprValue.eval, ExprValue.addr, putTemp, putValue]
  args y := by
    have ht := (t.isWord_codegenTy hpw).isIntegral
    induction ys with
    | nil => rfl
    | cons z ys ih =>
      have hz : (constantArg t z).eval st (putTemp st σ t ctx y) = some z.toNat := by
        simp [constantArg, ExprValue.eval, ht.patternOf, pattern_natCast_of_lt z.isLt]
      rw [List.map_cons, List.map_cons, evalEach, hz, ih]
  disjoint := hdisjoint

/-- The context of a function that compares and exchanges a byte. -/
def byteCtx : FnCtx :=
  ⟨withOverflowPair (.empty (machineModelFromSession none "x86_64" false 64)) (.uint .u8) "p",
    "f", 0⟩

/-- The variable `x` at `0`, the destination at `32`, and the temporary variable at `16`. -/
def byteState : State :=
  ⟨fun _ => 0, fun x => if x = "x" then 0 else if x = "result" then 32 else 16⟩

/-- The destination of the function. -/
def byteResult : Expr := .new (.symbol "result") (.structTag "p")

end

lemma pairLayout_byteCtx :
    let _ : Ranked String := rankedString
    PairLayout (byteCtx.withTemp (.unsignedbv 8) .none).symbolTable (.structTag "p")
      [.field "0" (.unsignedbv 8), .field "1" .cBool] 2 0 1 1 := by
  intro _
  exact ⟨by decide +kernel, by decide +kernel, by decide +kernel, by decide +kernel,
    by decide +kernel, by decide⟩

lemma lookup_tempName_byteCtx :
    let _ : Ranked String := rankedString
    byteCtx.symbolTable.lookup byteCtx.tempName = none := by
  intro _
  have hne : byteCtx.tempName ≠ "p" := by decide
  simp only [byteCtx, withOverflowPair, SymbolTable.lookup_set] at hne ⊢
  rw [if_neg hne]
  rfl

lemma atomicOperands_byteState (ys : List (BitVec 8)) :
    let _ : Ranked String := rankedString
    AtomicOperands (byteCtx.withTemp (.unsignedbv 8) .none).symbolTable byteState (.uint .u8)
      byteCtx (variablePtr (.uint .u8) "x") (ys.map (constantArg (.uint .u8))) 0 ys := by
  intro _
  exact @atomicOperands_variable _ (byteCtx.withTemp (.unsignedbv 8) .none).symbolTable byteCtx
    (.uint .u8) byteState (by decide) "x" (.inl (by decide)) ys

lemma stableAt_byteResult :
    let _ : Ranked String := rankedString
    StableAt (byteCtx.withTemp (.unsignedbv 8) .none).symbolTable byteState (.uint .u8) byteCtx
      byteResult 0 32 := by
  intro _ x y
  simp only [byteResult, Expr.addr_new, ExprValue.addr]
  rfl

theorem codegenAtomic_sequential_cxchg_zero :
    let _ : Ranked String := rankedString
    let _ : DebugTyp := ⟨fun _ => "type"⟩
    let ctx' := byteCtx.withTemp (.unsignedbv 8) .none
    ∃ stmt, codegenAtomic false byteResult .none "atomic_cxchg" (.structTag "p")
        [variablePtr (.uint .u8) "x", constantArg (.uint .u8) 0#8, constantArg (.uint .u8) 2#8]
        byteCtx = some (stmt, ctx') ∧
      Sequential ctx'.symbolTable byteState (.uint .u8) byteCtx (.structTag "p") .cxchg 0 32
        [0#8, 2#8] stmt := by
  intro _ _ ctx'
  have hkind : atomicKind "atomic_cxchg" = some .cxchg := rfl
  have hpw : 0 < byteCtx.symbolTable.machineModel.pointerWidth := by decide
  have hptr : (variablePtr (.uint .u8) "x").typ = .pointer (IntegerTy.uint .u8).codegenTy := rfl
  have hargs : ∀ e ∈ [constantArg (.uint .u8) 0#8, constantArg (.uint .u8) 2#8],
      e.typ = (IntegerTy.uint .u8).codegenTy := by
    simp [constantArg]
  have hpair := isOverflowPair_withOverflowPair
    (.empty (machineModelFromSession none "x86_64" false 64)) (.uint .u8) "p"
  have hreturns : ReturnsTo byteCtx.symbolTable (.uint .u8) .cxchg byteResult (.structTag "p")
      [.field "0" (.unsignedbv 8), .field "1" .cBool] := ⟨rfl, hpair⟩
  obtain ⟨stmt, ctx'', hcodegen, hall⟩ := codegenAtomic_sequential_iff hkind hpw (by decide)
    lookup_tempName_byteCtx hptr hargs rfl hreturns
  -- the context is the one with the temporary variable
  obtain ⟨cond, values, hblock, -, -⟩ := exists_codegenAtomicCxchg hpw lookup_tempName_byteCtx hptr
    (hargs _ (.head _)) (hargs _ (.tail _ (.head _))) [] hpair (show byteResult.typ = _ from rfl)
  cases hblock.symm.trans hcodegen
  refine ⟨_, hcodegen, (hall _ _ _ _ _ (SymbolTable.Le.refl _) (atomicOperands_byteState [0#8, 2#8])
    (fun _ => stableAt_byteResult) fun _ => ⟨_, _, _, _, pairLayout_byteCtx⟩).mpr fun _ => ?_⟩
  decide +kernel

/-- Exchanging 1 for 2 fails, as the variable is 0, but the flag of the pair is set. -/
theorem not_sequential_cxchg_one :
    let _ : Ranked String := rankedString
    let _ : DebugTyp := ⟨fun _ => "type"⟩
    let ctx' := byteCtx.withTemp (.unsignedbv 8) .none
    ∃ stmt, codegenAtomic false byteResult .none "atomic_cxchg" (.structTag "p")
        [variablePtr (.uint .u8) "x", constantArg (.uint .u8) 1#8, constantArg (.uint .u8) 2#8]
        byteCtx = some (stmt, ctx') ∧
      AtomicOperands ctx'.symbolTable byteState (.uint .u8) byteCtx (variablePtr (.uint .u8) "x")
        [constantArg (.uint .u8) 1#8, constantArg (.uint .u8) 2#8] 0 [1#8, 2#8] ∧
      StableAt ctx'.symbolTable byteState (.uint .u8) byteCtx byteResult 0 32 ∧
      ¬ Sequential ctx'.symbolTable byteState (.uint .u8) byteCtx (.structTag "p") .cxchg 0 32
        [1#8, 2#8] stmt := by
  intro _ _ ctx'
  have hpw : 0 < byteCtx.symbolTable.machineModel.pointerWidth := by decide
  have hptr : (variablePtr (.uint .u8) "x").typ = .pointer (IntegerTy.uint .u8).codegenTy := rfl
  have hargs : ∀ e ∈ [constantArg (.uint .u8) 1#8, constantArg (.uint .u8) 2#8],
      e.typ = (IntegerTy.uint .u8).codegenTy := by
    simp [constantArg]
  have hpair := isOverflowPair_withOverflowPair
    (.empty (machineModelFromSession none "x86_64" false 64)) (.uint .u8) "p"
  have hplace : byteResult.typ = .structTag "p" := rfl
  obtain ⟨cond, values, hblock, hvalues, hcond⟩ := exists_codegenAtomicCxchg hpw
    lookup_tempName_byteCtx hptr (hargs _ (.head _)) (hargs _ (.tail _ (.head _))) [] hpair hplace
  have hoperands := atomicOperands_byteState [1#8, 2#8]
  obtain ⟨expected, ys, hys, hexpected, hrest⟩ := eval_of_evalEach_cons (hoperands.args _)
  obtain ⟨new, ys', rfl, hnew, -⟩ := eval_of_evalEach_cons hrest
  cases hys
  have hbytes : ctx'.symbolTable.machineModel.pointerWidth % 8 = 0 := by decide
  have hle : byteCtx.symbolTable.Le ctx'.symbolTable :=
    le_of_le_withTemp (t := .uint .u8) lookup_tempName_byteCtx (SymbolTable.Le.refl _)
  refine ⟨_, hblock, hoperands, stableAt_byteResult, fun hsequential => ?_⟩
  have heq := (hoperands.sequential_cxchg_iff hbytes (hpair.mono hle) pairLayout_byteCtx hvalues
    hplace stableAt_byteResult
    (hcond _ _ _ _ (by decide) (hoperands.eval_pointee hbytes _) hexpected)
    (by rw [Expr.eval_withLocation, hnew])).mp hsequential
  exact absurd (congrArg BitVec.toNat heq) (by decide +kernel)

end Rmc.Codegen

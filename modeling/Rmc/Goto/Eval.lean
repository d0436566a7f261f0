import Rmc.Goto.Stmt
import Rmc.Lib.ByteMemory
import Rmc.Lib.TwosComplement

/-!
# Meaning of expressions and assignments

What the model checker computes for the expressions without side effects, over a flat byte memory.
The value of an expression is a bit pattern: integers are two's complement words of their native
width, pointers are addresses, a boolean is `0` or `1`, and a struct or array is the concatenation
of its parts in memory order. Arithmetic wraps, constants are reduced modulo `2 ^ w`, casts are
the integer conversions of C.

`none` stands for an expression whose value is not determined here: a nondeterministic one, one
with side effects, a division by zero, floating point arithmetic, bit counts, questions about
memory objects.
-/

namespace Rmc

open OrdMap TwosComplement ByteMemory

/-! ### Scalars -/

namespace Typ

/-- The number of bits of a scalar; a boolean has one. -/
def scalarWidth (mm : MachineModel) (t : Typ) : Option ℕ :=
  if t.isBool then some 1 else t.nativeWidth mm

/-- The integer that a bit pattern of a scalar type stands for. -/
def valueOf (mm : MachineModel) (t : Typ) (n : ℕ) : Option ℤ := do
  let w ← t.scalarWidth mm
  return value (t.isSigned mm) w n

/-- The bit pattern of an integer in a scalar type. -/
def patternOf (mm : MachineModel) (t : Typ) (i : ℤ) : Option ℕ := do
  let w ← t.scalarWidth mm
  return pattern w i

/-- The conversion of a bit pattern to another scalar type. -/
def convert (mm : MachineModel) (source target : Typ) (n : ℕ) : Option ℕ :=
  if target.isBool || target.isCBool then some (decide (n ≠ 0)).toNat
  else do
    guard (target.isInteger || target.isPointer)
    target.patternOf mm (← source.valueOf mm n)

end Typ

namespace BinaryOperand

/-- The exact result of an arithmetic operation. -/
def exact : BinaryOperand → ℤ → ℤ → Option ℤ
  | .plus, x, y | .overflowPlus, x, y => some (x + y)
  | .minus, x, y | .overflowMinus, x, y => some (x - y)
  | .mult, x, y | .overflowMult, x, y => some (x * y)
  | .div, x, y => if y = 0 then none else some (x.tdiv y)
  | .mod, x, y => if y = 0 then none else some (x.tmod y)
  | _, _, _ => none

/-- The outcome of a comparison. -/
def compare : BinaryOperand → ℤ → ℤ → Option Bool
  | .equal, x, y => some (x = y)
  | .notequal, x, y => some (x ≠ y)
  | .ge, x, y => some (x ≥ y)
  | .gt, x, y => some (x > y)
  | .le, x, y => some (x ≤ y)
  | .lt, x, y => some (x < y)
  | _, _, _ => none

/-- The outcome of a logical connective. -/
def connect : BinaryOperand → Bool → Bool → Option Bool
  | .and, x, y => some (x && y)
  | .or, x, y => some (x || y)
  | .xor, x, y => some (x ^^ y)
  | .implies, x, y => some (!x || y)
  | _, _, _ => none

/-- A shift or rotation of a pattern of `w` bits. The amount is taken as an unsigned number. -/
def shift (op : BinaryOperand) (w x amount : ℕ) : Option ℕ :=
  match op with
  | .shl => some (if amount < w then x * 2 ^ amount % 2 ^ w else 0)
  | .lshr => some (if amount < w then x / 2 ^ amount else 0)
  | .ashr => some (pattern w (value true w x / 2 ^ min amount w))
  | .rol => some ((BitVec.ofNat w x).rotateLeft amount).toNat
  | .ror => some ((BitVec.ofNat w x).rotateRight amount).toNat
  | _ => none

/-- A bitwise operation. -/
def bitwise : BinaryOperand → ℕ → ℕ → Option ℕ
  | .bitand, x, y => some (x &&& y)
  | .bitor, x, y => some (x ||| y)
  | .bitxor, x, y => some (x ^^^ y)
  | _, _, _ => none

end BinaryOperand

section

variable [Ranked String] (st : SymbolTable)

/-- How many whole bytes a type takes. -/
def Typ.bytes (t : Typ) : Option ℕ := do
  let bits ← t.sizeofInBits st
  guard (bits % 8 = 0)
  return bits / 8

/-- An operation on two integers, or two pointers that are compared. -/
def evalScalarBinop (op : BinaryOperand) (t : Typ) (x y : ℕ) : Option ℕ := do
  let mm := st.machineModel
  let i ← t.valueOf mm x
  let j ← t.valueOf mm y
  match op with
  | .plus | .minus | .mult | .div | .mod => t.patternOf mm (← op.exact i j)
  | .overflowPlus | .overflowMinus | .overflowMult =>
    let k ← op.exact i j
    return (decide (¬ InRange (t.isSigned mm) (← t.scalarWidth mm) k)).toNat
  | .bitand | .bitor | .bitxor => op.bitwise x y
  | _ => return (← op.compare i j).toNat

/-- Pointer arithmetic: integers count elements of the type that is pointed to. -/
def evalPointerBinop (op : BinaryOperand) (t t' : Typ) (x y : ℕ) : Option ℕ := do
  let mm := st.machineModel
  let size ← (← t.baseType).bytes st
  match op with
  | .plus => t.patternOf mm (x + (← t'.valueOf mm y) * size)
  | .minus =>
    if t'.isPointer then Typ.ssizeT.patternOf mm (((x : ℤ) - y).tdiv size)
    else t.patternOf mm (x - (← t'.valueOf mm y) * size)
  | _ => none

/-- The value of a binary operation on operands of types `t` and `t'`. -/
def evalBinop (op : BinaryOperand) (t t' : Typ) (x y : ℕ) : Option ℕ :=
  match op with
  | .and | .or | .xor | .implies => do return (← op.connect (x ≠ 0) (y ≠ 0)).toNat
  | .shl | .lshr | .ashr | .rol | .ror => do op.shift (← t.nativeWidth st.machineModel) x y
  | .plus | .minus =>
    if t.isPointer then evalPointerBinop st op t t' x y else evalScalarBinop st op t x y
  | _ => evalScalarBinop st op t x y

/-- The value of a unary operation on an operand of type `t`. -/
def evalUnop (op : UnaryOperand) (t : Typ) (x : ℕ) : Option ℕ := do
  let mm := st.machineModel
  let w ← t.scalarWidth mm
  match op with
  | .bitnot => return 2 ^ w - 1 - x
  | .not => return (decide (x = 0)).toNat
  | .unaryMinus => t.patternOf mm (-(← t.valueOf mm x))
  | _ => none

end

/-! ### Memory -/

/-- The bytes of the memory, and where the variables are. -/
structure State where
  memory : Memory
  address : String → ℕ

section

variable [Ranked String] (st : SymbolTable)

/-- The offset of a field from the start of a list of components, in bits. -/
def fieldOffsetInBits : List DatatypeComponent → String → Option ℕ
  | [], _ => none
  | c :: cs, field =>
    if c.name = field then some 0
    else do return (← c.sizeofWith st.machineModel st.sizeofTag) + (← fieldOffsetInBits cs field)

/-- The offset of a field from the start of a struct or union, in bytes. -/
def fieldOffset (t : Typ) (field : String) : Option ℕ := do
  let fields ← st.lookupFieldsInType t
  if t.isUnionTag then return 0
  else
    let bits ← fieldOffsetInBits st fields field
    guard (bits % 8 = 0)
    return bits / 8

namespace State

variable (σ : State)

/-- The value of type `t` at an address. -/
def loadTyp (t : Typ) (p : ℕ) : Option ℕ := do
  return load st.machineModel.isBigEndian σ.memory p (← t.bytes st)

/-- The state with a value of type `t` at an address. -/
def storeTyp (t : Typ) (p n : ℕ) : Option State := do
  return { σ with memory := store st.machineModel.isBigEndian σ.memory p (← t.bytes st) n }

end State

/-- The parts one after the other in memory: each with its number of bits. -/
def concat (bigEndian : Bool) : List (ℕ × ℕ) → ℕ × ℕ
  | [] => (0, 0)
  | (w, x) :: parts =>
    let (w', x') := concat bigEndian parts
    (w + w', if bigEndian then x * 2 ^ w' + x' else x + 2 ^ w * x')

end

/-! ### Expressions -/

section

variable [Ranked String] (st : SymbolTable) (σ : State)

/-- The position of the component with that name. -/
def SymbolTable.fieldIndex (t : Typ) (field : String) : Option ℕ := do
  let fields ← st.lookupFieldsInType t
  fields.findIdx? fun c => c.name == field

mutual

/-- The value of an expression. -/
def Expr.eval : Expr → Option ℕ
  | .mk value typ _ => value.eval typ

/-- The value of an expression of type `typ`. -/
def ExprValue.eval : ExprValue → Typ → Option ℕ
  | .addressOf e, _ => e.addr
  | .array elems, _ | .struct elems, _ | .vector elems, _ => do
    return (concat st.machineModel.isBigEndian (← evalParts elems)).2
  | .binOp op lhs rhs, _ => do evalBinop st op lhs.typ rhs.typ (← lhs.eval) (← rhs.eval)
  | .boolConstant c, _ | .cBoolConstant c, _ => some c.toNat
  | .dereference e, typ => do σ.loadTyp st typ (← e.eval)
  | .doubleConstant bits, _ => some bits.toNat
  | .floatConstant bits, _ => some bits.toNat
  | .ite c t e, _ => do if (← c.eval) ≠ 0 then t.eval else e.eval
  | .index array index, typ => do
    let p ← array.addr
    let i ← index.eval
    let j ← index.typ.valueOf st.machineModel i
    σ.loadTyp st typ (pattern st.machineModel.pointerWidth (p + j * (← typ.bytes st)))
  | .intConstant i, typ => typ.patternOf st.machineModel i
  | .member (.mk (.struct values) t _) field, _ => do
    -- a component of a struct that is not in memory
    let i ← st.fieldIndex t field
    let vs := evalEach values
    (← vs[i]?)
  | .member lhs field, typ => do
    let p ← lhs.addr
    σ.loadTyp st typ ((p + (← fieldOffset st lhs.typ field)) % 2 ^ st.machineModel.pointerWidth)
  | .pointerConstant c, typ => typ.patternOf st.machineModel c
  | .symbol x, typ => σ.loadTyp st typ (σ.address x)
  | .typecast e, typ => do e.typ.convert st.machineModel typ (← e.eval)
  | .unOp op e, _ => do evalUnop st op e.typ (← e.eval)
  | _, _ => none

/-- The address of an expression that is in memory. -/
def Expr.addr : Expr → Option ℕ
  | .mk value typ _ => value.addr typ

def ExprValue.addr : ExprValue → Typ → Option ℕ
  | .dereference e, _ => e.eval
  | .index array index, typ => do
    let p ← array.addr
    let i ← index.eval
    let j ← index.typ.valueOf st.machineModel i
    return pattern st.machineModel.pointerWidth (p + j * (← typ.bytes st))
  | .member lhs field, _ => do
    let p ← lhs.addr
    return (p + (← fieldOffset st lhs.typ field)) % 2 ^ st.machineModel.pointerWidth
  | .symbol x, _ => some (σ.address x)
  | _, _ => none

/-- The values of expressions, each on its own. -/
def evalEach : List Expr → List (Option ℕ)
  | [] => []
  | e :: es => e.eval :: evalEach es

/-- The values of expressions with their numbers of bits. -/
def evalParts : List Expr → Option (List (ℕ × ℕ))
  | [] => some []
  | e :: es => do
    let x ← e.eval
    let w ← e.typ.sizeofInBits st
    return (w, x) :: (← evalParts es)

end

section

-- the equations of the evaluator are generated here, once for all the lemmas below
attribute [local simp] Expr.eval ExprValue.eval Expr.addr ExprValue.addr evalEach evalParts

end

/-! ### Assignments -/

mutual

/-- The state after a statement that only assigns. -/
def Stmt.exec (σ : State) : Stmt → Option State
  | .mk body _ => body.exec σ

def StmtBody.exec (σ : State) : StmtBody → Option State
  | .assign lhs rhs => do
    let p ← lhs.addr st σ
    let n ← rhs.eval st σ
    σ.storeTyp st lhs.typ p n
  | .block stmts => execs σ stmts
  | .skip => some σ
  | _ => none

def execs (σ : State) : List Stmt → Option State
  | [] => some σ
  | s :: ss => do execs (← s.exec σ) ss

end

end

/-! ### Words -/

/-- An integer type whose patterns have `w` bits. -/
structure Typ.IsIntegral (mm : MachineModel) (t : Typ) (signed : Bool) (w : ℕ) : Prop where
  isInteger : t.isInteger = true
  nativeWidth : t.nativeWidth mm = some w
  isSigned : t.isSigned mm = signed

namespace Typ.IsIntegral

variable {mm : MachineModel} {t t' : Typ} {signed signed' : Bool} {w w' : ℕ}

section

variable (h : t.IsIntegral mm signed w)

include h

lemma isBool : t.isBool = false := by
  have := h.isInteger
  cases t <;> simp_all [Typ.isInteger, Typ.isBool]

lemma isPointer : t.isPointer = false := by
  have := h.isInteger
  cases t <;> simp_all [Typ.isInteger, Typ.isPointer]

lemma isVector : t.isVector = false := by
  have := h.isInteger
  cases t <;> simp_all [Typ.isInteger, Typ.isVector]

lemma scalarWidth : t.scalarWidth mm = some w := by
  simp [Typ.scalarWidth, h.isBool, h.nativeWidth]

lemma valueOf (n : ℕ) : t.valueOf mm n = some (value signed w n) := by
  simp [Typ.valueOf, h.scalarWidth, h.isSigned]

lemma patternOf (i : ℤ) : t.patternOf mm i = some (pattern w i) := by
  simp [Typ.patternOf, h.scalarWidth]

/-- Patterns of one type have one width and sign. -/
lemma unique (h' : t.IsIntegral mm signed' w') : signed = signed' ∧ w = w' := by
  refine ⟨h.isSigned.symm.trans h'.isSigned, ?_⟩
  have := h.nativeWidth.symm.trans h'.nativeWidth
  simpa using this

lemma eq_of_beq (hbeq : (t == t') = true) : t = t' := by
  rw [Typ.beq_iff_erase] at hbeq
  have := h.isInteger
  cases t <;> cases t' <;> simp_all [Typ.isInteger, Typ.erase]

end

end Typ.IsIntegral

/-- An integer type whose values are words of `w` bits. -/
structure Typ.IsWord (mm : MachineModel) (t : Typ) (signed : Bool) (w : ℕ) : Prop where
  isInteger : t.isInteger = true
  isCBool : t.isCBool = false
  nativeWidth : t.nativeWidth mm = some w
  isSigned : t.isSigned mm = signed
  pos : 0 < w

namespace Typ.IsWord

variable {mm : MachineModel} {t t' : Typ} {signed signed' : Bool} {w w' : ℕ}

section

variable (h : t.IsWord mm signed w)

include h

lemma isIntegral : t.IsIntegral mm signed w :=
  ⟨h.isInteger, h.nativeWidth, h.isSigned⟩

lemma isBool : t.isBool = false := h.isIntegral.isBool

lemma isVector : t.isVector = false := h.isIntegral.isVector

lemma valueOf (n : ℕ) : t.valueOf mm n = some (value signed w n) :=
  h.isIntegral.valueOf n

lemma patternOf (i : ℤ) : t.patternOf mm i = some (pattern w i) :=
  h.isIntegral.patternOf i

lemma convert (h' : t'.IsWord mm signed' w') (n : ℕ) :
    t.convert mm t' n = some (pattern w' (value signed w n)) := by
  simp [Typ.convert, h'.isBool, h'.isCBool, h'.isInteger, h.valueOf, h'.patternOf]

/-- Words of one type have one width and sign. -/
lemma unique (h' : t.IsWord mm signed' w') : signed = signed' ∧ w = w' :=
  h.isIntegral.unique h'.isIntegral

end

end Typ.IsWord

section

variable [Ranked String] {st : SymbolTable} {σ : State}

namespace Expr

variable {e e' r : Expr} {t t' : Typ} {signed signed' : Bool} {w w' n x y : ℕ} {op : BinaryOperand}

@[simp] lemma eval_new (v : ExprValue) (t : Typ) : (new v t).eval st σ = v.eval st σ t := by
  simp [new, eval]

@[simp] lemma addr_new (v : ExprValue) (t : Typ) : (new v t).addr st σ = v.addr st σ t := by
  simp [new, addr]

lemma exists_intConstant (ht : t.IsIntegral st.machineModel signed w) (i : ℤ) :
    ∃ c, intConstant i t = some c ∧ c.typ = t ∧ ∀ σ, c.eval st σ = some (pattern w i) :=
  ⟨new (.intConstant i) t, by simp [intConstant, ht.isInteger], rfl, fun σ => by
    simp [ExprValue.eval, ht.patternOf]⟩

lemma exists_castTo (he : e.typ.IsWord st.machineModel signed w)
    (ht : t.IsWord st.machineModel signed' w') :
    ∃ c, e.castTo t = some c ∧ c.typ = t ∧ ∀ σ n, n < 2 ^ w → e.eval st σ = some n →
      c.eval st σ = some (pattern w' (TwosComplement.value signed w n)) := by
  by_cases hbeq : (e.typ == t) = true
  · -- a cast to the type it has already leaves the expression
    have heq := he.isIntegral.eq_of_beq hbeq
    obtain ⟨rfl, rfl⟩ := he.unique (heq ▸ ht)
    refine ⟨e, by simp [castTo, canCastTo, canCastFrom, hbeq], heq, ?_⟩
    intro σ n hn heval
    rw [heval, pattern_value hn]
  · refine ⟨new (.typecast e) t, ?_, rfl, ?_⟩
    · simp [castTo, canCastTo, canCastFrom, hbeq, ht.isBool, ht.isCBool, ht.isInteger, he.isInteger]
    · intro σ n _ heval
      simp [ExprValue.eval, heval, he.convert ht]

lemma eval_binop (h : e.binop op e' = some r) (hx : e.eval st σ = some x)
    (hy : e'.eval st σ = some y) :
    r.eval st σ = evalBinop st op e.typ e'.typ x y := by
  obtain ⟨-, rfl⟩ := binop_eq_some.mp h
  simp [ExprValue.eval, hx, hy]

section

variable (ht : t.IsIntegral st.machineModel signed w)

include ht

section

variable (he : e.typ = t)

include he

/-- Sums, differences and products wrap. -/
lemma exists_arithmetic (he' : e'.typ = t) (hop : op = .plus ∨ op = .minus ∨ op = .mult) :
    ∃ r, e.binop op e' = some r ∧ r.typ = t ∧ ∀ σ x y, e.eval st σ = some x →
      e'.eval st σ = some y → r.eval st σ = (op.exact (TwosComplement.value signed w x)
        (TwosComplement.value signed w y)).map (pattern w) := by
  have hbinop : e.binop op e' = some (new (.binOp op e e') t) := by
    rcases hop with rfl | rfl | rfl <;>
      simp [binop, typecheckBinopArgs, binopReturnType, he, he', Typ.isNumeric, ht.isInteger,
        ht.isPointer]
  refine ⟨_, hbinop, rfl, ?_⟩
  intro σ x y hx hy
  rw [eval_binop hbinop hx hy, he, he']
  rcases hop with rfl | rfl | rfl <;>
    simp [evalBinop, evalScalarBinop, ht.isPointer, ht.valueOf, ht.patternOf, BinaryOperand.exact]

/-- Whether the exact sum or difference is out of range. -/
lemma exists_overflow (he' : e'.typ = t) (hop : op = .overflowPlus ∨ op = .overflowMinus) :
    ∃ r, e.binop op e' = some r ∧ r.typ = .bool ∧ ∀ σ x y, e.eval st σ = some x →
      e'.eval st σ = some y → r.eval st σ = (op.exact (TwosComplement.value signed w x)
        (TwosComplement.value signed w y)).map fun k => (decide (¬ InRange signed w k)).toNat := by
  have hbinop : e.binop op e' = some (new (.binOp op e e') .bool) := by
    rcases hop with rfl | rfl <;>
      simp [binop, typecheckBinopArgs, binopReturnType, he, he', Typ.isNumeric, ht.isInteger]
  refine ⟨_, hbinop, rfl, ?_⟩
  intro σ x y hx hy
  rw [eval_binop hbinop hx hy, he, he']
  rcases hop with rfl | rfl <;>
    simp [evalBinop, evalScalarBinop, ht.valueOf, ht.scalarWidth, ht.isSigned, BinaryOperand.exact]

/-- The comparison of integers is that of their values. -/
lemma exists_compare (he' : e'.typ = t)
    (hop : op = .le ∨ op = .lt ∨ op = .ge ∨ op = .gt ∨ op = .equal) :
    ∃ r, e.binop op e' = some r ∧ r.typ = .bool ∧ ∀ σ x y, e.eval st σ = some x →
      e'.eval st σ = some y → r.eval st σ = (op.compare (TwosComplement.value signed w x)
        (TwosComplement.value signed w y)).map Bool.toNat := by
  have hbinop : e.binop op e' = some (new (.binOp op e e') .bool) := by
    rcases hop with rfl | rfl | rfl | rfl | rfl <;>
      simp [binop, typecheckBinopArgs, binopReturnType, he, he', Typ.isNumeric, ht.isInteger,
        ht.isVector]
  refine ⟨_, hbinop, rfl, ?_⟩
  intro σ x y hx hy
  rw [eval_binop hbinop hx hy, he, he']
  rcases hop with rfl | rfl | rfl | rfl | rfl <;>
    simp [evalBinop, evalScalarBinop, ht.valueOf, BinaryOperand.compare]

lemma exists_bitwise (he' : e'.typ = t) (hop : op = .bitand ∨ op = .bitor ∨ op = .bitxor) :
    ∃ r, e.binop op e' = some r ∧ r.typ = t ∧ ∀ σ x y, e.eval st σ = some x →
      e'.eval st σ = some y → r.eval st σ = op.bitwise x y := by
  have hbinop : e.binop op e' = some (new (.binOp op e e') t) := by
    rcases hop with rfl | rfl | rfl <;>
      simp [binop, typecheckBinopArgs, binopReturnType, he, he', ht.isInteger]
  refine ⟨_, hbinop, rfl, ?_⟩
  intro σ x y hx hy
  rw [eval_binop hbinop hx hy, he, he']
  rcases hop with rfl | rfl | rfl <;>
    simp [evalBinop, evalScalarBinop, ht.valueOf, BinaryOperand.bitwise]

lemma exists_neg :
    ∃ r, e.neg = some r ∧ r.typ = t ∧ ∀ σ x, e.eval st σ = some x →
      r.eval st σ = some (pattern w (-TwosComplement.value signed w x)) := by
  refine ⟨new (.unOp .unaryMinus e) t, ?_, rfl, ?_⟩
  · simp [neg, unop, typecheckUnopArg, unopReturnType, he, Typ.isNumeric, ht.isInteger]
  · intro σ x hx
    simp [ExprValue.eval, hx, evalUnop, he, ht.scalarWidth, ht.valueOf, ht.patternOf]

end

end

variable (st) in
lemma exists_ternary {c : Expr} (hc : c.typ = .bool) (he : e.typ = t) (he' : e'.typ = t) :
    ∃ r, c.ternary e e' = some r ∧ r.typ = t ∧ ∀ σ (b : Bool), c.eval st σ = some b.toNat →
      r.eval st σ = if b then e.eval st σ else e'.eval st σ := by
  refine ⟨new (.ite c e e') t, ?_, rfl, ?_⟩
  · simp [ternary, castTo, canCastTo, canCastFrom, hc, he, he']
  · intro σ b hb
    cases b <;> simp [ExprValue.eval, hb]

lemma getElem?_evalEach (es : List Expr) (i : ℕ) :
    (evalEach st σ es)[i]? = es[i]?.map (eval st σ) := by
  induction es generalizing i with
  | nil => simp [evalEach]
  | cons e es ih =>
    cases i with
    | zero => simp [evalEach]
    | succ i => simp [evalEach, ih]

/-- A field of a struct initializer has the value of the component that is given for it. -/
lemma eval_member_struct {values : List Expr} {field : String} {i : ℕ}
    (hi : st.fieldIndex t field = some i) :
    (new (.member (new (.struct values) t) field) t').eval st σ = values[i]?.bind (eval st σ) := by
  rw [eval_new]
  simp only [new, ExprValue.eval, hi, some_bind, getElem?_evalEach]
  cases values[i]? <;> simp

end Expr

end

end Rmc

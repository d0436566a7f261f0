import Rmc.Goto.Sizeof

/-!
# Constructors of expressions

The constructors of `expr.rs` and the constants of `typ.rs`. Every constructor checks the types of
its arguments; `none` is a failed check.
-/

namespace Rmc

variable {p : Prop} {α : Type}

@[simp] lemma guard_eq_some [Decidable p] {u : Unit} : (guard p : Option Unit) = some u ↔ p := by
  by_cases h : p <;> simp [h]

/-- A checked computation succeeds when its check does and its continuation does. -/
@[simp] lemma guard_bind_eq_some [Decidable p] {f : Unit → Option α} {a : α} :
    (guard p : Option Unit).bind f = some a ↔ p ∧ f () = some a := by
  by_cases h : p <;> simp [h]

namespace Expr

/-! ### Predicates -/

def isIntConstant (e : Expr) : Bool :=
  match e.value with
  | .intConstant _ => true
  | _ => false

def isSymbol (e : Expr) : Bool :=
  match e.value with
  | .symbol _ => true
  | _ => false

/-- Which casts are legal. -/
def canCastFrom (source target : Typ) : Bool :=
  if source == target then true
  else if target.isBool then source.isCBool || source.isInteger || source.isPointer
  else if target.isCBool then source.isInteger || source.isPointer || source.isBool
  else if target.isInteger then
    source.isCBool || source.isInteger || source.isFloatingPoint || source.isPointer
  else if target.isFloatingPoint then source.isNumeric
  else if target.isPointer then source.isInteger || source.isPointer
  else target.isEmpty

def canCastTo (e : Expr) (target : Typ) : Bool := canCastFrom e.typ target

def canTakeAddressOf (e : Expr) : Bool :=
  match e.value with
  | .dereference _ => true
  | .index _ _ => true
  | .member _ _ => true
  | .symbol _ => true
  | _ => false

/-! ### Binary operations -/

/-- Which operand types an operator takes. -/
def typecheckBinopArgs (op : BinaryOperand) (lhs rhs : Typ) : Bool :=
  match op with
  | .minus =>
    (lhs == rhs && (lhs.isPointer || lhs.isNumeric || lhs.isVector)) ||
      (lhs.isPointer && rhs.isInteger)
  | .plus =>
    (lhs == rhs && (lhs.isNumeric || lhs.isVector)) || (lhs.isPointer && rhs.isInteger)
  | .div | .mod | .mult => lhs == rhs && (lhs.isNumeric || lhs.isVector)
  | .ashr | .lshr | .shl => (lhs.isInteger && rhs.isInteger) || (lhs == rhs && lhs.isVector)
  | .rol | .ror => lhs.isInteger && rhs.isInteger
  | .and | .implies | .or | .xor => lhs.isBool && rhs.isBool
  | .bitand | .bitor | .bitxor => lhs == rhs && (lhs.isInteger || lhs.isVector)
  | .ge | .gt | .le | .lt => lhs == rhs && (lhs.isNumeric || lhs.isPointer || lhs.isVector)
  | .equal | .notequal =>
    lhs == rhs && (lhs.isCBool || lhs.isInteger || lhs.isPointer || lhs.isVector)
  | .ieeeFloatEqual | .ieeeFloatNotequal => lhs == rhs && lhs.isFloatingPoint
  | .overflowMinus =>
    (lhs == rhs && (lhs.isPointer || lhs.isNumeric)) || (lhs.isPointer && rhs.isInteger)
  | .overflowMult | .overflowPlus =>
    (lhs == rhs && lhs.isInteger) || (lhs.isPointer && rhs.isInteger)

/-- The type of the result of an operator. -/
def binopReturnType (op : BinaryOperand) (lhs rhs : Typ) : Typ :=
  match op with
  | .minus => if lhs.isPointer && rhs.isPointer then .ssizeT else lhs
  | .div | .mod | .mult | .plus => lhs
  | .ashr | .lshr | .rol | .ror | .shl => lhs
  | .and | .implies | .or | .xor => .bool
  | .bitand | .bitor | .bitxor => lhs
  | .ge | .gt | .le | .lt => if lhs.isVector then lhs else .bool
  | .equal | .notequal => if lhs.isVector then lhs else .bool
  | .ieeeFloatEqual | .ieeeFloatNotequal => .bool
  | .overflowMinus | .overflowMult | .overflowPlus => .bool

/-- An expression without a location. -/
def new (value : ExprValue) (typ : Typ) : Expr := .mk value typ .none

@[simp] lemma typ_new (v : ExprValue) (t : Typ) : (new v t).typ = t := rfl

@[simp] lemma value_new (v : ExprValue) (t : Typ) : (new v t).value = v := rfl

/-- The operation `self op rhs`. -/
def binop (self : Expr) (op : BinaryOperand) (rhs : Expr) : Option Expr := do
  guard (typecheckBinopArgs op self.typ rhs.typ)
  return new (.binOp op self rhs) (binopReturnType op self.typ rhs.typ)

def addOverflowP (self e : Expr) : Option Expr := self.binop .overflowPlus e

def subOverflowP (self e : Expr) : Option Expr := self.binop .overflowMinus e

def mulOverflowP (self e : Expr) : Option Expr := self.binop .overflowMult e

def bitand (self e : Expr) : Option Expr := self.binop .bitand e

def bitor (self e : Expr) : Option Expr := self.binop .bitor e

def shl (self e : Expr) : Option Expr := self.binop .shl e

def ashr (self e : Expr) : Option Expr := self.binop .ashr e

def lshr (self e : Expr) : Option Expr := self.binop .lshr e

def plus (self e : Expr) : Option Expr := self.binop .plus e

def sub (self e : Expr) : Option Expr := self.binop .minus e

def mul (self e : Expr) : Option Expr := self.binop .mult e

def le (self e : Expr) : Option Expr := self.binop .le e

def lt (self e : Expr) : Option Expr := self.binop .lt e

def ge (self e : Expr) : Option Expr := self.binop .ge e

def gt (self e : Expr) : Option Expr := self.binop .gt e

def eq (self e : Expr) : Option Expr := self.binop .equal e

def neq (self e : Expr) : Option Expr := self.binop .notequal e

/-! ### Constants -/

def boolConstant (c : Bool) : Expr := new (.boolConstant c) .bool

def boolFalse : Expr := boolConstant false

def boolTrue : Expr := boolConstant true

def cBoolConstant (c : Bool) : Expr := new (.cBoolConstant c) .cBool

def cTrue : Expr := cBoolConstant true

def cFalse : Expr := cBoolConstant false

def doubleConstant (c : BitVec 64) : Expr := new (.doubleConstant c) .double

def floatConstant (c : BitVec 32) : Expr := new (.floatConstant c) .float

/-- An integer constant. The value is not compared with the range of the type. -/
def intConstant (i : ℤ) (typ : Typ) : Option Expr := do
  guard typ.isInteger
  return new (.intConstant i) typ

def nondet (typ : Typ) : Expr := new .nondet typ

def pointerConstant (c : ℕ) (typ : Typ) : Option Expr := do
  guard typ.isPointer
  return new (.pointerConstant c) typ

/-- The name of a symbol as an expression. -/
def symbolExpression (identifier : String) (typ : Typ) : Expr := new (.symbol identifier) typ

end Expr

/-- The largest value of a `width`-bit integer. -/
def maxInt (width : ℕ) (signed : Bool) : Option ℤ :=
  if signed then do
    guard (0 < width)
    return 2 ^ (width - 1) - 1
  else some (2 ^ width - 1)

/-- The smallest value of a `width`-bit integer. -/
def minInt (width : ℕ) (signed : Bool) : Option ℤ :=
  if signed then do return -(← maxInt width true) - 1 else some 0

namespace Typ

def maxIntExpr (t : Typ) (mm : MachineModel) : Option Expr := do
  guard t.isInteger
  let width ← t.nativeWidth mm
  Expr.intConstant (← maxInt width (t.isSigned mm)) t

def minIntExpr (t : Typ) (mm : MachineModel) : Option Expr := do
  guard t.isInteger
  let width ← t.nativeWidth mm
  Expr.intConstant (← minInt width (t.isSigned mm)) t

def nondet (t : Typ) : Expr := Expr.nondet t

def one (t : Typ) : Option Expr :=
  if t.isInteger then Expr.intConstant 1 t
  else if t.isCBool then some Expr.cTrue
  else if t.isFloat then some (Expr.floatConstant 0x3f800000#32)
  else if t.isDouble then some (Expr.doubleConstant 0x3ff0000000000000#64)
  else none

def zero (t : Typ) : Option Expr :=
  if t.isInteger then Expr.intConstant 0 t
  else if t.isCBool then some Expr.cFalse
  else if t.isFloat then some (Expr.floatConstant 0#32)
  else if t.isDouble then some (Expr.doubleConstant 0#64)
  else if t.isPointer then Expr.pointerConstant 0 t
  else none

def null (t : Typ) : Option Expr := do
  guard t.isPointer
  t.zero

end Typ

namespace Expr

/-! ### The main forms -/

def addressOf (self : Expr) : Option Expr := do
  guard self.canTakeAddressOf
  return new (.addressOf self) self.typ.toPointer

def arrayConstant (self : Expr) (width : ℕ) : Option Expr := do
  guard self.isIntConstant
  return new (.arrayOf self) (self.typ.arrayOf width)

def arrayExpr (typ : Typ) (elems : List Expr) : Option Expr :=
  match typ with
  | .array valueTyp size => do
    guard (size = elems.length)
    guard (elems.all fun x => x.typ == valueTyp)
    return new (.array elems) typ
  | _ => none

def vectorExpr (typ : Typ) (elems : List Expr) : Option Expr :=
  match typ with
  | .vector valueTyp size => do
    guard (size = elems.length)
    guard (elems.all fun x => x.typ == valueTyp)
    return new (.vector elems) typ
  | _ => none

/-- A cast. A cast to the type an expression has is the expression, and a cast to the single bit
boolean is a comparison with zero. -/
def castTo (self : Expr) (typ : Typ) : Option Expr := do
  guard (self.canCastTo typ)
  if self.typ == typ then return self
  else if typ.isBool then self.neq (← self.typ.zero)
  else return new (.typecast self) typ

/-- A cast between types that are the same on the machine. -/
def castToMachineEquivalentType (self : Expr) (newTyp : Typ) (mm : MachineModel) :
    Option Expr :=
  if self.typ == newTyp then some self
  else do
    guard (self.typ.isEqualOnMachine mm newTyp)
    self.castTo newTyp

/-- Casts of the leading arguments to the types of the parameters. -/
def castArguments (mm : MachineModel) : List Parameter → List Expr → Option (List Expr)
  | [], arguments => some arguments
  | _ :: _, [] => none
  | p :: ps, a :: arguments => do
    return (← a.castToMachineEquivalentType p.typ mm) :: (← castArguments mm ps arguments)

def castArgumentsToMachineEquivalentFunctionParameterTypes (function : Expr)
    (arguments : List Expr) (mm : MachineModel) : Option (List Expr) := do
  let parameters ← function.typ.parameters
  guard (parameters.length ≤ arguments.length)
  castArguments mm parameters arguments

def dereference (self : Expr) : Option Expr := do
  guard self.typ.isPointer
  return new (.dereference self) (← self.typ.baseType)

def indexArray (self index : Expr) : Option Expr := do
  guard index.typ.isInteger
  guard self.typ.isArrayLike
  return new (.index self index) (← self.typ.baseType)

/-- The arguments that stand for named parameters have the types of those parameters. -/
def typecheckNamedArgs (parameters : List Parameter) (arguments : List Expr) : Bool :=
  (parameters.zip arguments).all fun (p, a) => a.typ == p.typ

/-- A call passes one argument for each parameter, or at least that many where the function is
variadic. -/
def typecheckCall (function : Expr) (arguments : List Expr) : Bool :=
  match function.typ with
  | .code parameters _ =>
    arguments.length == parameters.length && typecheckNamedArgs parameters arguments
  | .variadicCode parameters _ =>
    decide (parameters.length ≤ arguments.length) && typecheckNamedArgs parameters arguments
  | _ => false

/-- The call `self(arguments)`. -/
def call (self : Expr) (arguments : List Expr) : Option Expr := do
  guard (typecheckCall self arguments)
  return new (.functionCall self arguments) (← self.typ.returnType)

/-- The conditional `self ? t : e`. -/
def ternary (self t e : Expr) : Option Expr := do
  guard (t.typ == e.typ)
  return new (.ite (← self.castTo .bool) t e) t.typ

/-- A statement expression, which ends in an expression of its type. -/
def statementExpression (ops : List Stmt) (typ : Typ) : Option Expr := do
  let last ← ops.getLast?
  let e ← last.getExpression
  guard (e.typ == typ)
  return new (.statementExpression ops) typ

/-! ### Self operations -/

def selfOp (self : Expr) (op : SelfOperand) : Option Expr := do
  guard (self.typ.isInteger || self.typ.isPointer)
  return new (.selfOp op self) self.typ

def postincr (self : Expr) : Option Expr := self.selfOp .postincrement

def postdecr (self : Expr) : Option Expr := self.selfOp .postdecrement

/-- The source builds a post-increment here. -/
def preincr (self : Expr) : Option Expr := self.selfOp .postincrement

/-- The source builds a post-decrement here. -/
def predecr (self : Expr) : Option Expr := self.selfOp .postdecrement

/-! ### Unary operations -/

def typecheckUnopArg (op : UnaryOperand) (arg : Typ) : Bool :=
  match op with
  | .bitnot | .bswap | .popcount => arg.isInteger
  | .countLeadingZeros _ | .countTrailingZeros _ => arg.isInteger
  | .isDynamicObject | .objectSize | .pointerObject => arg.isPointer
  | .pointerOffset => arg == .voidPointer
  | .not => arg.isBool
  | .unaryMinus => arg.isNumeric

def unopReturnType (op : UnaryOperand) (arg : Typ) : Typ :=
  match op with
  | .bitnot | .bswap | .unaryMinus => arg
  | .countLeadingZeros _ | .countTrailingZeros _ => arg
  | .objectSize | .pointerObject => .sizeT
  | .pointerOffset => .ssizeT
  | .isDynamicObject | .not => .bool
  | .popcount => arg

def unop (self : Expr) (op : UnaryOperand) : Option Expr := do
  guard (typecheckUnopArg op self.typ)
  return new (.unOp op self) (unopReturnType op self.typ)

def bitnot (self : Expr) : Option Expr := self.unop .bitnot

def bswap (self : Expr) : Option Expr := self.unop .bswap

def dynamicObject (self : Expr) : Option Expr := self.unop .isDynamicObject

def neg (self : Expr) : Option Expr := self.unop .unaryMinus

def not (self : Expr) : Option Expr := do (← self.castTo .bool).unop .not

def objectSize (self : Expr) : Option Expr := self.unop .objectSize

def pointerObject (self : Expr) : Option Expr := self.unop .pointerObject

def pointerOffset (self : Expr) : Option Expr := do
  (← self.castTo .voidPointer).unop .pointerOffset

def popcount (self : Expr) : Option Expr := self.unop .popcount

def cttz (self : Expr) (allowZero : Bool) : Option Expr :=
  self.unop (.countTrailingZeros allowZero)

def ctlz (self : Expr) (allowZero : Bool) : Option Expr :=
  self.unop (.countLeadingZeros allowZero)

/-! ### Boolean operations, which cast their operands -/

def and (self e : Expr) : Option Expr := do
  (← self.castTo .bool).binop .and (← e.castTo .bool)

def implies (self e : Expr) : Option Expr := do
  (← self.castTo .bool).binop .implies (← e.castTo .bool)

def or (self e : Expr) : Option Expr := do
  (← self.castTo .bool).binop .or (← e.castTo .bool)

/-! ### Compound expressions -/

def isNegative (self : Expr) : Option Expr := do
  guard self.typ.isNumeric
  self.lt (← self.typ.zero)

def isZero (self : Expr) : Option Expr := do
  guard self.typ.isNumeric
  self.eq (← self.typ.zero)

def isNonnull (self : Expr) : Option Expr := do
  guard self.typ.isPointer
  self.neq (← self.typ.null)

/-- The result of an operation, and whether it overflowed. -/
structure ArithmeticOverflowResult where
  result : Expr
  overflowed : Expr

def addOverflow (self e : Expr) : Option ArithmeticOverflowResult := do
  return { result := ← self.plus e, overflowed := ← self.addOverflowP e }

def subOverflow (self e : Expr) : Option ArithmeticOverflowResult := do
  return { result := ← self.sub e, overflowed := ← self.subOverflowP e }

def mulOverflow (self e : Expr) : Option ArithmeticOverflowResult := do
  return { result := ← self.mul e, overflowed := ← self.mulOverflowP e }

/-- A pointer to the first element of an array. -/
def arrayToPtr (self : Expr) : Option Expr := do
  guard self.typ.isArrayLike
  (← self.indexArray (← Typ.ssizeT.zero)).addressOf

def indexPtr (self idx : Expr) : Option Expr := do
  guard idx.typ.isInteger
  guard self.typ.isPointer
  (← self.plus idx).dereference

def index (self idx : Expr) : Option Expr := do
  guard idx.typ.isInteger
  if self.typ.isPointer then self.indexPtr idx
  else if self.typ.isArrayLike then self.indexArray idx
  else none

/-- The memory of `self` read as a value of another type. -/
def reinterpretCast (self : Expr) (t : Typ) : Option Expr := do
  guard self.canTakeAddressOf
  (← (← self.addressOf).castTo t.toPointer).dereference

def sameObject (self e : Expr) : Option Expr := do
  (← self.pointerObject).eq (← e.pointerObject)

def saturatingAdd (self e : Expr) (mm : MachineModel) : Option Expr := do
  guard self.typ.isInteger
  guard (self.typ == e.typ)
  let typ := self.typ
  let res ← self.addOverflow e
  let saturatingVal ← (← self.isNegative).ternary (← typ.minIntExpr mm) (← typ.maxIntExpr mm)
  res.overflowed.ternary saturatingVal res.result

def saturatingSub (self e : Expr) (mm : MachineModel) : Option Expr := do
  guard self.typ.isInteger
  guard (self.typ == e.typ)
  let typ := self.typ
  let res ← self.subOverflow e
  let saturatingVal ← (← e.isNegative).ternary (← typ.maxIntExpr mm) (← typ.minIntExpr mm)
  res.overflowed.ternary saturatingVal res.result

def rawStringConstant (s : String) : Expr :=
  new (.stringConstant s) (Typ.cChar.arrayOf (s.utf8ByteSize + 1))

/-- A pointer to a string constant. -/
def stringConstant (s : String) : Option Expr := (rawStringConstant s).arrayToPtr

end Expr

/-! ### Expressions that are checked against the symbol table -/

open OrdMap

variable [Ranked String]

/-- The size of a type as an expression. -/
def Typ.sizeofExpr (t : Typ) (st : SymbolTable) : Option Expr := do
  Expr.intConstant (← t.sizeof st) .sizeT

namespace Expr

/-- The field access `self.field`. -/
def member (self : Expr) (field : String) (st : SymbolTable) : Option Expr := do
  guard (self.typ.isStructTag || self.typ.isUnionTag)
  let ty ← st.lookupFieldTypeInType self.typ field
  return new (.member self field) ty

/-- The bits of `self` read as a value of another type of the same size. -/
def transmuteTo (self : Expr) (t : Typ) (st : SymbolTable) : Option Expr := do
  guard ((← self.typ.sizeofInBits st) = (← t.sizeofInBits st))
  return new (.byteExtract self 0) t

/-- Each value has the type of its component. -/
def valuesMatchFields (fields : List DatatypeComponent) (values : List Expr) : Bool :=
  (fields.zip values).all fun (f, v) => f.typ.any (· == v.typ)

/-- A struct initializer with a value for every component, padding included. -/
def structExprWithExplicitPadding (typ : Typ) (fields : List DatatypeComponent)
    (values : List Expr) : Option Expr := do
  guard (fields.length = values.length)
  guard (valuesMatchFields fields values)
  return new (.struct values) typ

/-- The given values in the order of the fields, taken out of the map one by one, with
nondeterministic padding. -/
def takeComponents : List DatatypeComponent → OrdMap String Expr → Option (List Expr)
  | [], _ => some []
  | field :: fields, components =>
    if field.isPadding then do
      return (← field.typ).nondet :: (← takeComponents fields components)
    else do
      let value ← components.get? field.name
      return value :: (← takeComponents fields (components.erase field.name))

/-- A struct initializer with a value for every field that is not padding. -/
def structExpr (typ : Typ) (components : OrdMap String Expr) (st : SymbolTable) :
    Option Expr := do
  guard typ.isStructTag
  let fields ← st.lookupFieldsInType typ
  let nonPaddingFields := fields.filter fun x => !x.isPadding
  guard (nonPaddingFields.length = components.entries.length)
  nonPaddingFields.forM fun field => do
    let fieldTyp ← field.fieldTyp
    let value ← components.get? field.name
    guard (value.typ == fieldTyp)
  let values ← takeComponents fields components
  structExprWithExplicitPadding typ fields values

/-- The values in the order of the components, with nondeterministic padding. -/
def padValues : List DatatypeComponent → List Expr → Option (List Expr)
  | [], _ => some []
  | f :: fields, values =>
    if f.isPadding then do return (← f.typ).nondet :: (← padValues fields values)
    else match values with
      | [] => none
      | v :: values => do return v :: (← padValues fields values)

/-- A struct initializer from the values of its fields in order, without the padding. -/
def structExprFromValues (typ : Typ) (nonPaddingValues : List Expr) (st : SymbolTable) :
    Option Expr := do
  guard typ.isStructTag
  let fields ← st.lookupFieldsInType typ
  let nonPaddingFields := fields.filter fun x => !x.isPadding
  guard (nonPaddingFields.length = nonPaddingValues.length)
  guard (valuesMatchFields nonPaddingFields nonPaddingValues)
  let values ← padValues fields nonPaddingValues
  structExprWithExplicitPadding typ fields values

/-- The given values of the fields, and nondeterministic values for those that are not given. -/
def takeOrNondet : List DatatypeComponent → OrdMap String Expr → Option (List Expr)
  | [], _ => some []
  | field :: fields, components =>
    match components.get? field.name with
    | some value => do return value :: (← takeOrNondet fields (components.erase field.name))
    | none => do return (← field.typ).nondet :: (← takeOrNondet fields components)

def structExprWithNondetFields (typ : Typ) (components : OrdMap String Expr)
    (st : SymbolTable) : Option Expr := do
  guard typ.isStructTag
  let fields ← st.lookupFieldsInType typ
  let nonPaddingFields := fields.filter fun x => !x.isPadding
  let values ← takeOrNondet nonPaddingFields components
  structExprFromValues typ values st

/-- A struct initializer from values that include the padding. -/
def structExprFromPaddedValues (typ : Typ) (values : List Expr) (st : SymbolTable) :
    Option Expr := do
  guard typ.isStructTag
  let fields ← st.lookupFieldsInType typ
  guard (fields.length = values.length)
  guard (valuesMatchFields fields values)
  structExprWithExplicitPadding typ fields values

/-- A union initializer. -/
def unionExpr (typ : Typ) (field : String) (value : Expr) (st : SymbolTable) : Option Expr := do
  guard typ.isUnionTag
  let fieldTyp ← st.lookupFieldTypeInType typ field
  guard (fieldTyp == value.typ)
  return new (.union value field) typ

end Expr

namespace Expr

/-- The values of the fields of a struct by name, without the padding: those of an initializer,
or else the members. -/
def structFieldExprs (self : Expr) (st : SymbolTable) : Option (OrdMap String Expr) := do
  guard self.typ.isStructTag
  let fields ← st.lookupFieldsInType self.typ
  match self.value with
  | .struct values => do
    guard (fields.length = values.length)
    return (fields.zip values).foldl (fun exprs (f, v) =>
      if f.isPadding then exprs else exprs.insert f.name v) OrdMap.empty
  | _ => fields.foldlM (fun exprs f =>
      if f.isPadding then some exprs
      else do return exprs.insert f.name (← self.member f.name st)) OrdMap.empty

end Expr

/-! ### What the constructors build -/

variable {t typ : Typ} {values : List Expr} {fields : List DatatypeComponent}

section Spec

omit [Ranked String]

variable {e e' : Expr}

namespace Expr

lemma addressOf_eq_some : e.addressOf = some e' ↔
    e.canTakeAddressOf = true ∧ new (.addressOf e) (.pointer e.typ) = e' := by
  simp [addressOf, Typ.toPointer]

lemma arrayConstant_eq_some {n : ℕ} : e.arrayConstant n = some e' ↔
    e.isIntConstant = true ∧ new (.arrayOf e) (.array e.typ n) = e' := by
  simp [arrayConstant, Typ.arrayOf]

variable {elems : List Expr}

lemma arrayExpr_eq_some :
    arrayExpr typ elems = some e' ↔
    ∃ t, typ = .array t elems.length ∧ (∀ x ∈ elems, (x.typ == t) = true) ∧
      new (.array elems) typ = e' := by
  cases typ <;> simp [arrayExpr, and_assoc]

lemma vectorExpr_eq_some :
    vectorExpr typ elems = some e' ↔
    ∃ t, typ = .vector t elems.length ∧ (∀ x ∈ elems, (x.typ == t) = true) ∧
      new (.vector elems) typ = e' := by
  cases typ <;> simp [vectorExpr, and_assoc]

lemma binop_eq_some {op : BinaryOperand} {rhs : Expr} : e.binop op rhs = some e' ↔
    typecheckBinopArgs op e.typ rhs.typ = true ∧
      new (.binOp op e rhs) (binopReturnType op e.typ rhs.typ) = e' := by
  simp [binop]

lemma unop_eq_some {op : UnaryOperand} : e.unop op = some e' ↔
    typecheckUnopArg op e.typ = true ∧ new (.unOp op e) (unopReturnType op e.typ) = e' := by
  simp [unop]

lemma selfOp_eq_some {op : SelfOperand} : e.selfOp op = some e' ↔
    (e.typ.isInteger = true ∨ e.typ.isPointer = true) ∧ new (.selfOp op e) e.typ = e' := by
  simp [selfOp]

lemma castTo_eq_some :
    e.castTo typ = some e' ↔
    e.canCastTo typ = true ∧ (((e.typ == typ) = true ∧ e = e') ∨
      ((e.typ == typ) = false ∧ typ.isBool = true ∧ ∃ z, e.typ.zero = some z ∧ e.neq z = some e') ∨
      ((e.typ == typ) = false ∧ typ.isBool = false ∧ new (.typecast e) typ = e')) := by
  simp only [castTo]
  split_ifs with h h' <;> simp_all [Option.bind_eq_some_iff]

lemma typ_of_castTo_bool (h : e.castTo .bool = some e') : e'.typ = .bool := by
  obtain ⟨hc, h⟩ := castTo_eq_some.1 h
  rcases h with ⟨hb, rfl⟩ | ⟨hne, -, z, -, h⟩ | ⟨-, hb, -⟩
  · exact Typ.beq_bool_iff.1 hb
  · obtain ⟨-, rfl⟩ := binop_eq_some.1 h
    have hv : e.typ.isVector = false := by
      simp only [canCastTo, canCastFrom, hne, Bool.false_eq_true, if_false, Typ.isBool,
        if_true, Bool.or_eq_true] at hc
      grind
    simp [binopReturnType, hv]
  · simp [Typ.isBool] at hb

lemma dereference_eq_some : e.dereference = some e' ↔
    ∃ t, e.typ = .pointer t ∧ new (.dereference e) t = e' := by
  cases h : e.typ <;> simp [dereference, h, Typ.isPointer, Typ.baseType]

lemma indexArray_eq_some {i : Expr} : e.indexArray i = some e' ↔
    i.typ.isInteger = true ∧ e.typ.isArrayLike = true ∧
      ∃ t, e.typ.baseType = some t ∧ new (.index e i) t = e' := by
  simp [indexArray, Option.bind_eq_some_iff]

lemma intConstant_eq_some {i : ℤ} :
    intConstant i t = some e' ↔
    t.isInteger = true ∧ new (.intConstant i) t = e' := by
  simp [intConstant]

lemma pointerConstant_eq_some {c : ℕ} :
    pointerConstant c t = some e' ↔
    t.isPointer = true ∧ new (.pointerConstant c) t = e' := by
  simp [pointerConstant]

lemma call_eq_some {args : List Expr} : e.call args = some e' ↔
    typecheckCall e args = true ∧
      ∃ t, e.typ.returnType = some t ∧ new (.functionCall e args) t = e' := by
  simp [call, Option.bind_eq_some_iff]

lemma ternary_eq_some {c t : Expr} : c.ternary t e = some e' ↔
    (t.typ == e.typ) = true ∧ ∃ c', c.castTo .bool = some c' ∧ new (.ite c' t e) t.typ = e' := by
  simp [ternary, Option.bind_eq_some_iff]

lemma getExpression_eq_some {s : Stmt} : s.getExpression = some e' ↔
    ∃ l, s = .mk (.expression e') l := by
  obtain ⟨b, l⟩ := s
  cases b <;> simp [Stmt.getExpression]

lemma statementExpression_eq_some {ops : List Stmt} :
    statementExpression ops typ = some e' ↔
      ∃ x l, ops.getLast? = some (.mk (.expression x) l) ∧ (x.typ == typ) = true ∧
        new (.statementExpression ops) typ = e' := by
  simp only [statementExpression, bind_eq_some, guard_eq_some, exists_const, getExpression_eq_some,
    pure_eq_some]
  constructor
  · rintro ⟨_, hlast, x, ⟨l, rfl⟩, h⟩
    exact ⟨x, l, hlast, h⟩
  · rintro ⟨x, l, hlast, h⟩
    exact ⟨_, hlast, x, ⟨l, rfl⟩, h⟩

lemma structExprWithExplicitPadding_eq_some :
    structExprWithExplicitPadding typ fields values = some e' ↔
      (fields.length = values.length ∧ valuesMatchFields fields values = true) ∧
        new (.struct values) typ = e' := by
  simp [structExprWithExplicitPadding, and_assoc]

end Expr

end Spec

namespace Expr

variable {e e' : Expr} {st : SymbolTable} {field : String} {components : OrdMap String Expr}

lemma member_eq_some :
    e.member field st = some e' ↔
    (e.typ.isStructTag = true ∨ e.typ.isUnionTag = true) ∧
      ∃ t, st.lookupFieldTypeInType e.typ field = some t ∧ new (.member e field) t = e' := by
  simp [member, Option.bind_eq_some_iff]

lemma transmuteTo_eq_some :
    e.transmuteTo t st = some e' ↔
    ∃ n, e.typ.sizeofInBits st = some n ∧ t.sizeofInBits st = some n ∧
      new (.byteExtract e 0) t = e' := by
  simp only [transmuteTo, bind_eq_some, guard_eq_some, exists_const, pure_eq_some]
  constructor
  · rintro ⟨n, hn, _, hm, rfl, h⟩
    exact ⟨n, hn, hm, h⟩
  · rintro ⟨n, hn, hm, h⟩
    exact ⟨n, hn, n, hm, rfl, h⟩

lemma unionExpr_eq_some :
    unionExpr typ field e st = some e' ↔
    typ.isUnionTag = true ∧ ∃ t, st.lookupFieldTypeInType typ field = some t ∧
      (t == e.typ) = true ∧ new (.union e field) typ = e' := by
  simp [unionExpr, Option.bind_eq_some_iff]

lemma structExprFromPaddedValues_eq_some :
    structExprFromPaddedValues typ values st = some e' ↔
      typ.isStructTag = true ∧ ∃ fields, st.lookupFieldsInType typ = some fields ∧
        (fields.length = values.length ∧ valuesMatchFields fields values = true) ∧
          new (.struct values) typ = e' := by
  simp only [structExprFromPaddedValues, bind_eq_some, guard_eq_some, exists_const,
    structExprWithExplicitPadding_eq_some]
  refine and_congr_right fun _ => exists_congr fun fields => and_congr_right fun _ => ?_
  constructor
  · rintro ⟨-, -, h⟩
    exact h
  · intro h
    exact ⟨h.1.1, h.1.2, h⟩

/-- Every initializer for a struct ends in the one with explicit padding. -/
lemma exists_structExprWithExplicitPadding_of_structExprFromValues
    (h : structExprFromValues typ values st = some e') :
    typ.isStructTag = true ∧ ∃ fields values', st.lookupFieldsInType typ = some fields ∧
      padValues fields values = some values' ∧
        structExprWithExplicitPadding typ fields values' = some e' := by
  simp only [structExprFromValues, bind_eq_some, guard_eq_some, exists_const] at h
  obtain ⟨htag, fields, hfields, -, -, values', hvalues, h⟩ := h
  exact ⟨htag, fields, values', hfields, hvalues, h⟩

lemma exists_structExprWithExplicitPadding_of_structExpr
    (h : structExpr typ components st = some e') :
    typ.isStructTag = true ∧ ∃ fields values, st.lookupFieldsInType typ = some fields ∧
      takeComponents fields components = some values ∧
        structExprWithExplicitPadding typ fields values = some e' := by
  simp only [structExpr, bind_eq_some, guard_eq_some, exists_const] at h
  obtain ⟨htag, fields, hfields, -, -, -, values, hvalues, h⟩ := h
  exact ⟨htag, fields, values, hfields, hvalues, h⟩

lemma exists_takeComponents
    (hnames : (fields.map DatatypeComponent.name).Nodup)
    (hpad : ∀ c ∈ fields, c.typ.isSome = true)
    (hvalues : ∀ name t, .field name t ∈ fields →
      ∃ v, components.get? name = some v ∧ (t == v.typ) = true) :
    ∃ values, takeComponents fields components = some values ∧ fields.length = values.length ∧
      valuesMatchFields fields values = true ∧ ∀ name t v, .field name t ∈ fields →
        components.get? name = some v → (.field name t, v) ∈ fields.zip values := by
  induction fields generalizing components with
  | nil => exact ⟨[], rfl, rfl, rfl, by simp⟩
  | cons c fields ih =>
    rw [List.map_cons, List.nodup_cons] at hnames
    rw [List.forall_mem_cons] at hpad
    cases c with
    | padding name bits =>
      obtain ⟨t, ht⟩ := Option.isSome_iff_exists.mp hpad.1
      obtain ⟨values, htake, hlen, hmatch, hmem⟩ := ih hnames.2 hpad.2 fun name t hfield =>
        hvalues name t (List.mem_cons_of_mem _ hfield)
      refine ⟨t.nondet :: values, by simp [takeComponents, ht, htake], by simp [hlen], ?_, ?_⟩
      · have hself : (t == t.nondet.typ) = true := Typ.beq_iff_erase.mpr rfl
        simp only [valuesMatchFields, List.zip_cons_cons, List.all_cons, ht, Option.any_some, hself,
          Bool.true_and]
        exact hmatch
      · intro name t v hfield hv
        have hfield' : .field name t ∈ fields := by simpa using hfield
        exact List.mem_cons_of_mem _ (hmem name t v hfield' hv)
    | field name t =>
      obtain ⟨v, hv, htyp⟩ := hvalues name t List.mem_cons_self
      -- the names of the other fields are not touched when this one is taken out
      have hother : ∀ name' t', DatatypeComponent.field name' t' ∈ fields →
          (components.erase name).get? name' = components.get? name' := by
        intro name' t' hfield
        refine OrdMap.get?_erase_of_ne fun heq => hnames.1 ?_
        exact heq ▸ List.mem_map.mpr ⟨_, hfield, rfl⟩
      obtain ⟨values, htake, hlen, hmatch, hmem⟩ := ih hnames.2 hpad.2 fun name' t' hfield => by
        rw [hother name' t' hfield]
        exact hvalues name' t' (List.mem_cons_of_mem _ hfield)
      refine ⟨v :: values, by simp [takeComponents, hv, htake], by simp [hlen], ?_, ?_⟩
      · simp only [valuesMatchFields, List.zip_cons_cons, List.all_cons, DatatypeComponent.typ,
          Option.any_some, htyp, Bool.true_and]
        exact hmatch
      · intro name' t' v' hfield hv'
        rcases List.mem_cons.mp hfield with heq | hfield
        · cases heq
          rw [hv, Option.some.injEq] at hv'
          subst hv'
          exact List.mem_cons_self
        · rw [← hother name' t' hfield] at hv'
          exact List.mem_cons_of_mem _ (hmem name' t' v' hfield hv')

omit [Ranked String] in
lemma forM_eq_some {f : α → Option Unit} {l : List α} (h : ∀ a ∈ l, f a = some ()) :
    l.forM f = some () := by
  induction l with
  | nil => rfl
  | cons a l ih =>
    rw [List.forall_mem_cons] at h
    show (f a).bind (fun _ => l.forM f) = some ()
    rw [h.1]
    exact ih h.2

/-- A struct with a value for each of its fields can be initialized. -/
lemma exists_structExpr
    (htag : typ.isStructTag = true)
    (hfields : st.lookupFieldsInType typ = some fields)
    (hnames : (fields.map DatatypeComponent.name).Nodup)
    (hpad : ∀ c ∈ fields, c.typ.isSome = true)
    (hlen : (fields.filter fun x => !x.isPadding).length = components.entries.length)
    (hvalues : ∀ name t, .field name t ∈ fields →
      ∃ v, components.get? name = some v ∧ (t == v.typ) = true) :
    ∃ values, structExpr typ components st = some (new (.struct values) typ) ∧
      ∀ name t v, .field name t ∈ fields → components.get? name = some v →
        (.field name t, v) ∈ fields.zip values := by
  obtain ⟨values, htake, hlen', hmatch, hmem⟩ := exists_takeComponents hnames hpad hvalues
  refine ⟨values, ?_, hmem⟩
  have hcheck : ((fields.filter fun x => !x.isPadding).forM fun field => do
      let fieldTyp ← field.fieldTyp
      let value ← components.get? field.name
      guard (value.typ == fieldTyp)) = some () := by
    refine forM_eq_some fun c hc => ?_
    rw [List.mem_filter] at hc
    cases c with
    | padding name bits => simp at hc
    | field name t =>
      obtain ⟨v, hv, htyp⟩ := hvalues name t hc.1
      have htyp' : (v.typ == t) = true := Typ.beq_symm htyp
      simp [DatatypeComponent.fieldTyp, DatatypeComponent.name, hv, htyp']
  unfold structExpr
  simp only [htag, hfields, hlen, guard_true, Option.pure_def, some_bind] at hcheck ⊢
  rw [hcheck]
  simp [htake, structExprWithExplicitPadding, hlen', hmatch]

omit [Ranked String] in
/-- Values that match the fields which are not padding can be padded to match all of them. -/
lemma exists_padValues (hpad : ∀ c ∈ fields, c.typ.isSome = true)
    (hlen : (fields.filter fun x => !x.isPadding).length = values.length)
    (hmatch : valuesMatchFields (fields.filter fun x => !x.isPadding) values = true) :
    ∃ values', padValues fields values = some values' ∧ fields.length = values'.length ∧
      valuesMatchFields fields values' = true := by
  induction fields generalizing values with
  | nil => exact ⟨[], rfl, rfl, rfl⟩
  | cons c fields ih =>
    have hpad' : ∀ c ∈ fields, c.typ.isSome = true := fun c hc => hpad c (List.mem_cons_of_mem _ hc)
    cases c with
    | padding name bits =>
      obtain ⟨t, ht⟩ := Option.isSome_iff_exists.mp (hpad _ List.mem_cons_self)
      simp only [List.filter_cons, DatatypeComponent.isPadding_padding, Bool.not_true,
        Bool.false_eq_true, if_false] at hlen hmatch
      obtain ⟨values', hvalues', hlen', hmatch'⟩ := ih hpad' hlen hmatch
      refine ⟨t.nondet :: values', ?_, by simp [hlen'], ?_⟩
      · simp [padValues, ht, hvalues']
      · have hself : (t == t.nondet.typ) = true := Typ.beq_iff_erase.mpr rfl
        simp only [valuesMatchFields, List.zip_cons_cons, List.all_cons, ht, Option.any_some, hself,
          Bool.true_and]
        exact hmatch'
    | field name t =>
      cases values with
      | nil => simp at hlen
      | cons v values =>
        simp only [List.filter_cons, DatatypeComponent.isPadding_field, Bool.not_false, if_true,
          List.length_cons, Nat.add_right_cancel_iff] at hlen
        simp only [List.filter_cons, DatatypeComponent.isPadding_field, Bool.not_false, if_true,
          valuesMatchFields, List.zip_cons_cons, List.all_cons, Bool.and_eq_true] at hmatch
        obtain ⟨values', hvalues', hlen', hmatch'⟩ := ih hpad' hlen hmatch.2
        refine ⟨v :: values', by simp [padValues, hvalues'], by simp [hlen'], ?_⟩
        simp only [valuesMatchFields, List.zip_cons_cons, List.all_cons, Bool.and_eq_true]
        exact ⟨hmatch.1, hmatch'⟩

omit [Ranked String] in
/-- The value given for a field stands at the position of the field's name. -/
lemma getElem?_padValues {values' : List Expr} (h : padValues fields values = some values')
    (hnames : (fields.map DatatypeComponent.name).Nodup) {k : ℕ} {c : DatatypeComponent}
    {v : Expr} (hc : (fields.filter fun x => !x.isPadding)[k]? = some c)
    (hv : values[k]? = some v) :
    ∃ i, (fields.findIdx? fun x => x.name == c.name) = some i ∧ values'[i]? = some v := by
  induction fields generalizing values values' k with
  | nil => simp at hc
  | cons d fields ih =>
    rw [List.map_cons, List.nodup_cons] at hnames
    -- a later field has another name than the first component
    have hlater : c ∈ fields → (d.name == c.name) = false := by
      intro hmem
      rw [beq_eq_false_iff_ne]
      intro heq
      exact hnames.1 (heq ▸ List.mem_map_of_mem hmem)
    cases d with
    | padding name bits =>
      simp only [List.filter_cons, DatatypeComponent.isPadding_padding, Bool.not_true,
        Bool.false_eq_true, if_false] at hc
      simp only [padValues, DatatypeComponent.isPadding_padding, if_true, bind_eq_some,
        Option.pure_def, Option.some_inj] at h
      obtain ⟨t, -, rest, hrest, rfl⟩ := h
      obtain ⟨i, hi, hval⟩ := ih hrest hnames.2 hc hv
      have hmem : c ∈ fields := List.mem_of_mem_filter (List.mem_of_getElem? hc)
      refine ⟨i + 1, ?_, by simpa using hval⟩
      rw [List.findIdx?_cons, hlater hmem, hi]
      rfl
    | field name t =>
      cases values with
      | nil => simp at hv
      | cons w values =>
        simp only [padValues, DatatypeComponent.isPadding_field, Bool.false_eq_true, if_false,
          bind_eq_some, Option.pure_def, Option.some_inj] at h
        obtain ⟨rest, hrest, rfl⟩ := h
        simp only [List.filter_cons, DatatypeComponent.isPadding_field, Bool.not_false,
          if_true] at hc
        cases k with
        | zero =>
          simp only [List.getElem?_cons_zero, Option.some_inj] at hc hv
          subst hc hv
          exact ⟨0, by simp [List.findIdx?_cons], rfl⟩
        | succ k =>
          simp only [List.getElem?_cons_succ] at hc hv
          obtain ⟨i, hi, hval⟩ := ih hrest hnames.2 hc hv
          have hmem : c ∈ fields := List.mem_of_mem_filter (List.mem_of_getElem? hc)
          refine ⟨i + 1, ?_, by simpa using hval⟩
          rw [List.findIdx?_cons, hlater hmem, hi]
          rfl

end Expr

end Rmc

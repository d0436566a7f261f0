import Rmc.Goto.Occurs
import Rmc.Lib.Effect

/-!
# Traversals of trees

The methods of a transformer (`transformer.rs`) come in pairs: one takes a tree apart and
transforms the parts, and one builds a tree from them. A traversal has the second kind as its
fields, so that a transformer is given by the methods it overrides, and the first kind is the same
for all of them. The order in which parts are transformed matters where methods have effects; it is
that of the source, for every method that transforms a name in one of the transformers.

The fields may have any effect. Without effects a traversal is a map of trees.
-/

namespace Rmc

open OrdMap

/-- What is done with the parts of a type after they have been transformed. -/
structure TypeTraversal (M : Type → Type) where
  /-- A name: of a symbol, a tag, a component, a parameter or a label. -/
  name : String → M String
  typ : Typ → M Typ
  parameter : Parameter → M Parameter

/-- What is done with the parts of a tree after they have been transformed. -/
structure Traversal (M : Type → Type) extends TypeTraversal M where
  /-- Which of the values of a struct initializer of that type are transformed. -/
  flags : Typ → List Expr → M (List Bool)
  expr : ExprValue → Typ → M Expr
  stmt : StmtBody → M Stmt

variable {M : Type → Type} [Monad M]

namespace TypeTraversal

variable (m : TypeTraversal M)

def transformName? : Option String → M (Option String)
  | none => pure none
  | some name => do return some (← m.name name)

mutual

def transformType : Typ → M Typ
  | .array typ size => do m.typ (.array (← transformType typ) size)
  | .bool => m.typ .bool
  | .cBitField typ width => do m.typ (.cBitField (← transformType typ) width)
  | .cInteger cIntType => m.typ (.cInteger cIntType)
  | .code parameters returnType => do
    let transformedParameters ← transformTypeParameters parameters
    let transformedReturnType ← transformType returnType
    m.typ (.code transformedParameters transformedReturnType)
  | .constructor => m.typ .constructor
  | .double => m.typ .double
  | .empty => m.typ .empty
  | .flexibleArray typ => do m.typ (.flexibleArray (← transformType typ))
  | .float => m.typ .float
  | .incompleteStruct tag => do m.typ (.incompleteStruct (← m.name tag))
  | .incompleteUnion tag => do m.typ (.incompleteUnion (← m.name tag))
  | .infiniteArray typ => do m.typ (.infiniteArray (← transformType typ))
  | .pointer typ => do m.typ (.pointer (← transformType typ))
  | .signedbv width => m.typ (.signedbv width)
  | .struct tag components => do
    let transformedComponents ← transformDatatypeComponents components
    m.typ (.struct (← m.name tag) transformedComponents)
  | .structTag tag => do m.typ (.structTag (← m.name tag))
  | .union tag components => do
    let transformedComponents ← transformDatatypeComponents components
    m.typ (.union (← m.name tag) transformedComponents)
  | .unionTag tag => do m.typ (.unionTag (← m.name tag))
  | .unsignedbv width => m.typ (.unsignedbv width)
  | .variadicCode parameters returnType => do
    let transformedParameters ← transformTypeParameters parameters
    let transformedReturnType ← transformType returnType
    m.typ (.variadicCode transformedParameters transformedReturnType)
  | .vector typ size => do m.typ (.vector (← transformType typ) size)

def transformTypeParameter : Parameter → M Parameter
  | .mk typ identifier baseName => do
    let transformedTyp ← transformType typ
    let identifier ← m.transformName? identifier
    let baseName ← m.transformName? baseName
    m.parameter (.mk transformedTyp identifier baseName)

def transformDatatypeComponent : DatatypeComponent → M DatatypeComponent
  | .field name typ => do
    let name ← m.name name
    return .field name (← transformType typ)
  | .padding name bits => do return .padding (← m.name name) bits

def transformTypeParameters : List Parameter → M (List Parameter)
  | [] => pure []
  | p :: ps => do
    let p ← transformTypeParameter p
    return p :: (← transformTypeParameters ps)

def transformDatatypeComponents : List DatatypeComponent → M (List DatatypeComponent)
  | [] => pure []
  | c :: cs => do
    let c ← transformDatatypeComponent c
    return c :: (← transformDatatypeComponents cs)

end

end TypeTraversal

namespace Traversal

variable (m : Traversal M)

mutual

/-- The new expression gets the location of the old one. -/
def transformExpr : Expr → M Expr
  | .mk value typ location => do
    let (value, typ) ← transformExprValue value typ
    let e ← m.expr value typ
    return e.withLocation location

/-- The parts of an expression, and its type where the new expression is built from it. -/
def transformExprValue : ExprValue → Typ → M (ExprValue × Typ)
  | .addressOf child, typ => do return (.addressOf (← transformExpr child), typ)
  | .array elems, typ => do
    let transformedTyp ← m.transformType typ
    return (.array (← transformExprs elems), transformedTyp)
  | .arrayOf elem, typ => do
    let transformedTyp ← m.transformType typ
    return (.arrayOf (← transformExpr elem), transformedTyp)
  | .assign left right, typ => do
    let left ← transformExpr left
    return (.assign left (← transformExpr right), typ)
  | .binOp op lhs rhs, typ => do
    let lhs ← transformExpr lhs
    return (.binOp op lhs (← transformExpr rhs), typ)
  | .boolConstant value, typ => pure (.boolConstant value, typ)
  | .byteExtract e offset, typ => do
    let transformedTyp ← m.transformType typ
    return (.byteExtract (← transformExpr e) offset, transformedTyp)
  | .cBoolConstant value, typ => pure (.cBoolConstant value, typ)
  | .dereference child, typ => do return (.dereference (← transformExpr child), typ)
  | .doubleConstant value, typ => pure (.doubleConstant value, typ)
  | .floatConstant value, typ => pure (.floatConstant value, typ)
  | .functionCall function arguments, typ => do
    let transformedFunction ← transformExpr function
    return (.functionCall transformedFunction (← transformExprs arguments), typ)
  | .ite c t e, typ => do
    let transformedC ← transformExpr c
    let transformedT ← transformExpr t
    return (.ite transformedC transformedT (← transformExpr e), typ)
  | .index array index, typ => do
    let transformedArray ← transformExpr array
    return (.index transformedArray (← transformExpr index), typ)
  | .intConstant value, typ => do return (.intConstant value, ← m.transformType typ)
  | .member lhs field, typ => do
    let transformedLhs ← transformExpr lhs
    return (.member transformedLhs (← m.name field), typ)
  | .nondet, typ => do return (.nondet, ← m.transformType typ)
  | .pointerConstant value, typ => do return (.pointerConstant value, ← m.transformType typ)
  | .selfOp op e, typ => do return (.selfOp op (← transformExpr e), typ)
  | .statementExpression statements, typ => do
    let transformedTyp ← m.transformType typ
    return (.statementExpression (← transformStmts statements), transformedTyp)
  | .stringConstant value, typ => pure (.stringConstant value, typ)
  | .struct values, typ => do
    let transformedTyp ← m.transformType typ
    let flags ← m.flags transformedTyp values
    return (.struct (← transformValues values flags), transformedTyp)
  | .symbol identifier, typ => do
    let transformedTyp ← m.transformType typ
    return (.symbol (← m.name identifier), transformedTyp)
  | .typecast child, typ => do
    let transformedTyp ← m.transformType typ
    return (.typecast (← transformExpr child), transformedTyp)
  | .union value field, typ => do
    let transformedTyp ← m.transformType typ
    let transformedValue ← transformExpr value
    return (.union transformedValue (← m.name field), transformedTyp)
  | .unOp op e, typ => do return (.unOp op (← transformExpr e), typ)
  | .vector elems, typ => do
    let transformedTyp ← m.transformType typ
    return (.vector (← transformExprs elems), transformedTyp)

/-- The new statement gets the location of the old one. -/
def transformStmt : Stmt → M Stmt
  | .mk body location => do
    let body ← transformStmtBody body
    let s ← m.stmt body
    return s.withLocation location

def transformStmtBody : StmtBody → M StmtBody
  | .assign lhs rhs => do
    let transformedLhs ← transformExpr lhs
    return .assign transformedLhs (← transformExpr rhs)
  | .assume cond => do return .assume (← transformExpr cond)
  | .atomicBlock block => do return .atomicBlock (← transformStmts block)
  | .block block => do return .block (← transformStmts block)
  | .break => pure .break
  | .continue => pure .continue
  | .decl lhs value => do
    let transformedLhs ← transformExpr lhs
    return .decl transformedLhs (← transformExpr? value)
  | .expression expr => do return .expression (← transformExpr expr)
  | .for init cond update body => do
    let transformedInit ← transformStmt init
    let transformedCond ← transformExpr cond
    let transformedUpdate ← transformStmt update
    return .for transformedInit transformedCond transformedUpdate (← transformStmt body)
  | .functionCall lhs function arguments => do
    let transformedLhs ← transformExpr? lhs
    let transformedFunction ← transformExpr function
    return .functionCall transformedLhs transformedFunction (← transformExprs arguments)
  | .goto label => do return .goto (← m.name label)
  | .ifthenelse i t e => do
    let transformedI ← transformExpr i
    let transformedT ← transformStmt t
    return .ifthenelse transformedI transformedT (← transformStmt? e)
  | .label label body => do
    let transformedBody ← transformStmt body
    return .label (← m.name label) transformedBody
  | .return value => do return .return (← transformExpr? value)
  | .skip => pure .skip
  | .switch control cases default => do
    let transformedControl ← transformExpr control
    let transformedCases ← transformCases cases
    return .switch transformedControl transformedCases (← transformStmt? default)
  | .while cond body => do
    let transformedCond ← transformExpr cond
    return .while transformedCond (← transformStmt body)

def transformCase : SwitchCase → M SwitchCase
  | .mk value body => do
    let value ← transformExpr value
    return .mk value (← transformStmt body)

def transformExprs : List Expr → M (List Expr)
  | [] => pure []
  | e :: es => do
    let e ← transformExpr e
    return e :: (← transformExprs es)

/-- The values that are not transformed stay as they are. -/
def transformValues : List Expr → List Bool → M (List Expr)
  | value :: values, flag :: flags => do
    let value ← if flag then transformExpr value else pure value
    return value :: (← transformValues values flags)
  | _, _ => pure []

def transformStmts : List Stmt → M (List Stmt)
  | [] => pure []
  | s :: ss => do
    let s ← transformStmt s
    return s :: (← transformStmts ss)

def transformCases : List SwitchCase → M (List SwitchCase)
  | [] => pure []
  | c :: cs => do
    let c ← transformCase c
    return c :: (← transformCases cs)

def transformExpr? : Option Expr → M (Option Expr)
  | none => pure none
  | some e => do return some (← transformExpr e)

def transformStmt? : Option Stmt → M (Option Stmt)
  | none => pure none
  | some s => do return some (← transformStmt s)

end

def transformValue : SymbolValues → M SymbolValues
  | .none => pure .none
  | .expr expr => do return .expr (← m.transformExpr expr)
  | .stmt stmt => do return .stmt (← m.transformStmt stmt)

/-- Transform the type and the value of a symbol, and keep the rest. -/
def transformSymbol (symbol : Symbol) : M Symbol := do
  let newTyp ← m.transformType symbol.typ
  let newValue ← m.transformValue symbol.value
  return { symbol with value := newValue, typ := newTyp }

end Traversal

/-! ### Building trees by constructors -/

/-- Build a type from its parts, with the checks of its constructor. -/
def Typ.rebuild : Typ → Option Typ
  | .array typ size => some (typ.arrayOf size)
  | .cBitField typ width => typ.asBitfield width
  | .flexibleArray typ => some typ.flexibleArrayOf
  | .infiniteArray typ => some typ.infiniteArrayOf
  | .pointer typ => some typ.toPointer
  | .signedbv width => Typ.signedInt width
  | .struct tag components => Typ.structType tag components
  | .union tag components => Typ.unionType tag components
  | .unsignedbv width => Typ.unsignedInt width
  | .vector typ size => Typ.mkVector typ size
  | typ => some typ

def Parameter.rebuild : Parameter → Option Parameter
  | .mk typ identifier baseName => typ.asParameter identifier baseName

section Constructors

variable [Ranked String] [DebugTyp]

/-- Build an expression from its parts. The constructors that read the symbol table read `st`. -/
def ExprValue.rebuild (st : SymbolTable) : ExprValue → Typ → Option Expr
  | .addressOf child, _ => child.addressOf
  | .array elems, typ => Expr.arrayExpr typ elems
  | .arrayOf elem, .array _ size => elem.arrayConstant size
  | .arrayOf _, _ => none
  | .assign _ _, _ => none
  | .binOp op lhs rhs, _ => lhs.binop op rhs
  | .boolConstant value, _ => some (Expr.boolConstant value)
  | .byteExtract e _, typ => e.transmuteTo typ st
  | .cBoolConstant value, _ => some (Expr.cBoolConstant value)
  | .dereference child, _ => child.dereference
  | .doubleConstant value, _ => some (Expr.doubleConstant value)
  | .floatConstant value, _ => some (Expr.floatConstant value)
  | .functionCall function arguments, _ => function.call arguments
  | .ite c t e, _ => c.ternary t e
  | .index arr idx, _ => arr.index idx
  | .intConstant value, typ => Expr.intConstant value typ
  | .member lhs field, _ => lhs.member field st
  | .nondet, typ => some (Expr.nondet typ)
  | .pointerConstant value, typ => Expr.pointerConstant value typ
  | .selfOp .postdecrement e, _ => e.postdecr
  | .selfOp .postincrement e, _ => e.postincr
  | .selfOp .predecrement e, _ => e.predecr
  | .selfOp .preincrement e, _ => e.preincr
  | .statementExpression statements, typ => Expr.statementExpression statements typ
  | .stringConstant value, _ => some (Expr.rawStringConstant value)
  | .struct values, typ => Expr.structExprFromPaddedValues typ values st
  | .symbol identifier, typ => some (Expr.symbolExpression identifier typ)
  | .typecast child, typ => child.castTo typ
  | .union value field, typ => Expr.unionExpr typ field value st
  | .unOp .bitnot e, _ => e.bitnot
  | .unOp .bswap e, _ => e.bswap
  | .unOp .isDynamicObject e, _ => e.dynamicObject
  | .unOp .not e, _ => e.not
  | .unOp .objectSize e, _ => e.objectSize
  | .unOp .pointerObject e, _ => e.pointerObject
  | .unOp .pointerOffset e, _ => e.pointerOffset
  | .unOp .popcount e, _ => e.popcount
  | .unOp (.countTrailingZeros allowZero) e, _ => e.cttz allowZero
  | .unOp (.countLeadingZeros allowZero) e, _ => e.ctlz allowZero
  | .unOp .unaryMinus e, _ => e.neg
  | .vector elems, typ => Expr.vectorExpr typ elems

omit [Ranked String] in
/-- Build a statement from its parts, without a location. -/
def StmtBody.rebuild : StmtBody → Option Stmt
  | .assign lhs rhs => Stmt.assign lhs rhs .none
  | .assume cond => Stmt.assume cond .none
  | .atomicBlock stmts => some (Stmt.atomicBlock stmts .none)
  | .block stmts => some (Stmt.block stmts .none)
  | .break => some (Stmt.breakStmt .none)
  | .continue => some (Stmt.continueStmt .none)
  | .decl lhs value => Stmt.decl lhs value .none
  | .expression expr => some (Stmt.codeExpression expr .none)
  | .for init cond update body => Stmt.forLoop init cond update body .none
  | .functionCall lhs function arguments => Stmt.functionCall lhs function arguments .none
  | .goto dest => Stmt.goto dest .none
  | .ifthenelse i t e => Stmt.ifThenElse i t e .none
  | .label name body => body.withLabel name
  | .return value => some (Stmt.ret value .none)
  | .skip => some (Stmt.skip .none)
  | .switch control cases default => Stmt.switch control cases default .none
  | .while cond body => Stmt.whileLoop cond body .none

/-- The methods that a transformer has unless it overrides them, but for the one for names. -/
def Traversal.naming {κ : Type} (name : String → StateT κ Option String) (st : SymbolTable) :
    Traversal (StateT κ Option) where
  name := name
  typ t := liftM t.rebuild
  parameter p := liftM p.rebuild
  flags typ values := do
    guard typ.isStructTag
    return values.map fun _ => true
  expr value typ := liftM (value.rebuild st typ)
  stmt body := liftM body.rebuild

end Constructors

end Rmc

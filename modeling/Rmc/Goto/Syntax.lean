import Rmc.Goto.Typ

/-!
# Expressions, statements and symbols

The data of a goto program (`expr.rs`, `stmt.rs`, `symbol.rs`, `location.rs`). Expressions and
statements are only ever made by their constructors, which stand in `Rmc.Goto.Expr` and
`Rmc.Goto.Stmt`. Floating point constants are kept as bit patterns, integers are unbounded.
-/

namespace Rmc

/-- A source location. -/
inductive Location where
  | none
  | builtinFunction (functionName : String) (line : Option ℕ)
  | loc (file : String) (function : Option String) (line : ℕ) (col : Option ℕ)
  deriving DecidableEq, Repr

/-- Binary operators. -/
inductive BinaryOperand where
  | and
  | ashr
  | bitand
  | bitor
  | bitxor
  | div
  | equal
  | ge
  | gt
  | ieeeFloatEqual
  | ieeeFloatNotequal
  | implies
  | le
  | lshr
  | lt
  | minus
  | mod
  | mult
  | notequal
  | or
  | overflowMinus
  | overflowMult
  | overflowPlus
  | plus
  | rol
  | ror
  | shl
  | xor
  deriving DecidableEq, Repr

/-- Unary operators with side effects. -/
inductive SelfOperand where
  | postdecrement
  | postincrement
  | predecrement
  | preincrement
  deriving DecidableEq, Repr

/-- Unary operators. -/
inductive UnaryOperand where
  | bitnot
  | bswap
  | isDynamicObject
  | not
  | objectSize
  | pointerObject
  | pointerOffset
  | popcount
  | countTrailingZeros (allowZero : Bool)
  | countLeadingZeros (allowZero : Bool)
  | unaryMinus
  deriving DecidableEq, Repr

mutual

/-- A computation that returns a value: every expression has a value, a type and a location. -/
inductive Expr where
  | mk (value : ExprValue) (typ : Typ) (location : Location)

/-- The kinds of values an expression can have. -/
inductive ExprValue where
  | addressOf (e : Expr)
  | array (elems : List Expr)
  | arrayOf (elem : Expr)
  | assign (left right : Expr)
  | binOp (op : BinaryOperand) (lhs rhs : Expr)
  | boolConstant (c : Bool)
  | byteExtract (e : Expr) (offset : ℕ)
  | cBoolConstant (c : Bool)
  | dereference (e : Expr)
  | doubleConstant (bits : BitVec 64)
  | floatConstant (bits : BitVec 32)
  | functionCall (function : Expr) (arguments : List Expr)
  | ite (c t e : Expr)
  | index (array index : Expr)
  | intConstant (i : ℤ)
  | member (lhs : Expr) (field : String)
  | nondet
  | pointerConstant (c : ℕ)
  | selfOp (op : SelfOperand) (e : Expr)
  | statementExpression (statements : List Stmt)
  | stringConstant (s : String)
  | struct (values : List Expr)
  | symbol (identifier : String)
  | typecast (e : Expr)
  | union (value : Expr) (field : String)
  | unOp (op : UnaryOperand) (e : Expr)
  | vector (elems : List Expr)

/-- A computation that does not return a value. -/
inductive Stmt where
  | mk (body : StmtBody) (location : Location)

/-- The kinds of bodies a statement can have. -/
inductive StmtBody where
  | assign (lhs rhs : Expr)
  | assume (cond : Expr)
  | atomicBlock (stmts : List Stmt)
  | block (stmts : List Stmt)
  | break
  | continue
  | decl (lhs : Expr) (value : Option Expr)
  | expression (e : Expr)
  | for (init : Stmt) (cond : Expr) (update : Stmt) (body : Stmt)
  | functionCall (lhs : Option Expr) (function : Expr) (arguments : List Expr)
  | goto (dest : String)
  | ifthenelse (i : Expr) (t : Stmt) (e : Option Stmt)
  | label (label : String) (body : Stmt)
  | return (e : Option Expr)
  | skip
  | switch (control : Expr) (cases : List SwitchCase) (default : Option Stmt)
  | while (cond : Expr) (body : Stmt)

/-- One arm of a switch statement. -/
inductive SwitchCase where
  | mk (value : Expr) (body : Stmt)

end

namespace Expr

def value : Expr → ExprValue
  | .mk v _ _ => v

def typ : Expr → Typ
  | .mk _ t _ => t

def location : Expr → Location
  | .mk _ _ l => l

def withLocation : Expr → Location → Expr
  | .mk v t _, l => .mk v t l

@[simp] lemma value_mk (v : ExprValue) (t : Typ) (l : Location) : (mk v t l).value = v := rfl

@[simp] lemma typ_mk (v : ExprValue) (t : Typ) (l : Location) : (mk v t l).typ = t := rfl

@[simp] lemma value_withLocation (e : Expr) (l : Location) :
    (e.withLocation l).value = e.value := by
  cases e; rfl

@[simp] lemma typ_withLocation (e : Expr) (l : Location) : (e.withLocation l).typ = e.typ := by
  cases e; rfl

end Expr

namespace Stmt

def body : Stmt → StmtBody
  | .mk b _ => b

def location : Stmt → Location
  | .mk _ l => l

def withLocation : Stmt → Location → Stmt
  | .mk b _, l => .mk b l

/-- The expression of an expression statement. -/
def getExpression : Stmt → Option Expr
  | .mk (.expression e) _ => some e
  | _ => none

@[simp] lemma body_mk (b : StmtBody) (l : Location) : (mk b l).body = b := rfl

@[simp] lemma body_withLocation (s : Stmt) (l : Location) : (s.withLocation l).body = s.body := by
  cases s; rfl

end Stmt

namespace SwitchCase

def value : SwitchCase → Expr
  | .mk e _ => e

def body : SwitchCase → Stmt
  | .mk _ s => s

end SwitchCase

/-! ### Parts of a tree -/

/-- The expressions right below a value. -/
def ExprValue.exprs : ExprValue → List Expr
  | .addressOf e | .arrayOf e | .byteExtract e _ | .dereference e | .member e _ => [e]
  | .selfOp _ e | .typecast e | .union e _ | .unOp _ e => [e]
  | .array es | .struct es | .vector es => es
  | .assign l r | .binOp _ l r | .index l r => [l, r]
  | .functionCall f es => f :: es
  | .ite c t e => [c, t, e]
  | _ => []

/-- The statements right below a value. -/
def ExprValue.stmts : ExprValue → List Stmt
  | .statementExpression ss => ss
  | _ => []

/-- The expressions right below a statement. -/
def StmtBody.exprs : StmtBody → List Expr
  | .assign l r => [l, r]
  | .assume e | .expression e | .for _ e _ _ | .ifthenelse e _ _ | .while e _ => [e]
  | .decl l v => l :: v.toList
  | .functionCall l f es => l.toList ++ f :: es
  | .return e => e.toList
  | .switch c cs _ => c :: cs.map SwitchCase.value
  | _ => []

/-- The statements right below a statement. -/
def StmtBody.stmts : StmtBody → List Stmt
  | .atomicBlock ss | .block ss => ss
  | .for i _ u b => [i, u, b]
  | .ifthenelse _ t e => t :: e.toList
  | .label _ s | .while _ s => [s]
  | .switch _ cs d => cs.map SwitchCase.body ++ d.toList
  | _ => []

section Induction

variable {E : Expr → Prop} {S : Stmt → Prop}
  (hexpr : ∀ v t l, (∀ e ∈ v.exprs, E e) → (∀ s ∈ v.stmts, S s) → E (.mk v t l))
  (hstmt : ∀ b l, (∀ e ∈ b.exprs, E e) → (∀ s ∈ b.stmts, S s) → S (.mk b l))

include hexpr hstmt

/-- What holds of a tree when it holds of the trees right below it holds of every tree. -/
theorem tree_induction : (∀ e, E e) ∧ ∀ s, S s := by
  have hvalue : ∀ v : ExprValue, (∀ e ∈ v.exprs, E e) ∧ ∀ s ∈ v.stmts, S s := by
    apply @ExprValue.rec E (fun v => (∀ e ∈ v.exprs, E e) ∧ ∀ s ∈ v.stmts, S s) S
      (fun b => (∀ e ∈ b.exprs, E e) ∧ ∀ s ∈ b.stmts, S s) (fun c => E c.value ∧ S c.body)
      (fun es => ∀ e ∈ es, E e) (fun ss => ∀ s ∈ ss, S s) (fun o => ∀ e ∈ o, E e)
      (fun o => ∀ s ∈ o, S s) (fun cs => ∀ c ∈ cs, E c.value ∧ S c.body)
    case mk => exact fun v t l hv => hexpr v t l hv.1 hv.2
    case mk => exact fun b l hb => hstmt b l hb.1 hb.2
    case mk => exact fun e s he hs => ⟨he, hs⟩
    all_goals clear hexpr hstmt
    all_goals
      simp_all [ExprValue.exprs, ExprValue.stmts, StmtBody.exprs, StmtBody.stmts, or_imp]
  exact ⟨fun e => (hvalue (.addressOf e)).1 e List.mem_cons_self,
    fun s => (hvalue (.statementExpression [s])).2 s List.mem_cons_self⟩

end Induction

/-! ### Symbols -/

inductive SymbolModes where
  | c
  | rust
  deriving DecidableEq, Repr

/-- What a symbol stands for: an initial value, a body, or nothing yet. -/
inductive SymbolValues where
  | expr (e : Expr)
  | stmt (s : Stmt)
  | none

/-- An entry of the symbol table. -/
structure Symbol where
  name : String
  location : Location
  typ : Typ
  value : SymbolValues
  baseName : Option String
  prettyName : Option String
  module : Option String := none
  mode : SymbolModes := .c
  isExported : Bool := false
  isInput : Bool := false
  isMacro : Bool := false
  isOutput : Bool := false
  isProperty : Bool := false
  isStateVar : Bool := false
  isType : Bool := false
  isAuxiliary : Bool := false
  isExtern : Bool := false
  isFileLocal : Bool := false
  isLvalue : Bool := false
  isParameter : Bool := false
  isStaticLifetime : Bool := false
  isThreadLocal : Bool := false
  isVolatile : Bool := false
  isWeak : Bool := false

namespace SymbolValues

def isNone : SymbolValues → Bool
  | .none => true
  | _ => false

def isStmt : SymbolValues → Bool
  | .stmt _ => true
  | _ => false

end SymbolValues

namespace Symbol

/-- The symbol that defines the type of a struct or union: `tag-foo` for the struct `foo`. -/
def aggrTy (t : Typ) (prettyName : Option String) : Option Symbol := do
  let baseName ← t.tag
  return { name := Rmc.aggrTag baseName, location := .none, typ := t, value := .none,
           baseName := some baseName, prettyName := prettyName, isType := true }

def constant (name prettyName baseName : String) (value : Expr) (loc : Location) : Symbol :=
  { name := name, location := loc, typ := value.typ, value := .expr value,
    baseName := some baseName, prettyName := some prettyName, isStaticLifetime := true }

def function (name : String) (typ : Typ) (body : Option Stmt) (prettyName : Option String)
    (loc : Location) : Symbol :=
  { name := name, location := loc, typ := typ,
    value := match body with
      | some s => .stmt s
      | none => .none,
    baseName := some name, prettyName := prettyName, isLvalue := true }

def builtinFunction (name : String) (paramTypes : List Typ) (returnType : Typ) :
    Option Symbol := do
  let typ ← Typ.codeWithUnnamedParameters paramTypes returnType
  return function name typ none none (.builtinFunction name none)

def typedefSymbol (name prettyName : String) (typ : Typ) (loc : Location) : Symbol :=
  { name := name, location := loc, typ := typ, value := .none, baseName := some name,
    prettyName := some prettyName, isType := true, isFileLocal := true,
    isStaticLifetime := true }

def mkVariable (name baseName : String) (t : Typ) (l : Location) : Symbol :=
  { name := name, location := l, typ := t, value := .none, baseName := some baseName,
    prettyName := none, isThreadLocal := true, isLvalue := true, isStateVar := true }

def staticVariable (name baseName : String) (t : Typ) (l : Location) : Symbol :=
  { mkVariable name baseName t l with isThreadLocal := false, isStaticLifetime := true }

def structType (name : String) (prettyName : Option String)
    (components : List DatatypeComponent) : Option Symbol := do
  let t ← Typ.structType name components
  aggrTy t prettyName

def unionType (name : String) (prettyName : Option String)
    (components : List DatatypeComponent) : Option Symbol := do
  let t ← Typ.unionType name components
  aggrTy t prettyName

def incompleteStruct (name : String) (prettyName : Option String) : Option Symbol :=
  aggrTy (.incompleteStruct name) prettyName

def incompleteUnion (name : String) (prettyName : Option String) : Option Symbol :=
  aggrTy (.incompleteUnion name) prettyName

/-- Whether a symbol completes an incomplete struct or union. -/
def completes (s : Symbol) : Option Symbol → Bool
  | some old => s.typ.completes old.typ
  | none => false

def isFunction (s : Symbol) : Bool := s.typ.isCode || s.typ.isVariadicCode

def isFunctionDeclaration (s : Symbol) : Bool := s.isFunction && s.value.isNone

def isFunctionDefinition (s : Symbol) : Bool := s.isFunction && s.value.isStmt

/-- Give a declared function its body. -/
def updateFnDeclarationWithDefinition (s : Symbol) (body : Stmt) : Option Symbol :=
  if s.isFunctionDeclaration then some { s with value := .stmt body } else none

/-- The expression that names a symbol. -/
def toExpr (s : Symbol) : Expr := .mk (.symbol s.name) s.typ .none

end Symbol

end Rmc

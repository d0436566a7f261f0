import Rmc.Goto.Builtin

/-!
# Constructors of statements

The constructors of `stmt.rs`. Assignments between different types are not refused: they become
an assertion failure followed by an assignment of a nondeterministic value. The failure message
holds the debug form of both types, which is a parameter here.
-/

namespace Rmc

/-- How types are printed in messages. -/
class DebugTyp where
  debug : Typ → String

namespace Stmt

/-- An expression statement. -/
def codeExpression (e : Expr) (loc : Location) : Stmt := .mk (.expression e) loc

/-- An assertion, which is a call of the model checker's own function. -/
def assert (cond : Expr) (msg : String) (loc : Location) : Option Stmt := do
  guard cond.typ.isBool
  let e ← BuiltinFn.cProverAssert.call [cond, ← Expr.stringConstant msg] loc
  return codeExpression e loc

def assertFalse (msg : String) (loc : Location) : Option Stmt := assert Expr.boolFalse msg loc

def assume (cond : Expr) (loc : Location) : Option Stmt := do
  guard cond.typ.isBool
  return .mk (.assume cond) loc

def block (stmts : List Stmt) (loc : Location) : Stmt := .mk (.block stmts) loc

def atomicBlock (stmts : List Stmt) (loc : Location) : Stmt := .mk (.atomicBlock stmts) loc

/-- The assignment `lhs = rhs`. -/
def assign [DebugTyp] (lhs rhs : Expr) (loc : Location) : Option Stmt :=
  if lhs.typ == rhs.typ then some (.mk (.assign lhs rhs) loc)
  else do
    let assertStmt ← assertFalse ("Reached assignment statement with unequal types " ++
      DebugTyp.debug lhs.typ ++ " " ++ DebugTyp.debug rhs.typ) loc
    let nondetAssignStmt := .mk (.assign lhs lhs.typ.nondet) loc
    return block [assertStmt, nondetAssignStmt] loc

/-- An assertion about the translation itself, which also blocks the paths that fail it. -/
def assertSanityCheck (expectTrue : Expr) (message url : String) (loc : Location) :
    Option Stmt := do
  let assertMsg := "Code generation sanity check: " ++ message ++
    ". Please report failures:\n" ++ url
  return block [← assert expectTrue assertMsg loc, ← assume expectTrue loc] loc

def breakStmt (loc : Location) : Stmt := .mk .break loc

def continueStmt (loc : Location) : Stmt := .mk .continue loc

/-- The declaration `lhs.typ lhs = value`. -/
def decl (lhs : Expr) (value : Option Expr) (loc : Location) : Option Stmt := do
  guard lhs.isSymbol
  guard (value.all fun x => lhs.typ == x.typ)
  return .mk (.decl lhs value) loc

def forLoop (init : Stmt) (cond : Expr) (update body : Stmt) (loc : Location) :
    Option Stmt := do
  guard cond.typ.isBool
  return .mk (.for init cond update body) loc

/-- The call `lhs = function(arguments)`. -/
def functionCall (lhs : Option Expr) (function : Expr) (arguments : List Expr)
    (loc : Location) : Option Stmt := do
  guard (Expr.typecheckCall function arguments)
  let returnType ← function.typ.returnType
  guard (lhs.all fun x => x.typ == returnType)
  return .mk (.functionCall lhs function arguments) loc

def goto (dest : String) (loc : Location) : Option Stmt := do
  guard (dest ≠ "")
  return .mk (.goto dest) loc

def ifThenElse (i : Expr) (t : Stmt) (e : Option Stmt) (loc : Location) : Option Stmt := do
  guard i.typ.isBool
  return .mk (.ifthenelse i t e) loc

def ret (e : Option Expr) (loc : Location) : Stmt := .mk (.return e) loc

def skip (loc : Location) : Stmt := .mk .skip loc

def switch (control : Expr) (cases : List SwitchCase) (default : Option Stmt)
    (loc : Location) : Option Stmt := do
  guard (cases.all fun x => x.value.typ == control.typ)
  return .mk (.switch control cases default) loc

def whileLoop (cond : Expr) (body : Stmt) (loc : Location) : Option Stmt := do
  guard cond.typ.isBool
  return .mk (.while cond body) loc

def withLabel (self : Stmt) (label : String) : Option Stmt := do
  guard (label ≠ "")
  return .mk (.label label self) self.location

end Stmt

end Rmc

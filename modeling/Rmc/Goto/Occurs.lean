import Rmc.Goto.ByConstruction

/-!
# What occurs in a program

The types that occur in a type and the expressions that occur in an expression or a statement, as
lists. Two kinds of expressions occur in nothing that the constructors build: assignments, and the
operations that change their operand before they read it.
-/

namespace Rmc

open OrdMap PartialFix

/-! ### Expressions in a tree -/

mutual

/-- The expressions that occur in an expression. -/
def Expr.subExprs : Expr → List Expr
  | .mk v t l => .mk v t l :: v.subExprs

/-- The expressions that occur below a value. -/
def ExprValue.subExprs : ExprValue → List Expr
  | .addressOf e => e.subExprs
  | .array es => subExprsOfExprs es
  | .arrayOf e => e.subExprs
  | .assign l r => l.subExprs ++ r.subExprs
  | .binOp _ l r => l.subExprs ++ r.subExprs
  | .boolConstant _ => []
  | .byteExtract e _ => e.subExprs
  | .cBoolConstant _ => []
  | .dereference e => e.subExprs
  | .doubleConstant _ => []
  | .floatConstant _ => []
  | .functionCall f es => f.subExprs ++ subExprsOfExprs es
  | .ite c t e => c.subExprs ++ t.subExprs ++ e.subExprs
  | .index a i => a.subExprs ++ i.subExprs
  | .intConstant _ => []
  | .member e _ => e.subExprs
  | .nondet => []
  | .pointerConstant _ => []
  | .selfOp _ e => e.subExprs
  | .statementExpression ss => subExprsOfStmts ss
  | .stringConstant _ => []
  | .struct es => subExprsOfExprs es
  | .symbol _ => []
  | .typecast e => e.subExprs
  | .union e _ => e.subExprs
  | .unOp _ e => e.subExprs
  | .vector es => subExprsOfExprs es

/-- The expressions that occur in a statement. -/
def Stmt.subExprs : Stmt → List Expr
  | .mk b _ => b.subExprs

/-- The expressions that occur in the body of a statement. -/
def StmtBody.subExprs : StmtBody → List Expr
  | .assign l r => l.subExprs ++ r.subExprs
  | .assume c => c.subExprs
  | .atomicBlock ss => subExprsOfStmts ss
  | .block ss => subExprsOfStmts ss
  | .break => []
  | .continue => []
  | .decl l v => l.subExprs ++ subExprsOfExpr? v
  | .expression e => e.subExprs
  | .for i c u b => i.subExprs ++ c.subExprs ++ u.subExprs ++ b.subExprs
  | .functionCall l f es => subExprsOfExpr? l ++ f.subExprs ++ subExprsOfExprs es
  | .goto _ => []
  | .ifthenelse i t e => i.subExprs ++ t.subExprs ++ subExprsOfStmt? e
  | .label _ s => s.subExprs
  | .return e => subExprsOfExpr? e
  | .skip => []
  | .switch c cases d => c.subExprs ++ subExprsOfCases cases ++ subExprsOfStmt? d
  | .while c s => c.subExprs ++ s.subExprs

/-- The expressions that occur in an arm of a switch statement. -/
def SwitchCase.subExprs : SwitchCase → List Expr
  | .mk e s => e.subExprs ++ s.subExprs

def subExprsOfExprs : List Expr → List Expr
  | [] => []
  | e :: es => e.subExprs ++ subExprsOfExprs es

def subExprsOfStmts : List Stmt → List Expr
  | [] => []
  | s :: ss => s.subExprs ++ subExprsOfStmts ss

def subExprsOfCases : List SwitchCase → List Expr
  | [] => []
  | c :: cs => c.subExprs ++ subExprsOfCases cs

def subExprsOfExpr? : Option Expr → List Expr
  | none => []
  | some e => e.subExprs

def subExprsOfStmt? : Option Stmt → List Expr
  | none => []
  | some s => s.subExprs

end

variable {v : ExprValue} {e : Expr} {b : StmtBody}

section Lists

@[simp] lemma subExprsOfExprs_eq (es : List Expr) :
    subExprsOfExprs es = es.flatMap Expr.subExprs := by
  induction es with
  | nil => rfl
  | cons e es ih => rw [subExprsOfExprs, ih, List.flatMap_cons]

@[simp] lemma subExprsOfStmts_eq (ss : List Stmt) :
    subExprsOfStmts ss = ss.flatMap Stmt.subExprs := by
  induction ss with
  | nil => rfl
  | cons s ss ih => rw [subExprsOfStmts, ih, List.flatMap_cons]

@[simp] lemma subExprsOfCases_eq (cs : List SwitchCase) :
    subExprsOfCases cs = cs.flatMap SwitchCase.subExprs := by
  induction cs with
  | nil => rfl
  | cons c cs ih => rw [subExprsOfCases, ih, List.flatMap_cons]

@[simp] lemma subExprsOfExpr?_eq (o : Option Expr) :
    subExprsOfExpr? o = o.toList.flatMap Expr.subExprs := by
  cases o <;> simp [subExprsOfExpr?]

@[simp] lemma subExprsOfStmt?_eq (o : Option Stmt) :
    subExprsOfStmt? o = o.toList.flatMap Stmt.subExprs := by
  cases o <;> simp [subExprsOfStmt?]

@[simp] lemma Stmt.subExprs_withLocation (s : Stmt) (l : Location) :
    (s.withLocation l).subExprs = s.subExprs := by
  cases s
  rfl

@[simp] lemma Expr.self_mem_subExprs (e : Expr) : e ∈ e.subExprs := by
  cases e
  exact List.mem_cons_self

lemma Expr.forall_mem_subExprs {P : Expr → Prop} :
    (∀ x ∈ e.subExprs, P x) ↔ P e ∧ ∀ x ∈ e.value.subExprs, P x := by
  cases e
  exact List.forall_mem_cons

variable {x : Expr}

/-- What occurs below a value occurs in one of its parts. -/
lemma ExprValue.mem_subExprs :
    x ∈ v.subExprs ↔
    (∃ e ∈ v.exprs, x ∈ e.subExprs) ∨ ∃ s ∈ v.stmts, x ∈ s.subExprs := by
  cases v <;> simp [ExprValue.subExprs, ExprValue.exprs, ExprValue.stmts]

lemma StmtBody.mem_subExprs :
    x ∈ b.subExprs ↔
    (∃ e ∈ b.exprs, x ∈ e.subExprs) ∨ ∃ s ∈ b.stmts, x ∈ s.subExprs := by
  have hcase : ∀ c : SwitchCase, c.subExprs = c.value.subExprs ++ c.body.subExprs := by
    rintro ⟨e, s⟩
    rfl
  cases b <;> simp [StmtBody.subExprs, StmtBody.exprs, StmtBody.stmts, hcase]
  all_goals grind

end Lists

/-! ### What is never built -/

/-- Every expression that occurs in an expression can be built. -/
def Expr.Constructible (e : Expr) : Prop := ∀ x ∈ e.subExprs, x.value.constructible = true

/-- Every expression that occurs in a statement can be built. -/
def Stmt.Constructible (s : Stmt) : Prop := ∀ x ∈ s.subExprs, x.value.constructible = true

lemma Expr.constructible_iff :
    e.Constructible ↔
    e.value.constructible = true ∧ ∀ x ∈ e.value.subExprs, x.value.constructible = true :=
  Expr.forall_mem_subExprs

variable {t : Typ}

@[simp] lemma Expr.constructible_new :
    (Expr.new v t).Constructible ↔
    v.constructible = true ∧ ∀ x ∈ v.subExprs, x.value.constructible = true :=
  Expr.constructible_iff

/-- The basic constructors make nothing else. -/
lemma closed_constructible [Ranked String] (st : SymbolTable) :
    Closed st Expr.Constructible Stmt.Constructible := by
  refine Closed.of_nodes ?_ ?_ ?_ ?_ ?_
  · intro e l h
    rw [Expr.constructible_iff] at h ⊢
    simpa using h
  · intro es t l h x hx y hy
    refine h y (List.mem_cons_of_mem _ ?_)
    exact ExprValue.mem_subExprs.2 (.inl ⟨x, hx, hy⟩)
  · intro v t _ hc he hs
    refine Expr.constructible_new.2 ⟨hc, fun x hx => ?_⟩
    rcases ExprValue.mem_subExprs.1 hx with ⟨e, hmem, hx⟩ | ⟨s, hmem, hx⟩
    · exact he e hmem x hx
    · exact hs s hmem x hx
  · intro s l h
    rw [Stmt.Constructible, Stmt.subExprs_withLocation]
    exact h
  · intro b l _ he hs x hx
    rcases StmtBody.mem_subExprs.1 hx with ⟨e, hmem, hx⟩ | ⟨s, hmem, hx⟩
    · exact he e hmem x hx
    · exact hs s hmem x hx

/-- Every node of the tree can be built. -/
def Node.Constructible : Node → Prop
  | .expr e => e.Constructible
  | .stmt s => s.Constructible

/-- What the constructors compose holds no assignment expression and no operation that changes its
operand first. -/
theorem constructible_of_composed [Ranked String] [DebugTyp] {st : SymbolTable} {n : Node}
    (h : Composed st n) : n.Constructible :=
  Composed.induction (P := fun _ n => n.Constructible) (fun h _ => h) closed_constructible h

end Rmc

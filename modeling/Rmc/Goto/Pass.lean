import Rmc.Goto.Rename

/-!
# Passes

A pass is a traversal without effects: a map of trees. It renames, keeps some of the values of
struct initializers as they are, and replaces nodes. A transformer with effects yields what a pass
maps a tree to, when it does so at every node that it visits.
-/

namespace Rmc

open Effect

/-- Whether an expression is built from its type, and not only from its parts. -/
def ExprValue.usesTyp : ExprValue → Bool
  | .array _ | .arrayOf _ | .byteExtract _ _ | .intConstant _ | .nondet | .pointerConstant _ => true
  | .statementExpression _ | .struct _ | .symbol _ | .typecast _ | .union _ _ | .vector _ => true
  | _ => false

/-! ### Events of a traversal -/

/-- The names in an expression itself, but for those in its type. -/
def ExprValue.names : ExprValue → List String
  | .member _ field => [field]
  | .symbol identifier => [identifier]
  | .union _ field => [field]
  | _ => []

def StmtBody.names : StmtBody → List String
  | .goto dest => [dest]
  | .label name _ => [name]
  | _ => []

/-- What happens when a type or a name is transformed, and when a node is built. -/
structure Events (ε : Type*) where
  typ : Typ → List ε
  name : String → List ε
  node : Node → List ε

namespace Events

variable {ε : Type*} (ev : Events ε) (marked : Typ → List Expr → List Bool)

mutual

/-- The events of an expression in the order of the traversal, where only the marked values of a
struct initializer are transformed. -/
def expr : Expr → List ε
  | .mk v t l => value v t ++ ev.node (.expr (.mk v t l))

def value : ExprValue → Typ → List ε
  | .addressOf e, _ => expr e
  | .array es, t => ev.typ t ++ exprs es
  | .arrayOf e, t => ev.typ t ++ expr e
  | .assign l r, _ => expr l ++ expr r
  | .binOp _ l r, _ => expr l ++ expr r
  | .byteExtract e _, t => ev.typ t ++ expr e
  | .dereference e, _ => expr e
  | .functionCall f es, _ => expr f ++ exprs es
  | .ite c t e, _ => expr c ++ (expr t ++ expr e)
  | .index a i, _ => expr a ++ expr i
  | .intConstant _, t => ev.typ t
  | .member e field, _ => expr e ++ ev.name field
  | .nondet, t => ev.typ t
  | .pointerConstant _, t => ev.typ t
  | .selfOp _ e, _ => expr e
  | .statementExpression ss, t => ev.typ t ++ stmts ss
  | .struct es, t => ev.typ t ++ values es (marked t es)
  | .symbol identifier, t => ev.typ t ++ ev.name identifier
  | .typecast e, t => ev.typ t ++ expr e
  | .union e field, t => ev.typ t ++ (expr e ++ ev.name field)
  | .unOp _ e, _ => expr e
  | .vector es, t => ev.typ t ++ exprs es
  | _, _ => []

def stmt : Stmt → List ε
  | .mk b l => body b ++ ev.node (.stmt (.mk b l))

def body : StmtBody → List ε
  | .assign l r => expr l ++ expr r
  | .assume c => expr c
  | .atomicBlock ss => stmts ss
  | .block ss => stmts ss
  | .decl l v => expr l ++ expr? v
  | .expression e => expr e
  | .for i c u b => stmt i ++ (expr c ++ (stmt u ++ stmt b))
  | .functionCall l f es => expr? l ++ (expr f ++ exprs es)
  | .goto dest => ev.name dest
  | .ifthenelse i t e => expr i ++ (stmt t ++ stmt? e)
  | .label name s => stmt s ++ ev.name name
  | .return e => expr? e
  | .switch c cs d => expr c ++ (cases cs ++ stmt? d)
  | .while c s => expr c ++ stmt s
  | _ => []

def case : SwitchCase → List ε
  | .mk e s => expr e ++ stmt s

def exprs : List Expr → List ε
  | [] => []
  | e :: es => expr e ++ exprs es

def values : List Expr → List Bool → List ε
  | e :: es, flag :: flags => (if flag then expr e else []) ++ values es flags
  | _, _ => []

def stmts : List Stmt → List ε
  | [] => []
  | s :: ss => stmt s ++ stmts ss

def cases : List SwitchCase → List ε
  | [] => []
  | c :: cs => case c ++ cases cs

def expr? : Option Expr → List ε
  | none => []
  | some e => expr e

def stmt? : Option Stmt → List ε
  | none => []
  | some s => stmt s

end

/-- The events of the value of a symbol. -/
def symbolValue : SymbolValues → List ε
  | .expr e => ev.expr marked e
  | .stmt s => ev.stmt marked s
  | .none => []

/-! Events of lists of parts. -/

lemma exprs_eq (es : List Expr) : ev.exprs marked es = es.flatMap (ev.expr marked) := by
  induction es with
  | nil => rfl
  | cons e es ih => rw [exprs, ih, List.flatMap_cons]

lemma stmts_eq (ss : List Stmt) : ev.stmts marked ss = ss.flatMap (ev.stmt marked) := by
  induction ss with
  | nil => rfl
  | cons s ss ih => rw [stmts, ih, List.flatMap_cons]

lemma cases_eq (cs : List SwitchCase) : ev.cases marked cs =
    cs.flatMap fun c => ev.expr marked c.value ++ ev.stmt marked c.body := by
  induction cs with
  | nil => rfl
  | cons c cs ih =>
    obtain ⟨e, s⟩ := c
    rw [cases, ih, List.flatMap_cons]
    rfl

lemma expr?_eq (o : Option Expr) :
    ev.expr? marked o = o.toList.flatMap (ev.expr marked) := by
  cases o <;> simp [expr?]

lemma stmt?_eq (o : Option Stmt) :
    ev.stmt? marked o = o.toList.flatMap (ev.stmt marked) := by
  cases o <;> simp [stmt?]

lemma values_subset (es : List Expr) (flags : List Bool) :
    ev.values marked es flags ⊆ es.flatMap (ev.expr marked) := by
  induction es generalizing flags with
  | nil => simp [values]
  | cons e es ih =>
    cases flags with
    | nil => simp [values]
    | cons flag flags =>
      rw [values, List.flatMap_cons]
      refine List.append_subset.2 ⟨?_, List.subset_append_of_subset_right _ (ih flags)⟩
      cases flag <;> simp

/-- The nodes are the events. -/
def nodes : Events Node where
  typ _ := []
  name _ := []
  node n := [n]

end Events

/-! ### Maps of trees -/

/-- A map of names and of nodes, and the choice of what to leave alone. -/
structure Pass where
  name : String → String
  flags : Typ → List Expr → List Bool
  /-- The node with these parts and this type. -/
  node : ExprValue → Typ → Expr

namespace Pass

variable (P : Pass)

def typ (t : Typ) : Typ := t.rename P.name

def traversal : Traversal Id where
  toTypeTraversal := renamer P.name
  flags := P.flags
  expr v t := P.node v (if v.usesTyp then t else P.typ t)
  stmt body := .mk body .none

def expr (e : Expr) : Expr := P.traversal.transformExpr e

/-- The mapped parts of an expression. -/
def value (v : ExprValue) (t : Typ) : ExprValue := (P.traversal.transformExprValue v t).1

def stmt (s : Stmt) : Stmt := P.traversal.transformStmt s

def body (b : StmtBody) : StmtBody := P.traversal.transformStmtBody b

def values (es : List Expr) (flags : List Bool) : List Expr := P.traversal.transformValues es flags

def symbolValue (v : SymbolValues) : SymbolValues := P.traversal.transformValue v

lemma transformExprValue_eq (v : ExprValue) (t : Typ) :
    P.traversal.transformExprValue v t = (P.value v t, if v.usesTyp then P.typ t else t) := by
  cases v <;> rfl

@[simp] lemma usesTyp_value (v : ExprValue) (t : Typ) : (P.value v t).usesTyp = v.usesTyp := by
  cases v <;> rfl

/-- The mapped node has the mapped parts and the mapped type. -/
lemma expr_mk (v : ExprValue) (t : Typ) (l : Location) :
    P.expr (.mk v t l) = (P.node (P.value v t) (P.typ t)).withLocation l := by
  have hexpr : P.expr (.mk v t l) =
      (P.traversal.expr (P.traversal.transformExprValue v t).1
        (P.traversal.transformExprValue v t).2).withLocation l := rfl
  rw [hexpr, transformExprValue_eq]
  by_cases h : v.usesTyp = true
  · simp [traversal, h]
  · simp [traversal, h]

/-- The values that are not kept as they are. -/
def marked (t : Typ) (es : List Expr) : List Bool := P.flags (P.typ t) es

/-! Lists of parts are mapped part by part. -/

lemma transformExprs_eq (es : List Expr) : P.traversal.transformExprs es = es.map P.expr := by
  induction es with
  | nil => rfl
  | cons e es ih =>
    have hcons : P.traversal.transformExprs (e :: es) =
      P.expr e :: P.traversal.transformExprs es := rfl
    rw [hcons, ih, List.map_cons]

lemma transformStmts_eq (ss : List Stmt) : P.traversal.transformStmts ss = ss.map P.stmt := by
  induction ss with
  | nil => rfl
  | cons s ss ih =>
    have hcons : P.traversal.transformStmts (s :: ss) =
      P.stmt s :: P.traversal.transformStmts ss := rfl
    rw [hcons, ih, List.map_cons]

lemma transformCases_eq (cs : List SwitchCase) :
    P.traversal.transformCases cs = cs.map fun c => .mk (P.expr c.value) (P.stmt c.body) := by
  induction cs with
  | nil => rfl
  | cons c cs ih =>
    obtain ⟨e, s⟩ := c
    have hcons : P.traversal.transformCases (.mk e s :: cs) =
      .mk (P.expr e) (P.stmt s) :: P.traversal.transformCases cs := rfl
    rw [hcons, ih, List.map_cons]
    rfl

/-- The values that are not transformed stay as they are. -/
lemma values_eq (es : List Expr) (flags : List Bool) :
    P.values es flags = List.zipWith (fun e flag => if flag then P.expr e else e) es flags := by
  induction es generalizing flags with
  | nil => rfl
  | cons e es ih =>
    cases flags with
    | nil => rfl
    | cons flag flags =>
      have hcons : P.values (e :: es) (flag :: flags) =
          (if flag then P.expr e else e) :: P.values es flags := by
        cases flag <;> rfl
      rw [hcons, ih, List.zipWith_cons_cons]

/-! The parts of a mapped expression. -/

@[simp] lemma value_addressOf (e : Expr) (t : Typ) :
    P.value (.addressOf e) t = .addressOf (P.expr e) := rfl

@[simp] lemma value_array (es : List Expr) (t : Typ) :
    P.value (.array es) t = .array (es.map P.expr) := by
  rw [← transformExprs_eq]
  rfl

@[simp] lemma value_arrayOf (e : Expr) (t : Typ) :
    P.value (.arrayOf e) t = .arrayOf (P.expr e) := rfl

@[simp] lemma value_assign (x y : Expr) (t : Typ) :
    P.value (.assign x y) t = .assign (P.expr x) (P.expr y) := rfl

@[simp] lemma value_binOp (op : BinaryOperand) (x y : Expr) (t : Typ) :
    P.value (.binOp op x y) t = .binOp op (P.expr x) (P.expr y) := rfl

@[simp] lemma value_byteExtract (e : Expr) (n : ℕ) (t : Typ) :
    P.value (.byteExtract e n) t = .byteExtract (P.expr e) n := rfl

@[simp] lemma value_dereference (e : Expr) (t : Typ) :
    P.value (.dereference e) t = .dereference (P.expr e) := rfl

@[simp] lemma value_functionCall (f : Expr) (es : List Expr) (t : Typ) :
    P.value (.functionCall f es) t = .functionCall (P.expr f) (es.map P.expr) := by
  rw [← transformExprs_eq]
  rfl

@[simp] lemma value_ite (c x y : Expr) (t : Typ) :
    P.value (.ite c x y) t = .ite (P.expr c) (P.expr x) (P.expr y) := rfl

@[simp] lemma value_index (a i : Expr) (t : Typ) :
    P.value (.index a i) t = .index (P.expr a) (P.expr i) := rfl

@[simp] lemma value_member (e : Expr) (field : String) (t : Typ) :
    P.value (.member e field) t = .member (P.expr e) (P.name field) := rfl

@[simp] lemma value_selfOp (op : SelfOperand) (e : Expr) (t : Typ) :
    P.value (.selfOp op e) t = .selfOp op (P.expr e) := rfl

@[simp] lemma value_statementExpression (ss : List Stmt) (t : Typ) :
    P.value (.statementExpression ss) t = .statementExpression (ss.map P.stmt) := by
  rw [← transformStmts_eq]
  rfl

@[simp] lemma value_symbol (n : String) (t : Typ) :
    P.value (.symbol n) t = .symbol (P.name n) := rfl

@[simp] lemma value_typecast (e : Expr) (t : Typ) :
    P.value (.typecast e) t = .typecast (P.expr e) := rfl

@[simp] lemma value_union (e : Expr) (field : String) (t : Typ) :
    P.value (.union e field) t = .union (P.expr e) (P.name field) := rfl

@[simp] lemma value_unOp (op : UnaryOperand) (e : Expr) (t : Typ) :
    P.value (.unOp op e) t = .unOp op (P.expr e) := rfl

@[simp] lemma value_vector (es : List Expr) (t : Typ) :
    P.value (.vector es) t = .vector (es.map P.expr) := by
  rw [← transformExprs_eq]
  rfl

/-! The parts of a mapped statement. -/

@[simp] lemma body_assign (x y : Expr) : P.body (.assign x y) = .assign (P.expr x) (P.expr y) := rfl

@[simp] lemma body_assume (c : Expr) : P.body (.assume c) = .assume (P.expr c) := rfl

@[simp] lemma body_atomicBlock (ss : List Stmt) :
    P.body (.atomicBlock ss) = .atomicBlock (ss.map P.stmt) := by
  rw [← transformStmts_eq]
  rfl

@[simp] lemma body_block (ss : List Stmt) : P.body (.block ss) = .block (ss.map P.stmt) := by
  rw [← transformStmts_eq]
  rfl

@[simp] lemma body_decl (x : Expr) (v : Option Expr) :
    P.body (.decl x v) = .decl (P.expr x) (v.map P.expr) := by
  cases v <;> rfl

@[simp] lemma body_expression (e : Expr) : P.body (.expression e) = .expression (P.expr e) := rfl

@[simp] lemma body_for (i : Stmt) (c : Expr) (u s : Stmt) :
    P.body (.for i c u s) = .for (P.stmt i) (P.expr c) (P.stmt u) (P.stmt s) := rfl

@[simp] lemma body_functionCall (x : Option Expr) (f : Expr) (es : List Expr) :
    P.body (.functionCall x f es) = .functionCall (x.map P.expr) (P.expr f) (es.map P.expr) := by
  rw [← transformExprs_eq]
  cases x <;> rfl

@[simp] lemma body_ifthenelse (i : Expr) (t : Stmt) (e : Option Stmt) :
    P.body (.ifthenelse i t e) = .ifthenelse (P.expr i) (P.stmt t) (e.map P.stmt) := by
  cases e <;> rfl

@[simp] lemma body_label (n : String) (s : Stmt) :
    P.body (.label n s) = .label (P.name n) (P.stmt s) := rfl

@[simp] lemma body_return (e : Option Expr) : P.body (.return e) = .return (e.map P.expr) := by
  cases e <;> rfl

@[simp] lemma body_switch (c : Expr) (cases : List SwitchCase) (d : Option Stmt) :
    P.body (.switch c cases d) =
      .switch (P.expr c) (cases.map fun x => .mk (P.expr x.value) (P.stmt x.body))
        (d.map P.stmt) := by
  rw [← transformCases_eq]
  cases d <;> rfl

@[simp] lemma body_while (c : Expr) (s : Stmt) :
    P.body (.while c s) = .while (P.expr c) (P.stmt s) := rfl

end Pass

/-! ### A transformer that follows a pass -/

namespace Pass

variable {σ : Type} {ε : Type*} (P : Pass) (E : Effect σ ε) (m : Traversal (StateT σ Option))
  (ev : Events ε)

/-- At this expression, the transformer does what the pass does. -/
structure FitsExpr (v : ExprValue) (t : Typ) (l : Location) : Prop where
  typ : v.usesTyp = true → E.Yields (m.transformType t) (P.typ t) (ev.typ t)
  names : ∀ n ∈ v.names, E.Yields (m.name n) (P.name n) (ev.name n)
  flags : ∀ es, v = .struct es → E.Yields (m.flags (P.typ t) es) (P.flags (P.typ t) es) []
  node : E.Yields (m.expr (P.value v t) (if v.usesTyp then P.typ t else t))
    (P.node (P.value v t) (P.typ t)) (ev.node (.expr (.mk v t l)))

/-- At this statement, the transformer does what the pass does. -/
structure FitsStmt (b : StmtBody) (l : Location) : Prop where
  names : ∀ n ∈ b.names, E.Yields (m.name n) (P.name n) (ev.name n)
  node : ∃ l', E.Yields (m.stmt (P.body b)) (.mk (P.body b) l') (ev.node (.stmt (.mk b l)))

def Fits : Node → Prop
  | .expr (.mk v t l) => P.FitsExpr E m ev v t l
  | .stmt (.mk b l) => P.FitsStmt E m ev b l

variable {P E m ev}

mutual

/-- Where a transformer fits at every node, it yields the mapped tree. -/
lemma yields_expr (e : Expr) (h : ∀ n ∈ Events.nodes.expr P.marked e, P.Fits E m ev n) :
    E.Yields (m.transformExpr e) (P.expr e) (ev.expr P.marked e) := by
  obtain ⟨v, t, l⟩ := e
  obtain ⟨hbelow, hself⟩ := List.forall_mem_append.mp h
  have hself := List.forall_mem_singleton.mp hself
  have hv := yields_value v t l hself hbelow
  rw [transformExprValue_eq] at hv
  rw [expr_mk]
  exact hv.bind hself.node.map
termination_by structural e

lemma yields_value (v : ExprValue) (t : Typ) (l : Location) (hself : P.FitsExpr E m ev v t l)
    (h : ∀ n ∈ Events.nodes.value P.marked v t, P.Fits E m ev n) :
    E.Yields (m.transformExprValue v t) (P.traversal.transformExprValue v t)
      (ev.value P.marked v t) := by
  cases v with
  | addressOf e => exact (yields_expr e h).map
  | array es => exact (hself.typ rfl).bind (yields_exprs es h).map
  | arrayOf e => exact (hself.typ rfl).bind (yields_expr e h).map
  | assign x y =>
    obtain ⟨hx, hy⟩ := List.forall_mem_append.mp h
    exact (yields_expr x hx).bind (yields_expr y hy).map
  | binOp op x y =>
    obtain ⟨hx, hy⟩ := List.forall_mem_append.mp h
    exact (yields_expr x hx).bind (yields_expr y hy).map
  | boolConstant c => exact .pure
  | byteExtract e n => exact (hself.typ rfl).bind (yields_expr e h).map
  | cBoolConstant c => exact .pure
  | dereference e => exact (yields_expr e h).map
  | doubleConstant c => exact .pure
  | floatConstant c => exact .pure
  | functionCall f es =>
    obtain ⟨hf, hes⟩ := List.forall_mem_append.mp h
    exact (yields_expr f hf).bind (yields_exprs es hes).map
  | ite c x y =>
    obtain ⟨hc, hxy⟩ := List.forall_mem_append.mp h
    obtain ⟨hx, hy⟩ := List.forall_mem_append.mp hxy
    exact (yields_expr c hc).bind ((yields_expr x hx).bind (yields_expr y hy).map)
  | index a i =>
    obtain ⟨ha, hi⟩ := List.forall_mem_append.mp h
    exact (yields_expr a ha).bind (yields_expr i hi).map
  | intConstant i => exact (hself.typ rfl).map
  | member e f =>
    obtain ⟨he, -⟩ := List.forall_mem_append.mp h
    exact (yields_expr e he).bind (hself.names f (by simp [ExprValue.names])).map
  | nondet => exact (hself.typ rfl).map
  | pointerConstant c => exact (hself.typ rfl).map
  | selfOp op e => exact (yields_expr e h).map
  | statementExpression ss => exact (hself.typ rfl).bind (yields_stmts ss h).map
  | stringConstant s => exact .pure
  | struct es =>
    have hvalues := yields_values es (P.marked t es) h
    exact (hself.typ rfl).bind ((hself.flags es rfl).bind hvalues.map)
  | symbol n => exact (hself.typ rfl).bind (hself.names n (by simp [ExprValue.names])).map
  | typecast e => exact (hself.typ rfl).bind (yields_expr e h).map
  | union e f =>
    obtain ⟨-, hef⟩ := List.forall_mem_append.mp h
    obtain ⟨he, -⟩ := List.forall_mem_append.mp hef
    have hf := hself.names f (by simp [ExprValue.names])
    exact (hself.typ rfl).bind ((yields_expr e he).bind hf.map)
  | unOp op e => exact (yields_expr e h).map
  | vector es => exact (hself.typ rfl).bind (yields_exprs es h).map
termination_by structural v

lemma yields_stmt (s : Stmt) (h : ∀ n ∈ Events.nodes.stmt P.marked s, P.Fits E m ev n) :
    E.Yields (m.transformStmt s) (P.stmt s) (ev.stmt P.marked s) := by
  obtain ⟨b, l⟩ := s
  obtain ⟨hbelow, hself⟩ := List.forall_mem_append.mp h
  have hself := List.forall_mem_singleton.mp hself
  obtain ⟨l', hnode⟩ := hself.node
  exact (yields_body b hself.names hbelow).bind hnode.map
termination_by structural s

lemma yields_body (b : StmtBody)
    (hnames : ∀ n ∈ b.names, E.Yields (m.name n) (P.name n) (ev.name n))
    (h : ∀ n ∈ Events.nodes.body P.marked b, P.Fits E m ev n) :
    E.Yields (m.transformStmtBody b) (P.body b) (ev.body P.marked b) := by
  cases b with
  | assign x y =>
    obtain ⟨hx, hy⟩ := List.forall_mem_append.mp h
    exact (yields_expr x hx).bind (yields_expr y hy).map
  | assume c => exact (yields_expr c h).map
  | atomicBlock ss => exact (yields_stmts ss h).map
  | block ss => exact (yields_stmts ss h).map
  | «break» => exact .pure
  | «continue» => exact .pure
  | decl x v =>
    obtain ⟨hx, hv⟩ := List.forall_mem_append.mp h
    exact (yields_expr x hx).bind (yields_expr? v hv).map
  | expression e => exact (yields_expr e h).map
  | «for» i c u b =>
    obtain ⟨hi, hcub⟩ := List.forall_mem_append.mp h
    obtain ⟨hc, hub⟩ := List.forall_mem_append.mp hcub
    obtain ⟨hu, hb⟩ := List.forall_mem_append.mp hub
    exact (yields_stmt i hi).bind ((yields_expr c hc).bind
      ((yields_stmt u hu).bind (yields_stmt b hb).map))
  | functionCall x f es =>
    obtain ⟨hx, hfes⟩ := List.forall_mem_append.mp h
    obtain ⟨hf, hes⟩ := List.forall_mem_append.mp hfes
    exact (yields_expr? x hx).bind ((yields_expr f hf).bind (yields_exprs es hes).map)
  | goto n => exact (hnames n (by simp [StmtBody.names])).map
  | ifthenelse i t e =>
    obtain ⟨hi, hte⟩ := List.forall_mem_append.mp h
    obtain ⟨ht, he⟩ := List.forall_mem_append.mp hte
    exact (yields_expr i hi).bind ((yields_stmt t ht).bind (yields_stmt? e he).map)
  | label n s =>
    obtain ⟨hs, -⟩ := List.forall_mem_append.mp h
    exact (yields_stmt s hs).bind (hnames n (by simp [StmtBody.names])).map
  | «return» e => exact (yields_expr? e h).map
  | skip => exact .pure
  | switch c cs d =>
    obtain ⟨hc, hcasesd⟩ := List.forall_mem_append.mp h
    obtain ⟨hcases, hd⟩ := List.forall_mem_append.mp hcasesd
    exact (yields_expr c hc).bind ((yields_cases cs hcases).bind (yields_stmt? d hd).map)
  | «while» c s =>
    obtain ⟨hc, hs⟩ := List.forall_mem_append.mp h
    exact (yields_expr c hc).bind (yields_stmt s hs).map
termination_by structural b

lemma yields_case (c : SwitchCase) (h : ∀ n ∈ Events.nodes.case P.marked c, P.Fits E m ev n) :
    E.Yields (m.transformCase c) (P.traversal.transformCase c) (ev.case P.marked c) := by
  obtain ⟨e, s⟩ := c
  obtain ⟨he, hs⟩ := List.forall_mem_append.mp h
  exact (yields_expr e he).bind (yields_stmt s hs).map
termination_by structural c

lemma yields_exprs (es : List Expr) (h : ∀ n ∈ Events.nodes.exprs P.marked es, P.Fits E m ev n) :
    E.Yields (m.transformExprs es) (P.traversal.transformExprs es) (ev.exprs P.marked es) := by
  cases es with
  | nil => exact .pure
  | cons e es =>
    obtain ⟨he, hes⟩ := List.forall_mem_append.mp h
    exact (yields_expr e he).bind (yields_exprs es hes).map
termination_by structural es

lemma yields_values (es : List Expr) (flags : List Bool)
    (h : ∀ n ∈ Events.nodes.values P.marked es flags, P.Fits E m ev n) :
    E.Yields (m.transformValues es flags) (P.values es flags) (ev.values P.marked es flags) := by
  cases es with
  | nil => exact .pure
  | cons e es =>
    cases flags with
    | nil => exact .pure
    | cons flag flags =>
      obtain ⟨he, hes⟩ := List.forall_mem_append.mp h
      cases flag with
      | true => exact (yields_expr e he).bind (yields_values es flags hes).map
      | false => exact Yields.pure.bind (yields_values es flags hes).map
termination_by structural es

lemma yields_stmts (ss : List Stmt) (h : ∀ n ∈ Events.nodes.stmts P.marked ss, P.Fits E m ev n) :
    E.Yields (m.transformStmts ss) (P.traversal.transformStmts ss) (ev.stmts P.marked ss) := by
  cases ss with
  | nil => exact .pure
  | cons s ss =>
    obtain ⟨hs, hss⟩ := List.forall_mem_append.mp h
    exact (yields_stmt s hs).bind (yields_stmts ss hss).map
termination_by structural ss

lemma yields_cases (cs : List SwitchCase)
    (h : ∀ n ∈ Events.nodes.cases P.marked cs, P.Fits E m ev n) :
    E.Yields (m.transformCases cs) (P.traversal.transformCases cs) (ev.cases P.marked cs) := by
  cases cs with
  | nil => exact .pure
  | cons c cs =>
    obtain ⟨hc, hcs⟩ := List.forall_mem_append.mp h
    exact (yields_case c hc).bind (yields_cases cs hcs).map
termination_by structural cs

lemma yields_expr? (o : Option Expr) (h : ∀ n ∈ Events.nodes.expr? P.marked o, P.Fits E m ev n) :
    E.Yields (m.transformExpr? o) (P.traversal.transformExpr? o) (ev.expr? P.marked o) := by
  cases o with
  | none => exact .pure
  | some e => exact (yields_expr e h).map
termination_by structural o

lemma yields_stmt? (o : Option Stmt) (h : ∀ n ∈ Events.nodes.stmt? P.marked o, P.Fits E m ev n) :
    E.Yields (m.transformStmt? o) (P.traversal.transformStmt? o) (ev.stmt? P.marked o) := by
  cases o with
  | none => exact .pure
  | some s => exact (yields_stmt s h).map
termination_by structural o

end

/-- Where a transformer fits at every node, it yields the mapped value of a symbol. -/
lemma yields_symbolValue (v : SymbolValues)
    (h : ∀ n ∈ Events.nodes.symbolValue P.marked v, P.Fits E m ev n) :
    E.Yields (m.transformValue v) (P.symbolValue v) (ev.symbolValue P.marked v) := by
  cases v with
  | expr e => exact (yields_expr e h).map
  | stmt s => exact (yields_stmt s h).map
  | none => exact .pure

end Pass

end Rmc

import Mathlib.Data.List.Find
import Rmc.Goto.Pass

/-!
# Passes keep types

What the rules give a type is built by the constructors again (`ExprValue.rebuild_of_hasType`). A
pass that gives every node the type it is asked for maps typed nodes to typed nodes, where the new
table has for each tag what the old table has for it, renamed. So a transformer that follows such a
pass builds every node, and its result is well typed.
-/

namespace Rmc

open OrdMap Effect

variable {t : Typ} {e : Expr} {b : StmtBody} {v : ExprValue} {op : UnaryOperand}

section Rebuild

variable [Ranked String] [DebugTyp] {st : SymbolTable}

omit [Ranked String] [DebugTyp] in
lemma castTo_same (h : e.typ = t) : e.castTo t = some e := by
  subst h
  refine Expr.castTo_eq_some.2 ⟨?_, .inl ⟨Typ.beq_self _, rfl⟩⟩
  simp [Expr.canCastTo, Expr.canCastFrom]

variable {t' : Typ}

omit [DebugTyp] in
/-- A unary operation is built by the constructor of its operator; the two constructors that cast
their operand find the type that they cast to. -/
private lemma rebuild_unOp (h : UnopHasType op e.typ t) :
    (ExprValue.unOp op e).rebuild st t' = some (Expr.new (.unOp op e) t) := by
  obtain ⟨hcheck, rfl⟩ := unopHasType_iff.1 h
  have hnew := Expr.unop_eq_some.2 ⟨hcheck, rfl⟩
  cases op
  case not =>
    have hb : e.typ = .bool := Typ.isBool_iff.1 hcheck
    simpa [ExprValue.rebuild, Expr.not, castTo_same hb] using hnew
  case pointerOffset =>
    have hp : e.typ = .voidPointer := Typ.beq_voidPointer_iff.1 hcheck
    simpa [ExprValue.rebuild, Expr.pointerOffset, castTo_same hp] using hnew
  all_goals exact hnew

omit [DebugTyp] in
/-- The constructors build the nodes that the rules give a type. -/
lemma ExprValue.rebuild_of_hasType (h : v.HasType st t) (hc : v.constructible = true)
    (ht : v.usesTyp = true → t' = t) :
    v.rebuild st t' = some (Expr.new v t) := by
  cases h with
  | addressOf h => exact Expr.addressOf_eq_some.2 ⟨h, rfl⟩
  | array hlen hall =>
    obtain rfl := ht rfl
    subst hlen
    exact Expr.arrayExpr_eq_some.2 ⟨_, rfl, hall, rfl⟩
  | arrayOf h =>
    obtain rfl := ht rfl
    exact Expr.arrayConstant_eq_some.2 ⟨h, rfl⟩
  | assign => simp [ExprValue.constructible] at hc
  | binOp hop =>
    obtain ⟨hcheck, rfl⟩ := binopHasType_iff.1 hop
    exact Expr.binop_eq_some.2 ⟨hcheck, rfl⟩
  | boolConstant => rfl
  | byteExtract he hsize =>
    obtain rfl := ht rfl
    exact Expr.transmuteTo_eq_some.2 ⟨_, he, hsize, rfl⟩
  | cBoolConstant => rfl
  | dereference h => exact Expr.dereference_eq_some.2 ⟨_, h, rfl⟩
  | doubleConstant => rfl
  | floatConstant => rfl
  | functionCall hcall =>
    obtain ⟨hcheck, hret⟩ := callHasType_iff.1 hcall
    exact Expr.call_eq_some.2 ⟨hcheck, _, hret, rfl⟩
  | ite hb hsame => exact Expr.ternary_eq_some.2 ⟨hsame, _, castTo_same hb, rfl⟩
  | @index a i t hi ha hbase =>
    have hp : a.typ.isPointer = false := by
      cases hat : a.typ <;> simp_all [Typ.isArrayLike, Typ.isPointer]
    have hindex : a.indexArray i = some (Expr.new (.index a i) t) :=
      Expr.indexArray_eq_some.2 ⟨hi, ha, _, hbase, rfl⟩
    simp [ExprValue.rebuild, Expr.index, hi, hp, ha, hindex]
  | intConstant hi =>
    obtain rfl := ht rfl
    exact Expr.intConstant_eq_some.2 ⟨hi, rfl⟩
  | member htag hlookup => exact Expr.member_eq_some.2 ⟨htag, _, hlookup, rfl⟩
  | nondet =>
    obtain rfl := ht rfl
    rfl
  | pointerConstant =>
    obtain rfl := ht rfl
    rfl
  | @selfOp op e hop =>
    -- only the operations that read their operand first can be built
    cases op with
    | predecrement | preincrement => simp [ExprValue.constructible] at hc
    | postdecrement | postincrement => exact Expr.selfOp_eq_some.2 ⟨hop, rfl⟩
  | statementExpression hlast hsame =>
    obtain rfl := ht rfl
    exact Expr.statementExpression_eq_some.2 ⟨_, _, hlast, hsame, rfl⟩
  | stringConstant => rfl
  | struct hfields hall =>
    obtain rfl := ht rfl
    exact Expr.structExprFromPaddedValues_eq_some.2 ⟨rfl, _, hfields, accepts_iff.1 hall, rfl⟩
  | symbol =>
    obtain rfl := ht rfl
    rfl
  | typecast hlegal hne hb =>
    obtain rfl := ht rfl
    have hbool : t'.isBool = false := by
      rw [← Bool.not_eq_true, Typ.isBool_iff]
      exact hb
    exact Expr.castTo_eq_some.2 ⟨castLegal_iff.1 hlegal, .inr (.inr ⟨hne, hbool, rfl⟩)⟩
  | union hlookup hsame =>
    obtain rfl := ht rfl
    exact Expr.unionExpr_eq_some.2 ⟨rfl, _, hlookup, hsame, rfl⟩
  | unOp hop => exact rebuild_unOp hop
  | vector hlen hall =>
    obtain rfl := ht rfl
    subst hlen
    exact Expr.vectorExpr_eq_some.2 ⟨_, rfl, hall, rfl⟩

omit [Ranked String] in
/-- A statement whose sides agree is built again, at some location. -/
lemma StmtBody.rebuild_of_agrees (h : b.Agrees) : ∃ l, b.rebuild = some (.mk b l) := by
  cases h with
  | assign h => exact ⟨.none, by simp [StmtBody.rebuild, Stmt.assign, h]⟩
  | assume h => exact ⟨.none, by simp [StmtBody.rebuild, Stmt.assume, h, Typ.isBool]⟩
  | @decl x v hl h =>
    have hall : v.all (fun y => x.typ == y.typ) = true := by
      cases v with
      | none => rfl
      | some y => exact h y rfl
    exact ⟨.none, by simp [StmtBody.rebuild, Stmt.decl, hl, hall]⟩
  | «for» h => exact ⟨.none, by simp [StmtBody.rebuild, Stmt.forLoop, h, Typ.isBool]⟩
  | @functionCall x f args t hcall hl =>
    obtain ⟨hcheck, hret⟩ := callHasType_iff.1 hcall
    refine ⟨.none, ?_⟩
    cases x with
    | none => simp [StmtBody.rebuild, Stmt.functionCall, hcheck, hret]
    | some y => simp [StmtBody.rebuild, Stmt.functionCall, hcheck, hret, hl y rfl]
  | goto h => exact ⟨.none, by simp [StmtBody.rebuild, Stmt.goto, h]⟩
  | ifthenelse h => exact ⟨.none, by simp [StmtBody.rebuild, Stmt.ifThenElse, h, Typ.isBool]⟩
  | @label n s h => exact ⟨s.location, by simp [StmtBody.rebuild, Stmt.withLabel, h]⟩
  | switch h => exact ⟨.none, by simpa [StmtBody.rebuild, Stmt.switch] using h⟩
  | «while» h => exact ⟨.none, by simp [StmtBody.rebuild, Stmt.whileLoop, h, Typ.isBool]⟩
  | _ => exact ⟨.none, rfl⟩

omit [Ranked String] [DebugTyp] in
lemma StmtBody.Agrees.names_ne (h : b.Agrees) : ∀ n ∈ b.names, n ≠ "" := by
  cases h with
  | goto h => simpa [StmtBody.names] using h
  | label h => simpa [StmtBody.names] using h
  | _ => simp [StmtBody.names]

end Rebuild

/-! ### Nodes of typed trees -/

section Nodes

variable [Ranked String] {st : SymbolTable} {marked : Typ → List Expr → List Bool}

/-- The node itself is typed. -/
def Node.Typed (st : SymbolTable) : Node → Prop
  | .expr (.mk v t _) => v.HasType st t
  | .stmt (.mk b _) => b.Agrees

def Node.subExprs : Node → List Expr
  | .expr e => e.subExprs
  | .stmt s => s.subExprs

/-- A node of a typed tree is typed, and what is below it is in the tree. -/
structure Node.Within (st : SymbolTable) (l : List Expr) (n : Node) : Prop where
  typed : n.Typed st
  sub : n.subExprs ⊆ l

variable {n : Node}

omit [Ranked String] in
lemma mem_nodes_value (h : n ∈ Events.nodes.value marked v t) :
    (∃ e ∈ v.exprs, n ∈ Events.nodes.expr marked e) ∨
      ∃ s ∈ v.stmts, n ∈ Events.nodes.stmt marked s := by
  cases v with
  | struct es =>
    exact .inl (List.mem_flatMap.mp (Events.nodes.values_subset marked es (marked t es) h))
  | _ =>
    simp_all [Events.value, Events.nodes, ExprValue.exprs, ExprValue.stmts, Events.exprs_eq,
      Events.stmts_eq]

omit [Ranked String] in
lemma mem_nodes_body (h : n ∈ Events.nodes.body marked b) :
    (∃ e ∈ b.exprs, n ∈ Events.nodes.expr marked e) ∨
      ∃ s ∈ b.stmts, n ∈ Events.nodes.stmt marked s := by
  cases b <;>
    simp_all [Events.body, Events.nodes, StmtBody.exprs, StmtBody.stmts, Events.exprs_eq,
      Events.stmts_eq, Events.cases_eq, Events.expr?_eq, Events.stmt?_eq]
  all_goals grind

/-- Every node of a typed tree is typed. -/
lemma within_tree :
    (∀ e : Expr, e.WellTyped st → ∀ n ∈ Events.nodes.expr marked e, n.Within st e.subExprs) ∧
      ∀ s : Stmt, s.WellTyped st → ∀ n ∈ Events.nodes.stmt marked s, n.Within st s.subExprs := by
  refine tree_induction (fun v t l ihe ihs h n hn => ?_) fun b l ihe ihs h n hn => ?_
  · obtain ⟨htyp, hv⟩ := h
    obtain ⟨hve, hvs⟩ := ExprValue.wellTyped_iff.mp hv
    rcases List.mem_append.mp hn with hn | hn
    · have hbelow : n.Within st v.subExprs := by
        rcases mem_nodes_value hn with ⟨e, he, hn⟩ | ⟨s, hs, hn⟩
        · have hin := ihe e he (hve e he) n hn
          exact ⟨hin.typed, fun x hx => ExprValue.mem_subExprs.mpr (.inl ⟨e, he, hin.sub hx⟩)⟩
        · have hin := ihs s hs (hvs s hs) n hn
          exact ⟨hin.typed, fun x hx => ExprValue.mem_subExprs.mpr (.inr ⟨s, hs, hin.sub hx⟩)⟩
      exact ⟨hbelow.typed, fun x hx => List.mem_cons_of_mem _ (hbelow.sub hx)⟩
    · obtain rfl := List.mem_singleton.mp hn
      exact ⟨htyp, List.Subset.refl _⟩
  · obtain ⟨hagrees, hb⟩ := h
    obtain ⟨hbe, hbs⟩ := StmtBody.wellTyped_iff.mp hb
    rcases List.mem_append.mp hn with hn | hn
    · rcases mem_nodes_body hn with ⟨e, he, hn⟩ | ⟨s, hs, hn⟩
      · have hin := ihe e he (hbe e he) n hn
        exact ⟨hin.typed, fun x hx => StmtBody.mem_subExprs.mpr (.inl ⟨e, he, hin.sub hx⟩)⟩
      · have hin := ihs s hs (hbs s hs) n hn
        exact ⟨hin.typed, fun x hx => StmtBody.mem_subExprs.mpr (.inr ⟨s, hs, hin.sub hx⟩)⟩
    · obtain rfl := List.mem_singleton.mp hn
      exact ⟨hagrees, List.Subset.refl _⟩

end Nodes

namespace Pass

/-! ### Laws of passes -/

/-- Nodes get the type that is asked for; names of symbols stay names, and what has an address
keeps one. -/
structure Lawful (P : Pass) : Prop where
  typ_node : ∀ v t, (P.node v t).typ = t
  symbol_node : ∀ n t, P.node (.symbol n) t = Expr.new (.symbol n) t
  address_node : ∀ v t, (Expr.new v t).canTakeAddressOf = true →
    (P.node v t).canTakeAddressOf = true

section Laws

variable {P : Pass} (hP : P.Lawful)

include hP

@[simp] lemma Lawful.typ_expr (e : Expr) : (P.expr e).typ = P.typ e.typ := by
  obtain ⟨v, t, l⟩ := e
  rw [expr_mk, Expr.typ_withLocation, hP.typ_node]
  rfl

lemma Lawful.canTakeAddressOf_expr (h : e.canTakeAddressOf = true) :
    (P.expr e).canTakeAddressOf = true := by
  obtain ⟨v, t, l⟩ := e
  have hvalue : (Expr.new (P.value v t) (P.typ t)).canTakeAddressOf = true := by
    cases v <;> first | rfl | simp [Expr.canTakeAddressOf] at h
  rw [expr_mk, Expr.canTakeAddressOf, Expr.value_withLocation]
  exact hP.address_node _ _ hvalue

lemma Lawful.isSymbol_expr (h : e.isSymbol = true) : (P.expr e).isSymbol = true := by
  obtain ⟨v, t, l⟩ := e
  cases v with
  | symbol n =>
    have hvalue : P.value (.symbol n) t = .symbol (P.name n) := rfl
    rw [expr_mk, hvalue, hP.symbol_node]
    rfl
  | _ => simp [Expr.isSymbol] at h

end Laws

/-! ### Tables that carry the renamed tags -/

section Table

variable [Ranked String] {ft : Typ}

/-- One table says of certain tags what another says, renamed. -/
structure Carries (P : Pass) (T : String → Prop) (st st' : SymbolTable) : Prop where
  machineModel : st'.machineModel = st.machineModel
  lookup : ∀ {tag s}, T tag → st.lookup tag = some s →
    ∃ s', st'.lookup (P.name tag) = some s' ∧ s'.typ = P.typ s.typ
  closed : ∀ {tag s}, T tag → st.lookup tag = some s → s.typ.TagsIn T
  fields : ∀ {tag s cs}, T tag → st.lookup tag = some s → s.typ.components = some cs →
    Set.InjOn P.name {n | n ∈ cs.map DatatypeComponent.name}

namespace Carries

variable {P : Pass} {T : String → Prop} {st st' : SymbolTable} (h : P.Carries T st st')

include h

variable {tag field : String}

lemma lookupComponents {cs : List DatatypeComponent} (hT : T tag)
    (hcs : st.lookupComponents tag = some cs) :
    st'.lookupComponents (P.name tag) = some (cs.map (·.rename P.name)) := by
  simp only [SymbolTable.lookupComponents, bind_eq_some] at hcs ⊢
  obtain ⟨s, hs, hcs⟩ := hcs
  obtain ⟨s', hs', ht⟩ := h.lookup hT hs
  refine ⟨s', hs', ?_⟩
  rw [ht, Pass.typ, Typ.components_rename, hcs]
  rfl

lemma lookupFieldType (hT : T tag) (hf : st.lookupFieldType tag field = some t) :
    st'.lookupFieldType (P.name tag) (P.name field) = some (P.typ t) := by
  simp only [SymbolTable.lookupFieldType, bind_eq_some] at hf ⊢
  obtain ⟨cs, hcs, c, hc, hft⟩ := hf
  refine ⟨_, h.lookupComponents hT hcs, c.rename P.name, ?_, by simp [hft, Pass.typ]⟩
  obtain ⟨s, hs, hscs⟩ := bind_eq_some.mp hcs
  have hinj := h.fields hT hs hscs
  have hfield : field ∈ cs.map DatatypeComponent.name := by
    have hname := List.find?_some hc
    rw [beq_iff_eq] at hname
    exact hname ▸ List.mem_map_of_mem (List.mem_of_find?_eq_some hc)
  have hcongr : ∀ x ∈ cs, ((x.rename P.name).name == P.name field) = (x.name == field) := by
    intro x hx
    rw [DatatypeComponent.name_rename, Bool.eq_iff_iff, beq_iff_eq, beq_iff_eq]
    exact hinj.eq_iff (List.mem_map_of_mem hx) hfield
  have hfind : cs.find? ((fun c => c.name == P.name field) ∘ fun x => x.rename P.name) =
      some c := by
    rw [← hc]
    exact List.find?_congr hcongr
  rw [List.find?_map, hfind]
  rfl

lemma lookupFieldTypeInType (hT : t.TagsIn T) (ht : t.isStructTag = true ∨ t.isUnionTag = true)
    (hf : st.lookupFieldTypeInType t field = some ft) :
    st'.lookupFieldTypeInType (P.typ t) (P.name field) = some (P.typ ft) := by
  rcases ht with ht | ht
  · obtain ⟨tag, rfl⟩ := Typ.isStructTag_iff.1 ht
    exact h.lookupFieldType (hT tag (.inl (Typ.self_mem_subTypes _))) hf
  · obtain ⟨tag, rfl⟩ := Typ.isUnionTag_iff.1 ht
    exact h.lookupFieldType (hT tag (.inr (Typ.self_mem_subTypes _))) hf

/-- Sizes are found by following tags, which stays among the tags that are carried. -/
lemma approx_sizeofTagStep (n : ℕ) {k : ℕ} (hT : T tag)
    (hk : PartialFix.approx st.sizeofTagStep n tag = some k) :
    PartialFix.approx st'.sizeofTagStep n (P.name tag) = some k := by
  induction n generalizing tag k with
  | zero => simp [PartialFix.approx] at hk
  | succ n ih =>
    simp only [PartialFix.approx, SymbolTable.sizeofTagStep, bind_eq_some] at hk ⊢
    obtain ⟨s, hs, hk⟩ := hk
    obtain ⟨s', hs', ht⟩ := h.lookup hT hs
    refine ⟨s', hs', ?_⟩
    rw [h.machineModel, ht]
    exact Typ.sizeofWith_rename (fun tag n htag hn => ih htag hn) s.typ (h.closed hT hs) hk

lemma sizeofInBits {n : ℕ} (hT : t.TagsIn T) (ht : t.sizeofInBits st = some n) :
    (P.typ t).sizeofInBits st' = some n := by
  rw [Typ.sizeofInBits, h.machineModel]
  refine Typ.sizeofWith_rename (fun tag k htag hk => ?_) t hT ht
  exact st'.approx_sizeofTagStep_extends _ _ k (h.approx_sizeofTagStep _ htag hk)

end Carries

/-! ### Operations on renamed types -/

section

omit [Ranked String]

section

variable (f : String → String)

lemma binopHasType_rename {op : BinaryOperand} {l r : Typ} (h : BinopHasType op l r t) :
    BinopHasType op (l.rename f) (r.rename f) (t.rename f) := by
  cases h with
  | arith hop same h => exact .arith hop (Typ.beq_rename same) (by simpa using h)
  | pointerOffset hop hl hr => exact .pointerOffset hop (by simpa using hl) (by simpa using hr)
  | pointerDifference same hl => exact .pointerDifference (Typ.beq_rename same) (by simpa using hl)
  | shift hop hl hr => exact .shift hop (by simpa using hl) (by simpa using hr)
  | vectorShift hop same h => exact .vectorShift hop (Typ.beq_rename same) (by simpa using h)
  | logical hop => exact .logical hop
  | bitwise hop same h => exact .bitwise hop (Typ.beq_rename same) (by simpa using h)
  | compare hop same h => exact .compare hop (Typ.beq_rename same) (by simpa using h)
  | equality hop same h => exact .equality hop (Typ.beq_rename same) (by simpa using h)
  | vectorCompare hop same h => exact .vectorCompare hop (Typ.beq_rename same) (by simpa using h)
  | floatEquality hop same h => exact .floatEquality hop (Typ.beq_rename same) (by simpa using h)
  | overflow hop same h => exact .overflow hop (Typ.beq_rename same) (by simpa using h)
  | overflowMinus same h => exact .overflowMinus (Typ.beq_rename same) (by simpa using h)
  | overflowPointer hop hl hr =>
    exact .overflowPointer hop (by simpa using hl) (by simpa using hr)

lemma unopHasType_rename {a : Typ} (h : UnopHasType op a t) :
    UnopHasType op (a.rename f) (t.rename f) := by
  cases h with
  | bits hop h => exact .bits hop (by simpa using h)
  | leadingZeros h => exact .leadingZeros (by simpa using h)
  | trailingZeros h => exact .trailingZeros (by simpa using h)
  | minus h => exact .minus (by simpa using h)
  | not => exact .not
  | isDynamicObject h => exact .isDynamicObject (by simpa using h)
  | pointerQuery hop h => exact .pointerQuery hop (by simpa using h)
  | pointerOffset => exact .pointerOffset

lemma castLegal_rename {s : Typ} (h : CastLegal s t) : CastLegal (s.rename f) (t.rename f) := by
  cases h with
  | same h => exact .same (Typ.beq_rename h)
  | toBool h => exact .toBool (by simpa using h)
  | toCBool h => exact .toCBool (by simpa using h)
  | toInteger ht hc h => exact .toInteger (by simpa using ht) (by simpa using hc) (by simpa using h)
  | toFloat ht h => exact .toFloat (by simpa using ht) (by simpa using h)
  | toPointer ht h => exact .toPointer (by simpa using ht) (by simpa using h)
  | toEmpty => exact .toEmpty

lemma callHasType_rename {args : List Typ} (h : CallHasType ft args t) :
    CallHasType (ft.rename f) (args.map (·.rename f)) (t.rename f) := by
  have hargs : ∀ {ps : List Parameter} {args : List Typ},
      List.Forall₂ (fun (p : Parameter) a => (a == p.typ) = true) ps args →
      List.Forall₂ (fun (p : Parameter) a => (a == p.typ) = true) (ps.map (·.rename f))
        (args.map (·.rename f)) := by
    intro ps args h
    rw [List.forall₂_map_left_iff, List.forall₂_map_right_iff]
    refine h.imp fun p a hpa => ?_
    rw [Parameter.typ_rename]
    exact Typ.beq_rename hpa
  cases h with
  | code h =>
    rw [Typ.rename_code]
    exact .code (hargs h)
  | variadic h =>
    rw [Typ.rename_variadicCode, List.map_append]
    exact .variadic (hargs h)

end

end

/-! ### Typed nodes stay typed -/

/-- What a pass needs to know of an expression: the tags and names in its type, that the element of
an array constant stays a number, and that the values it keeps fit the renamed type. -/
structure Suits (P : Pass) (T N : String → Prop) (e : Expr) : Prop where
  tags : e.typ.TagsIn T
  names : e.typ.NamesIn N
  element : ∀ x, e.value = .arrayOf x → x.isIntConstant = true → (P.expr x).isIntConstant = true
  values : ∀ xs, e.value = .struct xs → (P.flags (P.typ e.typ) xs).length = xs.length ∧
    ∀ x ∈ xs, false ∈ P.flags (P.typ e.typ) xs → P.typ x.typ = x.typ

variable {P : Pass} {T N : String → Prop} {st st' : SymbolTable} {es : List Expr}

section

omit [Ranked String]

private lemma forall₂_values {fields : List DatatypeComponent} {flags : List Bool} (hP : P.Lawful)
    (hlen : flags.length = es.length) (hkept : ∀ x ∈ es, false ∈ flags → P.typ x.typ = x.typ)
    (h : List.Forall₂ (fun c (x : Expr) => c.Accepts x.typ) fields es) :
    List.Forall₂ (fun c (x : Expr) => c.Accepts x.typ) (fields.map (·.rename P.name))
      (P.values es flags) := by
  rw [values_eq]
  induction h generalizing flags with
  | nil => exact .nil
  | @cons c x fields es hcx _ ih =>
    cases flags with
    | nil => simp at hlen
    | cons flag flags =>
      obtain ⟨hx, hes⟩ := List.forall_mem_cons.mp hkept
      refine .cons ?_ (ih (by simpa using hlen) fun y hy hf => hes y hy (List.mem_cons_of_mem _ hf))
      obtain ⟨ct, hct, hsame⟩ := hcx
      refine ⟨ct.rename P.name, by simp [hct], ?_⟩
      cases flag with
      | true =>
        change (ct.rename P.name == (P.expr x).typ) = true
        rw [hP.typ_expr]
        exact Typ.beq_rename hsame
      | false =>
        change (ct.rename P.name == x.typ) = true
        rw [← hx List.mem_cons_self]
        exact Typ.beq_rename hsame

private lemma forall_mem_map_expr {u : Typ} (hP : P.Lawful) (hall : ∀ x ∈ es, (x.typ == u) = true) :
    ∀ x ∈ es.map P.expr, (x.typ == P.typ u) = true := by
  intro x hx
  obtain ⟨y, hy, rfl⟩ := List.mem_map.mp hx
  rw [hP.typ_expr]
  exact Typ.beq_rename (hall y hy)

private lemma map_typ_expr (hP : P.Lawful) :
    (es.map P.expr).map Expr.typ = (es.map Expr.typ).map (·.rename P.name) := by
  rw [List.map_map, List.map_map]
  exact List.map_congr_left fun x _ => hP.typ_expr x

end

lemma Carries.hasType (hst : P.Carries T st st') (hP : P.Lawful) (hN : Set.InjOn P.name {n | N n})
    {l : Location} (hself : P.Suits T N (.mk v t l)) (hsub : ∀ x ∈ v.subExprs, P.Suits T N x)
    (h : v.HasType st t) :
    (P.value v t).HasType st' (P.typ t) := by
  cases h with
  | @addressOf e h =>
    have htyp : (ExprValue.addressOf (P.expr e)).HasType st' (.pointer (P.expr e).typ) :=
      .addressOf (hP.canTakeAddressOf_expr h)
    rwa [hP.typ_expr] at htyp
  | @array es u n hlen hall =>
    rw [value_array]
    exact .array (by simpa using hlen) (forall_mem_map_expr hP hall)
  | @arrayOf e n h =>
    have htyp : (ExprValue.arrayOf (P.expr e)).HasType st' (.array (P.expr e).typ n) :=
      .arrayOf (hself.element e rfl h)
    rwa [hP.typ_expr] at htyp
  | @assign x y h =>
    have htyp : (ExprValue.assign (P.expr x) (P.expr y)).HasType st' (P.expr x).typ := by
      refine .assign ?_
      rw [hP.typ_expr, hP.typ_expr]
      exact Typ.beq_rename h
    rwa [hP.typ_expr] at htyp
  | @binOp op x y t h =>
    have hop := binopHasType_rename P.name h
    rw [value_binOp]
    refine .binOp ?_
    rwa [hP.typ_expr, hP.typ_expr]
  | boolConstant => exact .boolConstant
  | @byteExtract e t n he ht =>
    rw [value_byteExtract]
    refine .byteExtract ?_ (hst.sizeofInBits hself.tags ht)
    rw [hP.typ_expr]
    exact hst.sizeofInBits (hsub e e.self_mem_subExprs).tags he
  | cBoolConstant => exact .cBoolConstant
  | @dereference e t h =>
    rw [value_dereference]
    refine .dereference ?_
    rw [hP.typ_expr, h]
    rfl
  | doubleConstant => exact .doubleConstant
  | floatConstant => exact .floatConstant
  | @functionCall g args t h =>
    rw [value_functionCall]
    refine .functionCall ?_
    rw [hP.typ_expr, map_typ_expr hP]
    exact callHasType_rename P.name h
  | @ite c x y hc h =>
    have htyp : (ExprValue.ite (P.expr c) (P.expr x) (P.expr y)).HasType st' (P.expr x).typ := by
      refine .ite ?_ ?_
      · rw [hP.typ_expr, hc]
        rfl
      · rw [hP.typ_expr, hP.typ_expr]
        exact Typ.beq_rename h
    rwa [hP.typ_expr] at htyp
  | @index a i t hi ha h =>
    rw [value_index]
    refine .index ?_ ?_ ?_
    · simpa [hP.typ_expr, Pass.typ] using hi
    · simpa [hP.typ_expr, Pass.typ] using ha
    · simp [hP.typ_expr, Pass.typ, h]
  | intConstant h => exact .intConstant (by simpa [Pass.typ] using h)
  | @member e field t he hf =>
    rw [value_member]
    refine .member (by simpa [hP.typ_expr, Pass.typ] using he) ?_
    rw [hP.typ_expr]
    exact hst.lookupFieldTypeInType (hsub e e.self_mem_subExprs).tags he hf
  | nondet => exact .nondet
  | pointerConstant => exact .pointerConstant
  | @selfOp op e h =>
    have htyp : (ExprValue.selfOp op (P.expr e)).HasType st' (P.expr e).typ :=
      .selfOp (by simpa [hP.typ_expr, Pass.typ] using h)
    rwa [hP.typ_expr] at htyp
  | @statementExpression ss e l t hlast h =>
    rw [value_statementExpression]
    have hlast' : (ss.map P.stmt).getLast? = some (.mk (.expression (P.expr e)) l) := by
      rw [List.getLast?_map, hlast]
      rfl
    refine .statementExpression hlast' ?_
    rw [hP.typ_expr]
    exact Typ.beq_rename h
  | stringConstant => exact .stringConstant
  | @struct es tag fields hfields hall =>
    have hT : T tag := hself.tags tag (.inl (Typ.self_mem_subTypes _))
    obtain ⟨hlen, hkept⟩ := hself.values es rfl
    exact .struct (hst.lookupComponents hT hfields) (forall₂_values hP hlen hkept hall)
  | symbol => exact .symbol
  | @typecast e t hlegal hne hb =>
    have hnames := (hsub e e.self_mem_subExprs).names
    rw [value_typecast]
    refine .typecast ?_ ?_ ?_
    · rw [hP.typ_expr]
      exact castLegal_rename P.name hlegal
    · rw [hP.typ_expr, ← Bool.not_eq_true]
      intro hsame
      have heq : (e.typ == t) = true := Typ.beq_of_rename hN hnames hself.names hsame
      rw [heq] at hne
      cases hne
    · exact mt (Typ.rename_eq_bool P.name).mp hb
  | @union e field tag t hf he =>
    rw [value_union]
    refine .union (hst.lookupFieldTypeInType hself.tags (.inr rfl) hf) ?_
    rw [hP.typ_expr]
    exact Typ.beq_rename he
  | @unOp op e t h =>
    rw [value_unOp]
    refine .unOp ?_
    rw [hP.typ_expr]
    exact unopHasType_rename P.name h
  | @vector es u n hlen hall =>
    rw [value_vector]
    exact .vector (by simpa using hlen) (forall_mem_map_expr hP hall)

omit [Ranked String] in
/-- The sides of a mapped statement agree, where labels do not become empty. -/
lemma Lawful.agrees (hP : P.Lawful) (hnames : ∀ n ∈ b.names, P.name n ≠ "") (h : b.Agrees) :
    (P.body b).Agrees := by
  have hbool : ∀ c : Expr, c.typ = .bool → (P.expr c).typ = .bool := by
    intro c hc
    rw [hP.typ_expr, hc]
    rfl
  have hsame : ∀ x y : Expr, (x.typ == y.typ) = true →
      ((P.expr x).typ == (P.expr y).typ) = true := by
    intro x y hxy
    rw [hP.typ_expr, hP.typ_expr]
    exact Typ.beq_rename hxy
  cases h with
  | @assign x y h => exact StmtBody.Agrees.assign (hsame x y h)
  | @assume c h => exact StmtBody.Agrees.assume (hbool c h)
  | atomicBlock => exact .atomicBlock
  | block => exact .block
  | «break» => exact .break
  | «continue» => exact .continue
  | @decl x v hl h =>
    rw [body_decl]
    refine .decl (hP.isSymbol_expr hl) fun y hy => ?_
    obtain ⟨z, hz, rfl⟩ := Option.mem_map.mp hy
    exact hsame x z (h z hz)
  | expression => exact .expression
  | @«for» i c u b h => exact StmtBody.Agrees.for (hbool c h)
  | @functionCall x g args t hcall hl =>
    rw [body_functionCall]
    have hcall' : CallHasType (P.expr g).typ ((args.map P.expr).map Expr.typ) (P.typ t) := by
      rw [hP.typ_expr, map_typ_expr hP]
      exact callHasType_rename P.name hcall
    refine .functionCall hcall' fun y hy => ?_
    obtain ⟨z, hz, rfl⟩ := Option.mem_map.mp hy
    rw [hP.typ_expr]
    exact Typ.beq_rename (hl z hz)
  | @goto n h => exact StmtBody.Agrees.goto (hnames n (by simp [StmtBody.names]))
  | @ifthenelse i t e h => exact StmtBody.Agrees.ifthenelse (hbool i h)
  | @label n s h => exact StmtBody.Agrees.label (hnames n (by simp [StmtBody.names]))
  | «return» => exact .return
  | skip => exact .skip
  | @switch c cases d h =>
    rw [body_switch]
    refine .switch fun x hx => ?_
    obtain ⟨y, hy, rfl⟩ := List.mem_map.mp hx
    exact hsame y.value c (h y hy)
  | @«while» c s h => exact StmtBody.Agrees.while (hbool c h)

end Table

end Pass

end Rmc

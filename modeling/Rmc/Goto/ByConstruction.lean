import Rmc.Goto.Typing

/-!
# What constructors build

`Composed` is the closure of nothing under the public constructors of expressions and statements,
each used with any table that the present table has grown from.

Most constructors are compositions of a few basic ones, which make one node each. `Closed` says
that a pair of predicates is kept by the basic constructors; then it is kept by all of them, and
it holds of everything composed (`Composed.induction`). That expressions and statements are well
typed by construction is one instance, and that some kinds of nodes are never built is another.
-/

namespace Rmc

open OrdMap

variable [Ranked String] {st : SymbolTable}

/-! ### The basic constructors -/

/-- A predicate of expressions and a predicate of statements that the basic constructors keep. -/
structure Closed (st : SymbolTable) (E : Expr → Prop) (S : Stmt → Prop) : Prop where
  withLocation {e l} : E e → E (e.withLocation l)
  addressOf {a e} : E a → a.addressOf = some e → E e
  arrayConstant {a n e} : E a → a.arrayConstant n = some e → E e
  arrayExpr {t es e} : (∀ x ∈ es, E x) → Expr.arrayExpr t es = some e → E e
  vectorExpr {t es e} : (∀ x ∈ es, E x) → Expr.vectorExpr t es = some e → E e
  boolConstant {c} : E (Expr.boolConstant c)
  cBoolConstant {c} : E (Expr.cBoolConstant c)
  doubleConstant {c} : E (Expr.doubleConstant c)
  floatConstant {c} : E (Expr.floatConstant c)
  intConstant {i t e} : Expr.intConstant i t = some e → E e
  pointerConstant {c t e} : Expr.pointerConstant c t = some e → E e
  rawStringConstant {s} : E (Expr.rawStringConstant s)
  nondet {t} : E (Expr.nondet t)
  symbolExpression {n t} : E (Expr.symbolExpression n t)
  typecast {a t} : E a → a.canCastTo t = true → (a.typ == t) = false → t.isBool = false →
    E (Expr.new (.typecast a) t)
  dereference {a e} : E a → a.dereference = some e → E e
  indexArray {a b e} : E a → E b → a.indexArray b = some e → E e
  call {f args e} : E f → (∀ x ∈ args, E x) → f.call args = some e → E e
  ite {c t e} : E c → E t → E e → c.typ = .bool → (t.typ == e.typ) = true →
    E (Expr.new (.ite c t e) t.typ)
  statementExpression {ss t e} : (∀ s ∈ ss, S s) → Expr.statementExpression ss t = some e → E e
  binop {a op b e} : E a → E b → a.binop op b = some e → E e
  unop {a op e} : E a → a.unop op = some e → E e
  postincr {a e} : E a → a.postincr = some e → E e
  postdecr {a e} : E a → a.postdecr = some e → E e
  member {a f e} : E a → a.member f st = some e → E e
  transmuteTo {a t e} : E a → a.transmuteTo t st = some e → E e
  unionExpr {a t f e} : E a → Expr.unionExpr t f a st = some e → E e
  structExprFromPaddedValues {t es e} : (∀ x ∈ es, E x) →
    Expr.structExprFromPaddedValues t es st = some e → E e
  structValues {es t l} : E (.mk (.struct es) t l) → ∀ x ∈ es, E x
  stmtWithLocation {s l} : S s → S (s.withLocation l)
  assign {l r loc} : E l → E r → (l.typ == r.typ) = true → S (.mk (.assign l r) loc)
  assume {c loc s} : E c → Stmt.assume c loc = some s → S s
  atomicBlock {ss loc} : (∀ s ∈ ss, S s) → S (Stmt.atomicBlock ss loc)
  block {ss loc} : (∀ s ∈ ss, S s) → S (Stmt.block ss loc)
  breakStmt {loc} : S (Stmt.breakStmt loc)
  continueStmt {loc} : S (Stmt.continueStmt loc)
  decl {l v loc s} : E l → (∀ x ∈ v, E x) → Stmt.decl l v loc = some s → S s
  codeExpression {e loc} : E e → S (Stmt.codeExpression e loc)
  forLoop {i c u b loc s} : S i → E c → S u → S b → Stmt.forLoop i c u b loc = some s → S s
  functionCall {l f args loc s} : (∀ x ∈ l, E x) → E f → (∀ x ∈ args, E x) →
    Stmt.functionCall l f args loc = some s → S s
  goto {d loc s} : Stmt.goto d loc = some s → S s
  ifThenElse {i t e loc s} : E i → S t → (∀ x ∈ e, S x) → Stmt.ifThenElse i t e loc = some s → S s
  ret {e loc} : (∀ x ∈ e, E x) → S (Stmt.ret e loc)
  skip {loc} : S (Stmt.skip loc)
  switch {c cases d loc s} : E c → (∀ x ∈ cases, E (SwitchCase.value x)) →
    (∀ x ∈ cases, S (SwitchCase.body x)) → (∀ x ∈ d, S x) → Stmt.switch c cases d loc = some s → S s
  whileLoop {c b loc s} : E c → S b → Stmt.whileLoop c b loc = some s → S s
  withLabel {b l s} : S b → b.withLabel l = some s → S s

/-! ### Nodes -/

/-- Every kind of value that the constructors make. An assignment is a statement, and the
constructors of the operations that come first in the text make those that come last. -/
def ExprValue.constructible : ExprValue → Bool
  | .assign _ _ => false
  | .selfOp .predecrement _ => false
  | .selfOp .preincrement _ => false
  | _ => true

omit [Ranked String] in
private lemma forall_nil {α : Type} {P : α → Prop} : ∀ a ∈ ([] : List α), P a :=
  List.forall_mem_nil P

/-- What is kept by every node that can be built is kept by the basic constructors, since each of
them makes one node. -/
lemma Closed.of_nodes {E : Expr → Prop} {S : Stmt → Prop}
    (hloc : ∀ e l, E e → E (e.withLocation l))
    (hstruct : ∀ es t l, E (.mk (.struct es) t l) → ∀ x ∈ es, E x)
    (hexpr : ∀ {v t}, v.HasType st t → v.constructible = true → (∀ e ∈ v.exprs, E e) →
      (∀ s ∈ v.stmts, S s) → E (Expr.new v t))
    (hstmtLoc : ∀ s l, S s → S (s.withLocation l))
    (hstmt : ∀ {b l}, b.Agrees → (∀ e ∈ b.exprs, E e) → (∀ s ∈ b.stmts, S s) → S (.mk b l)) :
    Closed st E S where
  withLocation := hloc _ _
  addressOf ha h := by
    obtain ⟨hc, rfl⟩ := Expr.addressOf_eq_some.1 h
    exact hexpr (.addressOf hc) rfl (List.forall_mem_singleton.2 ha) forall_nil
  arrayConstant ha h := by
    obtain ⟨hc, rfl⟩ := Expr.arrayConstant_eq_some.1 h
    exact hexpr (.arrayOf hc) rfl (List.forall_mem_singleton.2 ha) forall_nil
  arrayExpr hes h := by
    obtain ⟨t, rfl, ht, rfl⟩ := Expr.arrayExpr_eq_some.1 h
    exact hexpr (.array rfl ht) rfl hes forall_nil
  vectorExpr hes h := by
    obtain ⟨t, rfl, ht, rfl⟩ := Expr.vectorExpr_eq_some.1 h
    exact hexpr (.vector rfl ht) rfl hes forall_nil
  boolConstant := hexpr .boolConstant rfl forall_nil forall_nil
  cBoolConstant := hexpr .cBoolConstant rfl forall_nil forall_nil
  doubleConstant := hexpr .doubleConstant rfl forall_nil forall_nil
  floatConstant := hexpr .floatConstant rfl forall_nil forall_nil
  intConstant h := by
    obtain ⟨hc, rfl⟩ := Expr.intConstant_eq_some.1 h
    exact hexpr (.intConstant hc) rfl forall_nil forall_nil
  pointerConstant h := by
    obtain ⟨hc, rfl⟩ := Expr.pointerConstant_eq_some.1 h
    obtain ⟨b, rfl⟩ := Typ.isPointer_iff.1 hc
    exact hexpr .pointerConstant rfl forall_nil forall_nil
  rawStringConstant := hexpr .stringConstant rfl forall_nil forall_nil
  nondet := hexpr .nondet rfl forall_nil forall_nil
  symbolExpression := hexpr .symbol rfl forall_nil forall_nil
  typecast ha hc hne hb := by
    refine hexpr (.typecast (castLegal_iff.2 hc) hne fun he => ?_) rfl
      (List.forall_mem_singleton.2 ha) forall_nil
    simp [he, Typ.isBool] at hb
  dereference ha h := by
    obtain ⟨t, ht, rfl⟩ := Expr.dereference_eq_some.1 h
    exact hexpr (.dereference ht) rfl (List.forall_mem_singleton.2 ha) forall_nil
  indexArray ha hb h := by
    obtain ⟨hi, hl, t, ht, rfl⟩ := Expr.indexArray_eq_some.1 h
    exact hexpr (.index hi hl ht) rfl
      (List.forall_mem_cons.2 ⟨ha, List.forall_mem_singleton.2 hb⟩) forall_nil
  call hf hargs h := by
    obtain ⟨hc, t, ht, rfl⟩ := Expr.call_eq_some.1 h
    exact hexpr (.functionCall (callHasType_iff.2 ⟨hc, ht⟩)) rfl
      (List.forall_mem_cons.2 ⟨hf, hargs⟩) forall_nil
  ite hc ht he hb hs := hexpr (.ite hb hs) rfl
    (List.forall_mem_cons.2 ⟨hc, List.forall_mem_cons.2 ⟨ht, List.forall_mem_singleton.2 he⟩⟩)
    forall_nil
  statementExpression hss h := by
    obtain ⟨x, l, hlast, hx, rfl⟩ := Expr.statementExpression_eq_some.1 h
    exact hexpr (.statementExpression hlast hx) rfl forall_nil hss
  binop ha hb h := by
    obtain ⟨hc, rfl⟩ := Expr.binop_eq_some.1 h
    exact hexpr (.binOp (binopHasType_iff.2 ⟨hc, rfl⟩)) rfl
      (List.forall_mem_cons.2 ⟨ha, List.forall_mem_singleton.2 hb⟩) forall_nil
  unop ha h := by
    obtain ⟨hc, rfl⟩ := Expr.unop_eq_some.1 h
    exact hexpr (.unOp (unopHasType_iff.2 ⟨hc, rfl⟩)) rfl (List.forall_mem_singleton.2 ha)
      forall_nil
  postincr ha h := by
    obtain ⟨hc, rfl⟩ := Expr.selfOp_eq_some.1 h
    exact hexpr (.selfOp hc) rfl (List.forall_mem_singleton.2 ha) forall_nil
  postdecr ha h := by
    obtain ⟨hc, rfl⟩ := Expr.selfOp_eq_some.1 h
    exact hexpr (.selfOp hc) rfl (List.forall_mem_singleton.2 ha) forall_nil
  member ha h := by
    obtain ⟨ht, t, hf, rfl⟩ := Expr.member_eq_some.1 h
    exact hexpr (.member ht hf) rfl (List.forall_mem_singleton.2 ha) forall_nil
  transmuteTo ha h := by
    obtain ⟨n, hn, hm, rfl⟩ := Expr.transmuteTo_eq_some.1 h
    exact hexpr (.byteExtract hn hm) rfl (List.forall_mem_singleton.2 ha) forall_nil
  unionExpr ha h := by
    obtain ⟨ht, t, hf, he, rfl⟩ := Expr.unionExpr_eq_some.1 h
    obtain ⟨tag, rfl⟩ := Typ.isUnionTag_iff.1 ht
    exact hexpr (.union hf he) rfl (List.forall_mem_singleton.2 ha) forall_nil
  structExprFromPaddedValues hes h := by
    obtain ⟨htag, fields, hfields, hmatch, rfl⟩ := Expr.structExprFromPaddedValues_eq_some.1 h
    obtain ⟨tag, rfl⟩ := Typ.isStructTag_iff.1 htag
    exact hexpr (.struct hfields (accepts_iff.2 hmatch)) rfl hes forall_nil
  structValues := hstruct _ _ _
  stmtWithLocation := hstmtLoc _ _
  assign hl hr ht := hstmt (.assign ht)
    (List.forall_mem_cons.2 ⟨hl, List.forall_mem_singleton.2 hr⟩) forall_nil
  assume hc h := by
    obtain ⟨hb, h⟩ := guard_bind_eq_some.1 h
    cases h
    exact hstmt (.assume (Typ.isBool_iff.1 hb)) (List.forall_mem_singleton.2 hc) forall_nil
  atomicBlock h := hstmt .atomicBlock forall_nil h
  block h := hstmt .block forall_nil h
  breakStmt := hstmt .break forall_nil forall_nil
  continueStmt := hstmt .continue forall_nil forall_nil
  decl hl hv h := by
    obtain ⟨hs, h⟩ := guard_bind_eq_some.1 h
    obtain ⟨ht, h⟩ := guard_bind_eq_some.1 h
    cases h
    refine hstmt (.decl hs fun x hx => ?_) (List.forall_mem_cons.2 ⟨hl, by simpa using hv⟩)
      forall_nil
    rw [Option.mem_def.1 hx] at ht
    exact ht
  codeExpression he := hstmt .expression (List.forall_mem_singleton.2 he) forall_nil
  forLoop hi hc hu hb h := by
    obtain ⟨hbool, h⟩ := guard_bind_eq_some.1 h
    cases h
    exact hstmt (.for (Typ.isBool_iff.1 hbool)) (List.forall_mem_singleton.2 hc)
      (List.forall_mem_cons.2 ⟨hi, List.forall_mem_cons.2 ⟨hu, List.forall_mem_singleton.2 hb⟩⟩)
  functionCall hl hf hargs h := by
    simp only [Stmt.functionCall, bind_eq_some, guard_eq_some, exists_const, pure_eq_some] at h
    obtain ⟨hcall, t, ht, hlhs, rfl⟩ := h
    refine hstmt (.functionCall (callHasType_iff.2 ⟨hcall, ht⟩) fun x hx => ?_)
      (List.forall_mem_append.2 ⟨by simpa using hl, List.forall_mem_cons.2 ⟨hf, hargs⟩⟩) forall_nil
    rw [Option.mem_def.1 hx] at hlhs
    exact hlhs
  goto h := by
    obtain ⟨hd, h⟩ := guard_bind_eq_some.1 h
    cases h
    exact hstmt (.goto hd) forall_nil forall_nil
  ifThenElse hi ht he h := by
    obtain ⟨hb, h⟩ := guard_bind_eq_some.1 h
    cases h
    exact hstmt (.ifthenelse (Typ.isBool_iff.1 hb)) (List.forall_mem_singleton.2 hi)
      (List.forall_mem_cons.2 ⟨ht, by simpa using he⟩)
  ret he := hstmt .return (by simpa [StmtBody.exprs] using he) forall_nil
  skip := hstmt .skip forall_nil forall_nil
  switch hc hv hb hd h := by
    obtain ⟨ht, h⟩ := guard_bind_eq_some.1 h
    cases h
    exact hstmt (.switch (by simpa using ht))
      (List.forall_mem_cons.2 ⟨hc, List.forall_mem_map.2 hv⟩)
      (List.forall_mem_append.2 ⟨List.forall_mem_map.2 hb, by simpa using hd⟩)
  whileLoop hc hb h := by
    obtain ⟨hbool, h⟩ := guard_bind_eq_some.1 h
    cases h
    exact hstmt (.while (Typ.isBool_iff.1 hbool)) (List.forall_mem_singleton.2 hc)
      (List.forall_mem_singleton.2 hb)
  withLabel hb h := by
    obtain ⟨hl, h⟩ := guard_bind_eq_some.1 h
    cases h
    exact hstmt (.label hl) forall_nil (List.forall_mem_singleton.2 hb)

variable {r : Expr.ArithmeticOverflowResult} {st' : SymbolTable}

namespace Closed

variable {E : Expr → Prop} {S : Stmt → Prop} (H : Closed st E S) {a b e e' t : Expr}

include H

/-! ### Constants and casts -/

variable {typ : Typ} {mm : MachineModel} {args : List Expr}

lemma zero (h : typ.zero = some e) : E e := by
  simp only [Typ.zero] at h
  split_ifs at h
  · exact H.intConstant h
  · cases h
    exact H.cBoolConstant
  · cases h
    exact H.floatConstant
  · cases h
    exact H.doubleConstant
  · exact H.pointerConstant h

lemma one (h : typ.one = some e) : E e := by
  simp only [Typ.one] at h
  split_ifs at h
  · exact H.intConstant h
  · cases h
    exact H.cBoolConstant
  · cases h
    exact H.floatConstant
  · cases h
    exact H.doubleConstant

lemma null (h : typ.null = some e) : E e :=
  H.zero (guard_bind_eq_some.1 h).2

lemma maxIntExpr (h : typ.maxIntExpr mm = some e) : E e := by
  obtain ⟨w, -, h⟩ := bind_eq_some.1 (guard_bind_eq_some.1 h).2
  obtain ⟨i, -, h⟩ := bind_eq_some.1 h
  exact H.intConstant h

lemma minIntExpr (h : typ.minIntExpr mm = some e) : E e := by
  obtain ⟨w, -, h⟩ := bind_eq_some.1 (guard_bind_eq_some.1 h).2
  obtain ⟨i, -, h⟩ := bind_eq_some.1 h
  exact H.intConstant h

lemma sizeofExpr (h : typ.sizeofExpr st' = some e) : E e := by
  obtain ⟨n, -, h⟩ := bind_eq_some.1 h
  exact H.intConstant h

lemma castTo (ha : E a) (h : a.castTo typ = some e) : E e := by
  obtain ⟨hc, h⟩ := Expr.castTo_eq_some.1 h
  rcases h with ⟨-, rfl⟩ | ⟨-, -, z, hz, h⟩ | ⟨hne, hb, rfl⟩
  · exact ha
  · exact H.binop ha (H.zero hz) h
  · exact H.typecast ha hc hne hb

lemma castToMachineEquivalentType (ha : E a) (h : a.castToMachineEquivalentType typ mm = some e) :
    E e := by
  simp only [Expr.castToMachineEquivalentType, Option.bind_eq_bind] at h
  split_ifs at h
  · cases h
    exact ha
  · exact H.castTo ha (guard_bind_eq_some.1 h).2

lemma castArguments {ps : List Parameter} {es : List Expr} (hargs : ∀ x ∈ args, E x)
    (h : Expr.castArguments mm ps args = some es) :
    ∀ x ∈ es, E x := by
  induction ps generalizing args es with
  | nil =>
    cases h
    exact hargs
  | cons p ps ih =>
    cases args with
    | nil => cases h
    | cons a args =>
      simp only [Expr.castArguments, bind_eq_some, pure_eq_some] at h
      obtain ⟨a', ha', es', hes', rfl⟩ := h
      rw [List.forall_mem_cons] at hargs ⊢
      exact ⟨H.castToMachineEquivalentType hargs.1 ha', ih hargs.2 hes'⟩

/-! ### Compound expressions -/

lemma ternary {c : Expr} (hc : E c) (ht : E t) (he : E e) (h : c.ternary t e = some e') : E e' := by
  obtain ⟨hs, c', hc', rfl⟩ := Expr.ternary_eq_some.1 h
  exact H.ite (H.castTo hc hc') ht he (Expr.typ_of_castTo_bool hc') hs

section

variable (ha : E a)

include ha

/-- The source builds post-operations for the pre-operations too. -/
lemma preincr (h : a.preincr = some e) : E e := H.postincr ha h

lemma predecr (h : a.predecr = some e) : E e := H.postdecr ha h

lemma not (h : a.not = some e) : E e := by
  obtain ⟨a', ha', h⟩ := bind_eq_some.1 h
  exact H.unop (H.castTo ha ha') h

lemma pointerOffset (h : a.pointerOffset = some e) : E e := by
  obtain ⟨a', ha', h⟩ := bind_eq_some.1 h
  exact H.unop (H.castTo ha ha') h

variable {op : BinaryOperand}

/-- The boolean operations cast both operands. -/
private lemma castBinop (hb : E b)
    (h : (do (← a.castTo .bool).binop op (← b.castTo .bool)) = some e) :
    E e := by
  obtain ⟨a', ha', h⟩ := bind_eq_some.1 h
  obtain ⟨b', hb', h⟩ := bind_eq_some.1 h
  exact H.binop (H.castTo ha ha') (H.castTo hb hb') h

lemma and (hb : E b) (h : a.and b = some e) : E e := H.castBinop ha hb h

lemma implies (hb : E b) (h : a.implies b = some e) : E e := H.castBinop ha hb h

lemma or (hb : E b) (h : a.or b = some e) : E e := H.castBinop ha hb h

lemma isNegative (h : a.isNegative = some e) : E e := by
  obtain ⟨z, hz, h⟩ := bind_eq_some.1 (guard_bind_eq_some.1 h).2
  exact H.binop ha (H.zero hz) h

lemma isZero (h : a.isZero = some e) : E e := by
  obtain ⟨z, hz, h⟩ := bind_eq_some.1 (guard_bind_eq_some.1 h).2
  exact H.binop ha (H.zero hz) h

lemma isNonnull (h : a.isNonnull = some e) : E e := by
  obtain ⟨z, hz, h⟩ := bind_eq_some.1 (guard_bind_eq_some.1 h).2
  exact H.binop ha (H.null hz) h

/-- The operations that report overflow compute the result and the report from one pair. -/
private lemma overflow {op' : BinaryOperand} (hb : E b)
    (h : (do return Expr.ArithmeticOverflowResult.mk (← a.binop op b) (← a.binop op' b)) = some r) :
    E r.result ∧ E r.overflowed := by
  simp only [bind_eq_some, pure_eq_some] at h
  obtain ⟨x, hx, y, hy, rfl⟩ := h
  exact ⟨H.binop ha hb hx, H.binop ha hb hy⟩

lemma addOverflow (hb : E b) (h : a.addOverflow b = some r) : E r.result ∧ E r.overflowed :=
  H.overflow ha hb h

lemma subOverflow (hb : E b) (h : a.subOverflow b = some r) : E r.result ∧ E r.overflowed :=
  H.overflow ha hb h

lemma mulOverflow (hb : E b) (h : a.mulOverflow b = some r) : E r.result ∧ E r.overflowed :=
  H.overflow ha hb h

lemma saturatingAdd (hb : E b) (h : a.saturatingAdd b mm = some e) : E e := by
  simp only [Expr.saturatingAdd, bind_eq_some, guard_eq_some, exists_const] at h
  obtain ⟨-, -, r, hr, n, hn, lo, hlo, hi, hhi, v, hv, h⟩ := h
  obtain ⟨hres, hover⟩ := H.addOverflow ha hb hr
  have hsat : E v := H.ternary (H.isNegative ha hn) (H.minIntExpr hlo) (H.maxIntExpr hhi) hv
  exact H.ternary hover hsat hres h

lemma saturatingSub (hb : E b) (h : a.saturatingSub b mm = some e) : E e := by
  simp only [Expr.saturatingSub, bind_eq_some, guard_eq_some, exists_const] at h
  obtain ⟨-, -, r, hr, n, hn, hi, hhi, lo, hlo, v, hv, h⟩ := h
  obtain ⟨hres, hover⟩ := H.subOverflow ha hb hr
  have hsat : E v := H.ternary (H.isNegative hb hn) (H.maxIntExpr hhi) (H.minIntExpr hlo) hv
  exact H.ternary hover hsat hres h

lemma arrayToPtr (h : a.arrayToPtr = some e) : E e := by
  obtain ⟨z, hz, h⟩ := bind_eq_some.1 (guard_bind_eq_some.1 h).2
  obtain ⟨x, hx, h⟩ := bind_eq_some.1 h
  exact H.addressOf (H.indexArray ha (H.zero hz) hx) h

end

lemma stringConstant {s : String} (h : Expr.stringConstant s = some e) : E e :=
  H.arrayToPtr H.rawStringConstant h

lemma indexPtr (ha : E a) (hb : E b) (h : a.indexPtr b = some e) : E e := by
  obtain ⟨x, hx, h⟩ := bind_eq_some.1 (guard_bind_eq_some.1 (guard_bind_eq_some.1 h).2).2
  exact H.dereference (H.binop ha hb hx) h

lemma index (ha : E a) (hb : E b) (h : a.index b = some e) : E e := by
  have h := (guard_bind_eq_some.1 h).2
  split_ifs at h
  · exact H.indexPtr ha hb h
  · exact H.indexArray ha hb h

lemma reinterpretCast (ha : E a) (h : a.reinterpretCast typ = some e) : E e := by
  obtain ⟨x, hx, h⟩ := bind_eq_some.1 (guard_bind_eq_some.1 h).2
  obtain ⟨y, hy, h⟩ := bind_eq_some.1 h
  exact H.dereference (H.castTo (H.addressOf ha hx) hy) h

lemma sameObject (ha : E a) (hb : E b) (h : a.sameObject b = some e) : E e := by
  obtain ⟨a', ha', h⟩ := bind_eq_some.1 h
  obtain ⟨b', hb', h⟩ := bind_eq_some.1 h
  exact H.binop (H.unop ha ha') (H.unop hb hb') h

/-! ### Initializers -/

variable {values : List Expr} {fields : List DatatypeComponent} {components : OrdMap String Expr}

lemma structExprWithExplicitPadding (htag : typ.isStructTag = true)
    (hfields : st.lookupFieldsInType typ = some fields) (hvalues : ∀ x ∈ values, E x)
    (h : Expr.structExprWithExplicitPadding typ fields values = some e) :
    E e := by
  have hpadded : Expr.structExprFromPaddedValues typ values st = some e :=
    Expr.structExprFromPaddedValues_eq_some.2
      ⟨htag, fields, hfields, Expr.structExprWithExplicitPadding_eq_some.1 h⟩
  exact H.structExprFromPaddedValues hvalues hpadded

lemma padValues {values' : List Expr} (hvalues : ∀ x ∈ values, E x)
    (h : Expr.padValues fields values = some values') :
    ∀ x ∈ values', E x := by
  induction fields generalizing values values' with
  | nil =>
    cases h
    simp
  | cons f fields ih =>
    simp only [Expr.padValues, Option.bind_eq_bind] at h
    split_ifs at h
    · simp only [Option.bind_eq_some_iff, Option.pure_def, Option.some.injEq] at h
      obtain ⟨t, -, vs, hvs, rfl⟩ := h
      exact List.forall_mem_cons.2 ⟨H.nondet, ih hvalues hvs⟩
    · cases values with
      | nil => cases h
      | cons v values =>
        simp only [Option.bind_eq_some_iff, Option.pure_def, Option.some.injEq] at h
        obtain ⟨vs, hvs, rfl⟩ := h
        rw [List.forall_mem_cons] at hvalues ⊢
        exact ⟨hvalues.1, ih hvalues.2 hvs⟩

lemma structExprFromValues (hvalues : ∀ x ∈ values, E x)
    (h : Expr.structExprFromValues typ values st = some e) :
    E e := by
  obtain ⟨htag, fields, values', hfields, hpad, h⟩ :=
    Expr.exists_structExprWithExplicitPadding_of_structExprFromValues h
  exact H.structExprWithExplicitPadding htag hfields (H.padValues hvalues hpad) h

section

variable (hcs : ∀ k v, components.get? k = some v → E v)

include hcs

lemma takeComponents (h : Expr.takeComponents fields components = some values) :
    ∀ x ∈ values, E x := by
  induction fields generalizing components values with
  | nil =>
    cases h
    simp
  | cons f fields ih =>
    simp only [Expr.takeComponents, Option.bind_eq_bind] at h
    split_ifs at h
    · simp only [Option.bind_eq_some_iff, Option.pure_def, Option.some.injEq] at h
      obtain ⟨t, -, vs, hvs, rfl⟩ := h
      exact List.forall_mem_cons.2 ⟨H.nondet, ih hcs hvs⟩
    · simp only [Option.bind_eq_some_iff, Option.pure_def, Option.some.injEq] at h
      obtain ⟨v, hv, vs, hvs, rfl⟩ := h
      exact List.forall_mem_cons.2 ⟨hcs _ _ hv,
        ih (fun k v hk => hcs k v (OrdMap.get?_of_get?_erase hk)) hvs⟩

lemma structExpr (h : Expr.structExpr typ components st = some e) : E e := by
  obtain ⟨htag, fields, values, hfields, htake, h⟩ :=
    Expr.exists_structExprWithExplicitPadding_of_structExpr h
  exact H.structExprWithExplicitPadding htag hfields (H.takeComponents hcs htake) h

lemma takeOrNondet (h : Expr.takeOrNondet fields components = some values) : ∀ x ∈ values, E x := by
  induction fields generalizing components values with
  | nil =>
    cases h
    simp
  | cons f fields ih =>
    simp only [Expr.takeOrNondet, Option.bind_eq_bind] at h
    split at h
    · rename_i v hv
      simp only [Option.bind_eq_some_iff, Option.pure_def, Option.some.injEq] at h
      obtain ⟨vs, hvs, rfl⟩ := h
      exact List.forall_mem_cons.2 ⟨hcs _ _ hv,
        ih (fun k v hk => hcs k v (OrdMap.get?_of_get?_erase hk)) hvs⟩
    · simp only [Option.bind_eq_some_iff, Option.pure_def, Option.some.injEq] at h
      obtain ⟨t, -, vs, hvs, rfl⟩ := h
      exact List.forall_mem_cons.2 ⟨H.nondet, ih hcs hvs⟩

lemma structExprWithNondetFields (h : Expr.structExprWithNondetFields typ components st = some e) :
    E e := by
  simp only [Expr.structExprWithNondetFields, bind_eq_some, guard_eq_some, exists_const] at h
  obtain ⟨-, fields, -, values, hvalues, h⟩ := h
  exact H.structExprFromValues (H.takeOrNondet hcs hvalues) h

end

omit H in
private lemma get?_insert_of {m : OrdMap String Expr} {n : String} {x : Expr} (hx : E x)
    (hm : ∀ k v, m.get? k = some v → E v) : ∀ k v, (m.insert n x).get? k = some v → E v := by
  intro k v hk
  rw [OrdMap.get?_insert] at hk
  split_ifs at hk
  · exact Option.some.inj hk ▸ hx
  · exact hm k v hk

lemma structFieldExprs {exprs : OrdMap String Expr} (ha : E a)
    (h : a.structFieldExprs st = some exprs) : ∀ k v, exprs.get? k = some v → E v := by
  simp only [Expr.structFieldExprs, bind_eq_some, guard_eq_some, exists_const] at h
  obtain ⟨-, fields, -, h⟩ := h
  split at h
  · -- the values of an initializer
    rename_i values hvalues
    have hvalues : ∀ x ∈ values, E x := by
      obtain ⟨v, t, l⟩ := a
      rw [Expr.value_mk] at hvalues
      subst hvalues
      exact H.structValues ha
    obtain ⟨-, h⟩ := guard_bind_eq_some.1 h
    cases h
    refine List.foldlRecOn
      (motive := fun m : OrdMap String Expr => ∀ k v, m.get? k = some v → E v)
      _ _ ?_ fun m hm p hp => ?_
    · simp
    · split_ifs
      · exact hm
      · exact get?_insert_of (hvalues _ (List.of_mem_zip hp).2) hm
  · -- the members of another struct value
    clear * - ha h H
    suffices hstep : ∀ m : OrdMap String Expr, (∀ k v, m.get? k = some v → E v) →
        fields.foldlM (fun exprs f =>
          if f.isPadding then some exprs
          else do return exprs.insert f.name (← a.member f.name st)) m = some exprs →
        ∀ k v, exprs.get? k = some v → E v from hstep _ (by simp) h
    clear h
    induction fields with
    | nil =>
      intro m hm h
      cases h
      exact hm
    | cons f fields ih =>
      intro m hm h
      simp only [List.foldlM_cons, bind_eq_some] at h
      obtain ⟨m', hm', h⟩ := h
      refine ih m' ?_ h
      split_ifs at hm'
      · cases hm'
        exact hm
      · simp only [bind_eq_some, pure_eq_some] at hm'
        obtain ⟨x, hx, rfl⟩ := hm'
        exact get?_insert_of (H.member ha hx) hm

/-! ### Builtin functions and statements -/

lemma builtinCall {f : BuiltinFn} {loc : Location} (hargs : ∀ x ∈ args, E x)
    (h : f.call args loc = some e) :
    E e := by
  simp only [BuiltinFn.call, BuiltinFn.asExpr, bind_eq_some, pure_eq_some] at h
  obtain ⟨_, ⟨s, -, rfl⟩, x, hx, rfl⟩ := h
  have hname : E s.toExpr := H.symbolExpression
  exact H.withLocation (H.call (H.withLocation hname) hargs hx)

variable {s : Stmt} {c l r : Expr} {loc : Location} {msg : String}

lemma assert (hc : E c) (h : Stmt.assert c msg loc = some s) : S s := by
  simp only [Stmt.assert, bind_eq_some, guard_eq_some, exists_const, pure_eq_some] at h
  obtain ⟨-, m, hm, x, hx, rfl⟩ := h
  refine H.codeExpression (H.builtinCall ?_ hx)
  simp [hc, H.stringConstant hm]

lemma assertFalse (h : Stmt.assertFalse msg loc = some s) : S s :=
  H.assert H.boolConstant h

lemma assertSanityCheck {message url : String} (hc : E c)
    (h : Stmt.assertSanityCheck c message url loc = some s) : S s := by
  simp only [Stmt.assertSanityCheck, bind_eq_some, pure_eq_some] at h
  obtain ⟨x, hx, y, hy, rfl⟩ := h
  exact H.block (by simp [H.assert hc hx, H.assume hc hy])

/-- An assignment between different types is replaced by a failing assertion and an assignment of
a value of the type of the left side. -/
lemma stmtAssign [DebugTyp] (hl : E l) (hr : E r) (h : Stmt.assign l r loc = some s) : S s := by
  simp only [Stmt.assign, Option.bind_eq_bind] at h
  split_ifs at h with ht
  · cases h
    exact H.assign hl hr ht
  · simp only [Option.bind_eq_some_iff, Option.pure_def, Option.some.injEq] at h
    obtain ⟨x, hx, rfl⟩ := h
    have hnondet : S (.mk (.assign l l.typ.nondet) loc) := H.assign hl H.nondet (Typ.beq_self _)
    exact H.block (by simp [H.assertFalse hx, hnondet])

end Closed

/-! ### Compositions of constructors -/

/-- A tree of a goto program. -/
inductive Node where
  | expr (e : Expr)
  | stmt (s : Stmt)

/-- What can be built by public constructors by the time the table is `st`: the constructors that
read the table read it as it is then, and what was built before stays. The operations that only
fix the operator of `binop` or `unop` are instances of these. -/
inductive Composed [DebugTyp] : SymbolTable → Node → Prop
  | grow {st st' n} : Composed st n → st.Le st' → Composed st' n
  | withLocation {st a l} : Composed st (.expr a) → Composed st (.expr (a.withLocation l))
  | addressOf {st a e} : Composed st (.expr a) → a.addressOf = some e → Composed st (.expr e)
  | arrayConstant {st a n e} : Composed st (.expr a) → a.arrayConstant n = some e →
      Composed st (.expr e)
  | arrayExpr {st t es e} : (∀ x ∈ es, Composed st (.expr x)) → Expr.arrayExpr t es = some e →
      Composed st (.expr e)
  | vectorExpr {st t es e} : (∀ x ∈ es, Composed st (.expr x)) → Expr.vectorExpr t es = some e →
      Composed st (.expr e)
  | boolConstant {st c} : Composed st (.expr (Expr.boolConstant c))
  | cBoolConstant {st c} : Composed st (.expr (Expr.cBoolConstant c))
  | doubleConstant {st c} : Composed st (.expr (Expr.doubleConstant c))
  | floatConstant {st c} : Composed st (.expr (Expr.floatConstant c))
  | intConstant {st i t e} : Expr.intConstant i t = some e → Composed st (.expr e)
  | pointerConstant {st c t e} : Expr.pointerConstant c t = some e → Composed st (.expr e)
  | nondet {st t} : Composed st (.expr (Expr.nondet t))
  | symbolExpression {st n t} : Composed st (.expr (Expr.symbolExpression n t))
  | toExpr {st : SymbolTable} {s : Symbol} : Composed st (.expr s.toExpr)
  | zero {st : SymbolTable} {t : Typ} {e} : t.zero = some e → Composed st (.expr e)
  | one {st : SymbolTable} {t : Typ} {e} : t.one = some e → Composed st (.expr e)
  | null {st : SymbolTable} {t : Typ} {e} : t.null = some e → Composed st (.expr e)
  | maxIntExpr {st : SymbolTable} {t : Typ} {mm e} : t.maxIntExpr mm = some e →
      Composed st (.expr e)
  | minIntExpr {st : SymbolTable} {t : Typ} {mm e} : t.minIntExpr mm = some e →
      Composed st (.expr e)
  | sizeofExpr {st : SymbolTable} {t : Typ} {e} : t.sizeofExpr st = some e → Composed st (.expr e)
  | rawStringConstant {st s} : Composed st (.expr (Expr.rawStringConstant s))
  | stringConstant {st s e} : Expr.stringConstant s = some e → Composed st (.expr e)
  | castTo {st a t e} : Composed st (.expr a) → a.castTo t = some e → Composed st (.expr e)
  | castToMachineEquivalentType {st a t mm e} : Composed st (.expr a) →
      a.castToMachineEquivalentType t mm = some e → Composed st (.expr e)
  | castArguments {st f args mm es e} : (∀ x ∈ args, Composed st (.expr x)) →
      Expr.castArgumentsToMachineEquivalentFunctionParameterTypes f args mm = some es →
      e ∈ es → Composed st (.expr e)
  | dereference {st a e} : Composed st (.expr a) → a.dereference = some e → Composed st (.expr e)
  | indexArray {st a b e} : Composed st (.expr a) → Composed st (.expr b) →
      a.indexArray b = some e → Composed st (.expr e)
  | indexPtr {st a b e} : Composed st (.expr a) → Composed st (.expr b) → a.indexPtr b = some e →
      Composed st (.expr e)
  | index {st a b e} : Composed st (.expr a) → Composed st (.expr b) → a.index b = some e →
      Composed st (.expr e)
  | call {st f args e} : Composed st (.expr f) → (∀ x ∈ args, Composed st (.expr x)) →
      f.call args = some e → Composed st (.expr e)
  | builtinCall {st : SymbolTable} {f : BuiltinFn} {args l e} :
      (∀ x ∈ args, Composed st (.expr x)) → f.call args l = some e → Composed st (.expr e)
  | statementExpression {st ss t e} : (∀ x ∈ ss, Composed st (.stmt x)) →
      Expr.statementExpression ss t = some e → Composed st (.expr e)
  | ternary {st c t a e} : Composed st (.expr c) → Composed st (.expr t) → Composed st (.expr a) →
      c.ternary t a = some e → Composed st (.expr e)
  | binop {st a op b e} : Composed st (.expr a) → Composed st (.expr b) → a.binop op b = some e →
      Composed st (.expr e)
  | unop {st a op e} : Composed st (.expr a) → a.unop op = some e → Composed st (.expr e)
  | postincr {st a e} : Composed st (.expr a) → a.postincr = some e → Composed st (.expr e)
  | postdecr {st a e} : Composed st (.expr a) → a.postdecr = some e → Composed st (.expr e)
  | preincr {st a e} : Composed st (.expr a) → a.preincr = some e → Composed st (.expr e)
  | predecr {st a e} : Composed st (.expr a) → a.predecr = some e → Composed st (.expr e)
  | not {st a e} : Composed st (.expr a) → a.not = some e → Composed st (.expr e)
  | pointerOffset {st a e} : Composed st (.expr a) → a.pointerOffset = some e →
      Composed st (.expr e)
  | and {st a b e} : Composed st (.expr a) → Composed st (.expr b) → a.and b = some e →
      Composed st (.expr e)
  | implies {st a b e} : Composed st (.expr a) → Composed st (.expr b) → a.implies b = some e →
      Composed st (.expr e)
  | or {st a b e} : Composed st (.expr a) → Composed st (.expr b) → a.or b = some e →
      Composed st (.expr e)
  | isNegative {st a e} : Composed st (.expr a) → a.isNegative = some e → Composed st (.expr e)
  | isZero {st a e} : Composed st (.expr a) → a.isZero = some e → Composed st (.expr e)
  | isNonnull {st a e} : Composed st (.expr a) → a.isNonnull = some e → Composed st (.expr e)
  | addOverflow {st a b r e} : Composed st (.expr a) → Composed st (.expr b) →
      a.addOverflow b = some r → e = r.result ∨ e = r.overflowed → Composed st (.expr e)
  | subOverflow {st a b r e} : Composed st (.expr a) → Composed st (.expr b) →
      a.subOverflow b = some r → e = r.result ∨ e = r.overflowed → Composed st (.expr e)
  | mulOverflow {st a b r e} : Composed st (.expr a) → Composed st (.expr b) →
      a.mulOverflow b = some r → e = r.result ∨ e = r.overflowed → Composed st (.expr e)
  | saturatingAdd {st a b mm e} : Composed st (.expr a) → Composed st (.expr b) →
      a.saturatingAdd b mm = some e → Composed st (.expr e)
  | saturatingSub {st a b mm e} : Composed st (.expr a) → Composed st (.expr b) →
      a.saturatingSub b mm = some e → Composed st (.expr e)
  | arrayToPtr {st a e} : Composed st (.expr a) → a.arrayToPtr = some e → Composed st (.expr e)
  | reinterpretCast {st a t e} : Composed st (.expr a) → a.reinterpretCast t = some e →
      Composed st (.expr e)
  | sameObject {st a b e} : Composed st (.expr a) → Composed st (.expr b) →
      a.sameObject b = some e → Composed st (.expr e)
  | member {st a f e} : Composed st (.expr a) → a.member f st = some e → Composed st (.expr e)
  | transmuteTo {st a t e} : Composed st (.expr a) →
      a.transmuteTo t st = some e → Composed st (.expr e)
  | unionExpr {st a t f e} : Composed st (.expr a) →
      Expr.unionExpr t f a st = some e → Composed st (.expr e)
  | structExpr {st t cs e} :
      (∀ k x, cs.get? k = some x → Composed st (.expr x)) →
      Expr.structExpr t cs st = some e → Composed st (.expr e)
  | structExprWithNondetFields {st t cs e} :
      (∀ k x, cs.get? k = some x → Composed st (.expr x)) →
      Expr.structExprWithNondetFields t cs st = some e → Composed st (.expr e)
  | structExprFromValues {st t es e} :
      (∀ x ∈ es, Composed st (.expr x)) →
      Expr.structExprFromValues t es st = some e → Composed st (.expr e)
  | structExprFromPaddedValues {st t es e} :
      (∀ x ∈ es, Composed st (.expr x)) →
      Expr.structExprFromPaddedValues t es st = some e → Composed st (.expr e)
  | structFieldExprs {st a es k e} : Composed st (.expr a) →
      a.structFieldExprs st = some es → es.get? k = some e → Composed st (.expr e)
  | stmtWithLocation {st s l} : Composed st (.stmt s) → Composed st (.stmt (s.withLocation l))
  | assign {st l r loc s} : Composed st (.expr l) → Composed st (.expr r) →
      Stmt.assign l r loc = some s → Composed st (.stmt s)
  | assert {st c m loc s} : Composed st (.expr c) → Stmt.assert c m loc = some s →
      Composed st (.stmt s)
  | assertFalse {st m loc s} : Stmt.assertFalse m loc = some s → Composed st (.stmt s)
  | assertSanityCheck {st c m u loc s} : Composed st (.expr c) →
      Stmt.assertSanityCheck c m u loc = some s → Composed st (.stmt s)
  | assume {st c loc s} : Composed st (.expr c) → Stmt.assume c loc = some s → Composed st (.stmt s)
  | atomicBlock {st ss loc} : (∀ x ∈ ss, Composed st (.stmt x)) →
      Composed st (.stmt (Stmt.atomicBlock ss loc))
  | block {st ss loc} : (∀ x ∈ ss, Composed st (.stmt x)) → Composed st (.stmt (Stmt.block ss loc))
  | breakStmt {st loc} : Composed st (.stmt (Stmt.breakStmt loc))
  | continueStmt {st loc} : Composed st (.stmt (Stmt.continueStmt loc))
  | decl {st l v loc s} : Composed st (.expr l) → (∀ x ∈ v, Composed st (.expr x)) →
      Stmt.decl l v loc = some s → Composed st (.stmt s)
  | codeExpression {st e loc} : Composed st (.expr e) →
      Composed st (.stmt (Stmt.codeExpression e loc))
  | forLoop {st i c u b loc s} : Composed st (.stmt i) → Composed st (.expr c) →
      Composed st (.stmt u) → Composed st (.stmt b) → Stmt.forLoop i c u b loc = some s →
      Composed st (.stmt s)
  | functionCall {st l f args loc s} : (∀ x ∈ l, Composed st (.expr x)) →
      Composed st (.expr f) → (∀ x ∈ args, Composed st (.expr x)) →
      Stmt.functionCall l f args loc = some s → Composed st (.stmt s)
  | goto {st d loc s} : Stmt.goto d loc = some s → Composed st (.stmt s)
  | ifThenElse {st i t e loc s} : Composed st (.expr i) → Composed st (.stmt t) →
      (∀ x ∈ e, Composed st (.stmt x)) → Stmt.ifThenElse i t e loc = some s →
      Composed st (.stmt s)
  | ret {st e loc} : (∀ x ∈ e, Composed st (.expr x)) → Composed st (.stmt (Stmt.ret e loc))
  | skip {st loc} : Composed st (.stmt (Stmt.skip loc))
  | switch {st c cases d loc s} : Composed st (.expr c) →
      (∀ x ∈ cases, Composed st (.expr (SwitchCase.value x))) →
      (∀ x ∈ cases, Composed st (.stmt (SwitchCase.body x))) →
      (∀ x ∈ d, Composed st (.stmt x)) → Stmt.switch c cases d loc = some s →
      Composed st (.stmt s)
  | whileLoop {st c b loc s} : Composed st (.expr c) → Composed st (.stmt b) →
      Stmt.whileLoop c b loc = some s → Composed st (.stmt s)
  | withLabel {st b l s} : Composed st (.stmt b) → b.withLabel l = some s → Composed st (.stmt s)

variable {n : Node}

/-- What holds when the table grows, and is kept by the basic constructors, holds of everything
composed. -/
theorem Composed.induction [DebugTyp] {P : SymbolTable → Node → Prop}
    (hgrow : ∀ {st st' n}, P st n → st.Le st' → P st' n)
    (hclosed : ∀ st, Closed st (fun e => P st (.expr e)) fun s => P st (.stmt s))
    (h : Composed st n) :
    P st n := by
  induction h with
  | grow _ hle ih => exact hgrow ih hle
  | withLocation _ ih => exact (hclosed _).withLocation ih
  | addressOf _ h ih => exact (hclosed _).addressOf ih h
  | arrayConstant _ h ih => exact (hclosed _).arrayConstant ih h
  | arrayExpr _ h ih => exact (hclosed _).arrayExpr ih h
  | vectorExpr _ h ih => exact (hclosed _).vectorExpr ih h
  | boolConstant => exact (hclosed _).boolConstant
  | cBoolConstant => exact (hclosed _).cBoolConstant
  | doubleConstant => exact (hclosed _).doubleConstant
  | floatConstant => exact (hclosed _).floatConstant
  | intConstant h => exact (hclosed _).intConstant h
  | pointerConstant h => exact (hclosed _).pointerConstant h
  | nondet => exact (hclosed _).nondet
  | symbolExpression => exact (hclosed _).symbolExpression
  | toExpr => exact (hclosed _).symbolExpression
  | zero h => exact (hclosed _).zero h
  | one h => exact (hclosed _).one h
  | null h => exact (hclosed _).null h
  | maxIntExpr h => exact (hclosed _).maxIntExpr h
  | minIntExpr h => exact (hclosed _).minIntExpr h
  | sizeofExpr h => exact (hclosed _).sizeofExpr h
  | rawStringConstant => exact (hclosed _).rawStringConstant
  | stringConstant h => exact (hclosed _).stringConstant h
  | castTo _ h ih => exact (hclosed _).castTo ih h
  | castToMachineEquivalentType _ h ih => exact (hclosed _).castToMachineEquivalentType ih h
  | castArguments _ h he ih =>
    obtain ⟨ps, -, h⟩ := bind_eq_some.1 h
    exact (hclosed _).castArguments ih (guard_bind_eq_some.1 h).2 _ he
  | dereference _ h ih => exact (hclosed _).dereference ih h
  | indexArray _ _ h iha ihb => exact (hclosed _).indexArray iha ihb h
  | indexPtr _ _ h iha ihb => exact (hclosed _).indexPtr iha ihb h
  | index _ _ h iha ihb => exact (hclosed _).index iha ihb h
  | call _ _ h ihf ihargs => exact (hclosed _).call ihf ihargs h
  | builtinCall _ h ih => exact (hclosed _).builtinCall ih h
  | statementExpression _ h ih => exact (hclosed _).statementExpression ih h
  | ternary _ _ _ h ihc iht ihe => exact (hclosed _).ternary ihc iht ihe h
  | binop _ _ h iha ihb => exact (hclosed _).binop iha ihb h
  | unop _ h ih => exact (hclosed _).unop ih h
  | postincr _ h ih => exact (hclosed _).postincr ih h
  | postdecr _ h ih => exact (hclosed _).postdecr ih h
  | preincr _ h ih => exact (hclosed _).preincr ih h
  | predecr _ h ih => exact (hclosed _).predecr ih h
  | not _ h ih => exact (hclosed _).not ih h
  | pointerOffset _ h ih => exact (hclosed _).pointerOffset ih h
  | and _ _ h iha ihb => exact (hclosed _).and iha ihb h
  | implies _ _ h iha ihb => exact (hclosed _).implies iha ihb h
  | or _ _ h iha ihb => exact (hclosed _).or iha ihb h
  | isNegative _ h ih => exact (hclosed _).isNegative ih h
  | isZero _ h ih => exact (hclosed _).isZero ih h
  | isNonnull _ h ih => exact (hclosed _).isNonnull ih h
  | addOverflow _ _ h he iha ihb =>
    obtain ⟨hr, ho⟩ := (hclosed _).addOverflow iha ihb h
    rcases he with rfl | rfl
    · exact hr
    · exact ho
  | subOverflow _ _ h he iha ihb =>
    obtain ⟨hr, ho⟩ := (hclosed _).subOverflow iha ihb h
    rcases he with rfl | rfl
    · exact hr
    · exact ho
  | mulOverflow _ _ h he iha ihb =>
    obtain ⟨hr, ho⟩ := (hclosed _).mulOverflow iha ihb h
    rcases he with rfl | rfl
    · exact hr
    · exact ho
  | saturatingAdd _ _ h iha ihb => exact (hclosed _).saturatingAdd iha ihb h
  | saturatingSub _ _ h iha ihb => exact (hclosed _).saturatingSub iha ihb h
  | arrayToPtr _ h ih => exact (hclosed _).arrayToPtr ih h
  | reinterpretCast _ h ih => exact (hclosed _).reinterpretCast ih h
  | sameObject _ _ h iha ihb => exact (hclosed _).sameObject iha ihb h
  | member _ h ih => exact (hclosed _).member ih h
  | transmuteTo _ h ih => exact (hclosed _).transmuteTo ih h
  | unionExpr _ h ih => exact (hclosed _).unionExpr ih h
  | structExpr _ h ih => exact (hclosed _).structExpr ih h
  | structExprWithNondetFields _ h ih => exact (hclosed _).structExprWithNondetFields ih h
  | structExprFromValues _ h ih => exact (hclosed _).structExprFromValues ih h
  | structExprFromPaddedValues _ h ih => exact (hclosed _).structExprFromPaddedValues ih h
  | structFieldExprs _ h he ih => exact (hclosed _).structFieldExprs ih h _ _ he
  | stmtWithLocation _ ih => exact (hclosed _).stmtWithLocation ih
  | assign _ _ h ihl ihr => exact (hclosed _).stmtAssign ihl ihr h
  | assert _ h ih => exact (hclosed _).assert ih h
  | assertFalse h => exact (hclosed _).assertFalse h
  | assertSanityCheck _ h ih => exact (hclosed _).assertSanityCheck ih h
  | assume _ h ih => exact (hclosed _).assume ih h
  | atomicBlock _ ih => exact (hclosed _).atomicBlock ih
  | block _ ih => exact (hclosed _).block ih
  | breakStmt => exact (hclosed _).breakStmt
  | continueStmt => exact (hclosed _).continueStmt
  | decl _ _ h ihl ihv => exact (hclosed _).decl ihl ihv h
  | codeExpression _ ih => exact (hclosed _).codeExpression ih
  | forLoop _ _ _ _ h ihi ihc ihu ihb => exact (hclosed _).forLoop ihi ihc ihu ihb h
  | functionCall _ _ _ h ihl ihf ihargs => exact (hclosed _).functionCall ihl ihf ihargs h
  | goto h => exact (hclosed _).goto h
  | ifThenElse _ _ _ h ihi iht ihe => exact (hclosed _).ifThenElse ihi iht ihe h
  | ret _ ih => exact (hclosed _).ret ih
  | skip => exact (hclosed _).skip
  | switch _ _ _ _ h ihc ihv ihb ihd => exact (hclosed _).switch ihc ihv ihb ihd h
  | whileLoop _ _ h ihc ihb => exact (hclosed _).whileLoop ihc ihb h
  | withLabel _ h ih => exact (hclosed _).withLabel ih h

/-! ### Well typed by construction -/

/-- Every node of the tree is typed. -/
def Node.WellTyped (st : SymbolTable) : Node → Prop
  | .expr e => e.WellTyped st
  | .stmt s => s.WellTyped st

lemma Node.WellTyped.mono (h : n.WellTyped st) (hle : st.Le st') : n.WellTyped st' := by
  cases n with
  | expr e => exact Expr.WellTyped.mono hle h
  | stmt s => exact Stmt.WellTyped.mono hle h

/-- Every basic constructor makes a well typed tree out of well typed trees. -/
lemma closed_wellTyped (st : SymbolTable) :
    Closed st (fun e => e.WellTyped st) fun s => s.WellTyped st := by
  refine Closed.of_nodes ?_ ?_ (fun h _ he hs => .mk h (ExprValue.wellTyped_iff.2 ⟨he, hs⟩)) ?_
    (fun h he hs => .mk h (StmtBody.wellTyped_iff.2 ⟨he, hs⟩))
  · rintro _ l ⟨h, hv⟩
    exact .mk h hv
  · rintro es t l ⟨-, hv⟩
    exact (ExprValue.wellTyped_iff.1 hv).1
  · rintro _ l ⟨h, hb⟩
    exact .mk h hb

lemma Composed.wellTyped [DebugTyp] {st : SymbolTable} {n : Node} (h : Composed st n) :
    n.WellTyped st :=
  Composed.induction (P := fun st n => n.WellTyped st) Node.WellTyped.mono closed_wellTyped h

/-- Expressions and statements are well typed by construction. -/
theorem wellTyped_of_composed [DebugTyp] {st : SymbolTable} {n : Node} (h : Composed st n) :
    n.WellTyped st :=
  h.wellTyped

omit [Ranked String] in
theorem wellTyped_assign_bool_to_int :
    ∃ s, @Stmt.assign ⟨fun _ => "type"⟩ (Expr.symbolExpression "x" (.signedbv 32)) Expr.boolTrue
        .none = some s ∧
      @Node.WellTyped rankedString
        (@SymbolTable.empty rankedString (machineModelFromSession none "x86_64" false 64))
        (.stmt s) := by
  let _ : DebugTyp := ⟨fun _ => "type"⟩
  let _ : Ranked String := rankedString
  have h : Stmt.assign (Expr.symbolExpression "x" (.signedbv 32)) Expr.boolTrue .none =
    some _ := rfl
  exact ⟨_, h, wellTyped_of_composed (.assign .symbolExpression .boolConstant h)⟩

end Rmc

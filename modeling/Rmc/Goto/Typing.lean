import Rmc.Goto.Stmt

/-!
# Typing rules of goto programs

The typing rules, as judgements that do not mention the constructors. `BinopHasType`,
`UnopHasType`, `CastLegal` and `CallHasType` type the operations; `ExprValue.HasType` types one
node from the types of its children; `Expr.WellTyped` and `Stmt.WellTyped` say that every node of
a tree is typed. For each operation a lemma says that the check which its constructor makes
decides the rule.
-/

namespace Rmc

open OrdMap

/-! ### Operations -/

/-- The operand types and the result type of a binary operator. -/
inductive BinopHasType : BinaryOperand → Typ → Typ → Typ → Prop
  | arith {op l r} (hop : op ∈ [.plus, .minus, .mult, .div, .mod]) (same : (l == r) = true)
      (h : l.isNumeric = true ∨ l.isVector = true) : BinopHasType op l r l
  | pointerOffset {op l r} (hop : op ∈ [.plus, .minus]) (hl : l.isPointer = true)
      (hr : r.isInteger = true) : BinopHasType op l r l
  | pointerDifference {l r} (same : (l == r) = true) (hl : l.isPointer = true) :
      BinopHasType .minus l r .ssizeT
  | shift {op l r} (hop : op ∈ [.ashr, .lshr, .shl, .rol, .ror]) (hl : l.isInteger = true)
      (hr : r.isInteger = true) : BinopHasType op l r l
  | vectorShift {op l r} (hop : op ∈ [.ashr, .lshr, .shl]) (same : (l == r) = true)
      (h : l.isVector = true) : BinopHasType op l r l
  | logical {op} (hop : op ∈ [.and, .implies, .or, .xor]) : BinopHasType op .bool .bool .bool
  | bitwise {op l r} (hop : op ∈ [.bitand, .bitor, .bitxor]) (same : (l == r) = true)
      (h : l.isInteger = true ∨ l.isVector = true) : BinopHasType op l r l
  | compare {op l r} (hop : op ∈ [.ge, .gt, .le, .lt]) (same : (l == r) = true)
      (h : l.isNumeric = true ∨ l.isPointer = true) : BinopHasType op l r .bool
  | equality {op l r} (hop : op ∈ [.equal, .notequal]) (same : (l == r) = true)
      (h : l.isInteger = true ∨ l.isPointer = true) : BinopHasType op l r .bool
  | vectorCompare {op l r} (hop : op ∈ [.ge, .gt, .le, .lt, .equal, .notequal])
      (same : (l == r) = true) (h : l.isVector = true) : BinopHasType op l r l
  | floatEquality {op l r} (hop : op ∈ [.ieeeFloatEqual, .ieeeFloatNotequal])
      (same : (l == r) = true) (h : l.isFloatingPoint = true) : BinopHasType op l r .bool
  | overflow {op l r} (hop : op ∈ [.overflowMinus, .overflowMult, .overflowPlus])
      (same : (l == r) = true) (h : l.isInteger = true) : BinopHasType op l r .bool
  | overflowMinus {l r} (same : (l == r) = true)
      (h : l.isFloatingPoint = true ∨ l.isPointer = true) : BinopHasType .overflowMinus l r .bool
  | overflowPointer {op l r} (hop : op ∈ [.overflowMinus, .overflowMult, .overflowPlus])
      (hl : l.isPointer = true) (hr : r.isInteger = true) : BinopHasType op l r .bool

/-- The operand type and the result type of a unary operator. -/
inductive UnopHasType : UnaryOperand → Typ → Typ → Prop
  | bits {op t} (hop : op ∈ [.bitnot, .bswap, .popcount]) (h : t.isInteger = true) :
      UnopHasType op t t
  | leadingZeros {z t} (h : t.isInteger = true) : UnopHasType (.countLeadingZeros z) t t
  | trailingZeros {z t} (h : t.isInteger = true) : UnopHasType (.countTrailingZeros z) t t
  | minus {t} (h : t.isNumeric = true) : UnopHasType .unaryMinus t t
  | not : UnopHasType .not .bool .bool
  | isDynamicObject {t} (h : t.isPointer = true) : UnopHasType .isDynamicObject t .bool
  | pointerQuery {op t} (hop : op ∈ [.objectSize, .pointerObject]) (h : t.isPointer = true) :
      UnopHasType op t .sizeT
  | pointerOffset : UnopHasType .pointerOffset .voidPointer .ssizeT

/-- The casts from one type to another. -/
inductive CastLegal : Typ → Typ → Prop
  | same {s t} (h : (s == t) = true) : CastLegal s t
  | toBool {s} (h : s.isInteger = true ∨ s.isPointer = true) : CastLegal s .bool
  | toCBool {s} (h : s.isInteger = true ∨ s.isPointer = true ∨ s.isBool = true) : CastLegal s .cBool
  | toInteger {s t} (ht : t.isInteger = true) (hc : t.isCBool = false)
      (h : s.isNumeric = true ∨ s.isPointer = true) : CastLegal s t
  | toFloat {s t} (ht : t.isFloatingPoint = true) (h : s.isNumeric = true) : CastLegal s t
  | toPointer {s t} (ht : t.isPointer = true) (h : s.isInteger = true ∨ s.isPointer = true) :
      CastLegal s t
  | toEmpty {s} : CastLegal s .empty

/-- The function type, the argument types and the result type of a call. -/
inductive CallHasType : Typ → List Typ → Typ → Prop
  | code {ps args r} (h : List.Forall₂ (fun (p : Parameter) a => (a == p.typ) = true) ps args) :
      CallHasType (.code ps r) args r
  | variadic {ps args extra r}
      (h : List.Forall₂ (fun (p : Parameter) a => (a == p.typ) = true) ps args) :
      CallHasType (.variadicCode ps r) (args ++ extra) r

/-- The value given for a component has the type of the component; padding has a type too. -/
def DatatypeComponent.Accepts (c : DatatypeComponent) (t : Typ) : Prop :=
  ∃ ct, c.typ = some ct ∧ (ct == t) = true

/-! ### The checks decide the rules -/

open Typ

/-- The check that `binop` makes decides the rule for binary operators. -/
lemma binopHasType_iff {op : BinaryOperand} {l r t : Typ} : BinopHasType op l r t ↔
    Expr.typecheckBinopArgs op l r = true ∧ t = Expr.binopReturnType op l r := by
  constructor
  · intro h
    cases h <;> grind [Expr.typecheckBinopArgs, Expr.binopReturnType]
  · rintro ⟨h, rfl⟩
    cases op <;> simp only [Expr.typecheckBinopArgs, Expr.binopReturnType, Bool.or_eq_true,
      Bool.and_eq_true] at h ⊢
    case plus =>
      rcases h with ⟨hs, h⟩ | ⟨hl, hr⟩
      · exact .arith (by simp) hs h
      · exact .pointerOffset (by simp) hl hr
    case minus =>
      rcases h with ⟨hs, (hp | hn) | hv⟩ | ⟨hl, hr⟩
      · simpa [hp, ← isPointer_eq_of_beq hs] using .pointerDifference hs hp
      · simpa [isPointer_of_isNumeric hn] using .arith (by simp) hs (.inl hn)
      · have hp : l.isPointer = false := by
          by_contra hp
          simp [isVector_of_isPointer (by simpa using hp)] at hv
        simpa [hp] using .arith (by simp) hs (.inr hv)
      · have hrp := isPointer_of_isNumeric (isNumeric_of_isInteger hr)
        simpa [hrp] using .pointerOffset (by simp) hl hr
    case div | mod | mult => exact .arith (by simp) h.1 h.2
    case ashr | lshr | shl =>
      rcases h with ⟨hl, hr⟩ | ⟨hs, hv⟩
      · exact .shift (by simp) hl hr
      · exact .vectorShift (by simp) hs hv
    case rol | ror => exact .shift (by simp) h.1 h.2
    case and | implies | or | xor =>
      rw [isBool_iff.1 h.1, isBool_iff.1 h.2]
      exact .logical (by simp)
    case bitand | bitor | bitxor => exact .bitwise (by simp) h.1 h.2
    case ge | gt | le | lt =>
      obtain ⟨hs, h | hv⟩ := h
      · have hv : l.isVector = false := h.elim isVector_of_isNumeric isVector_of_isPointer
        simpa [hv] using .compare (by simp) hs h
      · simpa [hv] using .vectorCompare (by simp) hs hv
    case equal | notequal =>
      obtain ⟨hs, ((hc | hi) | hp) | hv⟩ := h
      · have hi := isInteger_of_isCBool hc
        simpa [isVector_of_isNumeric (isNumeric_of_isInteger hi)] using
          .equality (by simp) hs (.inl hi)
      · simpa [isVector_of_isNumeric (isNumeric_of_isInteger hi)] using
          .equality (by simp) hs (.inl hi)
      · simpa [isVector_of_isPointer hp] using .equality (by simp) hs (.inr hp)
      · simpa [hv] using .vectorCompare (by simp) hs hv
    case ieeeFloatEqual | ieeeFloatNotequal => exact .floatEquality (by simp) h.1 h.2
    case overflowMinus =>
      rcases h with ⟨hs, hp | hn⟩ | ⟨hl, hr⟩
      · exact .overflowMinus hs (.inr hp)
      · rcases isNumeric_iff.1 hn with hi | hf
        · exact .overflow (by simp) hs hi
        · exact .overflowMinus hs (.inl hf)
      · exact .overflowPointer (by simp) hl hr
    case overflowMult | overflowPlus =>
      rcases h with ⟨hs, hi⟩ | ⟨hl, hr⟩
      · exact .overflow (by simp) hs hi
      · exact .overflowPointer (by simp) hl hr

lemma unopHasType_iff {op : UnaryOperand} {a t : Typ} : UnopHasType op a t ↔
    Expr.typecheckUnopArg op a = true ∧ t = Expr.unopReturnType op a := by
  constructor
  · intro h
    cases h with
    | bits hop h =>
      simp only [List.mem_cons, List.not_mem_nil, or_false] at hop
      rcases hop with rfl | rfl | rfl <;> exact ⟨h, rfl⟩
    | pointerQuery hop h =>
      simp only [List.mem_cons, List.not_mem_nil, or_false] at hop
      rcases hop with rfl | rfl <;> exact ⟨h, rfl⟩
    | leadingZeros h | trailingZeros h | minus h | isDynamicObject h => exact ⟨h, rfl⟩
    | not => exact ⟨rfl, rfl⟩
    | pointerOffset => exact ⟨Typ.beq_self _, rfl⟩
  · rintro ⟨h, rfl⟩
    cases op <;> simp only [Expr.typecheckUnopArg] at h
    case bitnot | bswap | popcount => exact .bits (by simp) h
    case countLeadingZeros => exact .leadingZeros h
    case countTrailingZeros => exact .trailingZeros h
    case isDynamicObject => exact .isDynamicObject h
    case objectSize | pointerObject => exact .pointerQuery (by simp) h
    case unaryMinus => exact .minus h
    case not =>
      rw [isBool_iff.1 h]
      exact .not
    case pointerOffset =>
      rw [beq_voidPointer_iff.1 h]
      exact .pointerOffset

/-- The check that `cast_to` makes decides the rule for casts. -/
lemma castLegal_iff {s t : Typ} : CastLegal s t ↔ Expr.canCastFrom s t = true := by
  constructor
  · intro h
    rw [Expr.canCastFrom]
    cases h with
    | same h => simp [h]
    | toBool h => rcases h with h | h <;> simp [isBool, h]
    | toCBool h =>
      have hb : Typ.cBool.isBool = false ∧ Typ.cBool.isCBool = true := ⟨rfl, rfl⟩
      rcases h with h | h | h <;> simp [hb, h]
    | toInteger ht hc h =>
      have hb : t.isBool = false := by cases t <;> simp_all [isBool, isInteger]
      rcases h with h | h
      · rcases isNumeric_iff.1 h with h | h <;> simp [hb, hc, ht, h]
      · simp [hb, hc, ht, h]
    | toFloat ht h =>
      have hb : t.isBool = false ∧ t.isCBool = false ∧ t.isInteger = false := by
        cases t <;> simp_all [isBool, isInteger, isFloatingPoint, isCBool]
      simp [hb, ht, h]
    | toPointer ht h =>
      have hb : t.isBool = false ∧ t.isCBool = false ∧ t.isInteger = false ∧
          t.isFloatingPoint = false := by
        cases t <;> simp_all [isBool, isInteger, isFloatingPoint, isCBool, isPointer]
      rcases h with h | h <;> simp [hb, ht, h]
    | toEmpty => simp [isBool, isCBool, isInteger, isFloatingPoint, isPointer, isEmpty]
  · intro h
    rw [Expr.canCastFrom] at h
    split_ifs at h with hs hb hc hi hf hp
    · exact .same hs
    · rw [isBool_iff.1 hb]
      refine .toBool ?_
      simp only [Bool.or_eq_true] at h
      exact h.imp_left fun h => h.elim isInteger_of_isCBool id
    · rw [isCBool_iff.1 hc]
      simp only [Bool.or_eq_true, or_assoc] at h
      exact .toCBool h
    · refine .toInteger hi (by simpa using hc) ?_
      simp only [Bool.or_eq_true] at h
      rcases h with ((h | h) | h) | h
      · exact .inl (isNumeric_of_isInteger (isInteger_of_isCBool h))
      · exact .inl (isNumeric_of_isInteger h)
      · exact .inl (isNumeric_iff.2 (.inr h))
      · exact .inr h
    · exact .toFloat hf h
    · exact .toPointer hp (by simpa using h)
    · rw [isEmpty_iff.1 h]
      exact .toEmpty

/-- Pairwise agreement, as a check of the lengths and of the pairs. -/
private lemma forall₂_iff_zip {α β : Type} {R : α → β → Prop} {p : α × β → Bool}
    (hp : ∀ a b, p (a, b) = true ↔ R a b) {as : List α} {bs : List β} :
    List.Forall₂ R as bs ↔ as.length = bs.length ∧ (as.zip bs).all p = true := by
  rw [List.forall₂_iff_zip]
  refine and_congr_right fun _ => ?_
  simp only [List.all_eq_true, Prod.forall, hp]

/-- The check that `call` makes decides the rule for calls. -/
lemma callHasType_iff {f : Expr} {args : List Expr} {t : Typ} :
    CallHasType f.typ (args.map Expr.typ) t ↔
      Expr.typecheckCall f args = true ∧ f.typ.returnType = some t := by
  have hnamed : ∀ ps : List Parameter, ∀ as : List Expr,
      List.Forall₂ (fun (p : Parameter) a => (a == p.typ) = true) ps (as.map Expr.typ) ↔
        ps.length = as.length ∧ Expr.typecheckNamedArgs ps as = true := by
    intro ps as
    rw [List.forall₂_map_right_iff, Expr.typecheckNamedArgs]
    refine forall₂_iff_zip ?_
    exact fun _ _ => Iff.rfl
  obtain ⟨v, ft, l⟩ := f
  simp only [Expr.typ_mk, Expr.typecheckCall]
  constructor
  · intro h
    generalize hargs : args.map Expr.typ = ts at h
    cases h with
    | code h =>
      subst hargs
      obtain ⟨hlen, h⟩ := (hnamed _ _).1 h
      simp [hlen, h, Typ.returnType]
    | @variadic ps named extra _ h =>
      obtain ⟨as, bs, rfl, rfl, rfl⟩ := List.map_eq_append_iff.1 hargs
      obtain ⟨hlen, h⟩ := (hnamed _ _).1 h
      have hzip : ps.zip (as ++ bs) = ps.zip as := by
        rw [← List.append_nil ps, List.zip_append hlen]
        simp
      simpa [hlen, Expr.typecheckNamedArgs, hzip, Typ.returnType] using h
  · rintro ⟨h, hr⟩
    split at h
    · simp only [Typ.returnType, Option.some.injEq] at hr
      subst hr
      simp only [Bool.and_eq_true, beq_iff_eq] at h
      exact .code ((hnamed _ _).2 ⟨h.1.symm, h.2⟩)
    · rename_i ps r
      simp only [Typ.returnType, Option.some.injEq] at hr
      subst hr
      simp only [Bool.and_eq_true, decide_eq_true_eq] at h
      have hzip : ps.zip args = ps.zip (args.take ps.length) := by
        rw [List.zip_eq_zip_take_min, Nat.min_eq_left h.1, List.take_length]
      rw [← List.take_append_drop ps.length args, List.map_append]
      refine .variadic ((hnamed _ _).2 ⟨by simp [h.1], ?_⟩)
      rw [Expr.typecheckNamedArgs, ← hzip]
      exact h.2
    · cases h

/-- The check that the struct initializers make decides the rule for structs. -/
lemma accepts_iff {fields : List DatatypeComponent} {values : List Expr} :
    List.Forall₂ (fun f (v : Expr) => f.Accepts v.typ) fields values ↔
      fields.length = values.length ∧ Expr.valuesMatchFields fields values = true :=
  forall₂_iff_zip fun f v => by
    cases h : f.typ <;> simp [DatatypeComponent.Accepts, h]

/-! ### Nodes -/

variable [Ranked String] (st : SymbolTable)

/-- The type of a node, from the types of its children. -/
inductive ExprValue.HasType : ExprValue → Typ → Prop
  | addressOf {e} (h : e.canTakeAddressOf = true) : HasType (.addressOf e) (.pointer e.typ)
  | array {elems t n} (hlen : elems.length = n)
      (h : ∀ x ∈ elems, (x.typ == t) = true) : HasType (.array elems) (.array t n)
  | arrayOf {e n} (h : e.isIntConstant = true) : HasType (.arrayOf e) (.array e.typ n)
  | assign {l r} (h : (l.typ == r.typ) = true) : HasType (.assign l r) l.typ
  | binOp {op l r t} (h : BinopHasType op l.typ r.typ t) : HasType (.binOp op l r) t
  | boolConstant {c} : HasType (.boolConstant c) .bool
  | byteExtract {e t n} (he : e.typ.sizeofInBits st = some n) (ht : t.sizeofInBits st = some n) :
      HasType (.byteExtract e 0) t
  | cBoolConstant {c} : HasType (.cBoolConstant c) .cBool
  | dereference {e t} (h : e.typ = .pointer t) : HasType (.dereference e) t
  | doubleConstant {c} : HasType (.doubleConstant c) .double
  | floatConstant {c} : HasType (.floatConstant c) .float
  | functionCall {f args t} (h : CallHasType f.typ (args.map Expr.typ) t) :
      HasType (.functionCall f args) t
  | ite {c t e} (hc : c.typ = .bool) (h : (t.typ == e.typ) = true) : HasType (.ite c t e) t.typ
  | index {a i t} (hi : i.typ.isInteger = true) (ha : a.typ.isArrayLike = true)
      (h : a.typ.baseType = some t) : HasType (.index a i) t
  | intConstant {i t} (h : t.isInteger = true) : HasType (.intConstant i) t
  | member {e field t} (he : e.typ.isStructTag = true ∨ e.typ.isUnionTag = true)
      (h : st.lookupFieldTypeInType e.typ field = some t) : HasType (.member e field) t
  | nondet {t} : HasType .nondet t
  | pointerConstant {c t} : HasType (.pointerConstant c) (.pointer t)
  | selfOp {op e} (h : e.typ.isInteger = true ∨ e.typ.isPointer = true) :
      HasType (.selfOp op e) e.typ
  | statementExpression {ss e l t} (hlast : ss.getLast? = some (.mk (.expression e) l))
      (h : (e.typ == t) = true) : HasType (.statementExpression ss) t
  | stringConstant {s} : HasType (.stringConstant s) (.array .cChar (s.utf8ByteSize + 1))
  | struct {values tag fields} (hfields : st.lookupComponents tag = some fields)
      (h : List.Forall₂ (fun f (v : Expr) => f.Accepts v.typ) fields values) :
      HasType (.struct values) (.structTag tag)
  | symbol {name t} : HasType (.symbol name) t
  | typecast {e t} (hlegal : CastLegal e.typ t) (hne : (e.typ == t) = false) (hb : t ≠ .bool) :
      HasType (.typecast e) t
  | union {e field tag t} (h : st.lookupFieldTypeInType (.unionTag tag) field = some t)
      (he : (t == e.typ) = true) : HasType (.union e field) (.unionTag tag)
  | unOp {op e t} (h : UnopHasType op e.typ t) : HasType (.unOp op e) t
  | vector {elems t n} (hlen : elems.length = n)
      (h : ∀ x ∈ elems, (x.typ == t) = true) : HasType (.vector elems) (.vector t n)

/-- The sides of a statement agree. A return statement does not say which function it returns
from, so there is nothing to compare its value with. -/
inductive StmtBody.Agrees : StmtBody → Prop
  | assign {l r} (h : (l.typ == r.typ) = true) : Agrees (.assign l r)
  | assume {c} (h : c.typ = .bool) : Agrees (.assume c)
  | atomicBlock {ss} : Agrees (.atomicBlock ss)
  | block {ss} : Agrees (.block ss)
  | break : Agrees .break
  | continue : Agrees .continue
  | decl {l v} (hl : l.isSymbol = true) (h : ∀ x ∈ v, (l.typ == x.typ) = true) : Agrees (.decl l v)
  | expression {e} : Agrees (.expression e)
  | for {i c u b} (h : c.typ = .bool) : Agrees (.for i c u b)
  | functionCall {l f args t} (h : CallHasType f.typ (args.map Expr.typ) t)
      (hl : ∀ x ∈ l, (x.typ == t) = true) : Agrees (.functionCall l f args)
  | goto {dest} (h : dest ≠ "") : Agrees (.goto dest)
  | ifthenelse {i t e} (h : i.typ = .bool) : Agrees (.ifthenelse i t e)
  | label {l s} (h : l ≠ "") : Agrees (.label l s)
  | return {e} : Agrees (.return e)
  | skip : Agrees .skip
  | switch {c cases d} (h : ∀ x ∈ cases, (x.value.typ == c.typ) = true) : Agrees (.switch c cases d)
  | while {c s} (h : c.typ = .bool) : Agrees (.while c s)

/-! ### Trees -/

mutual

/-- Every node of an expression is typed. -/
inductive Expr.WellTyped : Expr → Prop
  | mk {v t l} (h : v.HasType st t) (hv : v.WellTyped) : Expr.WellTyped (.mk v t l)

/-- Every node below a value is typed. -/
inductive ExprValue.WellTyped : ExprValue → Prop
  | addressOf {e} (h : e.WellTyped) : ExprValue.WellTyped (.addressOf e)
  | array {es} (h : ∀ e ∈ es, e.WellTyped) : ExprValue.WellTyped (.array es)
  | arrayOf {e} (h : e.WellTyped) : ExprValue.WellTyped (.arrayOf e)
  | assign {l r} (hl : l.WellTyped) (hr : r.WellTyped) : ExprValue.WellTyped (.assign l r)
  | binOp {op l r} (hl : l.WellTyped) (hr : r.WellTyped) : ExprValue.WellTyped (.binOp op l r)
  | boolConstant {c} : ExprValue.WellTyped (.boolConstant c)
  | byteExtract {e n} (h : e.WellTyped) : ExprValue.WellTyped (.byteExtract e n)
  | cBoolConstant {c} : ExprValue.WellTyped (.cBoolConstant c)
  | dereference {e} (h : e.WellTyped) : ExprValue.WellTyped (.dereference e)
  | doubleConstant {c} : ExprValue.WellTyped (.doubleConstant c)
  | floatConstant {c} : ExprValue.WellTyped (.floatConstant c)
  | functionCall {f es} (hf : f.WellTyped) (h : ∀ e ∈ es, e.WellTyped) :
      ExprValue.WellTyped (.functionCall f es)
  | ite {c t e} (hc : c.WellTyped) (ht : t.WellTyped) (he : e.WellTyped) :
      ExprValue.WellTyped (.ite c t e)
  | index {a i} (ha : a.WellTyped) (hi : i.WellTyped) : ExprValue.WellTyped (.index a i)
  | intConstant {i} : ExprValue.WellTyped (.intConstant i)
  | member {e f} (h : e.WellTyped) : ExprValue.WellTyped (.member e f)
  | nondet : ExprValue.WellTyped .nondet
  | pointerConstant {c} : ExprValue.WellTyped (.pointerConstant c)
  | selfOp {op e} (h : e.WellTyped) : ExprValue.WellTyped (.selfOp op e)
  | statementExpression {ss} (h : ∀ s ∈ ss, s.WellTyped) :
      ExprValue.WellTyped (.statementExpression ss)
  | stringConstant {s} : ExprValue.WellTyped (.stringConstant s)
  | struct {es} (h : ∀ e ∈ es, e.WellTyped) : ExprValue.WellTyped (.struct es)
  | symbol {n} : ExprValue.WellTyped (.symbol n)
  | typecast {e} (h : e.WellTyped) : ExprValue.WellTyped (.typecast e)
  | union {e f} (h : e.WellTyped) : ExprValue.WellTyped (.union e f)
  | unOp {op e} (h : e.WellTyped) : ExprValue.WellTyped (.unOp op e)
  | vector {es} (h : ∀ e ∈ es, e.WellTyped) : ExprValue.WellTyped (.vector es)

/-- Every node of a statement is typed. -/
inductive Stmt.WellTyped : Stmt → Prop
  | mk {b l} (h : b.Agrees) (hb : b.WellTyped) : Stmt.WellTyped (.mk b l)

/-- Every node below a statement is typed. -/
inductive StmtBody.WellTyped : StmtBody → Prop
  | assign {l r} (hl : l.WellTyped) (hr : r.WellTyped) : StmtBody.WellTyped (.assign l r)
  | assume {c} (h : c.WellTyped) : StmtBody.WellTyped (.assume c)
  | atomicBlock {ss} (h : ∀ s ∈ ss, s.WellTyped) : StmtBody.WellTyped (.atomicBlock ss)
  | block {ss} (h : ∀ s ∈ ss, s.WellTyped) : StmtBody.WellTyped (.block ss)
  | break : StmtBody.WellTyped .break
  | continue : StmtBody.WellTyped .continue
  | decl {l v} (hl : l.WellTyped) (hv : ∀ e ∈ v, e.WellTyped) : StmtBody.WellTyped (.decl l v)
  | expression {e} (h : e.WellTyped) : StmtBody.WellTyped (.expression e)
  | for {i c u b} (hi : i.WellTyped) (hc : c.WellTyped) (hu : u.WellTyped) (hb : b.WellTyped) :
      StmtBody.WellTyped (.for i c u b)
  | functionCall {l f es} (hl : ∀ e ∈ l, e.WellTyped) (hf : f.WellTyped)
      (h : ∀ e ∈ es, e.WellTyped) : StmtBody.WellTyped (.functionCall l f es)
  | goto {d} : StmtBody.WellTyped (.goto d)
  | ifthenelse {i t e} (hi : i.WellTyped) (ht : t.WellTyped) (he : ∀ s ∈ e, s.WellTyped) :
      StmtBody.WellTyped (.ifthenelse i t e)
  | label {l s} (h : s.WellTyped) : StmtBody.WellTyped (.label l s)
  | return {e} (h : ∀ x ∈ e, x.WellTyped) : StmtBody.WellTyped (.return e)
  | skip : StmtBody.WellTyped .skip
  | switch {c cases d} (hc : c.WellTyped) (hcases : ∀ x ∈ cases, x.WellTyped)
      (hd : ∀ s ∈ d, s.WellTyped) : StmtBody.WellTyped (.switch c cases d)
  | while {c s} (hc : c.WellTyped) (hs : s.WellTyped) : StmtBody.WellTyped (.while c s)

/-- Every node of an arm of a switch statement is typed. -/
inductive SwitchCase.WellTyped : SwitchCase → Prop
  | mk {e s} (he : e.WellTyped) (hs : s.WellTyped) : SwitchCase.WellTyped (.mk e s)

end

variable {st} {st' : SymbolTable}

lemma ExprValue.wellTyped_iff {v : ExprValue} : v.WellTyped st ↔
    (∀ e ∈ v.exprs, e.WellTyped st) ∧ ∀ s ∈ v.stmts, s.WellTyped st := by
  constructor
  · intro h
    cases h <;> simp_all [ExprValue.exprs, ExprValue.stmts]
  · rintro ⟨he, hs⟩
    cases v <;> constructor <;> simp_all [ExprValue.exprs, ExprValue.stmts]

lemma StmtBody.wellTyped_iff {b : StmtBody} : b.WellTyped st ↔
    (∀ e ∈ b.exprs, e.WellTyped st) ∧ ∀ s ∈ b.stmts, s.WellTyped st := by
  have hcase : ∀ c : SwitchCase, c.WellTyped st ↔ c.value.WellTyped st ∧ c.body.WellTyped st :=
    fun c => ⟨fun h => by cases h; exact ⟨‹_›, ‹_›⟩, fun h => by cases c; exact .mk h.1 h.2⟩
  constructor
  · intro h
    cases h <;> simp_all [StmtBody.exprs, StmtBody.stmts, or_imp, forall_and]
  · rintro ⟨he, hs⟩
    cases b <;> constructor <;> simp_all [StmtBody.exprs, StmtBody.stmts, or_imp, forall_and]

/-! ### Growth of the table -/

lemma ExprValue.HasType.mono (hle : st.Le st') {v : ExprValue} {t : Typ} (h : v.HasType st t) :
    v.HasType st' t := by
  cases h with
  | byteExtract he ht => exact .byteExtract (hle.sizeofInBits he) (hle.sizeofInBits ht)
  | member he h => exact .member he (hle.lookupFieldTypeInType h)
  | struct hfields h => exact .struct (hle.lookupComponents hfields) h
  | union h he => exact .union (hle.lookupFieldTypeInType h) he
  | _ => constructor <;> assumption

lemma Expr.WellTyped.mono (hle : st.Le st') {e : Expr} (h : e.WellTyped st) : e.WellTyped st' := by
  apply @Expr.WellTyped.rec _ st (fun e _ => e.WellTyped st') (fun v _ => v.WellTyped st')
    (fun s _ => s.WellTyped st') (fun b _ => b.WellTyped st') (fun c _ => c.WellTyped st')
  case mk => exact fun h _ ih => .mk (h.mono hle) ih
  all_goals first | exact h | (intros; constructor <;> assumption)
lemma Stmt.WellTyped.mono (hle : st.Le st') {s : Stmt} (h : s.WellTyped st) : s.WellTyped st' := by
  apply @Stmt.WellTyped.rec _ st (fun e _ => e.WellTyped st') (fun v _ => v.WellTyped st')
    (fun s _ => s.WellTyped st') (fun b _ => b.WellTyped st') (fun c _ => c.WellTyped st')
  case mk => exact fun h _ ih => .mk (h.mono hle) ih
  all_goals first | exact h | (intros; constructor <;> assumption)

end Rmc

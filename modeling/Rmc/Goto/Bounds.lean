import Rmc.Goto.Eval

/-!
# Accesses within bounds

The elements of an array or vector that is in memory, and the expressions that only access
elements that are there. The evaluation of an expression does not check bounds; the model checker
does, for the accesses that are evaluated.
-/

namespace Rmc

open OrdMap TwosComplement

/-- How many elements an array or a vector has. -/
def Typ.elementCount : Typ → Option ℕ
  | .array _ n | .vector _ n => some n
  | _ => none

section

variable [Ranked String] (st : SymbolTable) (σ : State)

/-- The value of an element of an array or vector that is in memory. -/
def Expr.element (e : Expr) (j : ℕ) : Option ℕ := do
  let t ← e.typ.baseType
  let p ← e.addr st σ
  σ.loadTyp st t (pattern st.machineModel.pointerWidth (p + j * (← t.bytes st)))

/-- The value of the index is a position in an array of this type. -/
def Expr.Indexes (index : Expr) (t : Typ) : Prop :=
  ∀ n ∈ t.elementCount, ∃ i j, index.eval st σ = some i ∧
    index.typ.valueOf st.machineModel i = some j ∧ 0 ≤ j ∧ j < n

mutual

/-- Every element that the expression accesses is there. Of a choice, only the part that is taken
is evaluated; an expression with statements is not covered. -/
def Expr.InBounds : Expr → Prop
  | .mk value _ _ => value.InBounds

def ExprValue.InBounds : ExprValue → Prop
  | .addressOf e | .arrayOf e | .byteExtract e _ | .dereference e | .member e _ | .selfOp _ e
  | .typecast e | .union e _ | .unOp _ e => e.InBounds
  | .assign l r | .binOp _ l r => l.InBounds ∧ r.InBounds
  | .array es | .struct es | .vector es => AllInBounds es
  | .functionCall f args => f.InBounds ∧ AllInBounds args
  | .ite c t e => c.InBounds ∧ ∀ x, c.eval st σ = some x →
    (x ≠ 0 → t.InBounds) ∧ (x = 0 → e.InBounds)
  | .index array index => array.InBounds ∧ index.InBounds ∧ index.Indexes st σ array.typ
  | .statementExpression _ => False
  | .boolConstant _ | .cBoolConstant _ | .doubleConstant _ | .floatConstant _ | .intConstant _
  | .nondet | .pointerConstant _ | .stringConstant _ | .symbol _ => True

def AllInBounds : List Expr → Prop
  | [] => True
  | e :: es => e.InBounds ∧ AllInBounds es

end

end

section

variable [Ranked String] {st : SymbolTable} {σ : State} {t : Typ} {array index : Expr}

namespace Expr

@[simp] lemma inBounds_new (v : ExprValue) (t : Typ) :
    (new v t).InBounds st σ ↔ v.InBounds st σ := by
  simp [new, InBounds]

variable {i : ℕ}

/-- An index with a value that is not negative reads the element at that position. -/
lemma eval_index {j : ℕ} (hbase : array.typ.baseType = some t) (hindex : index.eval st σ = some i)
    (hvalue : index.typ.valueOf st.machineModel i = some (j : ℤ)) :
    (new (.index array index) t).eval st σ = array.element st σ j := by
  simp [ExprValue.eval, element, hbase, hindex, hvalue]

/-- Whether an index is a position is a question about its value. -/
lemma indexes_iff {n : ℕ} {j : ℤ} (hcount : t.elementCount = some n)
    (hindex : index.eval st σ = some i) (hvalue : index.typ.valueOf st.machineModel i = some j) :
    index.Indexes st σ t ↔ 0 ≤ j ∧ j < n := by
  simp only [Indexes, hcount, Option.mem_def, Option.some.injEq, forall_eq', hindex]
  constructor
  · rintro ⟨_, j', rfl, hvalue', hj⟩
    cases hvalue.symm.trans hvalue'
    exact hj
  · intro hj
    exact ⟨i, j, rfl, hvalue, hj⟩

end Expr

end

end Rmc

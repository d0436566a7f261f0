import Rmc.Goto.Eval

/-!
# Lvalues

The expressions that stand for a location: a variable, what a pointer points to, a field and an
element of an array. Each lemma gives the expression that a constructor makes, its type and its
address. An expression that has an address has the value that is in memory there.
-/

namespace Rmc

open OrdMap TwosComplement ByteMemory

section

variable [Ranked String] {st : SymbolTable} {σ : State} {e i : Expr} {t t' : Typ} {a n size : ℕ}
  {field : String}

/-! ### Pointers -/

lemma Typ.bytes_pointer (h : st.machineModel.pointerWidth % 8 = 0) (t : Typ) :
    (Typ.pointer t).bytes st = some (st.machineModel.pointerWidth / 8) := by
  simp [Typ.bytes, Typ.sizeofInBits, Typ.sizeofWith, h]

lemma Typ.bytes_sizeT (h : st.machineModel.pointerWidth % 8 = 0) :
    Typ.sizeT.bytes st = some (st.machineModel.pointerWidth / 8) := by
  simp [Typ.bytes, Typ.sizeofInBits, Typ.sizeofWith, Typ.sizeT, CIntType.sizeofInBits, h]

lemma isIntegral_sizeT (st : SymbolTable) :
    Typ.sizeT.IsIntegral st.machineModel false st.machineModel.pointerWidth :=
  ⟨rfl, rfl, rfl⟩

lemma isIntegral_ssizeT (st : SymbolTable) :
    Typ.ssizeT.IsIntegral st.machineModel true st.machineModel.pointerWidth :=
  ⟨rfl, rfl, rfl⟩

/-- The value of an expression in memory is what is at its address. -/
lemma Expr.eval_of_addr (h : e.addr st σ = some a) : e.eval st σ = σ.loadTyp st e.typ a := by
  obtain ⟨v, t, loc⟩ := e
  rw [Expr.addr] at h
  rw [Expr.eval, Expr.typ]
  cases v with
  | dereference e =>
    rw [ExprValue.addr] at h
    simp [ExprValue.eval, h]
  | index array index =>
    simp only [ExprValue.addr, bind_eq_some, pure_eq_some] at h
    obtain ⟨p, hp, i, hi, j, hj, k, hk, rfl⟩ := h
    simp [ExprValue.eval, hp, hi, hj, hk]
  | member lhs field =>
    simp only [ExprValue.addr, bind_eq_some, pure_eq_some] at h
    obtain ⟨p, hp, o, ho, rfl⟩ := h
    obtain ⟨v, t', loc'⟩ := lhs
    rw [Expr.typ] at ho
    cases v with
    | struct values =>
      -- a struct that is written out is not in memory
      simp [Expr.addr, ExprValue.addr] at hp
    | _ => simp [ExprValue.eval, hp, ho]
  | symbol x =>
    rw [ExprValue.addr, Option.some.injEq] at h
    simp [ExprValue.eval, h]
  | _ => simp [ExprValue.addr] at h

lemma Expr.exists_dereference (st : SymbolTable) (he : e.typ = .pointer t) :
    ∃ r, e.dereference = some r ∧ r.typ = t ∧ ∀ σ, r.addr st σ = e.eval st σ :=
  ⟨new (.dereference e) t, dereference_eq_some.mpr ⟨t, he, rfl⟩, rfl, fun σ => by
    simp [ExprValue.addr]⟩

/-! ### Fields -/

/-- An aggregate has a field of this type, so many bytes from its start. -/
structure HasField (st : SymbolTable) (t : Typ) (field : String) (t' : Typ) (o : ℕ) : Prop where
  isTag : t.isStructTag = true ∨ t.isUnionTag = true
  lookup : st.lookupFieldTypeInType t field = some t'
  offset : fieldOffset st t field = some o

lemma HasField.exists_member {o : ℕ} (h : HasField st e.typ field t' o) :
    ∃ r, e.member field st = some r ∧ r.typ = t' ∧ ∀ σ a, e.addr st σ = some a →
      r.addr st σ = some ((a + o) % 2 ^ st.machineModel.pointerWidth) := by
  refine ⟨Expr.new (.member e field) t', Expr.member_eq_some.mpr ⟨h.isTag, t', h.lookup, rfl⟩, rfl,
    ?_⟩
  intro σ a ha
  simp [ExprValue.addr, ha, h.offset]

/-- The address of a field is the one of the aggregate and the offset. -/
lemma Expr.addr_of_member {r : Expr} {b : ℕ} (h : e.member field st = some r)
    (hb : r.addr st σ = some b) :
    ∃ a o, e.addr st σ = some a ∧
      fieldOffset st e.typ field = some o ∧ b = (a + o) % 2 ^ st.machineModel.pointerWidth := by
  obtain ⟨-, t, -, rfl⟩ := member_eq_some.mp h
  simp only [addr_new, ExprValue.addr, bind_eq_some, pure_eq_some] at hb
  obtain ⟨a, ha, o, ho, rfl⟩ := hb
  exact ⟨a, o, ha, ho, rfl⟩

/-! ### Elements -/

omit [Ranked String] in
/-- The distance of an element depends on the index as a number modulo the size of the memory. -/
lemma pattern_add_mul {w : ℕ} {j : ℤ} (hj : j ≡ n [ZMOD 2 ^ w]) (a size : ℕ) :
    pattern w (a + j * size) = (a + n * size) % 2 ^ w := by
  rw [← pattern_natCast, pattern_eq_pattern_iff]
  push_cast
  exact (hj.mul_right _).add_left _

variable {signed : Bool}

lemma Expr.exists_indexArray (hbase : e.typ.baseType = some t) (harray : e.typ.isArrayLike = true)
    (hi : i.typ.IsIntegral st.machineModel signed st.machineModel.pointerWidth) :
    ∃ r, e.indexArray i = some r ∧ r.typ = t ∧ ∀ σ a n, e.addr st σ = some a →
      i.eval st σ = some n → r.addr st σ =
        (t.bytes st).map fun size => (a + n * size) % 2 ^ st.machineModel.pointerWidth := by
  refine ⟨new (.index e i) t, indexArray_eq_some.mpr ⟨hi.isInteger, harray, t, hbase, rfl⟩, rfl, ?_⟩
  intro σ a n ha hn
  have hpattern := pattern_add_mul (value_modEq signed st.machineModel.pointerWidth n) a
  cases hsize : t.bytes st <;> simp [ExprValue.addr, ha, hn, hi.valueOf, hsize, hpattern]

lemma Expr.exists_plus_dereference (he : e.typ = .pointer t)
    (hi : i.typ.IsIntegral st.machineModel signed st.machineModel.pointerWidth) :
    ∃ p r, e.plus i = some p ∧ p.dereference = some r ∧ r.typ = t ∧ ∀ σ a n,
      e.eval st σ = some a → i.eval st σ = some n → r.addr st σ =
        (t.bytes st).map fun size => (a + n * size) % 2 ^ st.machineModel.pointerWidth := by
  have hplus : e.plus i = some (new (.binOp .plus e i) (.pointer t)) := by
    rw [plus, binop_eq_some]
    exact ⟨by simp [typecheckBinopArgs, he, Typ.isPointer, hi.isInteger],
      by simp [binopReturnType, he]⟩
  obtain ⟨r, hr, htyp, haddr⟩ := exists_dereference st
    (show (new (.binOp .plus e i) (.pointer t)).typ = .pointer t from rfl)
  refine ⟨_, r, hplus, hr, htyp, ?_⟩
  intro σ a n ha hn
  have hpattern := pattern_add_mul (value_modEq signed st.machineModel.pointerWidth n) a
  rw [haddr σ, eval_binop hplus ha hn, he]
  cases hsize : t.bytes st <;>
    simp [evalBinop, Typ.isPointer, evalPointerBinop, Typ.baseType, hsize, hi.valueOf,
      Typ.patternOf, Typ.scalarWidth, Typ.isBool, Typ.nativeWidth, hpattern]

lemma Expr.exists_index_pointer (he : e.typ = .pointer t)
    (hi : i.typ.IsIntegral st.machineModel signed st.machineModel.pointerWidth) :
    ∃ r, e.index i = some r ∧ r.typ = t ∧ ∀ σ a n, e.eval st σ = some a →
      i.eval st σ = some n → r.addr st σ =
        (t.bytes st).map fun size => (a + n * size) % 2 ^ st.machineModel.pointerWidth := by
  obtain ⟨p, r, hp, hr, htyp, haddr⟩ := exists_plus_dereference he hi
  refine ⟨r, ?_, htyp, haddr⟩
  simp [index, indexPtr, he, Typ.isPointer, hi.isInteger, hp, hr]

lemma Expr.exists_index_array (hbase : e.typ.baseType = some t)
    (harray : e.typ.isArrayLike = true)
    (hi : i.typ.IsIntegral st.machineModel signed st.machineModel.pointerWidth) :
    ∃ r, e.index i = some r ∧ r.typ = t ∧ ∀ σ a n, e.addr st σ = some a →
      i.eval st σ = some n → r.addr st σ =
        (t.bytes st).map fun size => (a + n * size) % 2 ^ st.machineModel.pointerWidth := by
  obtain ⟨r, hr, htyp, haddr⟩ := exists_indexArray (e := e) hbase harray hi
  refine ⟨r, ?_, htyp, haddr⟩
  have hpointer : e.typ.isPointer = false := by
    cases h : e.typ <;> simp_all [Typ.isArrayLike, Typ.isPointer]
  simp [index, hpointer, harray, hi.isInteger, hr]

lemma Expr.exists_addressOf (st : SymbolTable) (h : e.canTakeAddressOf = true) :
    ∃ r, e.addressOf = some r ∧ r.typ = .pointer e.typ ∧ ∀ σ, r.eval st σ = e.addr st σ :=
  ⟨new (.addressOf e) (.pointer e.typ), addressOf_eq_some.mpr ⟨h, rfl⟩, rfl, fun σ => by
    simp [ExprValue.eval]⟩

lemma Expr.exists_arrayToPtr (hbase : e.typ.baseType = some t) (harray : e.typ.isArrayLike = true)
    (hsize : t.bytes st = some size) :
    ∃ r, e.arrayToPtr = some r ∧ r.typ = .pointer t ∧ ∀ σ a,
      a < 2 ^ st.machineModel.pointerWidth → e.addr st σ = some a → r.eval st σ = some a := by
  obtain ⟨z, hz, hztyp, hzeval⟩ := exists_intConstant (isIntegral_ssizeT st) ((0 : ℕ) : ℤ)
  obtain ⟨x, hx, rfl, hxaddr⟩ := exists_indexArray (e := e) (i := z) hbase harray
    (hztyp ▸ isIntegral_ssizeT st)
  have hlvalue : x.canTakeAddressOf = true := by
    obtain ⟨-, -, _, -, rfl⟩ := indexArray_eq_some.mp hx
    rfl
  obtain ⟨r, hr, hrtyp, hreval⟩ := exists_addressOf st hlvalue
  have hzero : Typ.ssizeT.zero = some z := by simpa [Typ.zero, Typ.isInteger, Typ.ssizeT] using hz
  refine ⟨r, by simp [arrayToPtr, harray, hzero, hx, hr], hrtyp, ?_⟩
  intro σ a ha haddr
  rw [hreval, hxaddr σ a _ haddr (hzeval σ), hsize, pattern_natCast]
  simp [Nat.mod_eq_of_lt ha]

end

end Rmc

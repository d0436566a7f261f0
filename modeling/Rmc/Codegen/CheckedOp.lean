import Rmc.Codegen.MirTy
import Rmc.Goto.Eval

/-!
# Checked binary operations

The integer types of Rust and the translation of checked operations
(`codegen_rvalue_checked_binary_op`), which builds a pair of the wrapped result and an overflow
flag. For shifts the flag compares the shift amount, cast to the type of the left operand, with
the width of that type minus one. The flag is right exactly when the cast does not hide an amount
that is out of range, which depends on both types.
-/

namespace Rmc.Codegen

open OrdMap TwosComplement Mir

/-! ### Integer types -/

/-- The integer types of Rust. -/
inductive IntegerTy where
  | int (k : IntTy)
  | uint (k : UintTy)
  deriving DecidableEq, Repr

variable {mm : MachineModel}

namespace IntegerTy

/-- The type that an integer type is translated to. -/
def codegenTy : IntegerTy → Typ
  | .int k => codegenIint k
  | .uint k => codegenUint k

def isSigned : IntegerTy → Bool
  | .int _ => true
  | .uint _ => false

/-- The number of bits of the values of a type. -/
def bitWidth (mm : MachineModel) : IntegerTy → ℕ
  | .int .i8 | .uint .u8 => 8
  | .int .i16 | .uint .u16 => 16
  | .int .i32 | .uint .u32 => 32
  | .int .i64 | .uint .u64 => 64
  | .int .i128 | .uint .u128 => 128
  | .int .isize | .uint .usize => mm.pointerWidth

lemma isWord_codegenTy (hpw : 0 < mm.pointerWidth) (t : IntegerTy) :
    t.codegenTy.IsWord mm t.isSigned (t.bitWidth mm) := by
  cases t with
  | int k => cases k <;> exact ⟨rfl, rfl, rfl, rfl, by simp [bitWidth, hpw]⟩
  | uint k => cases k <;> exact ⟨rfl, rfl, rfl, rfl, by simp [bitWidth, hpw]⟩

end IntegerTy

/-! ### The translation -/

/-- The binary operations of the intermediate representation. -/
inductive BinOp where
  | add
  | sub
  | mul
  | div
  | rem
  | bitXor
  | bitAnd
  | bitOr
  | shl
  | shr
  | eq
  | lt
  | le
  | ne
  | ge
  | gt
  | offset
  deriving DecidableEq, Repr

/-- The largest shift amount for values of a type, as a constant of that type. -/
def shiftMax (t : IntegerTy) (mm : MachineModel) : Option Expr :=
  match t with
  | .int .i8 => Expr.intConstant 7 (.signedbv 8)
  | .int .i16 => Expr.intConstant 15 (.signedbv 16)
  | .int .i32 => Expr.intConstant 31 (.signedbv 32)
  | .int .i64 => Expr.intConstant 63 (.signedbv 64)
  | .int .i128 => Expr.intConstant 127 (.signedbv 128)
  | .int .isize => do
    guard (0 < mm.pointerWidth)
    Expr.intConstant (mm.pointerWidth - 1) .ssizeT
  | .uint .u8 => Expr.intConstant 7 (.unsignedbv 8)
  | .uint .u16 => Expr.intConstant 15 (.unsignedbv 16)
  | .uint .u32 => Expr.intConstant 31 (.unsignedbv 32)
  | .uint .u64 => Expr.intConstant 63 (.unsignedbv 64)
  | .uint .u128 => Expr.intConstant 127 (.unsignedbv 128)
  | .uint .usize => do
    guard (0 < mm.pointerWidth)
    Expr.intConstant (mm.pointerWidth - 1) .sizeT

lemma shiftMax_eq (hpw : 0 < mm.pointerWidth) (t : IntegerTy) :
    shiftMax t mm = Expr.intConstant (t.bitWidth mm - 1) t.codegenTy := by
  cases t with
  | int k => cases k <;> simp [shiftMax, IntegerTy.bitWidth, IntegerTy.codegenTy, codegenIint, hpw]
  | uint k => cases k <;> simp [shiftMax, IntegerTy.bitWidth, IntegerTy.codegenTy, codegenUint, hpw]

variable [Ranked String] {st : SymbolTable} {σ : State} {t1 t2 : IntegerTy} {resTy : Typ}
  {fields : List DatatypeComponent} {flag result : Expr} {w : ℕ}

/-- The pair of a result and its overflow flag. -/
def codegenOverflowPair (st : SymbolTable) (resTy : Typ) (result overflowed : Expr) :
    Option Expr := do
  Expr.structExprFromValues resTy [result, ← overflowed.castTo .cBool] st

/-- Whether a shift amount is out of range: it is cast to the type of the left operand first. -/
def codegenShiftOverflowed (mm : MachineModel) (t1 : IntegerTy) (ce2 : Expr) : Option Expr := do
  let max ← shiftMax t1 mm
  (← ce2.castTo t1.codegenTy).gt max

/-- A checked operation on operands that are translated to `ce1`, of the integer type `t1`, and
`ce2`; `resTy` is the translated type of the pair. -/
def codegenRvalueCheckedBinaryOp (st : SymbolTable) (op : BinOp) (t1 : IntegerTy)
    (ce1 ce2 : Expr) (resTy : Typ) : Option Expr :=
  match op with
  | .add => do
    let res ← ce1.addOverflow ce2
    codegenOverflowPair st resTy res.result res.overflowed
  | .sub => do
    let res ← ce1.subOverflow ce2
    codegenOverflowPair st resTy res.result res.overflowed
  | .mul => do
    let res ← ce1.mulOverflow ce2
    codegenOverflowPair st resTy res.result res.overflowed
  | .shl => do
    let shifted ← ce1.shl ce2
    codegenOverflowPair st resTy shifted (← codegenShiftOverflowed st.machineModel t1 ce2)
  | .shr => do
    let shifted ← if t1.isSigned then ce1.ashr ce2 else ce1.lshr ce2
    codegenOverflowPair st resTy shifted (← codegenShiftOverflowed st.machineModel t1 ce2)
  | _ => none

/-! ### The pair -/

/-- `resTy` is the translated type of the pair of a `t1` and a flag: a struct with these two
fields in this order, and padding anywhere. -/
structure IsOverflowPair (st : SymbolTable) (t1 : IntegerTy) (resTy : Typ)
    (fields : List DatatypeComponent) : Prop where
  isStructTag : resTy.isStructTag = true
  lookup : st.lookupFieldsInType resTy = some fields
  nonPadding : (fields.filter fun c => !c.isPadding) = [.field "0" t1.codegenTy, .field "1" .cBool]
  padding : ∀ c ∈ fields, c.typ.isSome = true
  names : (fields.map DatatypeComponent.name).Nodup

lemma IsOverflowPair.exists_structExpr (hres : IsOverflowPair st t1 resTy fields)
    (hresult : result.typ = t1.codegenTy) (hflag : flag.typ = .cBool) :
    ∃ values, Expr.padValues fields [result, flag] = some values ∧
      Expr.structExprFromValues resTy [result, flag] st = some (.new (.struct values) resTy) := by
  -- the values match the fields, so the initializer succeeds
  have hmatch : Expr.valuesMatchFields (fields.filter fun c => !c.isPadding) [result, flag] =
      true := by
    simp [hres.nonPadding, Expr.valuesMatchFields, hresult, hflag]
  have hlen : (fields.filter fun c => !c.isPadding).length = [result, flag].length := by
    simp [hres.nonPadding]
  obtain ⟨values, hvalues, hvlen, hvmatch⟩ := Expr.exists_padValues hres.padding hlen hmatch
  refine ⟨values, hvalues, ?_⟩
  simp [Expr.structExprFromValues, hres.isStructTag, hres.lookup, hlen, hmatch, hvalues,
    Expr.structExprWithExplicitPadding, hvlen, hvmatch]

/-- The type stays the type of the pair when the table grows. -/
lemma IsOverflowPair.mono {st' : SymbolTable} (hle : st.Le st')
    (hres : IsOverflowPair st t1 resTy fields) : IsOverflowPair st' t1 resTy fields :=
  { hres with lookup := hle.lookupFieldsInType hres.lookup }

/-- The pair can be built, and its second field has the value of the flag. -/
lemma exists_codegenOverflowPair (hres : IsOverflowPair st t1 resTy fields)
    (hresult : result.typ = t1.codegenTy) (hflag : flag.typ = .bool) {b : Bool}
    (hb : flag.eval st σ = some b.toNat) :
    ∃ pair field, codegenOverflowPair st resTy result flag = some pair ∧
      pair.member "1" st = some field ∧ field.eval st σ = some b.toNat := by
  have hcast : flag.castTo .cBool = some (.new (.typecast flag) .cBool) := by
    have hne : (Typ.bool == .cInteger .bool) = false := rfl
    simp [Expr.castTo, Expr.canCastTo, Expr.canCastFrom, hflag, hne, Typ.isBool, Typ.isCBool,
      Typ.cBool]
  have hcastEval : (Expr.new (.typecast flag) .cBool).eval st σ = some b.toNat := by
    cases b <;> simp [ExprValue.eval, hb, Typ.convert, Typ.cBool, Typ.isBool, Typ.isCBool]
  obtain ⟨values, hvalues, hstruct⟩ :=
    hres.exists_structExpr hresult (show (Expr.new (.typecast flag) .cBool).typ = .cBool from rfl)
  have hpair : codegenOverflowPair st resTy result flag = some (.new (.struct values) resTy) := by
    simp only [codegenOverflowPair, hcast, some_bind, hstruct]
  -- the flag stands at the position of its name
  obtain ⟨i, hi, hval⟩ := Expr.getElem?_padValues (k := 1) hvalues hres.names
    (by rw [hres.nonPadding]; rfl) rfl
  have hmem : DatatypeComponent.field "1" Typ.cBool ∈ fields := by
    apply List.mem_of_mem_filter (p := fun c => !c.isPadding)
    simp [hres.nonPadding]
  have htyp := SymbolTable.lookupFieldTypeInType_of_mem hres.lookup hres.names hmem
  refine ⟨_, .new (.member (.new (.struct values) resTy) "1") .cBool, hpair, ?_, ?_⟩
  · simp [Expr.member, hres.isStructTag, htyp]
  · have hindex : st.fieldIndex resTy "1" = some i := by
      simpa [SymbolTable.fieldIndex, hres.lookup] using hi
    rw [Expr.eval_member_struct hindex, hval, Option.bind_some, hcastEval]

/-! ### Shifts -/

omit [Ranked String] in
lemma natCast_le_two_pow_pred (hw : 0 < w) : (w : ℤ) ≤ 2 ^ (w - 1) := by
  have h : w - 1 < 2 ^ (w - 1) := Nat.lt_two_pow_self
  have h' : ((w - 1 : ℕ) : ℤ) < 2 ^ (w - 1) := by exact_mod_cast h
  omega

variable {signed : Bool}

omit [Ranked String] in
lemma bitWidth_sub_one_inRange (hw : 0 < w) : InRange signed w ((w : ℤ) - 1) := by
  have hle := natCast_le_two_pow_pred hw
  have hhalf := two_pow_eq_half hw
  have hpos := two_pow_pos (w - 1)
  cases signed <;> simp only [InRange, Bool.false_eq_true, if_true, if_false] <;> omega

variable {a : ℤ} {ce2 : Expr}

variable (t1) in
/-- The flag compares the amount after its cast to the type of the left operand. -/
lemma exists_codegenShiftOverflowed (hpw : 0 < st.machineModel.pointerWidth)
    (h2 : ce2.typ = t2.codegenTy) (ha : InRange t2.isSigned (t2.bitWidth st.machineModel) a)
    (heval : ce2.eval st σ = some (pattern (t2.bitWidth st.machineModel) a)) :
    ∃ flag, codegenShiftOverflowed st.machineModel t1 ce2 = some flag ∧ flag.typ = .bool ∧
      flag.eval st σ = some (decide ((t1.bitWidth st.machineModel : ℤ) - 1 <
        value t1.isSigned (t1.bitWidth st.machineModel)
          (pattern (t1.bitWidth st.machineModel) a))).toNat := by
  have hw1 := t1.isWord_codegenTy hpw
  have hw2 := t2.isWord_codegenTy hpw
  obtain ⟨max, hmax, hmaxTyp, hmaxEval⟩ :=
    Expr.exists_intConstant hw1.isIntegral ((t1.bitWidth st.machineModel : ℤ) - 1)
  obtain ⟨amount, hamount, hamountTyp, hcast⟩ := Expr.exists_castTo (e := ce2) (h2 ▸ hw2) hw1
  have hamountEval := hcast σ _ (pattern_lt _ a) heval
  rw [value_pattern hw2.pos ha] at hamountEval
  have hgt : amount.gt max = some (.new (.binOp .gt amount max) .bool) := by
    simp [Expr.gt, Expr.binop, Expr.typecheckBinopArgs, Expr.binopReturnType, hamountTyp, hmaxTyp,
      Typ.isNumeric, hw1.isInteger, hw1.isVector]
  refine ⟨.new (.binOp .gt amount max) .bool, ?_, rfl, ?_⟩
  · simp only [codegenShiftOverflowed, shiftMax_eq hpw, hmax, hamount, hgt, some_bind]
  · rw [Expr.eval_binop hgt hamountEval (hmaxEval σ), hamountTyp, hmaxTyp]
    simp [evalBinop, evalScalarBinop, hw1.valueOf, BinaryOperand.compare,
      value_pattern hw1.pos (bitWidth_sub_one_inRange hw1.pos)]

/-- The amounts for which the cast to a type of `w` bits does not hide that they are out of range:
those that are in range, and those whose residue modulo `2 ^ w` is still at least `w`, and not
negative when the type is signed. -/
def AmountKept (signed : Bool) (w : ℕ) (a : ℤ) : Prop :=
  (0 ≤ a ∧ a < w) ∨ (w ≤ a % 2 ^ w ∧ (signed = true → a % 2 ^ w < 2 ^ (w - 1)))

omit [Ranked String] in
/-- The comparison after the cast is exact for the amounts that the cast keeps, and no others. -/
lemma flag_exact_iff_amountKept (hw : 0 < w) (a : ℤ) :
    (((w : ℤ) - 1 < value signed w (pattern w a)) ↔ (a < 0 ∨ w ≤ a)) ↔ AmountKept signed w a := by
  have hrange : 0 ≤ a ∧ a < w → a % 2 ^ w = a ∧ a < 2 ^ (w - 1) := by
    rintro ⟨h0, hlt⟩
    have hle := natCast_le_two_pow_pred hw
    have hhalf := two_pow_eq_half hw
    exact ⟨Int.emod_eq_of_lt h0 (by omega), by omega⟩
  have hr0 := Int.emod_nonneg a (two_pow_pos w).ne'
  have hr1 := Int.emod_lt_of_pos a (two_pow_pos w)
  have hhalf := two_pow_eq_half hw
  have hcast := cast_pattern w a
  unfold AmountKept
  cases signed with
  | false =>
    simp only [value_false, hcast, Bool.false_eq_true, false_implies, and_true]
    omega
  | true =>
    simp only [forall_const]
    by_cases hle : 2 ^ (w - 1) ≤ pattern w a
    · have hle' : (2 : ℤ) ^ (w - 1) ≤ a % 2 ^ w := by
        rw [← hcast]
        exact_mod_cast hle
      rw [value_true_of_le hle, hcast]
      omega
    · have hlt : a % 2 ^ w < 2 ^ (w - 1) := by
        rw [← hcast]
        exact_mod_cast Nat.lt_of_not_le hle
      rw [value_natCast_of_lt (Nat.lt_of_not_le hle), hcast]
      omega

/-- Both checked shifts build the same flag, next to a result of the type of the left operand. -/
lemma exists_checkedShift (hpw : 0 < st.machineModel.pointerWidth)
    (hres : IsOverflowPair st t1 resTy fields) {op : BinOp} (hop : op = .shl ∨ op = .shr)
    {ce1 : Expr} (h1 : ce1.typ = t1.codegenTy) (h2 : ce2.typ = t2.codegenTy)
    (ha : InRange t2.isSigned (t2.bitWidth st.machineModel) a)
    (heval : ce2.eval st σ = some (pattern (t2.bitWidth st.machineModel) a)) :
    ∃ pair flag, codegenRvalueCheckedBinaryOp st op t1 ce1 ce2 resTy = some pair ∧
      pair.member "1" st = some flag ∧
      flag.eval st σ = some (decide ((t1.bitWidth st.machineModel : ℤ) - 1 <
        value t1.isSigned (t1.bitWidth st.machineModel)
          (pattern (t1.bitWidth st.machineModel) a))).toNat := by
  have hw1 := t1.isWord_codegenTy hpw
  have hw2 := t2.isWord_codegenTy hpw
  obtain ⟨test, htest, hflagTyp, hflagVal⟩ :=
    exists_codegenShiftOverflowed t1 hpw h2 ha heval
  have hbinop : ∀ o, o = .shl ∨ o = .ashr ∨ o = .lshr →
      ce1.binop o ce2 = some (.new (.binOp o ce1 ce2) t1.codegenTy) := by
    rintro o (rfl | rfl | rfl) <;>
      simp [Expr.binop, Expr.typecheckBinopArgs, Expr.binopReturnType, h1, h2, hw1.isInteger,
        hw2.isInteger]
  have hshift : ∃ shifted, shifted.typ = t1.codegenTy ∧
      codegenRvalueCheckedBinaryOp st op t1 ce1 ce2 resTy =
        codegenOverflowPair st resTy shifted test := by
    rcases hop with rfl | rfl
    · refine ⟨.new (.binOp .shl ce1 ce2) t1.codegenTy, rfl, ?_⟩
      simp [codegenRvalueCheckedBinaryOp, Expr.shl, hbinop, htest]
    · cases hs : t1.isSigned with
      | true =>
        refine ⟨.new (.binOp .ashr ce1 ce2) t1.codegenTy, rfl, ?_⟩
        simp [codegenRvalueCheckedBinaryOp, hs, Expr.ashr, hbinop, htest]
      | false =>
        refine ⟨.new (.binOp .lshr ce1 ce2) t1.codegenTy, rfl, ?_⟩
        simp [codegenRvalueCheckedBinaryOp, hs, Expr.lshr, hbinop, htest]
  obtain ⟨shifted, hshifted, hcodegen⟩ := hshift
  obtain ⟨pair, flag, hpair, hflag, hflagEval⟩ :=
    exists_codegenOverflowPair hres hshifted hflagTyp hflagVal
  exact ⟨pair, flag, hcodegen.trans hpair, hflag, hflagEval⟩

/-- The translation of a checked shift succeeds, its flag has a value, and this value says whether
the amount is negative or too large exactly when the cast keeps the amount. -/
theorem checkedShift_flag_exact_iff (hpw : 0 < st.machineModel.pointerWidth)
    (hres : IsOverflowPair st t1 resTy fields) {op : BinOp} (hop : op = .shl ∨ op = .shr)
    {ce1 ce2 : Expr} (h1 : ce1.typ = t1.codegenTy) (h2 : ce2.typ = t2.codegenTy) {a : ℤ}
    (ha : InRange t2.isSigned (t2.bitWidth st.machineModel) a)
    (heval : ce2.eval st σ = some (pattern (t2.bitWidth st.machineModel) a)) :
    ∃ pair flag b, codegenRvalueCheckedBinaryOp st op t1 ce1 ce2 resTy = some pair ∧
      pair.member "1" st = some flag ∧ flag.eval st σ = some b.toNat ∧
      ((b = true ↔ a < 0 ∨ t1.bitWidth st.machineModel ≤ a) ↔
        AmountKept t1.isSigned (t1.bitWidth st.machineModel) a) := by
  obtain ⟨pair, flag, hpair, hflag, hflagEval⟩ :=
    exists_checkedShift hpw hres hop h1 h2 ha heval
  refine ⟨pair, flag, _, hpair, hflag, hflagEval, ?_⟩
  rw [decide_eq_true_iff]
  exact flag_exact_iff_amountKept (t1.isWord_codegenTy hpw).pos a

/-- The table with a struct for the pair of a `t1` and a flag. -/
def withOverflowPair (st : SymbolTable) (t1 : IntegerTy) (name : String) : SymbolTable :=
  st.set {
    name := name
    location := .none
    typ := .struct name [.field "0" t1.codegenTy, .field "1" .cBool]
    value := .none
    baseName := none
    prettyName := none
    isType := true }

lemma isOverflowPair_withOverflowPair (st : SymbolTable) (t1 : IntegerTy) (name : String) :
    IsOverflowPair (withOverflowPair st t1 name) t1 (.structTag name)
      [.field "0" t1.codegenTy, .field "1" .cBool] where
  isStructTag := rfl
  lookup := by
    simp [SymbolTable.lookupFieldsInType, Typ.typeName, withOverflowPair, SymbolTable.lookup_set,
      Typ.components]
  nonPadding := rfl
  padding := by simp
  names := by simp

omit [Ranked String] in
/-- For `i32 << 3u8` everything holds: the cast keeps the amount and the flag is exact. -/
theorem checkedShift_flag_exact_i32_u8 :
    let _ : Ranked String := rankedString
    ∃ pair flag b,
      codegenRvalueCheckedBinaryOp
        (withOverflowPair (.empty (machineModelFromSession none "x86_64" false 64)) (.int .i32) "p")
        .shl (.int .i32) (.new (.intConstant 1) (.signedbv 32))
          (.new (.intConstant 3) (.unsignedbv 8))
        (.structTag "p") = some pair ∧
      pair.member "1"
        (withOverflowPair (.empty (machineModelFromSession none "x86_64" false 64)) (.int .i32)
          "p") =
        some flag ∧
      flag.eval
        (withOverflowPair (.empty (machineModelFromSession none "x86_64" false 64)) (.int .i32) "p")
        ⟨fun _ => 0, fun _ => 0⟩ = some b.toNat ∧
      ((b = true ↔ (3 : ℤ) < 0 ∨ (32 : ℕ) ≤ (3 : ℤ)) ↔ AmountKept true 32 3) := by
  intro _
  have hamount : InRange (IntegerTy.uint .u8).isSigned
      ((IntegerTy.uint .u8).bitWidth (machineModelFromSession none "x86_64" false 64)) 3 := by
    decide
  exact checkedShift_flag_exact_iff (by decide)
    (isOverflowPair_withOverflowPair _ (.int .i32) _) (.inl rfl) rfl rfl hamount rfl

omit [Ranked String] in
/-- The flag of `1u8 << 256u32` is not set: cast to `u8` the amount is zero. -/
theorem checkedShift_flag_u8_256 :
    let _ : Ranked String := rankedString
    let st := withOverflowPair (.empty (machineModelFromSession none "x86_64" false 64))
      (.uint .u8) "p"
    ∃ pair flag,
      codegenRvalueCheckedBinaryOp st .shl (.uint .u8) (.new (.intConstant 1) (.unsignedbv 8))
        (.new (.intConstant 256) (.unsignedbv 32)) (.structTag "p") = some pair ∧
      pair.member "1" st = some flag ∧
      flag.eval st ⟨fun _ => 0, fun _ => 0⟩ = some false.toNat ∧
      ¬ (false = true ↔ (256 : ℤ) < 0 ∨
        (IntegerTy.uint .u8).bitWidth st.machineModel ≤ (256 : ℤ)) := by
  intro _ st
  let σ : State := ⟨fun _ => 0, fun _ => 0⟩
  have hamount : InRange (IntegerTy.uint .u32).isSigned
      ((IntegerTy.uint .u32).bitWidth st.machineModel) 256 := by
    decide
  have hce2 : (Expr.new (.intConstant 256) (.unsignedbv 32)).eval st σ =
      some (pattern ((IntegerTy.uint .u32).bitWidth st.machineModel) 256) := rfl
  obtain ⟨pair, flag, hpair, hflag, heval⟩ :=
    exists_checkedShift (by decide) (isOverflowPair_withOverflowPair _ (.uint .u8) _) (.inl rfl)
      (show (Expr.new (.intConstant 1) (.unsignedbv 8)).typ = _ from rfl) rfl hamount hce2
  have hfalse : decide (((8 : ℕ) : ℤ) - 1 < value false 8 (pattern 8 256)) = false := by decide
  exact ⟨pair, flag, hpair, hflag, heval.trans (congrArg (fun b => some b.toNat) hfalse), by decide⟩

end Rmc.Codegen

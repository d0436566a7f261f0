import Rmc.Goto.Eval
import Rmc.Goto.Occurs
import Rmc.Lib.BitMask

/-!
# Constants of 128 bits

C compilers have integers of 128 bits but no constants of that size. `bignumToExpr`
(`expr_transformer.rs`) writes such a constant as two halves of 64 bits that are shifted and or-ed
together. The halves are cut out of an unbounded integer by masks, so that a negative number is cut
as its two's complement.
-/

namespace Rmc.GenC

open OrdMap TwosComplement

/-- Create an expression from an integer constant using only values that fit 64 bits. -/
def bignumToExpr (num : ℤ) (typ : Typ) : Option Expr :=
  if typ.isCInteger then Expr.intConstant num typ
  else if typ.width.any fun width => decide (width ≤ 64) then Expr.intConstant num typ
  else do
    guard (typ.width = some 128)
    let unsignedTyp ← Typ.unsignedInt 128
    let leftMask := (2 ^ 64 - 1 : ℤ) <<< (64 : ℕ)
    let rightMask : ℤ := 2 ^ 64 - 1
    let leftHalf := Int.land num leftMask >>> (64 : ℕ)
    let rightHalf := Int.land num rightMask
    let leftConstant ← Expr.intConstant leftHalf unsignedTyp
    let rightConstant ← Expr.intConstant rightHalf unsignedTyp
    (← (← leftConstant.shl (← Expr.intConstant 64 .cInt)).bitor rightConstant).castTo typ

/-! ### The halves -/

/-- The upper half of the last 128 digits. -/
lemma leftHalf_eq (num : ℤ) :
    Int.land num ((2 ^ 64 - 1 : ℤ) <<< (64 : ℕ)) >>> (64 : ℕ) = num / 2 ^ 64 % 2 ^ 64 := by
  rw [Int.shiftLeft_eq, Int.shiftRight_eq_div_pow]
  exact (BitMask.land_mul_two_pow_ediv num _ 64).trans (BitMask.land_two_pow_sub_one _ 64)

lemma rightHalf_eq (num : ℤ) : Int.land num (2 ^ 64 - 1) = num % 2 ^ 64 :=
  BitMask.land_two_pow_sub_one num 64

/-- The halves, put together again. -/
lemma lor_halves (num : ℤ) :
    pattern 128 (num / 2 ^ 64 % 2 ^ 64) * 2 ^ 64 % 2 ^ 128 ||| pattern 128 (num % 2 ^ 64) =
      pattern 128 num := by
  have hleft := Int.emod_lt_of_pos (num / 2 ^ 64) (b := 2 ^ 64) (by norm_num)
  have hright := Int.emod_lt_of_pos num (b := 2 ^ 64) (by norm_num)
  have hleft' := Int.emod_nonneg (num / 2 ^ 64) (b := 2 ^ 64) (by norm_num)
  have hright' := Int.emod_nonneg num (b := 2 ^ 64) (by norm_num)
  obtain ⟨l, hl⟩ := Int.eq_ofNat_of_zero_le hleft'
  obtain ⟨r, hr⟩ := Int.eq_ofNat_of_zero_le hright'
  rw [hl] at hleft ⊢
  rw [hr] at hright ⊢
  have hl' : l < 2 ^ 64 := by omega
  have hr' : r < 2 ^ 64 := by omega
  rw [pattern_natCast_of_lt (by omega), pattern_natCast_of_lt (by omega),
    Nat.mod_eq_of_lt (by omega), Nat.mul_comm, ← Nat.two_pow_add_eq_or_of_lt hr']
  -- both sides are the residue of the number
  zify
  rw [cast_pattern]
  push_cast
  omega

/-! ### The expression -/

/-- The types of 128 bits. -/
def int128 (signed : Bool) : Typ := if signed then .signedbv 128 else .unsignedbv 128

lemma isWord_int128 (mm : MachineModel) (signed : Bool) :
    (int128 signed).IsWord mm signed 128 := by
  cases signed <;> exact ⟨rfl, rfl, rfl, rfl, by norm_num⟩

/-- The two halves of a number, shifted and or-ed together. -/
def halves (num : ℤ) : Expr :=
  let left := Expr.new (.intConstant (num / 2 ^ 64 % 2 ^ 64)) (.unsignedbv 128)
  let right := Expr.new (.intConstant (num % 2 ^ 64)) (.unsignedbv 128)
  let shifted := Expr.new (.binOp .shl left (Expr.new (.intConstant 64) .cInt)) (.unsignedbv 128)
  Expr.new (.binOp .bitor shifted right) (.unsignedbv 128)

lemma bignumToExpr_int128 (num : ℤ) (signed : Bool) :
    bignumToExpr num (int128 signed) = (halves num).castTo (int128 signed) := by
  have hwide : (int128 signed).isCInteger = false ∧ (int128 signed).width = some 128 := by
    cases signed <;> simp [int128, Typ.isCInteger, Typ.width]
  unfold bignumToExpr
  simp only [hwide, leftHalf_eq, rightHalf_eq]
  rfl

variable [Ranked String] {st : SymbolTable}

lemma eval_halves (num : ℤ) (hint : 64 < 2 ^ st.machineModel.intWidth) (σ : State) :
    (halves num).eval st σ = some (pattern 128 num) := by
  have hunsigned : (Typ.unsignedbv 128).IsIntegral st.machineModel false 128 :=
    (isWord_int128 st.machineModel false).isIntegral
  have hamount : Typ.cInt.patternOf st.machineModel 64 = some 64 := by
    have hpattern := pattern_natCast_of_lt hint
    simpa [Typ.patternOf, Typ.scalarWidth, Typ.cInt, Typ.isBool, Typ.nativeWidth] using hpattern
  rw [← lor_halves num]
  simp only [halves, Expr.eval_new, Expr.typ_new, ExprValue.eval, hunsigned.patternOf, hamount]
  simp [evalBinop, evalScalarBinop, hunsigned.valueOf, BinaryOperand.shift, BinaryOperand.bitwise,
    Typ.nativeWidth]

/-- For every integer, negative ones included, and both types of 128 bits, the expression has the
type, its value is the integer modulo `2 ^ 128`, and the constants in it are at most 64 bits wide.
The amount of the shift is a constant of C's `int`, which has to be able to represent it. -/
theorem exists_bignumToExpr_int128 (num : ℤ) (signed : Bool)
    (hint : 64 < 2 ^ st.machineModel.intWidth) :
    ∃ e, bignumToExpr num (int128 signed) = some e ∧ e.typ = int128 signed ∧
      (∀ σ, e.eval st σ = some (pattern 128 num)) ∧
      ∀ x ∈ e.subExprs, ∀ i, x.value = .intConstant i → 0 ≤ i ∧ i ≤ 2 ^ 64 - 1 := by
  have hhalves : (halves num).typ.IsWord st.machineModel false 128 :=
    isWord_int128 st.machineModel false
  obtain ⟨e, he, htyp, heval⟩ :=
    Expr.exists_castTo hhalves (isWord_int128 st.machineModel signed)
  refine ⟨e, (bignumToExpr_int128 num signed).trans he, htyp, ?_, ?_⟩
  · intro σ
    rw [heval σ _ (pattern_lt 128 num) (eval_halves num hint σ), value_false,
      pattern_natCast_of_lt (pattern_lt 128 num)]
  · have hconstants : ∀ x ∈ (halves num).subExprs, ∀ i, x.value = .intConstant i →
        0 ≤ i ∧ i ≤ 2 ^ 64 - 1 := by
      have hleft := Int.emod_lt_of_pos (num / 2 ^ 64) (b := 2 ^ 64) (by norm_num)
      have hleft' := Int.emod_nonneg (num / 2 ^ 64) (b := 2 ^ 64) (by norm_num)
      have hright := Int.emod_lt_of_pos num (b := 2 ^ 64) (by norm_num)
      have hright' := Int.emod_nonneg num (b := 2 ^ 64) (by norm_num)
      simp [halves, Expr.new, Expr.subExprs, ExprValue.subExprs]
      omega
    obtain ⟨-, ⟨-, rfl⟩ | ⟨-, hbool, -⟩ | ⟨-, -, rfl⟩⟩ := Expr.castTo_eq_some.mp he
    · exact hconstants
    · simp [(isWord_int128 st.machineModel signed).isBool] at hbool
    · intro x hx
      rcases List.mem_cons.mp hx with rfl | hx
      · simp
      · exact hconstants x hx

omit [Ranked String] in
theorem exists_bignumToExpr_neg_one :
    let _ : Ranked String := rankedString
    let st : SymbolTable := .empty (machineModelFromSession none "x86_64" false 64)
    64 < 2 ^ st.machineModel.intWidth ∧
      ∃ e, bignumToExpr (-1) (int128 true) = some e ∧ e.typ = int128 true ∧
        (∀ σ, e.eval st σ = some (pattern 128 (-1))) ∧
        ∀ x ∈ e.subExprs, ∀ i, x.value = .intConstant i → 0 ≤ i ∧ i ≤ 2 ^ 64 - 1 := by
  intro _ st
  have hint : 64 < 2 ^ st.machineModel.intWidth := by
    show 64 < 2 ^ 32
    norm_num
  exact ⟨hint, exists_bignumToExpr_int128 (-1) true hint⟩

end Rmc.GenC

import Rmc.Goto.Eval

/-!
# Saturating arithmetic

`saturating_add` and `saturating_sub` compute the sum or difference and replace it, when it
overflows, by the bound that is chosen from the sign of one operand. The exact result is then
beyond that bound: a negative number plus another can only be too small, a nonnegative one only
too large. So the result is the exact one clamped to the range of the type.
-/

namespace Rmc

open TwosComplement

section

variable {signed : Bool} {w : ℕ} {i j : ℤ}

lemma maxInt_eq (hw : signed = true → 0 < w) : maxInt w signed = some (maxValue signed w) := by
  cases signed with
  | false => simp [maxInt, maxValue]
  | true => simp [maxInt, maxValue, hw rfl]

lemma minInt_eq (hw : signed = true → 0 < w) : minInt w signed = some (minValue signed w) := by
  cases signed with
  | false => simp [minInt, minValue]
  | true => simp [minInt, maxInt_eq hw, maxValue, minValue]

/-! Without a sign bit even the empty word reads back what was written. -/

lemma inRange_value_of_signed {n : ℕ} (hw : signed = true → 0 < w) (h : n < 2 ^ w) :
    InRange signed w (value signed w n) := by
  cases signed with
  | true => exact inRange_value (hw rfl) h
  | false =>
    have hn : (n : ℤ) < 2 ^ w := by exact_mod_cast h
    simp only [InRange, value_false, Bool.false_eq_true, if_false]
    omega

lemma value_pattern_of_signed {i : ℤ} (hw : signed = true → 0 < w) (h : InRange signed w i) :
    value signed w (pattern w i) = i := by
  cases signed with
  | true => exact value_pattern (hw rfl) h
  | false =>
    simp only [InRange, Bool.false_eq_true, if_false] at h
    rw [value_false, cast_pattern, Int.emod_eq_of_lt h.1 h.2]

/-! The sign of one operand tells which bound an overflow went past. -/

lemma clamp_add_of_neg (hj : InRange signed w j) (hneg : i < 0) (h : ¬ InRange signed w (i + j)) :
    clamp signed w (i + j) = minValue signed w := by
  rw [inRange_iff] at h hj
  exact clamp_of_lt (by omega)

lemma clamp_add_of_nonneg (hj : InRange signed w j) (hnonneg : 0 ≤ i)
    (h : ¬ InRange signed w (i + j)) : clamp signed w (i + j) = maxValue signed w := by
  rw [inRange_iff] at h hj
  exact clamp_of_gt (by omega)

lemma clamp_sub_of_neg (hi : InRange signed w i) (hneg : j < 0) (h : ¬ InRange signed w (i - j)) :
    clamp signed w (i - j) = maxValue signed w := by
  rw [inRange_iff] at h hi
  exact clamp_of_gt (by omega)

lemma clamp_sub_of_nonneg (hi : InRange signed w i) (hnonneg : 0 ≤ j)
    (h : ¬ InRange signed w (i - j)) : clamp signed w (i - j) = minValue signed w := by
  rw [inRange_iff] at h hi
  exact clamp_of_lt (by omega)

end

variable [OrdMap.Ranked String] {st : SymbolTable} {t : Typ} {signed : Bool} {w : ℕ}

namespace Expr

variable {a b : Expr}

section

variable (ht : t.IsIntegral st.machineModel signed w)

include ht

lemma exists_maxIntExpr (hw : signed = true → 0 < w) :
    ∃ c, t.maxIntExpr st.machineModel = some c ∧ c.typ = t ∧
      ∀ σ, c.eval st σ = some (pattern w (maxValue signed w)) := by
  obtain ⟨c, hc, hcTyp, hcEval⟩ := exists_intConstant ht (maxValue signed w)
  refine ⟨c, ?_, hcTyp, hcEval⟩
  simp [Typ.maxIntExpr, ht.isInteger, ht.nativeWidth, ht.isSigned, maxInt_eq hw, hc]

lemma exists_minIntExpr (hw : signed = true → 0 < w) :
    ∃ c, t.minIntExpr st.machineModel = some c ∧ c.typ = t ∧
      ∀ σ, c.eval st σ = some (pattern w (minValue signed w)) := by
  obtain ⟨c, hc, hcTyp, hcEval⟩ := exists_intConstant ht (minValue signed w)
  refine ⟨c, ?_, hcTyp, hcEval⟩
  simp [Typ.minIntExpr, ht.isInteger, ht.nativeWidth, ht.isSigned, minInt_eq hw, hc]

lemma exists_isNegative (ha : a.typ = t) :
    ∃ r, a.isNegative = some r ∧ r.typ = .bool ∧ ∀ σ x, a.eval st σ = some x →
      r.eval st σ = some (decide (TwosComplement.value signed w x < 0)).toNat := by
  obtain ⟨zero, hzero, hzeroTyp, hzeroEval⟩ := exists_intConstant ht 0
  obtain ⟨r, hr, hrTyp, hrEval⟩ := exists_compare ht ha hzeroTyp (.inr (.inl rfl))
  refine ⟨r, ?_, hrTyp, ?_⟩
  · simp [isNegative, ha, Typ.isNumeric, Typ.zero, ht.isInteger, hzero, lt, hr]
  · intro σ x hx
    rw [hrEval σ x _ hx (hzeroEval σ)]
    have hvalue : TwosComplement.value signed w (pattern w 0) = 0 := by
      simp [pattern, TwosComplement.value]
    simp [BinaryOperand.compare, hvalue]

end

variable (st) in
/-- An operation that is replaced by one of two bounds when it overflows. -/
lemma exists_saturated {ovf neg negBound bound res : Expr} (hovf : ovf.typ = .bool)
    (hneg : neg.typ = .bool) (hnegBound : negBound.typ = t) (hbound : bound.typ = t)
    (hres : res.typ = t) :
    ∃ s r, neg.ternary negBound bound = some s ∧ ovf.ternary s res = some r ∧ r.typ = t ∧
      ∀ σ (p q : Bool), ovf.eval st σ = some p.toNat → neg.eval st σ = some q.toNat →
        r.eval st σ = if p then (if q then negBound.eval st σ else bound.eval st σ)
          else res.eval st σ := by
  obtain ⟨s, hs, hsTyp, hsEval⟩ := exists_ternary st hneg hnegBound hbound
  obtain ⟨r, hr, hrTyp, hrEval⟩ := exists_ternary st hovf hsTyp hres
  refine ⟨s, r, hs, hr, hrTyp, ?_⟩
  intro σ p q hp hq
  rw [hrEval σ p hp, hsEval σ q hq]

/-- What it means for an expression to be the clamped result of an operation on integers. -/
def Clamps (st : SymbolTable) (t : Typ) (signed : Bool) (w : ℕ) (f : ℤ → ℤ → ℤ) (a b r : Expr) :
    Prop :=
  r.typ = t ∧ ∀ σ x y, x < 2 ^ w → y < 2 ^ w → a.eval st σ = some x → b.eval st σ = some y →
    ∃ n, n < 2 ^ w ∧ r.eval st σ = some n ∧ TwosComplement.value signed w n =
      clamp signed w (f (TwosComplement.value signed w x) (TwosComplement.value signed w y))

variable {f : ℤ → ℤ → ℤ} {ovf neg negBound bound res : Expr}

/-- The clamped result: the operation wraps, and past a bound the sign of an operand tells the
bound. -/
lemma exists_clamps (hw : signed = true → 0 < w) (hovf : ovf.typ = .bool) (hneg : neg.typ = .bool)
    (hnegBound : negBound.typ = t) (hbound : bound.typ = t) (hres : res.typ = t)
    {lower upper : ℤ} (hlower : ∀ σ, negBound.eval st σ = some (pattern w lower))
    (hupper : ∀ σ, bound.eval st σ = some (pattern w upper))
    (heval : ∀ σ x y, x < 2 ^ w → y < 2 ^ w → a.eval st σ = some x → b.eval st σ = some y →
      let k := f (TwosComplement.value signed w x) (TwosComplement.value signed w y)
      ∃ q : Bool, neg.eval st σ = some q.toNat ∧
        ovf.eval st σ = some (decide (¬ InRange signed w k)).toNat ∧
        res.eval st σ = some (pattern w k) ∧
        (¬ InRange signed w k → clamp signed w k = if q then lower else upper)) :
    ∃ s r, neg.ternary negBound bound = some s ∧ ovf.ternary s res = some r ∧
      Clamps st t signed w f a b r := by
  obtain ⟨s, r, hs, hr, hrTyp, hrEval⟩ := exists_saturated st hovf hneg hnegBound hbound hres
  refine ⟨s, r, hs, hr, hrTyp, ?_⟩
  intro σ x y hx hy hax hby
  obtain ⟨q, hq, hp, hk, hclamp⟩ := heval σ x y hx hy hax hby
  rw [hrEval σ _ q hp hq]
  set k := f (TwosComplement.value signed w x) (TwosComplement.value signed w y) with hkdef
  have hread : ∀ i, InRange signed w i → ∃ n, n < 2 ^ w ∧ some (pattern w i) = some n ∧
      TwosComplement.value signed w n = i := fun i hi =>
    ⟨pattern w i, pattern_lt w i, rfl, value_pattern_of_signed hw hi⟩
  by_cases hin : InRange signed w k
  · simp only [hin, not_true_eq_false, decide_false, Bool.false_eq_true, if_false, hk,
      clamp_of_inRange hin]
    exact hread k hin
  · have hclamped : InRange signed w (clamp signed w k) := by
      rw [inRange_iff, clamp]
      have := (minValue_nonpos signed w).trans (maxValue_nonneg signed w)
      omega
    simp only [hin, not_false_eq_true, decide_true, if_true, hlower, hupper]
    obtain ⟨n, hn, heq, hvalue⟩ := hread _ hclamped
    refine ⟨n, hn, ?_, hvalue⟩
    rw [← heq, hclamp hin]
    cases q <;> rfl

/-- Saturating arithmetic is exact: on every integer type the sum and the difference are clamped
to the range of the type. -/
theorem saturating_exact (ht : t.IsIntegral st.machineModel signed w) (hw : signed = true → 0 < w)
    (ha : a.typ = t) (hb : b.typ = t) :
    (∃ r, a.saturatingAdd b st.machineModel = some r ∧ Clamps st t signed w (· + ·) a b r) ∧
      ∃ r, a.saturatingSub b st.machineModel = some r ∧ Clamps st t signed w (· - ·) a b r := by
  obtain ⟨hi, hhi, hhiTyp, hhiEval⟩ := exists_maxIntExpr ht hw
  obtain ⟨lo, hlo, hloTyp, hloEval⟩ := exists_minIntExpr ht hw
  constructor
  · obtain ⟨sum, hsum, hsumTyp, hsumEval⟩ := exists_arithmetic ht ha hb (.inl rfl)
    obtain ⟨ovf, hovf, hovfTyp, hovfEval⟩ := exists_overflow ht ha hb (.inl rfl)
    obtain ⟨neg, hneg, hnegTyp, hnegEval⟩ := exists_isNegative ht ha
    have heval : ∀ σ x y, x < 2 ^ w → y < 2 ^ w → a.eval st σ = some x → b.eval st σ = some y →
        let k := TwosComplement.value signed w x + TwosComplement.value signed w y
        ∃ q : Bool, neg.eval st σ = some q.toNat ∧
          ovf.eval st σ = some (decide (¬ InRange signed w k)).toNat ∧
          sum.eval st σ = some (pattern w k) ∧
          (¬ InRange signed w k →
            clamp signed w k = if q then minValue signed w else maxValue signed w) := by
      intro σ x y _ hy hax hby
      have hj := inRange_value_of_signed hw hy
      refine ⟨_, hnegEval σ x hax, hovfEval σ x y hax hby, hsumEval σ x y hax hby, ?_⟩
      intro hout
      by_cases hlt : TwosComplement.value signed w x < 0
      · simp [hlt, clamp_add_of_neg hj hlt hout]
      · simp [hlt, clamp_add_of_nonneg hj (not_lt.mp hlt) hout]
    obtain ⟨s, r, hs, hr, hclamps⟩ := exists_clamps hw hovfTyp hnegTyp hloTyp hhiTyp hsumTyp
      hloEval hhiEval heval
    refine ⟨r, ?_, hclamps⟩
    simp [saturatingAdd, ha, hb, ht.isInteger, addOverflow, plus, hsum, addOverflowP, hovf, hneg,
      hlo, hhi, hs, hr]
  · obtain ⟨diff, hdiff, hdiffTyp, hdiffEval⟩ := exists_arithmetic ht ha hb (.inr (.inl rfl))
    obtain ⟨ovf, hovf, hovfTyp, hovfEval⟩ := exists_overflow ht ha hb (.inr rfl)
    obtain ⟨neg, hneg, hnegTyp, hnegEval⟩ := exists_isNegative ht hb
    have heval : ∀ σ x y, x < 2 ^ w → y < 2 ^ w → a.eval st σ = some x → b.eval st σ = some y →
        let k := TwosComplement.value signed w x - TwosComplement.value signed w y
        ∃ q : Bool, neg.eval st σ = some q.toNat ∧
          ovf.eval st σ = some (decide (¬ InRange signed w k)).toNat ∧
          diff.eval st σ = some (pattern w k) ∧
          (¬ InRange signed w k →
            clamp signed w k = if q then maxValue signed w else minValue signed w) := by
      intro σ x y hx _ hax hby
      have hi := inRange_value_of_signed hw hx
      refine ⟨_, hnegEval σ y hby, hovfEval σ x y hax hby, hdiffEval σ x y hax hby, ?_⟩
      intro hout
      by_cases hlt : TwosComplement.value signed w y < 0
      · simp [hlt, clamp_sub_of_neg hi hlt hout]
      · simp [hlt, clamp_sub_of_nonneg hi (not_lt.mp hlt) hout]
    obtain ⟨s, r, hs, hr, hclamps⟩ := exists_clamps hw hovfTyp hnegTyp hhiTyp hloTyp hdiffTyp
      hhiEval hloEval heval
    refine ⟨r, ?_, hclamps⟩
    simp [saturatingSub, ha, hb, ht.isInteger, subOverflow, sub, hdiff, subOverflowP, hovf, hneg,
      hlo, hhi, hs, hr]

omit [OrdMap.Ranked String] in
theorem saturating_exact_i8 :
    let _ : OrdMap.Ranked String := OrdMap.rankedString
    let st : SymbolTable := .empty (machineModelFromSession none "x86_64" false 64)
    let hundred : Expr := new (.intConstant 100) (.signedbv 8)
    (Typ.signedbv 8).IsIntegral st.machineModel true 8 ∧
      (∃ r, hundred.saturatingAdd hundred st.machineModel = some r ∧
        Clamps st (.signedbv 8) true 8 (· + ·) hundred hundred r) ∧
      ∃ r, hundred.saturatingSub hundred st.machineModel = some r ∧
        Clamps st (.signedbv 8) true 8 (· - ·) hundred hundred r := by
  intro _ st hundred
  have ht : (Typ.signedbv 8).IsIntegral st.machineModel true 8 := ⟨rfl, rfl, rfl⟩
  exact ⟨ht, saturating_exact ht (fun _ => by decide) rfl rfl⟩

end Expr

end Rmc

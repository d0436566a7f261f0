import Rmc.Goto.Eval

/-!
# Enum discriminants

How the variant of an enum is written and read (`SetDiscriminant` in `codegen_statement`,
`codegen_get_discriminant`, `codegen_get_niche`). With a direct tag the discriminant is a field.
With a niche, a field of the one variant that has data stands for the other variants by taking
values that are not valid for that field.
-/

namespace Rmc.Codegen

open OrdMap TwosComplement ByteMemory

/-! ### Layouts -/

inductive Integer where
  | i8
  | i16
  | i32
  | i64
  | i128
  deriving DecidableEq, Repr

def Integer.bits : Integer → ℕ
  | .i8 => 8
  | .i16 => 16
  | .i32 => 32
  | .i64 => 64
  | .i128 => 128

/-- What a scalar of a layout is. -/
inductive Primitive where
  | int (k : Integer) (signed : Bool)
  | f32
  | f64
  | pointer
  deriving DecidableEq, Repr

/-- How the tag encodes the variant. The variants of a niche encoding are those from `variantStart`
to `variantEnd`. -/
inductive TagEncoding where
  | direct
  | niche (datafulVariant variantStart variantEnd : ℕ) (nicheStart : ℕ)
  deriving DecidableEq, Repr

inductive Variants where
  | single (index : ℕ)
  | multiple (tag : Primitive) (tagEncoding : TagEncoding)
  deriving DecidableEq, Repr

/-- What the translation reads of the layout of an enum: its variants, the offset of the tag or
niche in bytes, and the discriminants. -/
structure EnumLayout where
  variants : Variants
  offset : ℕ
  discriminantForVariant : ℕ → Option ℕ

/-- The translated type of a scalar. -/
def codegenPrimTyp : Primitive → Typ
  | .int k true => .signedbv k.bits
  | .int k false => .unsignedbv k.bits
  | .f32 => .float
  | .f64 => .double
  | .pointer => .pointer (.unsignedbv 8)

/-- The translated type of the tag. -/
def codegenEnumDiscrTyp (layout : EnumLayout) : Option Typ :=
  match layout.variants with
  | .multiple tag _ => some (codegenPrimTyp tag)
  | .single _ => none

/-! ### The translation -/

/-- The niche of a place, both to read and to write it: `*(N *)((u8 *)&v + offset)`. -/
def codegenGetNiche (v : Expr) (offset : ℕ) (nicheTy : Typ) : Option Expr := do
  let address ← v.addressOf
  let base ← address.castTo (Typ.unsignedbv 8).toPointer
  let field ← base.plus (← Expr.intConstant offset .sizeT)
  let pointer ← field.castTo nicheTy.toPointer
  pointer.dereference

/-- The niche's value counted from the first niche value on, with a wrapping subtraction. -/
def codegenRelativeDiscr (nicheStart : ℕ) (discrTy : Typ) (nicheVal : Expr) : Option Expr :=
  if nicheStart = 0 then some nicheVal
  else do nicheVal.sub (← Expr.intConstant nicheStart discrTy)

/-- The test whether the niche holds one of the `relativeMax + 1` niche values. -/
def codegenIsNiche (tag : Primitive) (relativeMax : ℕ) (discrTy : Typ) (relativeDiscr : Expr) :
    Option Expr :=
  if tag = .pointer then do (← discrTy.null).eq relativeDiscr
  else do
    (← relativeDiscr.castTo (.unsignedbv 64)).le (← Expr.intConstant relativeMax (.unsignedbv 64))

/-- The discriminant of a niche variant. -/
def codegenNicheDiscr (relativeMax variantStart : ℕ) (resTy : Typ) (relativeDiscr : Expr) :
    Option Expr := do
  let position ← (if relativeMax = 0 then resTy.zero else relativeDiscr.castTo resTy)
  position.plus (← Expr.intConstant variantStart resTy)

/-- The discriminant of a niche encoding, read from the niche's value. -/
def codegenNicheDiscriminant (tag : Primitive) (dataful variantStart variantEnd nicheStart : ℕ)
    (discrTy resTy : Typ) (nicheVal : Expr) : Option Expr := do
  let relativeDiscr ← codegenRelativeDiscr nicheStart discrTy nicheVal
  guard (variantStart ≤ variantEnd)
  let relativeMax := variantEnd - variantStart
  let isNiche ← codegenIsNiche tag relativeMax discrTy relativeDiscr
  let nicheDiscr ← codegenNicheDiscr relativeMax variantStart resTy relativeDiscr
  isNiche.ternary nicheDiscr (← Expr.intConstant dataful resTy)

variable [Ranked String]

/-- The discriminant of the enum at a place, as a value of the translated type `resTy`. -/
def codegenGetDiscriminant (st : SymbolTable) (layout : EnumLayout) (e : Expr) (resTy : Typ) :
    Option Expr :=
  match layout.variants with
  | .single index =>
    Expr.intConstant ((layout.discriminantForVariant index).getD index : ℕ) resTy
  | .multiple _ .direct => do (← e.member "case" st).castTo resTy
  | .multiple tag (.niche dataful variantStart variantEnd nicheStart) => do
    let discrTy ← codegenEnumDiscrTyp layout
    let nicheVal ← codegenGetNiche e layout.offset discrTy
    codegenNicheDiscriminant tag dataful variantStart variantEnd nicheStart discrTy resTy nicheVal

/-- The statement that makes the enum at a place the variant of that index. -/
def codegenSetDiscriminant [DebugTyp] (st : SymbolTable) (layout : EnumLayout) (place : Expr)
    (variantIndex : ℕ) : Option Stmt :=
  match layout.variants with
  | .single _ => some (Stmt.skip .none)
  | .multiple _ .direct => do
    let discrTy ← codegenEnumDiscrTyp layout
    let discr ← Expr.intConstant (← layout.discriminantForVariant variantIndex) discrTy
    Stmt.assign (← place.member "case" st) discr .none
  | .multiple tag (.niche dataful variantStart _ nicheStart) =>
    if dataful ≠ variantIndex then do
      let discrTy ← codegenEnumDiscrTyp layout
      guard (variantStart ≤ variantIndex)
      -- the sum wraps as a `u128`
      let nicheValue : ℕ := (variantIndex - variantStart + nicheStart) % 2 ^ 128
      let value ←
        if nicheValue = 0 ∧ tag = .pointer then discrTy.null
        else Expr.intConstant nicheValue discrTy
      Stmt.assign (← codegenGetNiche place layout.offset discrTy) value .none
    else some (Stmt.skip .none)

/-! ### The niche -/

/-- The types of niches, for which comparison is equality. -/
structure IsNicheTyp (nicheTy : Typ) : Prop where
  eq_of_beq : ∀ t : Typ, (t == nicheTy) = true → t = nicheTy

omit [Ranked String] in
lemma isNicheTyp_codegenPrimTyp (tag : Primitive) : IsNicheTyp (codegenPrimTyp tag) := by
  constructor
  intro t h
  rw [Typ.beq_iff_erase] at h
  cases tag with
  | int k signed => cases signed <;> cases t <;> simp_all [codegenPrimTyp, Typ.erase]
  | f32 => cases t <;> simp_all [codegenPrimTyp, Typ.erase]
  | f64 => cases t <;> simp_all [codegenPrimTyp, Typ.erase]
  | pointer =>
    cases t with
    | pointer t' => cases t' <;> simp_all [codegenPrimTyp, Typ.erase]
    | _ => simp_all [codegenPrimTyp, Typ.erase]

variable {st : SymbolTable} {e : Expr} {nicheTy : Typ}

variable (st) in
/-- A cast between pointers keeps the address. -/
lemma exists_castTo_pointer {t : Typ} (t' : Typ) (he : e.typ = .pointer t)
    (heq : (t == t') = true → t = t') :
    ∃ c, e.castTo (.pointer t') = some c ∧ c.typ = .pointer t' ∧ ∀ σ p, e.eval st σ = some p →
      ∃ q, c.eval st σ = some q ∧ (q = p ∨ q = p % 2 ^ st.machineModel.pointerWidth) := by
  by_cases hbeq : (t == t') = true
  · obtain rfl := heq hbeq
    refine ⟨e, by simp [Expr.castTo, Expr.canCastTo, Expr.canCastFrom, he], he, ?_⟩
    intro σ p hp
    exact ⟨p, hp, .inl rfl⟩
  · have hne : (Typ.pointer t == .pointer t') = false := by
      rw [← Bool.not_eq_true, Typ.beq_iff_erase]
      intro h
      exact hbeq (Typ.beq_iff_erase.mpr (by simpa [Typ.erase] using h))
    refine ⟨.new (.typecast e) (.pointer t'), ?_, rfl, ?_⟩
    · simp [Expr.castTo, Expr.canCastTo, Expr.canCastFrom, he, hne, Typ.isBool, Typ.isCBool,
        Typ.isInteger, Typ.isFloatingPoint, Typ.isPointer]
    · intro σ p hp
      refine ⟨p % 2 ^ st.machineModel.pointerWidth, ?_, .inr rfl⟩
      simp [ExprValue.eval, hp, he, Typ.convert, Typ.isBool, Typ.isCBool, Typ.isPointer,
        Typ.valueOf, Typ.patternOf, Typ.scalarWidth, Typ.nativeWidth, Typ.isSigned,
        pattern_natCast]

variable (st) in
/-- The niche can be read and written at its offset from the place. -/
lemma exists_codegenGetNiche (hpw : 0 < st.machineModel.pointerWidth) {v : Expr}
    (hv : v.canTakeAddressOf = true) (offset : ℕ) (hniche : IsNicheTyp nicheTy) :
    ∃ n, codegenGetNiche v offset nicheTy = some n ∧ n.typ = nicheTy ∧
      ∀ σ p, v.addr st σ = some p →
        n.addr st σ = some ((p + offset) % 2 ^ st.machineModel.pointerWidth) ∧
        n.eval st σ = σ.loadTyp st nicheTy ((p + offset) % 2 ^ st.machineModel.pointerWidth) := by
  have hsize : Typ.sizeT.IsWord st.machineModel false st.machineModel.pointerWidth :=
    ⟨rfl, rfl, rfl, rfl, hpw⟩
  have haddress : v.addressOf = some (.new (.addressOf v) (.pointer v.typ)) := by
    simp [Expr.addressOf, hv, Typ.toPointer]
  obtain ⟨base, hbase, hbaseTyp, hbaseEval⟩ := exists_castTo_pointer st
    (e := .new (.addressOf v) (.pointer v.typ)) (.unsignedbv 8) rfl
    ((isNicheTyp_codegenPrimTyp (.int .i8 false)).eq_of_beq _)
  obtain ⟨off, hoff, hoffTyp, hoffEval⟩ := Expr.exists_intConstant hsize.isIntegral offset
  have hplus : base.binop .plus off = some (.new (.binOp .plus base off) base.typ) := by
    simp [Expr.binop, Expr.typecheckBinopArgs, Expr.binopReturnType, hbaseTyp, hoffTyp,
      Typ.isPointer, Typ.sizeT, Typ.isInteger]
  obtain ⟨ptr, hptr, hptrTyp, hptrEval⟩ := exists_castTo_pointer st
    (e := .new (.binOp .plus base off) base.typ) nicheTy hbaseTyp (hniche.eq_of_beq _)
  refine ⟨.new (.dereference ptr) nicheTy, ?_, rfl, ?_⟩
  · simp [codegenGetNiche, haddress, Typ.toPointer, hbase, hoff, Expr.plus, hplus, hptr,
      Expr.dereference, hptrTyp, Typ.isPointer, Typ.baseType]
  · intro σ p hp
    obtain ⟨b, hb, hbase⟩ := hbaseEval σ p (by simpa [ExprValue.eval] using hp)
    have hbmod : b % 2 ^ st.machineModel.pointerWidth = p % 2 ^ st.machineModel.pointerWidth := by
      rcases hbase with rfl | rfl
      · rfl
      · exact Nat.mod_mod _ _
    -- the offset counts bytes
    have hsum : (Expr.new (.binOp .plus base off) base.typ).eval st σ =
        some ((p + offset) % 2 ^ st.machineModel.pointerWidth) := by
      have hbytes : (Typ.unsignedbv 8).bytes st = some 1 := rfl
      rw [Expr.eval_binop hplus hb (hoffEval σ), hbaseTyp, hoffTyp]
      simp only [evalBinop, Typ.isPointer, if_true, evalPointerBinop, Typ.baseType,
        some_bind, hbytes, hsize.valueOf, value_false, Typ.patternOf,
        Typ.scalarWidth, Typ.isBool, Bool.false_eq_true, if_false, Typ.nativeWidth, Nat.cast_one,
        mul_one, Option.pure_def, pattern_natCast]
      rw [← Nat.cast_add, pattern_natCast, Nat.add_mod, hbmod, Nat.mod_mod, ← Nat.add_mod]
    obtain ⟨q, hq, hqeq⟩ := hptrEval σ _ hsum
    obtain rfl : q = (p + offset) % 2 ^ st.machineModel.pointerWidth := by
      rcases hqeq with rfl | rfl
      · rfl
      · exact Nat.mod_mod _ _
    exact ⟨by simpa [ExprValue.addr] using hq, by simp [ExprValue.eval, hq]⟩

/-! ### Reading an integer niche -/

/-- The variant that is read from a niche of `w` bits: its position from the first niche variant on,
as a word, decides after a cast to 64 bits whether it is one of them. -/
def readNiche (signed : Bool) (w resWidth dataful variantStart variantEnd nicheStart x : ℕ) : ℕ :=
  let relative := value signed w (pattern w ((x : ℤ) - nicheStart))
  if pattern 64 relative ≤ variantEnd - variantStart then
    pattern resWidth ((if variantEnd - variantStart = 0 then 0 else relative) + variantStart)
  else pattern resWidth dataful

omit [Ranked String] in
lemma isWord_codegenPrimTyp (mm : MachineModel) (k : Integer) (signed : Bool) :
    (codegenPrimTyp (.int k signed)).IsWord mm signed k.bits := by
  cases signed <;> exact ⟨rfl, rfl, rfl, rfl, by cases k <;> decide⟩

variable {w resWidth variantEnd variantStart : ℕ} {n r : Expr} {signed resSigned : Bool}
  {k : Integer} {resTy : Typ}

/-- The position of the niche's value from the first niche value on. -/
lemma exists_codegenRelativeDiscr (hword : nicheTy.IsWord st.machineModel signed w)
    (hn : n.typ = nicheTy) (nicheStart : ℕ) :
    ∃ r, codegenRelativeDiscr nicheStart nicheTy n = some r ∧ r.typ = nicheTy ∧
      ∀ σ x, x < 2 ^ w → n.eval st σ = some x →
        r.eval st σ = some (pattern w ((x : ℤ) - nicheStart)) := by
  by_cases h0 : nicheStart = 0
  · refine ⟨n, by simp [codegenRelativeDiscr, h0], hn, ?_⟩
    intro σ x hx heval
    rw [heval, h0, Nat.cast_zero, sub_zero, pattern_natCast_of_lt hx]
  · obtain ⟨c, hc, hcTyp, hcEval⟩ := Expr.exists_intConstant hword.isIntegral nicheStart
    obtain ⟨r, hr, hrTyp, hrEval⟩ := Expr.exists_arithmetic hword.isIntegral hn hcTyp
      (.inr (.inl rfl))
    refine ⟨r, by simpa [codegenRelativeDiscr, h0, hc, Expr.sub] using hr, hrTyp, ?_⟩
    intro σ x hx heval
    rw [hrEval σ x _ heval (hcEval σ), BinaryOperand.exact, Option.map_some, Option.some_inj,
      pattern_eq_pattern_iff]
    exact (value_modEq signed w x).sub (value_pattern_modEq signed w nicheStart)

variable (st) in
/-- The test of an integer niche compares 64 bits. -/
lemma exists_codegenIsNiche_int {relativeMax : ℕ} (hmax : relativeMax < 2 ^ 64)
    (hr : r.typ = codegenPrimTyp (.int k signed)) :
    ∃ test, codegenIsNiche (.int k signed) relativeMax (codegenPrimTyp (.int k signed)) r =
        some test ∧ test.typ = .bool ∧ ∀ σ x, x < 2 ^ k.bits → r.eval st σ = some x →
          test.eval st σ =
            some (decide (pattern 64 (value signed k.bits x) ≤ relativeMax)).toNat := by
  have hword := isWord_codegenPrimTyp st.machineModel k signed
  have hu64 : (Typ.unsignedbv 64).IsWord st.machineModel false 64 :=
    ⟨rfl, rfl, rfl, rfl, by decide⟩
  obtain ⟨wide, hwide, hwideTyp, hwideEval⟩ := Expr.exists_castTo (e := r) (hr ▸ hword) hu64
  obtain ⟨max, hmaxc, hmaxTyp, hmaxEval⟩ := Expr.exists_intConstant hu64.isIntegral relativeMax
  obtain ⟨test, htest, htestTyp, htestEval⟩ := Expr.exists_compare hu64.isIntegral hwideTyp hmaxTyp
    (.inl rfl)
  refine ⟨test, by simp [codegenIsNiche, hwide, hmaxc, Expr.le, htest], htestTyp, ?_⟩
  intro σ x hx heval
  rw [htestEval σ _ _ (hwideEval σ _ hx heval) (hmaxEval σ)]
  simp only [value_false, pattern_natCast_of_lt hmax, BinaryOperand.compare, Nat.cast_le,
      Option.map_some]

/-- The discriminant of a niche variant is its position from the first one on. -/
lemma exists_codegenNicheDiscr (hword : nicheTy.IsWord st.machineModel signed w)
    (hres : resTy.IsWord st.machineModel resSigned resWidth) (relativeMax variantStart : ℕ)
    (hr : r.typ = nicheTy) :
    ∃ d, codegenNicheDiscr relativeMax variantStart resTy r = some d ∧ d.typ = resTy ∧
      ∀ σ x, x < 2 ^ w → r.eval st σ = some x → d.eval st σ =
        some (pattern resWidth ((if relativeMax = 0 then 0 else value signed w x) +
          variantStart)) := by
  have hpos : ∃ pos, (if relativeMax = 0 then resTy.zero else r.castTo resTy) = some pos ∧
      pos.typ = resTy ∧ ∀ σ x, x < 2 ^ w → r.eval st σ = some x → pos.eval st σ =
        some (pattern resWidth (if relativeMax = 0 then 0 else value signed w x)) := by
    by_cases h0 : relativeMax = 0
    · obtain ⟨z, hz, hzTyp, hzEval⟩ := Expr.exists_intConstant hres.isIntegral 0
      refine ⟨z, by simp [h0, Typ.zero, hres.isInteger, hz], hzTyp, ?_⟩
      intro σ x _ _
      simpa [h0] using hzEval σ
    · obtain ⟨c, hc, hcTyp, hcEval⟩ := Expr.exists_castTo (e := r) (hr ▸ hword) hres
      refine ⟨c, by simp [h0, hc], hcTyp, ?_⟩
      intro σ x hx heval
      simpa [h0] using hcEval σ x hx heval
  obtain ⟨pos, hpos, hposTyp, hposEval⟩ := hpos
  obtain ⟨first, hfirst, hfirstTyp, hfirstEval⟩ :=
    Expr.exists_intConstant hres.isIntegral variantStart
  obtain ⟨sum, hsum, hsumTyp, hsumEval⟩ := Expr.exists_arithmetic hres.isIntegral hposTyp hfirstTyp
    (.inl rfl)
  refine ⟨sum, ?_, hsumTyp, ?_⟩
  · rw [codegenNicheDiscr, hpos]
    simpa [hfirst, Expr.plus] using hsum
  · intro σ x hx heval
    rw [hsumEval σ _ _ (hposEval σ x hx heval) (hfirstEval σ), BinaryOperand.exact,
      Option.map_some, Option.some_inj, pattern_eq_pattern_iff]
    exact (value_pattern_modEq _ _ _).add (value_pattern_modEq _ _ _)

lemma exists_codegenNicheDiscriminant_int (hres : resTy.IsWord st.machineModel resSigned resWidth)
    (hn : n.typ = codegenPrimTyp (.int k signed)) (dataful : ℕ) (hle : variantStart ≤ variantEnd)
    (hlt : variantEnd < 2 ^ 64) (nicheStart : ℕ) :
    ∃ r, codegenNicheDiscriminant (.int k signed) dataful variantStart variantEnd nicheStart
        (codegenPrimTyp (.int k signed)) resTy n = some r ∧
      ∀ σ x, x < 2 ^ k.bits → n.eval st σ = some x → r.eval st σ =
        some (readNiche signed k.bits resWidth dataful variantStart variantEnd nicheStart x) := by
  have hword := isWord_codegenPrimTyp st.machineModel k signed
  obtain ⟨rel, hrel, hrelTyp, hrelEval⟩ := exists_codegenRelativeDiscr hword hn nicheStart
  obtain ⟨test, htest, htestTyp, htestEval⟩ := exists_codegenIsNiche_int st
    (lt_of_le_of_lt (Nat.sub_le variantEnd variantStart) hlt) hrelTyp
  obtain ⟨d, hd, hdTyp, hdEval⟩ := exists_codegenNicheDiscr hword hres
    (variantEnd - variantStart) variantStart hrelTyp
  obtain ⟨data, hdata, hdataTyp, hdataEval⟩ := Expr.exists_intConstant hres.isIntegral dataful
  obtain ⟨r, hr, -, hrEval⟩ := Expr.exists_ternary st htestTyp hdTyp hdataTyp
  refine ⟨r, by simp [codegenNicheDiscriminant, hrel, hle, htest, hd, hdata, hr], ?_⟩
  intro σ x hx heval
  have hrelx := hrelEval σ x hx heval
  rw [hrEval σ _ (htestEval σ _ (pattern_lt _ _) hrelx), hdEval σ _ (pattern_lt _ _) hrelx,
    hdataEval σ]
  simp only [readNiche, decide_eq_true_eq]
  split <;> rfl

/-- What reading a pointer niche evaluates to: null is the one niche value. -/
lemma exists_codegenNicheDiscriminant_pointer
    (hres : resTy.IsWord st.machineModel resSigned resWidth)
    (hn : n.typ = codegenPrimTyp .pointer) (dataful variant : ℕ) :
    ∃ r, codegenNicheDiscriminant .pointer dataful variant variant 0 (codegenPrimTyp .pointer)
        resTy n = some r ∧
      ∀ σ x, n.eval st σ = some x →
        r.eval st σ = some (pattern resWidth (if x = 0 then variant else dataful : ℕ)) := by
  have hnull : (codegenPrimTyp .pointer).null =
      some (.new (.pointerConstant 0) (codegenPrimTyp .pointer)) := rfl
  have htest : (Expr.new (.pointerConstant 0) (codegenPrimTyp .pointer)).binop .equal n =
      some (.new (.binOp .equal (.new (.pointerConstant 0) (codegenPrimTyp .pointer)) n)
        .bool) := by
    simp [Expr.binop, Expr.typecheckBinopArgs, Expr.binopReturnType, hn, codegenPrimTyp,
      Typ.isPointer, Typ.isVector]
  obtain ⟨zero, hzero, hzeroTyp, hzeroEval⟩ := Expr.exists_intConstant hres.isIntegral 0
  obtain ⟨first, hfirst, hfirstTyp, hfirstEval⟩ := Expr.exists_intConstant hres.isIntegral variant
  obtain ⟨data, hdata, hdataTyp, hdataEval⟩ := Expr.exists_intConstant hres.isIntegral dataful
  obtain ⟨sum, hsum, hsumTyp, hsumEval⟩ := Expr.exists_arithmetic hres.isIntegral hzeroTyp hfirstTyp
    (.inl rfl)
  obtain ⟨r, hr, -, hrEval⟩ := Expr.exists_ternary st
    (c := .new (.binOp .equal (.new (.pointerConstant 0) (codegenPrimTyp .pointer)) n) .bool)
    rfl hsumTyp hdataTyp
  refine ⟨r, ?_, ?_⟩
  · simp [codegenNicheDiscriminant, codegenRelativeDiscr, codegenIsNiche, codegenNicheDiscr, hnull,
      Expr.eq, htest, Typ.zero, hres.isInteger, hzero, hfirst, Expr.plus, hsum, hdata, hr]
  · intro σ x heval
    have htestEval : (Expr.new (.binOp .equal
        (.new (.pointerConstant 0) (codegenPrimTyp .pointer)) n) .bool).eval st σ =
        some (decide (x = 0)).toNat := by
      have hconst : (Expr.new (.pointerConstant 0) (codegenPrimTyp .pointer)).eval st σ =
          some 0 := by
        simp [ExprValue.eval, codegenPrimTyp, Typ.patternOf, Typ.scalarWidth, Typ.isBool,
          Typ.nativeWidth, pattern]
      rw [Expr.eval_binop htest hconst heval, hn]
      simp [evalBinop, evalScalarBinop, codegenPrimTyp, Typ.valueOf, Typ.scalarWidth, Typ.isBool,
        Typ.nativeWidth, Typ.isSigned, BinaryOperand.compare, eq_comm]
    rw [hrEval σ _ htestEval, hsumEval σ _ _ (hzeroEval σ) (hfirstEval σ), hdataEval σ]
    have hadd := (value_pattern_modEq resSigned resWidth 0).add
      (value_pattern_modEq resSigned resWidth variant)
    by_cases hx : x = 0
    · simp only [hx, decide_true, if_true, BinaryOperand.exact, Option.map_some, Option.some_inj]
      rw [pattern_eq_pattern_iff]
      simpa using hadd
    · simp [hx]

/-! ### Writing and reading back -/

variable (st) in
/-- The state after an assignment, and what is then read at its address. -/
lemma exists_exec_assign [DebugTyp] (lhs : Expr) {rhs : Expr} (htyp : lhs.typ = rhs.typ) {k : ℕ}
    (hbytes : lhs.typ.bytes st = some k) :
    ∃ s, Stmt.assign lhs rhs .none = some s ∧ ∀ σ q n, lhs.addr st σ = some q →
      rhs.eval st σ = some n → ∃ σ' : State, s.exec st σ = some σ' ∧ σ'.address = σ.address ∧
        σ'.loadTyp st lhs.typ q = some (n % 2 ^ (8 * k)) := by
  refine ⟨.mk (.assign lhs rhs) .none, by simp [Stmt.assign, htyp], ?_⟩
  intro σ q n hq hn
  refine ⟨{ σ with memory := store st.machineModel.isBigEndian σ.memory q k n }, ?_, rfl, ?_⟩
  · simp [Stmt.exec, StmtBody.exec, hq, hn, State.storeTyp, hbytes]
  · simp [State.loadTyp, hbytes, load_store]

lemma bytes_codegenPrimTyp_int (k : Integer) (signed : Bool) :
    (codegenPrimTyp (.int k signed)).bytes st = some (k.bits / 8) := by
  cases signed <;> cases k <;> rfl

omit [Ranked String] in
lemma eight_mul_bits_div (k : Integer) : 8 * (k.bits / 8) = k.bits := by
  cases k <;> rfl

lemma eval_member_of_canTakeAddressOf (he : e.canTakeAddressOf = true) (field : String) (t : Typ)
    (σ : State) :
    (Expr.new (.member e field) t).eval st σ =
      ((Expr.new (.member e field) t).addr st σ).bind (σ.loadTyp st t) := by
  obtain ⟨v, et, l⟩ := e
  cases v <;> simp_all [Expr.canTakeAddressOf, ExprValue.eval, ExprValue.addr, Option.bind_assoc]

/-! ### The variant that is read -/

variable {v x : ℕ}

section Arithmetic

omit [Ranked String]

variable {dataful nicheStart : ℕ}

/-- The position of a niche variant is found again, when it is not read as a negative number. -/
lemma readNiche_of_variant (hstart : variantStart ≤ v) (hend : v ≤ variantEnd)
    (hlt : variantEnd < 2 ^ 32) (hwidth : variantEnd - variantStart < 2 ^ k.bits)
    (hv : v < 2 ^ resWidth) :
    readNiche signed k.bits resWidth dataful variantStart variantEnd nicheStart
        (pattern k.bits ((v - variantStart + nicheStart : ℕ) : ℤ)) =
      if signed = true ∧ k.bits < 64 ∧ 2 ^ (k.bits - 1) ≤ v - variantStart then
        pattern resWidth dataful
      else v := by
  have hrel : pattern k.bits ((pattern k.bits ((v - variantStart + nicheStart : ℕ) : ℤ) : ℤ) -
      nicheStart) = v - variantStart := by
    have hself : pattern k.bits ((v - variantStart : ℕ) : ℤ) = v - variantStart :=
      pattern_natCast_of_lt (by omega)
    rw [← hself, pattern_eq_pattern_iff, hself]
    have h := (pattern_modEq k.bits ((v - variantStart + nicheStart : ℕ) : ℤ)).sub_right nicheStart
    simpa using h
  unfold readNiche
  simp only [hrel]
  by_cases hneg : signed = true ∧ 2 ^ (k.bits - 1) ≤ v - variantStart
  · -- the position is cast as a negative number, which is larger than every position
    obtain ⟨rfl, hle⟩ := hneg
    rw [value_true_of_le hle]
    have hbits : k.bits < 64 := by
      cases k <;> simp only [Integer.bits] at hle ⊢ <;> omega
    have hbig : ¬ pattern 64 (((v - variantStart : ℕ) : ℤ) - 2 ^ k.bits) ≤
        variantEnd - variantStart := by
      have hmod := cast_pattern 64 (((v - variantStart : ℕ) : ℤ) - 2 ^ k.bits)
      have hres : (((v - variantStart : ℕ) : ℤ) - 2 ^ k.bits) % 2 ^ 64 =
          (((v - variantStart : ℕ) : ℤ) - 2 ^ k.bits) + 2 ^ 64 := by
        rw [← Int.add_emod_right, Int.emod_eq_of_lt] <;>
          cases k <;> simp only [Integer.bits] at hle hbits hwidth ⊢ <;> omega
      rw [hres] at hmod
      cases k <;> simp only [Integer.bits] at hle hbits hmod hwidth ⊢ <;> omega
    rw [if_neg hbig, if_pos ⟨rfl, hbits, hle⟩]
  · have hvalue : value signed k.bits (v - variantStart) = ((v - variantStart : ℕ) : ℤ) := by
      unfold value
      rw [if_neg hneg]
    have hsum : (if variantEnd - variantStart = 0 then (0 : ℤ) else ((v - variantStart : ℕ) : ℤ)) +
        variantStart = v := by
      split <;> omega
    have hin : pattern 64 ((v - variantStart : ℕ) : ℤ) ≤ variantEnd - variantStart := by
      rw [pattern_natCast_of_lt (by omega)]
      omega
    rw [hvalue, hsum, if_pos hin, pattern_natCast_of_lt hv, if_neg (by tauto)]

/-- A value that is not a niche value is read as the variant with data, except that only 64 bits of
its position are looked at. -/
lemma readNiche_of_valid
    (hrel : variantEnd - variantStart < pattern k.bits ((x : ℤ) - nicheStart))
    (hle : variantStart ≤ variantEnd) (hres : resWidth ≤ 64) (hend : variantEnd < 2 ^ resWidth) :
    readNiche signed k.bits resWidth dataful variantStart variantEnd nicheStart x =
      if 64 < k.bits ∧
          pattern k.bits ((x : ℤ) - nicheStart) % 2 ^ 64 ≤ variantEnd - variantStart then
        variantStart + pattern k.bits ((x : ℤ) - nicheStart) % 2 ^ 64
      else pattern resWidth dataful := by
  unfold readNiche
  generalize hr : pattern k.bits ((x : ℤ) - nicheStart) = r at hrel ⊢
  have hlt : r < 2 ^ k.bits := hr ▸ pattern_lt _ _
  simp only
  by_cases hbits : 64 < k.bits
  · -- the cast to 64 bits truncates the position
    have hvalue : value signed k.bits r ≡ (r % 2 ^ 64 : ℕ) [ZMOD 2 ^ 64] := by
      refine ((value_modEq signed k.bits r).of_dvd (pow_dvd_pow 2 hbits.le)).trans ?_
      rw [Int.natCast_mod]
      exact (Int.mod_modEq _ _).symm
    have hpat : pattern 64 (value signed k.bits r) = r % 2 ^ 64 := by
      rw [pattern_eq_pattern_iff.mpr hvalue, pattern_natCast_of_lt (Nat.mod_lt _ (by positivity))]
    rw [hpat]
    by_cases hin : r % 2 ^ 64 ≤ variantEnd - variantStart
    · have hsum : (if variantEnd - variantStart = 0 then 0 else value signed k.bits r) +
          variantStart ≡ ((variantStart + r % 2 ^ 64 : ℕ) : ℤ) [ZMOD 2 ^ resWidth] := by
        rw [Nat.cast_add, add_comm (variantStart : ℤ)]
        refine Int.ModEq.add_right _ ?_
        split
        · next h0 => rw [show r % 2 ^ 64 = 0 by omega]; rfl
        · exact hvalue.of_dvd (pow_dvd_pow 2 hres)
      rw [pattern_eq_pattern_iff.mpr hsum, pattern_natCast_of_lt (by omega), if_pos hin,
        if_pos ⟨hbits, hin⟩]
    · rw [if_neg hin, if_neg (by tauto)]
  · -- the cast to 64 bits extends the position, which makes it no smaller
    have hbig : ¬ pattern 64 (value signed k.bits r) ≤ variantEnd - variantStart := by
      have hmod := cast_pattern 64 (value signed k.bits r)
      unfold value at hmod ⊢
      split at hmod
      · next hneg =>
        have hres' : ((r : ℤ) - 2 ^ k.bits) % 2 ^ 64 = (r : ℤ) - 2 ^ k.bits + 2 ^ 64 := by
          rw [← Int.add_emod_right, Int.emod_eq_of_lt] <;>
            cases k <;> simp only [Integer.bits] at hlt hbits ⊢ <;> omega
        rw [hres'] at hmod
        rw [if_pos hneg]
        cases k <;> simp only [Integer.bits] at hlt hbits hmod ⊢ <;> omega
      · next hneg =>
        have hres' : (r : ℤ) % 2 ^ 64 = r := by
          rw [Int.emod_eq_of_lt] <;>
            cases k <;> simp only [Integer.bits] at hlt hbits ⊢ <;> omega
        rw [hres'] at hmod
        rw [if_neg hneg]
        omega
    rw [if_neg hbig, if_neg (by tauto)]

end Arithmetic

/-! ### Well-formed layouts -/

variable {dataful nicheStart : ℕ}

namespace EnumLayout

/-- The variant whose data the niche is part of. -/
def datafulVariant (layout : EnumLayout) : Option ℕ :=
  match layout.variants with
  | .multiple _ (.niche dataful _ _ _) => some dataful
  | _ => none

/-- A direct encoding: the tag is the first field of the translated enum, and its type represents
the discriminants of the variants. A discriminant is given as its pattern in the type it is read
as. -/
structure DirectWellFormed (layout : EnumLayout) (st : SymbolTable) (k : Integer) (signed : Bool)
    (enumTy : Typ) (resWidth : ℕ) (inhabited : ℕ → Prop) : Prop where
  isStructTag : enumTy.isStructTag = true
  lookup : ∃ rest, st.lookupFieldsInType enumTy =
    some (.field "case" (codegenPrimTyp (.int k signed)) :: rest)
  discriminant : ∀ v, inhabited v → ∃ z, InRange signed k.bits z ∧
    layout.discriminantForVariant v = some (pattern resWidth z)

/-- A niche encoding in a word of `w` bits: the niche variants are numbered from `variantStart` on,
their values from `nicheStart` on modulo `2 ^ w`, and no valid value of the field is one of these.
Variants have their index as discriminant. -/
structure NicheWellFormed (layout : EnumLayout)
    (w dataful variantStart variantEnd nicheStart resWidth : ℕ)
    (inhabited valid : ℕ → Prop) : Prop where
  le : variantStart ≤ variantEnd
  lt : variantEnd < 2 ^ 32
  resWidth_le : resWidth ≤ 64
  end_lt : variantEnd < 2 ^ resWidth
  dataful_lt : dataful < 2 ^ resWidth
  count_lt : variantEnd - variantStart < 2 ^ w
  mem_range : ∀ v, inhabited v → v ≠ dataful → variantStart ≤ v ∧ v ≤ variantEnd
  discriminant : ∀ v, inhabited v ∨ v = dataful → layout.discriminantForVariant v = some v
  valid_lt : ∀ x, valid x → x < 2 ^ w
  disjoint : ∀ x, valid x → ∀ j ≤ variantEnd - variantStart, x ≠ (nicheStart + j) % 2 ^ w

/-- A layout with several variants. The niche of a pointer is null alone. -/
def WellFormed (layout : EnumLayout) (st : SymbolTable) (enumTy : Typ) (resWidth : ℕ)
    (inhabited valid : ℕ → Prop) : Prop :=
  match layout.variants with
  | .multiple (.int k signed) .direct =>
    layout.DirectWellFormed st k signed enumTy resWidth inhabited
  | .multiple (.int k _) (.niche dataful variantStart variantEnd nicheStart) =>
    layout.NicheWellFormed k.bits dataful variantStart variantEnd nicheStart resWidth
      inhabited valid
  | .multiple .pointer (.niche dataful variantStart variantEnd nicheStart) =>
    layout.NicheWellFormed st.machineModel.pointerWidth dataful variantStart variantEnd nicheStart
      resWidth inhabited valid ∧
    nicheStart = 0 ∧ variantStart = variantEnd ∧ st.machineModel.pointerWidth % 8 = 0
  | _ => False

/-- The layouts that are read right: the position of no variant is negative as a signed tag of
fewer than 64 bits, and in a tag of more than 64 bits the low 64 bits of the position of no valid
value are those of a niche variant, unless it stands in for the variant with data. -/
def Exact (layout : EnumLayout) (inhabited valid : ℕ → Prop) : Prop :=
  match layout.variants with
  | .multiple (.int k signed) (.niche dataful variantStart variantEnd nicheStart) =>
    (signed = true → k.bits < 64 → ∀ v, inhabited v → v ≠ dataful →
      v - variantStart < 2 ^ (k.bits - 1)) ∧
    (64 < k.bits → ∀ x, valid x →
      variantEnd - variantStart < pattern k.bits ((x : ℤ) - nicheStart) % 2 ^ 64 ∨
      variantStart + pattern k.bits ((x : ℤ) - nicheStart) % 2 ^ 64 = dataful)
  | _ => True

omit [Ranked String] in
/-- The position of a value that is not a niche value is past the niche variants. -/
lemma NicheWellFormed.lt_position {layout : EnumLayout}
    {inhabited valid : ℕ → Prop}
    (h : layout.NicheWellFormed w dataful variantStart variantEnd nicheStart resWidth
      inhabited valid) (hx : valid x) :
    variantEnd - variantStart < pattern w ((x : ℤ) - nicheStart) := by
  by_contra hle
  refine h.disjoint x hx _ (Nat.le_of_not_lt hle) ?_
  have hmod := ((pattern_modEq w ((x : ℤ) - nicheStart)).add_left nicheStart).symm
  rw [add_sub_cancel, ← Nat.cast_add, ← pattern_eq_pattern_iff,
    pattern_natCast_of_lt (h.valid_lt x hx), pattern_natCast] at hmod
  exact hmod

end EnumLayout

/-- Writing a variant and reading the discriminant of any place of the enum's type gives the
variant's discriminant; and any valid value of the niche is read as the variant with data, which
is written by leaving the memory as it is. -/
def RoundTrip [DebugTyp] (st : SymbolTable) (layout : EnumLayout) (enumTy resTy : Typ)
    (inhabited valid : ℕ → Prop) : Prop :=
  ∀ e : Expr, e.typ = enumTy → e.canTakeAddressOf = true →
    ∃ read, codegenGetDiscriminant st layout e resTy = some read ∧
      (∀ v, inhabited v → layout.datafulVariant ≠ some v →
        ∃ s, codegenSetDiscriminant st layout e v = some s ∧ ∀ σ p, e.addr st σ = some p →
          ∃ σ', s.exec st σ = some σ' ∧ (e.addr st σ' = some p →
            ∃ d, layout.discriminantForVariant v = some d ∧ read.eval st σ' = some d)) ∧
      (∀ v, layout.datafulVariant = some v →
        ∃ s, codegenSetDiscriminant st layout e v = some s ∧ ∀ σ p, e.addr st σ = some p →
          s.exec st σ = some σ ∧ ∀ nicheTy x, codegenEnumDiscrTyp layout = some nicheTy →
            σ.loadTyp st nicheTy ((p + layout.offset) % 2 ^ st.machineModel.pointerWidth) = some x →
            valid x →
            ∃ d, layout.discriminantForVariant v = some d ∧ read.eval st σ = some d)

/-! ### Round trips -/

section RoundTrip

variable [DebugTyp] {layout : EnumLayout} {enumTy : Typ} {inhabited valid : ℕ → Prop}

section Direct

variable {rest : List DatatypeComponent}

section

omit [DebugTyp]

lemma member_case (hstruct : e.typ.isStructTag = true)
    (hlookup : st.lookupFieldsInType e.typ =
      some (.field "case" (codegenPrimTyp (.int k signed)) :: rest)) :
    e.member "case" st = some (.new (.member e "case") (codegenPrimTyp (.int k signed))) := by
  have hfieldTyp : st.lookupFieldTypeInType e.typ "case" =
      some (codegenPrimTyp (.int k signed)) := by
    simp only [SymbolTable.lookupFieldsInType, bind_eq_some] at hlookup
    obtain ⟨aggrName, haggr, sym, hsym, hcomps⟩ := hlookup
    simp [SymbolTable.lookupFieldTypeInType, haggr, SymbolTable.lookupFieldType,
      SymbolTable.lookupComponents, hsym, hcomps, DatatypeComponent.fieldTyp]
  simp [Expr.member, hstruct, hfieldTyp]

variable {p : ℕ} {σ : State}

lemma addr_member_case (hstruct : e.typ.isStructTag = true)
    (hlookup : st.lookupFieldsInType e.typ =
      some (.field "case" (codegenPrimTyp (.int k signed)) :: rest))
    (hp : e.addr st σ = some p) :
    (Expr.new (.member e "case") (codegenPrimTyp (.int k signed))).addr st σ =
      some (p % 2 ^ st.machineModel.pointerWidth) := by
  have hunion : e.typ.isUnionTag = false := by
    cases het : e.typ <;> simp_all [Typ.isStructTag, Typ.isUnionTag]
  simp [ExprValue.addr, hp, fieldOffset, hlookup, hunion, fieldOffsetInBits]

lemma lt_of_loadTyp_int (hx : σ.loadTyp st (codegenPrimTyp (.int k signed)) p = some x) :
    x < 2 ^ k.bits := by
  simp only [State.loadTyp, bytes_codegenPrimTyp_int, some_bind,
    Option.pure_def, Option.some_inj] at hx
  have hlt := load_lt st.machineModel.isBigEndian σ.memory p (k.bits / 8)
  rwa [hx, eight_mul_bits_div] at hlt

lemma exists_codegenGetDiscriminant_direct
    (hvariants : layout.variants = .multiple (.int k signed) .direct)
    (hres : resTy.IsWord st.machineModel resSigned resWidth)
    (hstruct : e.typ.isStructTag = true)
    (hlookup : st.lookupFieldsInType e.typ =
      some (.field "case" (codegenPrimTyp (.int k signed)) :: rest))
    (he : e.canTakeAddressOf = true) :
    ∃ read, codegenGetDiscriminant st layout e resTy = some read ∧
      ∀ σ p x, e.addr st σ = some p →
        σ.loadTyp st (codegenPrimTyp (.int k signed))
          (p % 2 ^ st.machineModel.pointerWidth) = some x →
        read.eval st σ = some (pattern resWidth (value signed k.bits x)) := by
  have hmember := member_case hstruct hlookup
  obtain ⟨read, hread, -, hreadEval⟩ := Expr.exists_castTo
    (e := .new (.member e "case") (codegenPrimTyp (.int k signed)))
    (isWord_codegenPrimTyp st.machineModel k signed) hres
  refine ⟨read, by simp [codegenGetDiscriminant, hvariants, hmember, hread], ?_⟩
  intro σ p x hp hx
  refine hreadEval σ x (lt_of_loadTyp_int hx) ?_
  rw [eval_member_of_canTakeAddressOf he, addr_member_case hstruct hlookup hp, Option.bind_some]
  exact hx

end

/-- A direct tag is always read as it was written. -/
lemma roundTrip_direct (hvariants : layout.variants = .multiple (.int k signed) .direct)
    (hres : resTy.IsWord st.machineModel resSigned resWidth)
    (h : layout.DirectWellFormed st k signed enumTy resWidth inhabited) :
    RoundTrip st layout enumTy resTy inhabited valid := by
  intro e hetyp he
  subst hetyp
  have hword := isWord_codegenPrimTyp st.machineModel k signed
  obtain ⟨rest, hlookup⟩ := h.lookup
  have hmember := member_case h.isStructTag hlookup
  obtain ⟨read, hread, hreadEval⟩ :=
    exists_codegenGetDiscriminant_direct hvariants hres h.isStructTag hlookup he
  refine ⟨read, hread, ?_, ?_⟩
  · intro v hv _
    obtain ⟨z, hz, hdiscr⟩ := h.discriminant v hv
    obtain ⟨c, hc, hcTyp, hcEval⟩ := Expr.exists_intConstant hword.isIntegral
      (pattern resWidth z : ℤ)
    obtain ⟨s, hs, hexec⟩ := exists_exec_assign st
      (.new (.member e "case") (codegenPrimTyp (.int k signed))) hcTyp.symm
      (bytes_codegenPrimTyp_int k signed)
    refine ⟨s, ?_, ?_⟩
    · simp [codegenSetDiscriminant, hvariants, codegenEnumDiscrTyp, hdiscr, hc, hmember, hs]
    · intro σ p hp
      obtain ⟨σ', hσ', -, hload⟩ :=
        hexec σ _ _ (addr_member_case h.isStructTag hlookup hp) (hcEval σ)
      refine ⟨σ', hσ', fun hp' => ⟨_, hdiscr, ?_⟩⟩
      rw [eight_mul_bits_div, Nat.mod_eq_of_lt (pattern_lt _ _)] at hload
      rw [hreadEval σ' p _ hp' hload, Option.some_inj]
      -- the tag is either no wider than the result, or wide enough to keep its pattern
      rcases Nat.le_total k.bits resWidth with hle | hle
      · have htag : pattern k.bits (pattern resWidth z) = pattern k.bits z :=
          pattern_eq_pattern_iff.mpr (pattern_modEq_of_le hle z)
        rw [htag, value_pattern hword.pos hz]
      · rw [pattern_eq_pattern_iff]
        refine ((value_modEq _ _ _).of_dvd (pow_dvd_pow 2 hle)).trans ?_
        exact (pattern_modEq_of_le hle _).trans (pattern_modEq resWidth z)
  · intro v hv
    simp [EnumLayout.datafulVariant, hvariants] at hv

end Direct

omit [DebugTyp] in
lemma exists_codegenGetDiscriminant_int (hpw : 0 < st.machineModel.pointerWidth)
    (hres : resTy.IsWord st.machineModel resSigned resWidth)
    (hvariants : layout.variants =
      .multiple (.int k signed) (.niche dataful variantStart variantEnd nicheStart))
    (hle : variantStart ≤ variantEnd) (hlt : variantEnd < 2 ^ 32)
    (he : e.canTakeAddressOf = true) :
    ∃ read, codegenGetDiscriminant st layout e resTy = some read ∧
      ∀ σ p x, e.addr st σ = some p →
        σ.loadTyp st (codegenPrimTyp (.int k signed))
          ((p + layout.offset) % 2 ^ st.machineModel.pointerWidth) = some x →
        read.eval st σ =
          some (readNiche signed k.bits resWidth dataful variantStart variantEnd nicheStart x) := by
  obtain ⟨n, hn, hnTyp, hnEval⟩ := exists_codegenGetNiche st hpw he layout.offset
    (isNicheTyp_codegenPrimTyp (.int k signed))
  obtain ⟨read, hread, hreadEval⟩ := exists_codegenNicheDiscriminant_int hres hnTyp dataful hle
    (hlt.trans (by norm_num)) nicheStart
  refine ⟨read, by simp [codegenGetDiscriminant, hvariants, codegenEnumDiscrTyp, hn, hread], ?_⟩
  intro σ p x hp hx
  exact hreadEval σ x (lt_of_loadTyp_int hx) (by rw [(hnEval σ p hp).2, hx])

variable {tag : Primitive}

variable (st) in
lemma exists_codegenSetDiscriminant_niche (hpw : 0 < st.machineModel.pointerWidth)
    (hvariants : layout.variants =
      .multiple tag (.niche dataful variantStart variantEnd nicheStart))
    (hv : v ≠ dataful) (hle : variantStart ≤ v) (he : e.canTakeAddressOf = true)
    {c : Expr} {n k : ℕ} (hcTyp : c.typ = codegenPrimTyp tag)
    (hc : (if (v - variantStart + nicheStart) % 2 ^ 128 = 0 ∧ tag = .pointer then
        (codegenPrimTyp tag).null
      else Expr.intConstant ((v - variantStart + nicheStart) % 2 ^ 128 : ℕ)
        (codegenPrimTyp tag)) = some c)
    (hcEval : ∀ σ, c.eval st σ = some n) (hbytes : (codegenPrimTyp tag).bytes st = some k) :
    ∃ s, codegenSetDiscriminant st layout e v = some s ∧ ∀ σ p, e.addr st σ = some p →
      ∃ σ' : State, s.exec st σ = some σ' ∧ σ'.address = σ.address ∧
        σ'.loadTyp st (codegenPrimTyp tag)
          ((p + layout.offset) % 2 ^ st.machineModel.pointerWidth) = some (n % 2 ^ (8 * k)) := by
  obtain ⟨m, hm, hmTyp, hmEval⟩ := exists_codegenGetNiche st hpw he layout.offset
    (isNicheTyp_codegenPrimTyp tag)
  obtain ⟨s, hs, hexec⟩ := exists_exec_assign st m (hmTyp.trans hcTyp.symm) (hmTyp ▸ hbytes)
  refine ⟨s, ?_, ?_⟩
  · simp only [codegenSetDiscriminant, hvariants, codegenEnumDiscrTyp, ne_eq, Ne.symm hv,
      not_false_eq_true, if_true, some_bind, hle, guard_true,
      Option.pure_def]
    split at hc <;> simp_all
  · intro σ p hp
    obtain ⟨σ', hσ', haddr, hload⟩ := hexec σ _ n (hmEval σ p hp).1 (hcEval σ)
    exact ⟨σ', hσ', haddr, hmTyp ▸ hload⟩

/-- Writing the variant with data does nothing. -/
lemma codegenSetDiscriminant_dataful
    (hvariants : layout.variants =
      .multiple tag (.niche dataful variantStart variantEnd nicheStart)) (e : Expr) :
    codegenSetDiscriminant st layout e dataful = some (Stmt.skip .none) := by
  simp [codegenSetDiscriminant, hvariants]

/-- A pointer niche is always read as it was written. -/
lemma roundTrip_pointer (hpw : 0 < st.machineModel.pointerWidth)
    (hres : resTy.IsWord st.machineModel resSigned resWidth) {variant : ℕ}
    (hvariants : layout.variants = .multiple .pointer (.niche dataful variant variant 0))
    (hbytes : st.machineModel.pointerWidth % 8 = 0)
    (h : layout.NicheWellFormed st.machineModel.pointerWidth dataful variant variant 0 resWidth
      inhabited valid) :
    RoundTrip st layout enumTy resTy inhabited valid := by
  intro e _ he
  have hptrBytes : (codegenPrimTyp .pointer).bytes st =
      some (st.machineModel.pointerWidth / 8) := by
    simp [codegenPrimTyp, Typ.bytes, Typ.sizeofInBits, Typ.sizeofWith, hbytes]
  obtain ⟨n, hn, hnTyp, hnEval⟩ := exists_codegenGetNiche st hpw he layout.offset
    (isNicheTyp_codegenPrimTyp .pointer)
  obtain ⟨read, hread, hreadEval⟩ :=
    exists_codegenNicheDiscriminant_pointer hres hnTyp dataful variant
  refine ⟨read, by simp [codegenGetDiscriminant, hvariants, codegenEnumDiscrTyp, hn, hread],
    ?_, ?_⟩
  · intro v hv hne
    have hv' : v ≠ dataful := by
      rintro rfl
      exact hne (by simp [EnumLayout.datafulVariant, hvariants])
    obtain ⟨hstart, hend⟩ := h.mem_range v hv hv'
    obtain rfl : v = variant := le_antisymm hend hstart
    -- the one niche variant is null
    have hnullEval : ∀ σ, (Expr.new (.pointerConstant 0) (codegenPrimTyp .pointer)).eval st σ =
          some 0 := by
      intro σ
      simp [ExprValue.eval, codegenPrimTyp, Typ.patternOf, Typ.scalarWidth, Typ.isBool,
        Typ.nativeWidth, pattern]
    obtain ⟨s, hs, hexec⟩ := exists_codegenSetDiscriminant_niche st hpw hvariants hv'
      le_rfl he (c := .new (.pointerConstant 0) (codegenPrimTyp .pointer)) rfl
      (by simp; rfl) hnullEval hptrBytes
    refine ⟨s, hs, ?_⟩
    intro σ p hp
    obtain ⟨σ', hσ', -, hload⟩ := hexec σ p hp
    refine ⟨σ', hσ', fun hp' => ⟨v, h.discriminant v (.inl hv), ?_⟩⟩
    rw [hreadEval σ' 0 (by rw [(hnEval σ' p hp').2, hload, Nat.zero_mod]), if_pos rfl,
      pattern_natCast_of_lt h.end_lt]
  · intro v hv
    obtain rfl : dataful = v := by simpa [EnumLayout.datafulVariant, hvariants] using hv
    refine ⟨_, codegenSetDiscriminant_dataful hvariants e, ?_⟩
    intro σ p hp
    refine ⟨rfl, ?_⟩
    intro nicheTy x hty hx hvalid
    obtain rfl : codegenPrimTyp .pointer = nicheTy := by
      simpa [codegenEnumDiscrTyp, hvariants] using hty
    have hx0 : x ≠ 0 := by simpa using h.disjoint x hvalid 0 (Nat.zero_le _)
    refine ⟨dataful, h.discriminant dataful (.inr rfl), ?_⟩
    rw [hreadEval σ x (by rw [(hnEval σ p hp).2, hx]), if_neg hx0,
      pattern_natCast_of_lt h.dataful_lt]

variable (st) in
/-- The niche after a niche variant is written, for an integer niche. -/
lemma exists_codegenSetDiscriminant_int (hpw : 0 < st.machineModel.pointerWidth)
    (hvariants : layout.variants =
      .multiple (.int k signed) (.niche dataful variantStart variantEnd nicheStart))
    (hv : v ≠ dataful) (hle : variantStart ≤ v) (he : e.canTakeAddressOf = true) :
    ∃ s, codegenSetDiscriminant st layout e v = some s ∧ ∀ σ p, e.addr st σ = some p →
      ∃ σ' : State, s.exec st σ = some σ' ∧ σ'.address = σ.address ∧
        σ'.loadTyp st (codegenPrimTyp (.int k signed))
          ((p + layout.offset) % 2 ^ st.machineModel.pointerWidth) =
            some (pattern k.bits ((v - variantStart + nicheStart : ℕ) : ℤ)) := by
  have hword := isWord_codegenPrimTyp st.machineModel k signed
  obtain ⟨c, hc, hcTyp, hcEval⟩ :=
    Expr.exists_intConstant hword.isIntegral (((v - variantStart + nicheStart) % 2 ^ 128 : ℕ) : ℤ)
  obtain ⟨s, hs, hexec⟩ := exists_codegenSetDiscriminant_niche st hpw hvariants hv hle he
    hcTyp (by simpa using hc) hcEval (bytes_codegenPrimTyp_int k signed)
  refine ⟨s, hs, ?_⟩
  intro σ p hp
  obtain ⟨σ', hσ', haddr, hload⟩ := hexec σ p hp
  refine ⟨σ', hσ', haddr, ?_⟩
  -- reducing modulo `2 ^ 128` first does not matter to a word of at most 128 bits
  have hbits : k.bits ≤ 128 := by cases k <;> decide
  rw [hload, eight_mul_bits_div, Nat.mod_eq_of_lt (pattern_lt _ _), pattern_natCast,
    pattern_natCast, Nat.mod_mod_of_dvd _ (pow_dvd_pow 2 hbits)]

section IntegerNiche

variable (hpw : 0 < st.machineModel.pointerWidth)
  (hres : resTy.IsWord st.machineModel resSigned resWidth)
  (hvariants : layout.variants =
    .multiple (.int k signed) (.niche dataful variantStart variantEnd nicheStart))
  (h : layout.NicheWellFormed k.bits dataful variantStart variantEnd nicheStart resWidth
    inhabited valid)

include hpw hres hvariants h

lemma roundTrip_int_of_exact (hexact : layout.Exact inhabited valid) :
    RoundTrip st layout enumTy resTy inhabited valid := by
  simp only [EnumLayout.Exact, hvariants] at hexact
  intro e _ he
  obtain ⟨read, hread, hreadEval⟩ :=
    exists_codegenGetDiscriminant_int hpw hres hvariants h.le h.lt he
  refine ⟨read, hread, ?_, ?_⟩
  · intro v hv hne
    have hv' : v ≠ dataful := by
      rintro rfl
      exact hne (by simp [EnumLayout.datafulVariant, hvariants])
    obtain ⟨hstart, hend⟩ := h.mem_range v hv hv'
    obtain ⟨s, hs, hexec⟩ :=
      exists_codegenSetDiscriminant_int st hpw hvariants hv' hstart he
    refine ⟨s, hs, ?_⟩
    intro σ p hp
    obtain ⟨σ', hσ', -, hload⟩ := hexec σ p hp
    refine ⟨σ', hσ', fun hp' => ⟨v, h.discriminant v (.inl hv), ?_⟩⟩
    rw [hreadEval σ' p _ hp' hload,
      readNiche_of_variant hstart hend h.lt h.count_lt (lt_of_le_of_lt hend h.end_lt), if_neg]
    rintro ⟨hsigned, hbits, hle⟩
    have := hexact.1 hsigned hbits v hv hv'
    omega
  · intro v hv
    obtain rfl : dataful = v := by simpa [EnumLayout.datafulVariant, hvariants] using hv
    refine ⟨_, codegenSetDiscriminant_dataful hvariants e, ?_⟩
    intro σ p hp
    refine ⟨rfl, ?_⟩
    intro nicheTy x hty hx hvalid
    obtain rfl : codegenPrimTyp (.int k signed) = nicheTy := by
      simpa [codegenEnumDiscrTyp, hvariants] using hty
    refine ⟨dataful, h.discriminant dataful (.inr rfl), ?_⟩
    rw [hreadEval σ p x hp hx,
      readNiche_of_valid (h.lt_position hvalid) h.le h.resWidth_le h.end_lt]
    split
    · next hcond =>
      rcases hexact.2 hcond.1 x hvalid with hlt | heq
      · omega
      · rw [heq]
    · rw [pattern_natCast_of_lt h.dataful_lt]

/-- A variable of the enum's type shows what goes wrong with a layout that is not exact. -/
lemma exact_of_roundTrip_int (hround : RoundTrip st layout enumTy resTy inhabited valid) :
    layout.Exact inhabited valid := by
  simp only [EnumLayout.Exact, hvariants]
  have he : (Expr.new (.symbol "e") enumTy).canTakeAddressOf = true := rfl
  have haddr : ∀ σ : State, (Expr.new (.symbol "e") enumTy).addr st σ = some (σ.address "e") := by
    intro σ
    simp [ExprValue.addr]
  obtain ⟨read, hread, hwrite, hdata⟩ := hround _ rfl he
  obtain ⟨read', hread', hreadEval⟩ :=
    exists_codegenGetDiscriminant_int hpw hres hvariants h.le h.lt he
  obtain rfl : read = read' := by simpa [hread] using hread'
  constructor
  · intro hsigned hbits v hv hv'
    by_contra hle
    obtain ⟨hstart, hend⟩ := h.mem_range v hv hv'
    have hne : layout.datafulVariant ≠ some v := by
      simpa [EnumLayout.datafulVariant, hvariants] using Ne.symm hv'
    obtain ⟨s, hs, hexec⟩ := hwrite v hv hne
    obtain ⟨s', hs', hexec'⟩ :=
      exists_codegenSetDiscriminant_int st hpw hvariants hv' hstart he
    obtain rfl : s = s' := by simpa [hs] using hs'
    -- the variant is written and then read as the one with data
    obtain ⟨σ', hσ', haddr', hload⟩ := hexec' ⟨fun _ => 0, fun _ => 0⟩ _ (haddr _)
    obtain ⟨σ'', hσ'', hback⟩ := hexec ⟨fun _ => 0, fun _ => 0⟩ _ (haddr _)
    obtain rfl : σ' = σ'' := Option.some_inj.mp (hσ'.symm.trans hσ'')
    have hp' := haddr σ'
    rw [haddr'] at hp'
    obtain ⟨d, hd, hdEval⟩ := hback hp'
    rw [h.discriminant v (.inl hv), Option.some_inj] at hd
    rw [hreadEval σ' _ _ hp' hload,
      readNiche_of_variant hstart hend h.lt h.count_lt (lt_of_le_of_lt hend h.end_lt),
      if_pos ⟨hsigned, hbits, Nat.le_of_not_lt hle⟩, pattern_natCast_of_lt h.dataful_lt,
      Option.some_inj, ← hd] at hdEval
    exact hv' hdEval.symm
  · intro hbits x hx
    by_contra hcon
    push Not at hcon
    -- a memory with the value at the niche of the variable at address zero
    let σ : State :=
      ⟨store st.machineModel.isBigEndian (fun _ => 0)
        ((0 + layout.offset) % 2 ^ st.machineModel.pointerWidth) (k.bits / 8) x, fun _ => 0⟩
    have hload : σ.loadTyp st (codegenPrimTyp (.int k signed))
        ((0 + layout.offset) % 2 ^ st.machineModel.pointerWidth) = some x := by
      simp only [State.loadTyp, bytes_codegenPrimTyp_int, some_bind,
        Option.pure_def, σ, load_store, eight_mul_bits_div, Nat.mod_eq_of_lt (h.valid_lt x hx)]
    obtain ⟨s, -, hkeep⟩ := hdata dataful (by simp [EnumLayout.datafulVariant, hvariants])
    obtain ⟨d, hd, hdEval⟩ := (hkeep σ 0 (haddr σ)).2 _ x
      (by simp [codegenEnumDiscrTyp, hvariants]) hload hx
    rw [h.discriminant dataful (.inr rfl), Option.some_inj] at hd
    rw [hreadEval σ 0 x (haddr σ) hload,
      readNiche_of_valid (h.lt_position hx) h.le h.resWidth_le h.end_lt,
      if_pos ⟨hbits, hcon.1⟩, Option.some_inj, ← hd] at hdEval
    exact hcon.2 hdEval

end IntegerNiche

/-- The discriminant of every variant of a well-formed layout is read as it was written, and every
valid value of the niche is read as the variant with data, exactly when the layout is exact. -/
theorem roundTrip_iff_exact (hpw : 0 < st.machineModel.pointerWidth)
    (hres : resTy.IsWord st.machineModel resSigned resWidth)
    (h : layout.WellFormed st enumTy resWidth inhabited valid) :
    RoundTrip st layout enumTy resTy inhabited valid ↔ layout.Exact inhabited valid := by
  unfold EnumLayout.WellFormed at h
  split at h
  case h_1 k signed hvariants =>
    have hround : RoundTrip st layout enumTy resTy inhabited valid :=
      roundTrip_direct hvariants hres h
    simp [hround, EnumLayout.Exact, hvariants]
  case h_2 k signed dataful variantStart variantEnd nicheStart hvariants =>
    exact ⟨exact_of_roundTrip_int hpw hres hvariants h, roundTrip_int_of_exact hpw hres hvariants h⟩
  case h_3 dataful variantStart variantEnd nicheStart hvariants =>
    obtain ⟨hwf, rfl, rfl, hbytes⟩ := h
    have hround : RoundTrip st layout enumTy resTy inhabited valid :=
      roundTrip_pointer hpw hres hvariants hbytes hwf
    simp [hround, EnumLayout.Exact, hvariants]
  case h_4 => exact h.elim

omit [Ranked String] [DebugTyp] in
/-- `Option<bool>`: the niche value `2` of the byte stands for `None`. -/
theorem roundTrip_option_bool :
    let _ : Ranked String := rankedString
    let _ : DebugTyp := ⟨fun _ => "type"⟩
    let layout : EnumLayout := ⟨.multiple (.int .i8 false) (.niche 1 0 0 2), 0, some⟩
    let st : SymbolTable := .empty (machineModelFromSession none "x86_64" false 64)
    RoundTrip st layout (.structTag "o") .ssizeT (fun v => v ≤ 1) (fun x => x ≤ 1) := by
  intro _ _ layout st
  have hwf : layout.NicheWellFormed 8 1 0 0 2 64 (fun v => v ≤ 1) (fun x => x ≤ 1) :=
    { le := by decide
      lt := by decide
      resWidth_le := by decide
      end_lt := by decide
      dataful_lt := by decide
      count_lt := by decide
      mem_range := by intro v hv hne; omega
      discriminant := by intro v _; rfl
      valid_lt := by intro x hx; omega
      disjoint := by intro x hx j hj; omega }
  have hwf' : layout.WellFormed st (.structTag "o") 64 (fun v => v ≤ 1) (fun x => x ≤ 1) := hwf
  have hisize : Typ.ssizeT.IsWord st.machineModel true 64 := ⟨rfl, rfl, rfl, rfl, by decide⟩
  refine (roundTrip_iff_exact (by decide) hisize hwf').mpr ⟨?_, ?_⟩
  · intro hsigned
    simp at hsigned
  · intro hbits
    simp [Integer.bits] at hbits

omit [Ranked String] [DebugTyp] in
/-- `Option<NonZeroU128>`: a `Some` whose low 64 bits are zero is read as `None`. -/
theorem not_roundTrip_option_nonZeroU128 :
    let _ : Ranked String := rankedString
    let _ : DebugTyp := ⟨fun _ => "type"⟩
    let layout : EnumLayout := ⟨.multiple (.int .i128 false) (.niche 1 0 0 0), 0, some⟩
    let st : SymbolTable := .empty (machineModelFromSession none "x86_64" false 64)
    layout.WellFormed st (.structTag "o") 64 (fun v => v ≤ 1) (fun x => 0 < x ∧ x < 2 ^ 128) ∧
      ¬ RoundTrip st layout (.structTag "o") .ssizeT (fun v => v ≤ 1)
        (fun x => 0 < x ∧ x < 2 ^ 128) := by
  intro _ _ layout st
  have hwf : layout.NicheWellFormed 128 1 0 0 0 64 (fun v => v ≤ 1)
      (fun x => 0 < x ∧ x < 2 ^ 128) :=
    { le := by decide
      lt := by decide
      resWidth_le := by decide
      end_lt := by decide
      dataful_lt := by decide
      count_lt := by decide
      mem_range := by intro v hv hne; omega
      discriminant := by intro v _; rfl
      valid_lt := by intro x hx; exact hx.2
      disjoint := by intro x hx j hj; omega }
  refine ⟨hwf, fun hround => ?_⟩
  have hisize : Typ.ssizeT.IsWord st.machineModel true 64 := ⟨rfl, rfl, rfl, rfl, by decide⟩
  have hvariants : layout.variants = .multiple (.int .i128 false) (.niche 1 0 0 0) := rfl
  have hexact := exact_of_roundTrip_int (by decide) hisize hvariants hwf hround
  -- the position of the valid value `2 ^ 64` is `0` in its low 64 bits
  have hbad := hexact.2 (by decide) (2 ^ 64) ⟨by decide, by decide⟩
  revert hbad
  decide

end RoundTrip

end Rmc.Codegen

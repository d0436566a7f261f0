import Rmc.Goto.Eval
import Rmc.Goto.TypeSize

/-!
# Casts between types that are the same on the machine

`Typ.isEqualOnMachine` compares the widths that types have on the machine and their signedness. A
type that is no integer and no pointer has no such width, so that two of those count as the same
whatever their sizes are. A cast from an integer to C's `bool` is accepted where the widths agree,
but it is a test against zero and not a copy of the bits. Everywhere else the casts of
`castToMachineEquivalentType` keep the bit patterns.
-/

namespace Rmc

open OrdMap TwosComplement

variable [Ranked String] {st : SymbolTable} {t t' : Typ} {e e' : Expr} {mm : MachineModel}

/-! ### Statements -/

/-- The types are the same, or have as many bits and the same signedness. -/
def Typ.SameMachineType (st : SymbolTable) (t t' : Typ) : Prop :=
  (t == t') = true ∨ ∃ w, t.sizeofInBits st = some w ∧ t'.sizeofInBits st = some w ∧
    t.isSigned st.machineModel = t'.isSigned st.machineModel

/-- The expressions have as many bits, and whatever pattern of those bits the first one has, the
second one has. There is only one pattern of no bits. -/
def Expr.SamePattern (st : SymbolTable) (e e' : Expr) : Prop :=
  e.typ.sizeofInBits st = e'.typ.sizeofInBits st ∧
    (e.typ.sizeofInBits st = some 0 ∨ ∀ σ n, (∀ w, e.typ.sizeofInBits st = some w → n < 2 ^ w) →
      e.eval st σ = some n → e'.eval st σ = some n)

/-- The arguments for the parameters have the types of those and the patterns they had; the other
arguments are left. -/
inductive ArgumentsKept (st : SymbolTable) : List Parameter → List Expr → List Expr → Prop
  | rest {arguments} : ArgumentsKept st [] arguments arguments
  | cast {p ps a a' arguments arguments'} : (a'.typ == p.typ) = true → a.SamePattern st a' →
      ArgumentsKept st ps arguments arguments' →
      ArgumentsKept st (p :: ps) (a :: arguments) (a' :: arguments')

/-- Expressions of the first type are accepted where the second one is wanted. -/
def Typ.Convertible (mm : MachineModel) (t t' : Typ) : Prop :=
  (t == t') = true ∨ t.isEqualOnMachine mm t' = true ∧ Expr.canCastFrom t t' = true

/-- Both types have as many bits, or they are known to by their widths on the machine. -/
def Typ.SizesAgree (st : SymbolTable) (t t' : Typ) : Prop :=
  (t == t') = true ∨ (t.nativeWidth st.machineModel).isSome = true ∨
    ∃ w, t.sizeofInBits st = some w ∧ t'.sizeofInBits st = some w

/-- The types are the same, or they have a width on the machine and the second one is C's `bool`
only if that has a single bit, or they have no bits. -/
def Typ.KeepsBits (st : SymbolTable) (t t' : Typ) : Prop :=
  (t == t') = true ∨
    (t.nativeWidth st.machineModel).isSome = true ∧
      (t'.isCBool = true → st.machineModel.boolWidth ≤ 1) ∨
    t.sizeofInBits st = some 0 ∧ t'.sizeofInBits st = some 0

/-! ### Types that are the same on the machine -/

omit [Ranked String] in
lemma Typ.isEqualOnMachine_iff :
    t.isEqualOnMachine mm t' = true ↔
    (t == t') = true ∨ t.nativeWidth mm = t'.nativeWidth mm ∧ t.isSigned mm = t'.isSigned mm := by
  simp [Typ.isEqualOnMachine]

omit [Ranked String] in
/-- The widths and the signedness agree unless the types are the same anyway. -/
lemma Typ.Convertible.machine (h : t.Convertible mm t') (hne : (t == t') = false) :
    t.nativeWidth mm = t'.nativeWidth mm ∧
      t.isSigned mm = t'.isSigned mm ∧ Expr.canCastFrom t t' = true := by
  rcases h with heq | ⟨hmachine, hcast⟩
  · simp [heq] at hne
  · rcases Typ.isEqualOnMachine_iff.mp hmachine with heq | ⟨hwidth, hsigned⟩
    · simp [heq] at hne
    · exact ⟨hwidth, hsigned, hcast⟩

variable {w : ℕ}

section

omit [Ranked String]

/-- A type with a width on the machine is an integer or a pointer. -/
lemma Typ.isInteger_or_isPointer (h : t.nativeWidth mm = some w) :
    t.isBool = false ∧ (t.isInteger = true ∨ t.isPointer = true) := by
  cases t <;> simp_all [Typ.nativeWidth, Typ.isBool, Typ.isInteger, Typ.isPointer]

/-- Booleans have no width on the machine, so that no cast to them is accepted here. -/
lemma Typ.Convertible.isBool (h : t.Convertible mm t') (hne : (t == t') = false) :
    t'.isBool = false := by
  obtain ⟨hwidth, -, hcast⟩ := h.machine hne
  by_contra hbool
  rw [Bool.not_eq_false, Typ.isBool_iff] at hbool
  subst hbool
  have hsource : t.isCBool = true ∨ t.isInteger = true ∨ t.isPointer = true := by
    simpa [Expr.canCastFrom, hne, Typ.isBool, or_assoc] using hcast
  cases t <;> simp_all [Typ.isCBool, Typ.isInteger, Typ.isPointer, Typ.nativeWidth]
  · next kind => cases kind <;> simp_all

lemma Expr.castToMachineEquivalentType_eq_some :
    e.castToMachineEquivalentType t mm = some e' ↔ e.typ.Convertible mm t ∧
      ((e.typ == t) = true ∧ e' = e ∨ (e.typ == t) = false ∧ e' = .new (.typecast e) t) := by
  by_cases heq : (e.typ == t) = true
  · have hconv : e.typ.Convertible mm t := .inl heq
    simp only [Expr.castToMachineEquivalentType, heq, if_true, Option.some.injEq, hconv, true_and,
      Bool.true_eq_false, false_and, or_false]
    exact eq_comm
  · have hne : (e.typ == t) = false := Bool.eq_false_iff.mpr heq
    have hconv : e.typ.Convertible mm t ↔
        e.typ.isEqualOnMachine mm t = true ∧ Expr.canCastFrom e.typ t = true := by
      simp [Typ.Convertible, hne]
    simp only [Expr.castToMachineEquivalentType, hne, Bool.false_eq_true, if_false,
      bind_eq_some, guard_eq_some, exists_const, Expr.castTo_eq_some, false_and, false_or, true_and]
    constructor
    · rintro ⟨hmachine, hcast, ⟨hbool, -⟩ | ⟨-, rfl⟩⟩
      · have := (hconv.mpr ⟨hmachine, hcast⟩).isBool hne
        simp [this] at hbool
      · exact ⟨hconv.mpr ⟨hmachine, hcast⟩, rfl⟩
    · rintro ⟨h, rfl⟩
      exact ⟨(hconv.mp h).1, (hconv.mp h).2, .inr ⟨h.isBool hne, rfl⟩⟩

lemma Expr.exists_castToMachineEquivalentType (h : e.typ.Convertible mm t) :
    ∃ e', e.castToMachineEquivalentType t mm = some e' := by
  by_cases heq : (e.typ == t) = true
  · exact ⟨e, Expr.castToMachineEquivalentType_eq_some.mpr ⟨h, .inl ⟨heq, rfl⟩⟩⟩
  · exact ⟨_, Expr.castToMachineEquivalentType_eq_some.mpr
      ⟨h, .inr ⟨Bool.eq_false_iff.mpr heq, rfl⟩⟩⟩

end

/-! ### The predicate -/

lemma Typ.sameMachineType_iff (h : t.isEqualOnMachine st.machineModel t' = true) :
    t.SameMachineType st t' ↔ t.SizesAgree st t' := by
  constructor
  · rintro (heq | ⟨w, hw, hw', -⟩)
    · exact .inl heq
    · exact .inr (.inr ⟨w, hw, hw'⟩)
  · rcases Typ.isEqualOnMachine_iff.mp h with heq | ⟨hwidth, hsigned⟩
    · exact fun _ => .inl heq
    · rintro (heq | hsome | ⟨w, hw, hw'⟩)
      · exact .inl heq
      · obtain ⟨w, hw⟩ := Option.isSome_iff_exists.mp hsome
        exact .inr ⟨w, Typ.sizeofInBits_of_nativeWidth hw,
          Typ.sizeofInBits_of_nativeWidth (hwidth ▸ hw), hsigned⟩
      · exact .inr ⟨w, hw, hw', hsigned⟩

/-! ### One cast -/

omit [Ranked String] in
/-- Conversion between integers and pointers of one width and signedness copies the bits, unless it
is a test against zero. -/
lemma Typ.convert_eq_self {n : ℕ} (hw : t.nativeWidth mm = some w)
    (hw' : t'.nativeWidth mm = some w) (hbool : t'.isCBool = true → w ≤ 1) (hn : n < 2 ^ w) :
    t.convert mm t' n = some n := by
  obtain ⟨htbool, -⟩ := Typ.isInteger_or_isPointer hw
  obtain ⟨htbool', hscalar⟩ := Typ.isInteger_or_isPointer hw'
  by_cases hcbool : t'.isCBool = true
  · have hn' : n < 2 := lt_of_lt_of_le hn
      ((Nat.pow_le_pow_right (by norm_num) (hbool hcbool)).trans (by norm_num))
    have hcopy : (decide (n ≠ 0)).toNat = n := by
      rcases Nat.le_one_iff_eq_zero_or_eq_one.mp (Nat.lt_succ_iff.mp hn') with rfl | rfl <;> rfl
    simp only [Typ.convert, hcbool, Bool.or_true, if_true, hcopy]
  · simp [Typ.convert, hcbool, htbool', hscalar, Typ.valueOf, Typ.patternOf, Typ.scalarWidth,
      htbool, hw, hw', pattern_value hn]

omit [Ranked String] in
/-- Conversion to C's `bool` from a type that is not `bool` makes a one of a two. -/
lemma Typ.convert_two_cBool (mm : MachineModel) : t.convert mm .cBool 2 = some 1 := by
  simp [Typ.convert, Typ.cBool, Typ.isCBool]

lemma exists_eval_two (hw : t.nativeWidth st.machineModel = some w) (h2 : 2 ≤ w) :
    ∃ e : Expr, e.typ = t ∧ ∀ σ, e.eval st σ = some 2 := by
  obtain ⟨hbool, hscalar⟩ := Typ.isInteger_or_isPointer hw
  have hlt : 2 < 2 ^ w := lt_of_lt_of_le (by norm_num) (Nat.pow_le_pow_right (by norm_num) h2)
  have hpattern : t.patternOf st.machineModel 2 = some 2 := by
    have := pattern_natCast_of_lt hlt
    simpa [Typ.patternOf, Typ.scalarWidth, hbool, hw] using this
  rcases hscalar with hinteger | hpointer
  · exact ⟨.new (.intConstant 2) t, rfl, fun σ => by simpa [ExprValue.eval] using hpattern⟩
  · exact ⟨.new (.pointerConstant 2) t, rfl, fun σ => by simpa [ExprValue.eval] using hpattern⟩

omit [Ranked String] in
/-- Without a width on the machine, a cast is accepted between the floating point types and to the
empty type. -/
lemma Typ.Convertible.cases_of_nativeWidth_eq_none (h : t.Convertible mm t')
    (hne : (t == t') = false) (hnone : t.nativeWidth mm = none) :
    t = .float ∧ t' = .double ∨ t = .double ∧ t' = .float ∨ t' = .empty := by
  obtain ⟨hwidth, -, hcast⟩ := h.machine hne
  rw [hnone] at hwidth
  have hbool := h.isBool hne
  cases t' with
  | cInteger kind => cases kind <;> simp [Typ.nativeWidth] at hwidth
  | pointer _ | signedbv _ | unsignedbv _ => simp [Typ.nativeWidth] at hwidth
  | empty => exact .inr (.inr rfl)
  | float | double =>
    simp only [Expr.canCastFrom, hne, Bool.false_eq_true, if_false, Typ.isBool, Typ.isCBool,
      Typ.isInteger, Typ.isFloatingPoint, if_true] at hcast
    cases t with
    | float | double => simp_all
    | cInteger kind => cases kind <;> simp [Typ.nativeWidth] at hnone
    | signedbv _ | unsignedbv _ => simp [Typ.nativeWidth] at hnone
    | _ => simp [Typ.isNumeric, Typ.isFloatingPoint, Typ.isInteger] at hcast
  | _ => simp_all [Expr.canCastFrom, Typ.isBool, Typ.isCBool, Typ.isInteger, Typ.isFloatingPoint,
      Typ.isPointer, Typ.isEmpty]

/-- A cast to a floating point type is no copy of an expression that has a value, so that only the
sizes can be the same. -/
lemma Expr.sizeofInBits_eq_zero_of_samePattern (ht' : t' = .float ∨ t' = .double) (σ : State)
    (hvalue : e.eval st σ = some 0) (h : e.SamePattern st (.new (.typecast e) t')) :
    e.typ.sizeofInBits st = some 0 ∧ t'.sizeofInBits st = some 0 := by
  obtain ⟨hsize, hzero | hsame⟩ := h
  · exact ⟨hzero, hsize ▸ hzero⟩
  · have heval := hsame σ 0 (fun w _ => by positivity) hvalue
    rcases ht' with rfl | rfl <;>
      simp [ExprValue.eval, hvalue, Typ.convert, Typ.isBool, Typ.isCBool, Typ.isInteger,
        Typ.isPointer] at heval

/-- Without a width on the machine, casts keep the patterns only of types without bits. -/
lemma Typ.Convertible.sizeofInBits_eq_zero (h : t.Convertible st.machineModel t')
    (hne : (t == t') = false) (hnone : t.nativeWidth st.machineModel = none)
    (hcast : ∀ e : Expr, e.typ = t → e.SamePattern st (.new (.typecast e) t')) :
    t.sizeofInBits st = some 0 ∧ t'.sizeofInBits st = some 0 := by
  rcases h.cases_of_nativeWidth_eq_none hne hnone with ⟨rfl, rfl⟩ | ⟨rfl, rfl⟩ | rfl
  · exact Expr.sizeofInBits_eq_zero_of_samePattern (.inr rfl) ⟨fun _ => 0, fun _ => 0⟩
      (by simp [ExprValue.eval]) (hcast (.new (.floatConstant 0#32) .float) rfl)
  · exact Expr.sizeofInBits_eq_zero_of_samePattern (.inl rfl) ⟨fun _ => 0, fun _ => 0⟩
      (by simp [ExprValue.eval]) (hcast (.new (.doubleConstant 0#64) .double) rfl)
  · exact ⟨(hcast (.symbolExpression "x" t) rfl).1, rfl⟩

/-- A cast that is accepted copies the bits of every expression exactly where the types allow it. -/
lemma Typ.keepsBits_iff (h : t.Convertible st.machineModel t') :
    (∀ e e' : Expr, e.typ = t → e.castToMachineEquivalentType t' st.machineModel = some e' →
      (e'.typ == t') = true ∧ e.SamePattern st e') ↔ t.KeepsBits st t' := by
  constructor
  · intro hkept
    by_contra hnot
    simp only [Typ.KeepsBits, not_or, Bool.not_eq_true] at hnot
    obtain ⟨hne, hwide, hempty⟩ := hnot
    -- every expression of the first type is cast
    have hcast : ∀ e : Expr, e.typ = t → e.SamePattern st (.new (.typecast e) t') := by
      intro e he
      refine (hkept e _ he (Expr.castToMachineEquivalentType_eq_some.mpr ⟨?_, .inr ⟨?_, rfl⟩⟩)).2
      · rwa [he]
      · rwa [he]
    cases hwidth : t.nativeWidth st.machineModel with
    | some w =>
      -- only C's `bool` is left, and a two becomes a one
      have hbool : t'.isCBool = true ∧ 1 < st.machineModel.boolWidth := by
        simpa [hwidth, Classical.not_imp] using hwide
      obtain rfl := Typ.isCBool_iff.mp hbool.1
      have hw : w = st.machineModel.boolWidth := by
        have := (h.machine hne).1
        rw [hwidth] at this
        exact Option.some.inj this
      obtain ⟨e, he, heval⟩ := exists_eval_two hwidth (hw ▸ hbool.2)
      obtain ⟨-, hzero | hsame⟩ := hcast e he
      · rw [he, Typ.sizeofInBits_of_nativeWidth hwidth, Option.some.injEq] at hzero
        omega
      · have hlt : ∀ w', e.typ.sizeofInBits st = some w' → 2 < 2 ^ w' := by
          intro w' hw'
          rw [he, Typ.sizeofInBits_of_nativeWidth hwidth, Option.some.injEq] at hw'
          exact lt_of_lt_of_le (by norm_num)
            (Nat.pow_le_pow_right (by norm_num) (hw'.symm.trans hw ▸ hbool.2))
        have hone := hsame ⟨fun _ => 0, fun _ => 0⟩ 2 hlt (heval _)
        have hconv := Typ.convert_two_cBool st.machineModel (t := t)
        rw [Typ.cBool] at hconv
        simp [ExprValue.eval, heval, he, hconv] at hone
    | none => exact hempty (h.sizeofInBits_eq_zero hne hwidth hcast)
  · intro hkeeps e e' he hcast
    subst he
    obtain ⟨-, ⟨heq, rfl⟩ | ⟨hne, rfl⟩⟩ := Expr.castToMachineEquivalentType_eq_some.mp hcast
    · exact ⟨heq, rfl, .inr fun _ _ _ heval => heval⟩
    · refine ⟨by simp, ?_⟩
      rcases hkeeps with heq | ⟨hsome, hbool⟩ | ⟨hzero, hzero'⟩
      · simp [heq] at hne
      · obtain ⟨w, hw⟩ := Option.isSome_iff_exists.mp hsome
        have hw' : t'.nativeWidth st.machineModel = some w := (h.machine hne).1 ▸ hw
        have hsize := Typ.sizeofInBits_of_nativeWidth hw
        refine ⟨hsize.trans (Typ.sizeofInBits_of_nativeWidth hw').symm, .inr ?_⟩
        intro σ n hn heval
        have hconv : e.typ.convert st.machineModel t' n = some n := by
          refine Typ.convert_eq_self hw hw' (fun hcbool => ?_) (hn w hsize)
          obtain rfl := Typ.isCBool_iff.mp hcbool
          have hwidth : st.machineModel.boolWidth = w := Option.some.inj hw'
          exact hwidth ▸ hbool hcbool
        simp [ExprValue.eval, heval, hconv]
      · exact ⟨hzero.trans hzero'.symm, .inl hzero⟩

/-! ### The arguments of a call -/

section Arguments

variable {ps : List Parameter} {ts : List Typ}

omit [Ranked String] in
/-- Arguments of types that are accepted are cast. -/
lemma Expr.exists_castArguments (hlength : ps.length ≤ ts.length)
    (h : ∀ x ∈ ps.zip ts, x.2.Convertible mm x.1.typ) :
    ∃ arguments arguments' : List Expr, arguments.map Expr.typ = ts ∧
      Expr.castArguments mm ps arguments = some arguments' := by
  induction ps generalizing ts with
  | nil =>
    refine ⟨ts.map (Expr.symbolExpression "x"), _, ?_, rfl⟩
    rw [List.map_map]
    exact List.map_id ts
  | cons p ps ih =>
    cases ts with
    | nil => simp at hlength
    | cons t ts =>
      rw [List.zip_cons_cons, List.forall_mem_cons] at h
      obtain ⟨arguments, arguments', htypes, hcast⟩ := ih (by simpa using hlength) h.2
      obtain ⟨a', ha'⟩ :=
        Expr.exists_castToMachineEquivalentType (e := .symbolExpression "x" t) h.1
      refine ⟨.symbolExpression "x" t :: arguments, a' :: arguments', ?_, ?_⟩
      · rw [List.map_cons, htypes]
        rfl
      · simp [Expr.castArguments, ha', hcast]

/-- The arguments keep their bits exactly where each of them does. -/
lemma Expr.argumentsKept_iff (hlength : ps.length ≤ ts.length)
    (h : ∀ x ∈ ps.zip ts, x.2.Convertible st.machineModel x.1.typ) :
    (∀ arguments arguments' : List Expr, arguments.map Expr.typ = ts →
      Expr.castArguments st.machineModel ps arguments = some arguments' →
      ArgumentsKept st ps arguments arguments') ↔ ∀ x ∈ ps.zip ts, x.2.KeepsBits st x.1.typ := by
  induction ps generalizing ts with
  | nil =>
    simp only [List.zip_nil_left, List.not_mem_nil, false_implies, implies_true, iff_true]
    intro arguments arguments' _ hcast
    cases hcast
    exact .rest
  | cons p ps ih =>
    cases ts with
    | nil => simp at hlength
    | cons t ts =>
      rw [List.zip_cons_cons, List.forall_mem_cons] at h ⊢
      have hlength' : ps.length ≤ ts.length := by simpa using hlength
      rw [← ih hlength' h.2, ← Typ.keepsBits_iff h.1]
      constructor
      · intro hkept
        constructor
        · -- the first argument, before any others that are accepted
          intro a a' ha ha'
          obtain ⟨arguments, arguments', htypes, hcast⟩ := Expr.exists_castArguments hlength' h.2
          have hall := hkept (a :: arguments) (a' :: arguments') (by rw [List.map_cons, ha, htypes])
            (by simp [Expr.castArguments, ha', hcast])
          cases hall with
          | cast htyp hsame _ => exact ⟨htyp, hsame⟩
        · -- the others, behind any first one that is accepted
          intro arguments arguments' htypes hcast
          obtain ⟨a', ha'⟩ :=
            Expr.exists_castToMachineEquivalentType (e := .symbolExpression "x" t) h.1
          have hall := hkept (.symbolExpression "x" t :: arguments) (a' :: arguments')
            (by rw [List.map_cons, htypes]; rfl) (by simp [Expr.castArguments, ha', hcast])
          cases hall with
          | cast _ _ hrest => exact hrest
      · rintro ⟨hfirst, hrest⟩ arguments arguments' htypes hcast
        cases arguments with
        | nil => simp at htypes
        | cons a arguments =>
          rw [List.map_cons, List.cons.injEq] at htypes
          simp only [Expr.castArguments, bind_eq_some, pure_eq_some] at hcast
          obtain ⟨a', ha', arguments'', hcast, rfl⟩ := hcast
          obtain ⟨htyp, hsame⟩ := hfirst a a' htypes.1 ha'
          exact .cast htyp hsame (hrest arguments arguments'' htypes.2 hcast)

end Arguments

/-- Types that count as equal on the machine are equal, or have as many bits and one signedness,
exactly where they are the same, have a width on the machine, or have the same size by chance. A
cast between types that is accepted keeps the bits of every expression, and a list of arguments
that is accepted keeps the bits of every argument, exactly where the types are the same, or have a
width on the machine and the target is not C's `bool`, or have no bits. -/
theorem castToMachineEquivalentType_exact_iff (st : SymbolTable) :
    (∀ t t' : Typ, t.isEqualOnMachine st.machineModel t' = true →
      (t.SameMachineType st t' ↔ t.SizesAgree st t')) ∧
    (∀ t t' : Typ, t.Convertible st.machineModel t' →
      ((∀ e e' : Expr, e.typ = t → e.castToMachineEquivalentType t' st.machineModel = some e' →
        (e'.typ == t') = true ∧ e.SamePattern st e') ↔ t.KeepsBits st t')) ∧
    ∀ (function : Expr) (ps : List Parameter) (ts : List Typ), function.typ.parameters = some ps →
      ps.length ≤ ts.length → (∀ x ∈ ps.zip ts, x.2.Convertible st.machineModel x.1.typ) →
      ((∀ arguments arguments' : List Expr, arguments.map Expr.typ = ts →
        Expr.castArgumentsToMachineEquivalentFunctionParameterTypes function arguments
          st.machineModel = some arguments' → ArgumentsKept st ps arguments arguments') ↔
        ∀ x ∈ ps.zip ts, x.2.KeepsBits st x.1.typ) := by
  refine ⟨fun t t' => Typ.sameMachineType_iff, fun t t' => Typ.keepsBits_iff, ?_⟩
  intro function ps ts hps hlength hconv
  rw [← Expr.argumentsKept_iff hlength hconv]
  refine forall_congr' fun arguments => forall_congr' fun arguments' =>
    forall_congr' fun htypes => ?_
  have hlength' : ps.length ≤ arguments.length := by
    rwa [← List.length_map (f := Expr.typ), htypes]
  simp [Expr.castArgumentsToMachineEquivalentFunctionParameterTypes, hps, hlength']

omit [Ranked String] in
theorem castToMachineEquivalentType_exact_i32 :
    let _ : Ranked String := rankedString
    let st : SymbolTable := .empty (machineModelFromSession none "x86_64" false 64)
    (Typ.signedbv 32).Convertible st.machineModel .cInt ∧ (Typ.signedbv 32).KeepsBits st .cInt ∧
      (Typ.signedbv 32).SameMachineType st .cInt ∧
      ∀ e e' : Expr, e.typ = .signedbv 32 →
        e.castToMachineEquivalentType .cInt st.machineModel = some e' →
        (e'.typ == .cInt) = true ∧ e.SamePattern st e' := by
  intro _ st
  have hmachine : (Typ.signedbv 32).isEqualOnMachine st.machineModel .cInt = true := rfl
  have hconv : (Typ.signedbv 32).Convertible st.machineModel .cInt := .inr ⟨hmachine, rfl⟩
  have hkeeps : (Typ.signedbv 32).KeepsBits st .cInt :=
    .inr (.inl ⟨rfl, by simp [Typ.cInt, Typ.isCBool]⟩)
  obtain ⟨hsame, hcast, -⟩ := castToMachineEquivalentType_exact_iff st
  exact ⟨hconv, hkeeps, (hsame _ _ hmachine).mpr (.inr (.inl rfl)), (hcast _ _ hconv).mpr hkeeps⟩

omit [Ranked String] in
/-- The byte two that is passed for C's `bool` becomes a one. A `float` counts as equal to a
`double` on the machine, which has twice the size. -/
theorem castToMachineEquivalentType_two :
    let _ : Ranked String := rankedString
    let st : SymbolTable := .empty (machineModelFromSession none "x86_64" false 64)
    let two : Expr := .new (.intConstant 2) (.unsignedbv 8)
    (Typ.unsignedbv 8).isEqualOnMachine st.machineModel .cBool = true ∧
      two.castToMachineEquivalentType .cBool st.machineModel = some (.new (.typecast two) .cBool) ∧
      (∀ σ, two.eval st σ = some 2 ∧ (Expr.new (.typecast two) .cBool).eval st σ = some 1) ∧
      Typ.float.isEqualOnMachine st.machineModel .double = true ∧
      Typ.float.sizeofInBits st = some 32 ∧ Typ.double.sizeofInBits st = some 64 := by
  intro _ st two
  have htwo : ∀ σ, two.eval st σ = some 2 := by
    intro σ
    simp only [two, Expr.eval_new, ExprValue.eval]
    rfl
  refine ⟨rfl, rfl, fun σ => ⟨htwo σ, ?_⟩, rfl, rfl, rfl⟩
  simp only [Expr.eval_new, ExprValue.eval, htwo]
  rfl

end Rmc

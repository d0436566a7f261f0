import Rmc.Codegen.CheckedOp
import Rmc.Codegen.Discriminant

/-!
# Valid values

`rmc::any` takes any bit pattern and assumes `Invariant::is_valid`. `isValid` is that check as the
generated code computes it, on the bytes of a value; `Valid` is the rule of the language. They
differ where the check looks at a translated value instead of the pattern: a `char` is a signed
integer, so a pattern with the top bit set passes as a small number, and the discriminant of an
enum is cast to fewer bits than its tag can have.
-/

namespace Rmc.Library

open ByteMemory TwosComplement Rmc.Codegen

/-! ### Types and layouts -/

/-- The types that are built from the scalars by arrays, `Option` and `Result`. -/
inductive RustTy where
  | unit
  | int (it : IntegerTy)
  | bool
  | char
  | nonZero (it : IntegerTy)
  | array (elem : RustTy) (len : ℕ)
  | option (t : RustTy)
  | result (t e : RustTy)
  deriving DecidableEq, Repr

/-- How the compiler represents an enum with the variants `0` and `1`: by a tag at its start, or by
one value of a niche that stands for `variant`, the one without data. -/
inductive EnumRepr where
  | direct (k : Integer) (signed : Bool)
  | niche (k : Integer) (signed : Bool) (offset dataful variant nicheStart : ℕ)
  deriving DecidableEq, Repr

namespace EnumRepr

def tagKind : EnumRepr → Integer
  | .direct k _ => k
  | .niche k _ _ _ _ _ => k

def tagOffset : EnumRepr → ℕ
  | .direct _ _ => 0
  | .niche _ _ offset _ _ _ => offset

variable (mm : MachineModel) (m : Memory) (p : ℕ)

/-- The pattern of the tag or niche of the enum at `p`. -/
def tag (r : EnumRepr) : ℕ := load mm.isBigEndian m (p + r.tagOffset) (r.tagKind.bits / 8)

/-- The discriminant that the generated code reads, as an `isize`. -/
def readDiscriminant (r : EnumRepr) : ℕ :=
  match r with
  | .direct k signed => pattern mm.pointerWidth (value signed k.bits (r.tag mm m p))
  | .niche k signed _ dataful variant nicheStart =>
    readNiche signed k.bits mm.pointerWidth dataful variant variant nicheStart (r.tag mm m p)

/-- The variant that a pattern stands for, if it stands for one. -/
def variantOf (r : EnumRepr) : Option ℕ :=
  match r with
  | .direct _ _ => if r.tag mm m p < 2 then some (r.tag mm m p) else none
  | .niche _ _ _ dataful variant nicheStart =>
    some (if r.tag mm m p = nicheStart then variant else dataful)

end EnumRepr

/-- The layouts of the types on a machine; sizes and offsets are in bytes. -/
structure Layouts where
  machineModel : MachineModel
  size : RustTy → ℕ
  repr : RustTy → EnumRepr
  fieldOffset : RustTy → ℕ → ℕ
  pointerWidth_pos : 0 < machineModel.pointerWidth

/-! ### The check and the rule -/

variable (L : Layouts) (m : Memory)

/-- The unsigned number that a pattern of so many bits is. -/
def Layouts.bits (p width : ℕ) : ℕ := load L.machineModel.isBigEndian m p (width / 8)

/-- The check of a type, on the bytes from `p` on. -/
def isValid : RustTy → ℕ → Bool
  | .unit, _ => true
  | .int _, _ => true
  | .bool, p =>
    let byte := L.bits m p 8
    byte == 0 || byte == 1
  | .char, p =>
    let val := value true 32 (L.bits m p 32)
    decide (val ≤ 0xD7FF) || (decide (0xE000 ≤ val) && decide (val ≤ 0x10FFFF))
  | .nonZero it, p => L.bits m p (it.bitWidth L.machineModel) != 0
  | .array elem len, p => (List.range len).all fun i => isValid elem (p + i * L.size elem)
  | .option t, p =>
    let discr := (L.repr (.option t)).readDiscriminant L.machineModel m p
    if discr = 1 then isValid t (p + L.fieldOffset (.option t) 1) else discr == 0
  | .result t e, p =>
    let discr := (L.repr (.result t e)).readDiscriminant L.machineModel m p
    if discr = 0 then isValid t (p + L.fieldOffset (.result t e) 0)
    else if discr = 1 then isValid e (p + L.fieldOffset (.result t e) 1)
    else false

namespace EnumRepr

variable (mm : MachineModel) (p : ℕ)

/-- The pattern stands for a variant whose payload is valid. -/
def Valid (r : EnumRepr) (payload : ℕ → Prop) : Prop :=
  ∃ v, r.variantOf mm m p = some v ∧ payload v

/-- The pattern is invalid, and the check does not see it: the payload has a flaw that is not
seen, or the tag is read as another variant. `payload` says which payloads are valid, `missed`
which of the invalid ones are accepted. -/
def Missed (r : EnumRepr) (payload missed : ℕ → Prop) : Prop :=
  match r with
  | .direct k _ =>
    if r.tag mm m p < 2 then missed (r.tag mm m p)
    else
      -- a tag that is wider than an `isize` is truncated
      mm.pointerWidth < k.bits ∧ r.tag mm m p % 2 ^ mm.pointerWidth < 2 ∧
        (payload (r.tag mm m p % 2 ^ mm.pointerWidth) ∨ missed (r.tag mm m p % 2 ^ mm.pointerWidth))
  | .niche k _ _ dataful variant nicheStart =>
    if r.tag mm m p = nicheStart then missed variant
    -- a niche that is wider than 64 bits is truncated
    else if 64 < k.bits ∧ r.tag mm m p % 2 ^ 64 = nicheStart % 2 ^ 64 then ¬ payload dataful
    else missed dataful

end EnumRepr

/-- The values that a type has. -/
def Valid : RustTy → ℕ → Prop
  | .unit, _ => True
  | .int _, _ => True
  | .bool, p => L.bits m p 8 < 2
  | .char, p => L.bits m p 32 ≤ 0xD7FF ∨ 0xE000 ≤ L.bits m p 32 ∧ L.bits m p 32 ≤ 0x10FFFF
  | .nonZero it, p => L.bits m p (it.bitWidth L.machineModel) ≠ 0
  | .array elem len, p => ∀ i < len, Valid elem (p + i * L.size elem)
  | .option t, p => (L.repr (.option t)).Valid m L.machineModel p fun
    | 0 => True
    | 1 => Valid t (p + L.fieldOffset (.option t) 1)
    | _ => False
  | .result t e, p => (L.repr (.result t e)).Valid m L.machineModel p fun
    | 0 => Valid t (p + L.fieldOffset (.result t e) 0)
    | 1 => Valid e (p + L.fieldOffset (.result t e) 1)
    | _ => False

/-- The invalid patterns that the check accepts: some `char` has its top bit set, or some tag is
read as another variant, and nothing else is wrong with the pattern. -/
def Missed : RustTy → ℕ → Prop
  | .char, p => 2 ^ 31 ≤ L.bits m p 32
  | .array elem len, p =>
    (∀ i < len, Valid L m elem (p + i * L.size elem) ∨ Missed elem (p + i * L.size elem)) ∧
      ∃ i < len, Missed elem (p + i * L.size elem)
  | .option t, p => (L.repr (.option t)).Missed m L.machineModel p
    (fun
      | 0 => True
      | 1 => Valid L m t (p + L.fieldOffset (.option t) 1)
      | _ => False)
    (fun
      | 1 => Missed t (p + L.fieldOffset (.option t) 1)
      | _ => False)
  | .result t e, p => (L.repr (.result t e)).Missed m L.machineModel p
    (fun
      | 0 => Valid L m t (p + L.fieldOffset (.result t e) 0)
      | 1 => Valid L m e (p + L.fieldOffset (.result t e) 1)
      | _ => False)
    (fun
      | 0 => Missed t (p + L.fieldOffset (.result t e) 0)
      | 1 => Missed e (p + L.fieldOffset (.result t e) 1)
      | _ => False)
  | _, _ => False

/-! ### Well-formed layouts -/

/-- The types without data. -/
def RustTy.isZst : RustTy → Bool
  | .unit => true
  | .array elem len => len == 0 || elem.isZst
  | _ => false

/-- The representation of an enum as the compiler chooses it: a niche stands for the variant
without data. -/
def EnumRepr.WellFormed (r : EnumRepr) (isZst : ℕ → Bool) : Prop :=
  match r with
  | .direct _ _ => True
  | .niche k _ _ dataful variant nicheStart =>
    dataful < 2 ∧ variant < 2 ∧ nicheStart < 2 ^ k.bits ∧ isZst variant = true

/-- The enums in a type are represented as the compiler does it. -/
def LaidOut : RustTy → Prop
  | .array elem _ => LaidOut elem
  | .option t => LaidOut t ∧ (L.repr (.option t)).WellFormed fun
    | 1 => t.isZst
    | _ => true
  | .result t e => LaidOut t ∧ LaidOut e ∧ (L.repr (.result t e)).WellFormed fun
    | 0 => t.isZst
    | _ => e.isZst
  | _ => True

/-! ### Reading the discriminant -/

variable {w pw x : ℕ} {signed : Bool} {k : Integer}

lemma pattern_eq_zero_iff {i : ℤ} : pattern w i = 0 ↔ i ≡ 0 [ZMOD 2 ^ w] := by
  have hzero : pattern w 0 = 0 := by simp [pattern]
  rw [← pattern_eq_pattern_iff, hzero]

/-- The one niche value is told apart by its low 64 bits. -/
lemma readNiche_single {dataful variant nicheStart : ℕ} (hdataful : dataful < 2 ^ pw)
    (hvariant : variant < 2 ^ pw) (hstart : nicheStart < 2 ^ k.bits) (hx : x < 2 ^ k.bits) :
    readNiche signed k.bits pw dataful variant variant nicheStart x =
      if x = nicheStart ∨ 64 < k.bits ∧ x % 2 ^ 64 = nicheStart % 2 ^ 64 then variant
      else dataful := by
  have hcond : pattern 64 (value signed k.bits (pattern k.bits ((x : ℤ) - nicheStart))) = 0 ↔
      x = nicheStart ∨ 64 < k.bits ∧ x % 2 ^ 64 = nicheStart % 2 ^ 64 := by
    rw [pattern_eq_zero_iff]
    rcases Nat.lt_or_ge 64 k.bits with hlt | hle
    · -- the value is congruent to the difference, also in its low 64 bits
      have hmod := (value_pattern_modEq signed k.bits ((x : ℤ) - nicheStart)).of_dvd
        (pow_dvd_pow 2 hlt.le)
      have hiff : ((x : ℤ) - nicheStart ≡ 0 [ZMOD 2 ^ 64]) ↔ x % 2 ^ 64 = nicheStart % 2 ^ 64 := by
        rw [Int.modEq_zero_iff_dvd, ← Int.modEq_iff_dvd]
        exact ⟨fun h => by exact_mod_cast h.symm, fun h => by exact_mod_cast h.symm⟩
      rw [show (value signed k.bits (pattern k.bits ((x : ℤ) - nicheStart)) ≡ 0 [ZMOD 2 ^ 64]) ↔
        ((x : ℤ) - nicheStart ≡ 0 [ZMOD 2 ^ 64]) from ⟨hmod.symm.trans, hmod.trans⟩, hiff]
      constructor
      · exact fun h => .inr ⟨hlt, h⟩
      · rintro (rfl | h)
        · rfl
        · exact h.2
    · constructor
      · intro h
        have hmod := (value_pattern_modEq signed k.bits ((x : ℤ) - nicheStart)).symm.trans
          (h.of_dvd (pow_dvd_pow 2 hle))
        have heq : pattern k.bits x = pattern k.bits nicheStart := by
          rw [pattern_eq_pattern_iff]
          simpa using hmod.add_right nicheStart
        rw [pattern_natCast_of_lt hx, pattern_natCast_of_lt hstart] at heq
        exact .inl heq
      · rintro (rfl | h)
        · have hzero : pattern k.bits 0 = 0 := by simp [pattern]
          rw [sub_self, hzero]
          simp [value]
        · omega
  unfold readNiche
  simp only [Nat.sub_self, Nat.le_zero, hcond, if_true, zero_add]
  rw [pattern_natCast_of_lt hdataful, pattern_natCast_of_lt hvariant]

/-- A tag that is no wider than an `isize` is read as itself, as far as it names a variant. -/
lemma pattern_value_lt_two_iff (hle : k.bits ≤ pw) (hx : x < 2 ^ k.bits) :
    pattern pw (value signed k.bits x) < 2 ↔ x < 2 := by
  have hbits : 8 ≤ k.bits := by cases k <;> decide
  have hback : pattern k.bits (pattern pw (value signed k.bits x)) = x := by
    rw [pattern_eq_pattern_iff.mpr (pattern_modEq_of_le hle _), pattern_value hx]
  have htwo : 2 < 2 ^ k.bits :=
    lt_of_lt_of_le (by decide) (Nat.pow_le_pow_right (by decide) hbits)
  constructor
  · intro h
    rw [pattern_natCast_of_lt (by omega)] at hback
    omega
  · intro h
    have hhalf : 2 < 2 ^ (k.bits - 1) :=
      lt_of_lt_of_le (by decide) (Nat.pow_le_pow_right (by decide) (by omega : 7 ≤ k.bits - 1))
    rw [value_natCast_of_lt (by omega), pattern_natCast_of_lt]
    · exact h
    · exact hx.trans_le (Nat.pow_le_pow_right (by decide) hle)

lemma pattern_value_of_lt_two (hpw : 0 < pw) (hx : x < 2) :
    pattern pw (value signed k.bits x) = x := by
  have hbits : 8 ≤ k.bits := by cases k <;> decide
  have hhalf : 2 < 2 ^ (k.bits - 1) :=
    lt_of_lt_of_le (by decide) (Nat.pow_le_pow_right (by decide) (by omega : 7 ≤ k.bits - 1))
  rw [value_natCast_of_lt (by omega), pattern_natCast_of_lt]
  exact hx.trans_le (Nat.le_self_pow hpw.ne' 2)

/-- A tag that is wider than an `isize` loses its high bits. -/
lemma pattern_value_of_lt (hlt : pw ≤ w) : pattern pw (value signed w x) = x % 2 ^ pw := by
  rw [pattern_eq_pattern_iff.mpr ((value_modEq signed w x).of_dvd (pow_dvd_pow 2 hlt)),
    pattern_natCast]

namespace EnumRepr

variable {m} {mm : MachineModel} {p : ℕ} {r : EnumRepr} {isZst : ℕ → Bool}
  {missed payload : ℕ → Prop}

lemma tag_lt : r.tag mm m p < 2 ^ r.tagKind.bits := by
  have h := load_lt mm.isBigEndian m (p + r.tagOffset) (r.tagKind.bits / 8)
  rwa [eight_mul_bits_div] at h

/-- What the check accepts, given what it accepts of the payloads: the valid patterns and those it
misses. -/
lemma accepts_iff (hpw : 0 < mm.pointerWidth) (hwf : r.WellFormed isZst) (accepts : ℕ → Prop)
    (haccepts : ∀ v < 2, accepts v ↔ payload v ∨ missed v)
    (hzst : ∀ v < 2, isZst v = true → payload v) :
    (r.readDiscriminant mm m p < 2 ∧ accepts (r.readDiscriminant mm m p)) ↔
      r.Valid m mm p payload ∨ r.Missed m mm p payload missed := by
  have htag : r.tag mm m p < 2 ^ r.tagKind.bits := tag_lt
  cases r with
  | direct k signed =>
    simp only [readDiscriminant, Valid, variantOf, Missed]
    generalize (direct k signed).tag mm m p = x at htag ⊢
    by_cases hx : x < 2
    · rw [pattern_value_of_lt_two hpw hx]
      simp [hx, haccepts x hx]
    · simp only [hx, if_false, reduceCtorEq, false_and, exists_false, false_or]
      rcases Nat.lt_or_ge mm.pointerWidth k.bits with hlt | hle
      · rw [pattern_value_of_lt hlt.le]
        constructor
        · exact fun ⟨hlow, hacc⟩ => ⟨hlt, hlow, (haccepts _ hlow).mp hacc⟩
        · exact fun ⟨_, hlow, hacc⟩ => ⟨hlow, (haccepts _ hlow).mpr hacc⟩
      · rw [pattern_value_lt_two_iff hle htag]
        constructor
        · exact fun h => absurd h.1 hx
        · exact fun h => absurd h.1 (by omega)
  | niche k signed offset dataful variant nicheStart =>
    obtain ⟨hdataful, hvariant, hstart, hempty⟩ := hwf
    have htwo : 2 ≤ 2 ^ mm.pointerWidth := Nat.le_self_pow hpw.ne' 2
    simp only [readDiscriminant, Valid, variantOf, Missed]
    generalize (niche k signed offset dataful variant nicheStart).tag mm m p = x at htag ⊢
    rw [readNiche_single (by omega) (by omega) hstart htag]
    have hpayload := hzst variant hvariant hempty
    by_cases hx : x = nicheStart
    · simp [hx, hvariant, haccepts variant hvariant]
    by_cases hlow : 64 < k.bits ∧ x % 2 ^ 64 = nicheStart % 2 ^ 64
    · -- read as the variant without data, while it stands for the other one
      simp only [hx, hlow, and_self, or_true, if_true, if_false, hvariant, true_and,
        Option.some.injEq, exists_eq_left']
      rw [haccepts variant hvariant]
      exact ⟨fun _ => Classical.em _, fun _ => .inl hpayload⟩
    · simp only [hx, hlow, or_self, if_false, hdataful, true_and, Option.some.injEq,
        exists_eq_left', haccepts dataful hdataful]

/-- A missed pattern is not valid. -/
lemma not_valid_of_missed (hwf : r.WellFormed isZst) (h : ∀ v < 2, ¬ (payload v ∧ missed v))
    (hmissed : r.Missed m mm p payload missed) :
    ¬ r.Valid m mm p payload := by
  rintro ⟨v, hv, hpayload⟩
  cases r with
  | direct k signed =>
    simp only [variantOf, Missed] at hv hmissed
    split_ifs at hv hmissed with hx
    obtain rfl := Option.some_inj.mp hv
    exact h _ hx ⟨hpayload, hmissed⟩
  | niche k signed offset dataful variant nicheStart =>
    obtain ⟨hdataful, hvariant, -, -⟩ := hwf
    simp only [variantOf, Missed, Option.some.injEq] at hv hmissed
    split_ifs at hv hmissed with hx hlow
    · exact h v (hv ▸ hvariant) ⟨hpayload, hv ▸ hmissed⟩
    · exact hmissed (hv ▸ hpayload)
    · exact h v (hv ▸ hdataful) ⟨hpayload, hv ▸ hmissed⟩

end EnumRepr

/-! ### The check against the rule -/

variable {L m} {t : RustTy}

lemma valid_of_isZst (h : t.isZst = true) (p : ℕ) : Valid L m t p := by
  induction t generalizing p with
  | unit => trivial
  | array elem len ih =>
    intro i hi
    have hlen : len ≠ 0 := by omega
    simp only [RustTy.isZst, Bool.or_eq_true, beq_iff_eq, hlen, false_or] at h
    exact ih h _
  | _ => simp [RustTy.isZst] at h

/-- The top bit of a `char` makes it a negative number, which passes as a small one. -/
lemma isValid_char_iff (p : ℕ) :
    isValid L m .char p = true ↔ Valid L m .char p ∨ Missed L m .char p := by
  have hlt : L.bits m p 32 < 2 ^ 32 := load_lt L.machineModel.isBigEndian m p 4
  simp only [isValid, Valid, Missed, Bool.or_eq_true, Bool.and_eq_true, decide_eq_true_eq]
  generalize L.bits m p 32 = x at hlt ⊢
  rcases Nat.lt_or_ge x (2 ^ 31) with hx | hx
  · rw [value_natCast_of_lt hx]
    omega
  · rw [value_true_of_le hx]
    omega

/-- An enum whose discriminant is `0` or `1`, with the check of the payload. -/
lemma ite_discr_eq_true_iff {d : ℕ} {b₀ b₁ : Bool} :
    (if d = 0 then b₀ else if d = 1 then b₁ else false) = true ↔
      d < 2 ∧ (fun v => (match v with | 0 => b₀ | _ => b₁) = true) d := by
  rcases d with _ | _ | d
  · simp
  · simp
  · simp

/-- The check accepts the valid patterns and those it misses. -/
lemma isValid_eq_true_iff (h : LaidOut L t) (p : ℕ) :
    isValid L m t p = true ↔ Valid L m t p ∨ Missed L m t p := by
  induction t generalizing p with
  | unit | int => simp [isValid, Valid]
  | bool =>
    simp only [isValid, Valid, Missed, Bool.or_eq_true, beq_iff_eq, or_false]
    omega
  | char => exact isValid_char_iff p
  | nonZero it => simp [isValid, Valid, Missed]
  | array elem len ih =>
    simp only [isValid, Valid, Missed, List.all_eq_true, List.mem_range, ih h]
    constructor
    · intro hall
      by_cases hmissed : ∃ i < len, Missed L m elem (p + i * L.size elem)
      · exact .inr ⟨hall, hmissed⟩
      · push Not at hmissed
        exact .inl fun i hi => (hall i hi).resolve_right (hmissed i hi)
    · rintro (hvalid | hmissed) i hi
      · exact .inl (hvalid i hi)
      · exact hmissed.1 i hi
  | option t ih =>
    rw [Valid, Missed, ← EnumRepr.accepts_iff L.pointerWidth_pos h.2
      (fun v => (match v with
        | 0 => true
        | _ => isValid L m t (p + L.fieldOffset (.option t) 1)) = true)
      (fun v hv => by rcases v with _ | _ | v <;> simp [ih h.1]; omega)
      (fun v hv hz => by
        rcases v with _ | _ | v
        · trivial
        · exact valid_of_isZst hz _
        · omega)]
    rw [← ite_discr_eq_true_iff, isValid]
    grind
  | result t e iht ihe =>
    rw [Valid, Missed, ← EnumRepr.accepts_iff L.pointerWidth_pos h.2.2
      (fun v => (match v with
        | 0 => isValid L m t (p + L.fieldOffset (.result t e) 0)
        | _ => isValid L m e (p + L.fieldOffset (.result t e) 1)) = true)
      (fun v hv => by rcases v with _ | _ | v <;> simp [iht h.1, ihe h.2.1]; omega)
      (fun v hv hz => by
        rcases v with _ | _ | v
        · exact valid_of_isZst hz _
        · exact valid_of_isZst hz _
        · omega)]
    rw [← ite_discr_eq_true_iff, isValid]

/-- What the check misses is not valid. -/
lemma not_valid_of_missed (h : LaidOut L t) {p : ℕ} (hmissed : Missed L m t p) :
    ¬ Valid L m t p := by
  induction t generalizing p with
  | char =>
    simp only [Missed, Valid] at hmissed ⊢
    omega
  | array elem len ih =>
    intro hvalid
    obtain ⟨-, i, hi, hmissed⟩ := hmissed
    exact ih h hmissed (hvalid i hi)
  | option t ih =>
    refine EnumRepr.not_valid_of_missed h.2 (fun v hv => ?_) hmissed
    rcases v with _ | _ | v
    · simp
    · exact fun hboth => ih h.1 hboth.2 hboth.1
    · omega
  | result t e iht ihe =>
    refine EnumRepr.not_valid_of_missed h.2.2 (fun v hv => ?_) hmissed
    rcases v with _ | _ | v
    · exact fun hboth => iht h.1 hboth.2 hboth.1
    · exact fun hboth => ihe h.2.1 hboth.2 hboth.1
    · omega
  | _ => exact hmissed.elim

/-- The check agrees with the rule exactly on the patterns that it does not miss. -/
theorem isValid_iff_valid_iff {t : RustTy} (h : LaidOut L t) (p : ℕ) :
    (isValid L m t p = true ↔ Valid L m t p) ↔ ¬ Missed L m t p := by
  rw [isValid_eq_true_iff h]
  constructor
  · intro hiff hmissed
    exact not_valid_of_missed h hmissed (hiff.mp (.inr hmissed))
  · intro hmissed
    simp [hmissed]

/-- `Option<bool>` with `None` as the byte `2`: the byte `3` is invalid, and rejected. -/
theorem isValid_option_bool_three :
    let L : Layouts := ⟨machineModelFromSession none "x86_64" false 64, fun _ => 1,
      fun _ => .niche .i8 false 0 1 0 2, fun _ _ => 0, by decide⟩
    isValid L (fun _ => 3) (.option .bool) 0 = true ↔ Valid L (fun _ => 3) (.option .bool) 0 := by
  intro L
  have hlaidOut : LaidOut L (.option .bool) := ⟨trivial, by decide, by decide, by decide, rfl⟩
  have hmissed : ¬ Missed L (fun _ => 3) (.option .bool) 0 := by
    simp [Missed, L, EnumRepr.Missed, Integer.bits]
  exact (isValid_iff_valid_iff hlaidOut 0).mpr hmissed

/-- The pattern `0x80000000` is no `char`, and is accepted. -/
theorem isValid_char_top_bit :
    let L : Layouts := ⟨machineModelFromSession none "x86_64" false 64, fun _ => 4,
      fun _ => .direct .i8 false, fun _ _ => 0, by decide⟩
    let m : Memory := store false (fun _ => 0) 0 4 0x80000000
    L.bits m 0 32 = 0x80000000 ∧ isValid L m .char 0 = true ∧ ¬ Valid L m .char 0 := by
  intro L m
  have hbits : L.bits m 0 32 = 0x80000000 := by decide
  refine ⟨hbits, ?_, ?_⟩
  · simp [isValid, hbits, value]
  · simp [Valid, hbits]

end Rmc.Library

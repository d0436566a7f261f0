import Rmc.Irep.ToIrep

/-!
# What the encoding of types forgets

Types go to ireps for a fixed machine, so an irep names no C integer type but `_Bool`: the others
are written as bit vectors of the machine's widths. A flexible array is written as an array of no
elements. `Typ.machine` is a type with these two choices made, and two types have one irep exactly
when they are the same then. The names of parameters are written too, although types that differ in
them only are equal to the program.
-/

namespace Rmc

/-- The bit vector a C integer type stands for. `_Bool` is a type of its own to the machine. -/
def CIntType.machine (mm : MachineModel) : CIntType → Typ
  | .bool => .cInteger .bool
  | .char => if mm.charIsUnsigned then .unsignedbv mm.charWidth else .signedbv mm.charWidth
  | .int => .signedbv mm.intWidth
  | .sizeT => .unsignedbv mm.pointerWidth
  | .sSizeT => .signedbv mm.pointerWidth

mutual

/-- A type with its C integers read as machine types and its flexible arrays as empty ones. -/
def Typ.machine (mm : MachineModel) : Typ → Typ
  | .array t n => .array (t.machine mm) n
  | .bool => .bool
  | .cBitField t w => .cBitField (t.machine mm) w
  | .cInteger kind => kind.machine mm
  | .code ps r => .code (machineParameters mm ps) (r.machine mm)
  | .constructor => .constructor
  | .double => .double
  | .empty => .empty
  | .flexibleArray t => .array (t.machine mm) 0
  | .float => .float
  | .incompleteStruct tag => .incompleteStruct tag
  | .incompleteUnion tag => .incompleteUnion tag
  | .infiniteArray t => .infiniteArray (t.machine mm)
  | .pointer t => .pointer (t.machine mm)
  | .signedbv w => .signedbv w
  | .struct tag cs => .struct tag (machineComponents mm cs)
  | .structTag tag => .structTag tag
  | .union tag cs => .union tag (machineComponents mm cs)
  | .unionTag tag => .unionTag tag
  | .unsignedbv w => .unsignedbv w
  | .variadicCode ps r => .variadicCode (machineParameters mm ps) (r.machine mm)
  | .vector t n => .vector (t.machine mm) n

def DatatypeComponent.machine (mm : MachineModel) : DatatypeComponent → DatatypeComponent
  | .field name t => .field name (t.machine mm)
  | .padding name bits => .padding name bits

def Parameter.machine (mm : MachineModel) : Parameter → Parameter
  | .mk t identifier baseName => .mk (t.machine mm) identifier baseName

def machineComponents (mm : MachineModel) : List DatatypeComponent → List DatatypeComponent
  | [] => []
  | c :: cs => c.machine mm :: machineComponents mm cs

def machineParameters (mm : MachineModel) : List Parameter → List Parameter
  | [] => []
  | p :: ps => p.machine mm :: machineParameters mm ps

end

mutual

/-- All padding written out in a type takes some space. -/
def Typ.PaddingFilled : Typ → Prop
  | .array t _ => t.PaddingFilled
  | .cBitField t _ => t.PaddingFilled
  | .code ps r => parametersFilled ps ∧ r.PaddingFilled
  | .flexibleArray t => t.PaddingFilled
  | .infiniteArray t => t.PaddingFilled
  | .pointer t => t.PaddingFilled
  | .struct _ cs => componentsFilled cs
  | .union _ cs => componentsFilled cs
  | .variadicCode ps r => parametersFilled ps ∧ r.PaddingFilled
  | .vector t _ => t.PaddingFilled
  | _ => True

def DatatypeComponent.PaddingFilled : DatatypeComponent → Prop
  | .field _ t => t.PaddingFilled
  | .padding _ bits => 0 < bits

def Parameter.PaddingFilled : Parameter → Prop
  | .mk t _ _ => t.PaddingFilled

def componentsFilled : List DatatypeComponent → Prop
  | [] => True
  | c :: cs => c.PaddingFilled ∧ componentsFilled cs

def parametersFilled : List Parameter → Prop
  | [] => True
  | p :: ps => p.PaddingFilled ∧ parametersFilled ps

end

section Machine

variable (mm : MachineModel)

lemma CIntType.toIrep_machine (kind : CIntType) :
    (kind.machine mm).toIrep mm = some (kind.toIrep mm) := by
  cases kind with
  | char =>
    by_cases h : mm.charIsUnsigned = true
    · simp [CIntType.machine, CIntType.toIrep, h, Typ.toIrep]
    · simp [CIntType.machine, CIntType.toIrep, h, Typ.toIrep]
  | _ => simp [CIntType.machine, CIntType.toIrep, Typ.toIrep]

mutual

/-- A type and its reading on the machine are written alike. -/
lemma Typ.toIrep_machine (t : Typ) : (t.machine mm).toIrep mm = t.toIrep mm := by
  cases t with
  | cInteger kind => simpa [Typ.toIrep, Typ.machine] using kind.toIrep_machine mm
  | _ =>
    simp [Typ.machine, Typ.toIrep, Typ.toIrep_machine, componentsToIrep_machine,
      parametersToIrep_machine]
termination_by structural t

lemma DatatypeComponent.toIrep_machine (c : DatatypeComponent) :
    (c.machine mm).toIrep mm = c.toIrep mm := by
  cases c <;> simp [DatatypeComponent.machine, DatatypeComponent.toIrep, Typ.toIrep_machine]
termination_by structural c

lemma Parameter.toIrep_machine (p : Parameter) : (p.machine mm).toIrep mm = p.toIrep mm := by
  cases p
  simp [Parameter.machine, Parameter.toIrep, Typ.toIrep_machine]
termination_by structural p

lemma componentsToIrep_machine (cs : List DatatypeComponent) :
    componentsToIrep mm (machineComponents mm cs) = componentsToIrep mm cs := by
  cases cs <;>
    simp [machineComponents, componentsToIrep, DatatypeComponent.toIrep_machine,
      componentsToIrep_machine]
termination_by structural cs

lemma parametersToIrep_machine (ps : List Parameter) :
    parametersToIrep mm (machineParameters mm ps) = parametersToIrep mm ps := by
  cases ps <;>
    simp [machineParameters, parametersToIrep, Parameter.toIrep_machine, parametersToIrep_machine]
termination_by structural ps

end

mutual

/-- A type has an irep when its padding takes space, and only then. -/
lemma Typ.isSome_toIrep (t : Typ) : (t.toIrep mm).isSome = true ↔ t.PaddingFilled := by
  cases t <;>
    simp [Typ.toIrep, Typ.PaddingFilled, ← Typ.isSome_toIrep, ← isSome_componentsToIrep,
      ← isSome_parametersToIrep, Option.isSome_iff_exists, Option.bind_eq_some_iff]
termination_by structural t

lemma DatatypeComponent.isSome_toIrep (c : DatatypeComponent) :
    (c.toIrep mm).isSome = true ↔ c.PaddingFilled := by
  cases c <;>
    simp [DatatypeComponent.toIrep, DatatypeComponent.PaddingFilled, ← Typ.isSome_toIrep,
      Option.isSome_iff_exists, Option.bind_eq_some_iff]
termination_by structural c

lemma Parameter.isSome_toIrep (p : Parameter) :
    (p.toIrep mm).isSome = true ↔ p.PaddingFilled := by
  cases p
  simp [Parameter.toIrep, Parameter.PaddingFilled, ← Typ.isSome_toIrep, Option.isSome_iff_exists,
    Option.bind_eq_some_iff]
termination_by structural p

lemma isSome_componentsToIrep (cs : List DatatypeComponent) :
    (componentsToIrep mm cs).isSome = true ↔ componentsFilled cs := by
  cases cs <;>
    simp [componentsToIrep, componentsFilled, ← DatatypeComponent.isSome_toIrep,
      ← isSome_componentsToIrep, Option.isSome_iff_exists, Option.bind_eq_some_iff]
termination_by structural cs

lemma isSome_parametersToIrep (ps : List Parameter) :
    (parametersToIrep mm ps).isSome = true ↔ parametersFilled ps := by
  cases ps <;>
    simp [parametersToIrep, parametersFilled, ← Parameter.isSome_toIrep,
      ← isSome_parametersToIrep, Option.isSome_iff_exists, Option.bind_eq_some_iff]
termination_by structural ps

end

lemma CIntType.machine_machine (kind : CIntType) :
    (kind.machine mm).machine mm = kind.machine mm := by
  cases kind with
  | char =>
    by_cases h : mm.charIsUnsigned = true
    · simp [CIntType.machine, h, Typ.machine]
    · simp [CIntType.machine, h, Typ.machine]
  | _ => simp [CIntType.machine, Typ.machine]

mutual

lemma Typ.machine_machine (t : Typ) : (t.machine mm).machine mm = t.machine mm := by
  cases t with
  | cInteger kind => simpa [Typ.machine] using kind.machine_machine mm
  | _ =>
    simp [Typ.machine, Typ.machine_machine, machineComponents_machine, machineParameters_machine]
termination_by structural t

lemma DatatypeComponent.machine_machine (c : DatatypeComponent) :
    (c.machine mm).machine mm = c.machine mm := by
  cases c <;> simp [DatatypeComponent.machine, Typ.machine_machine]
termination_by structural c

lemma Parameter.machine_machine (p : Parameter) : (p.machine mm).machine mm = p.machine mm := by
  cases p
  simp [Parameter.machine, Typ.machine_machine]
termination_by structural p

lemma machineComponents_machine (cs : List DatatypeComponent) :
    machineComponents mm (machineComponents mm cs) = machineComponents mm cs := by
  cases cs <;>
    simp [machineComponents, DatatypeComponent.machine_machine, machineComponents_machine]
termination_by structural cs

lemma machineParameters_machine (ps : List Parameter) :
    machineParameters mm (machineParameters mm ps) = machineParameters mm ps := by
  cases ps <;> simp [machineParameters, Parameter.machine_machine, machineParameters_machine]
termination_by structural ps

end

variable {mm}

@[simp] lemma Irep.justIntId_inj {n n' : ℤ} : Irep.justIntId n = Irep.justIntId n' ↔ n = n' := by
  simp [Irep.justIntId, Irep.justId, IrepId.fromInt]

@[simp] lemma Irep.justStringId_inj {s s' : String} :
    Irep.justStringId s = Irep.justStringId s' ↔ s = s' := by
  simp [Irep.justStringId, Irep.justId, IrepId.fromString]

lemma ssizeConstantIrep_eq (n : ℕ) :
    ssizeConstantIrep mm n =
      .mk .constant [] [(.value, .justHexId n), (.type, CIntType.sSizeT.toIrep mm)] := rfl

@[simp] lemma ssizeConstantIrep_inj {n n' : ℕ} :
    ssizeConstantIrep mm n = ssizeConstantIrep mm n' ↔ n = n' := by
  simp [ssizeConstantIrep_eq, Irep.justHexId, Irep.justId, IrepId.hexFromInt]

@[simp] lemma Irep.justSub_inj {is is' : List Irep} :
    Irep.justSub is = Irep.justSub is' ↔ is = is' := by
  simp [Irep.justSub]

lemma withEllipsis_eq (is : List Irep) :
    (Irep.justSub is).withNamedSub .ellipsis .one = .mk .emptyString is [(.ellipsis, .one)] := rfl

lemma infinity_ne_ssizeConstantIrep (n : ℕ) :
    (Irep.justId .infinity).withNamedSub .type (CIntType.sSizeT.toIrep mm)
      ≠ ssizeConstantIrep mm n := by
  intro h
  have hid := congrArg Irep.id h
  simp [Irep.withNamedSub, ssizeConstantIrep_eq, Irep.isNil, Irep.justId, CIntType.toIrep,
    bitvectorIrep, Irep.id] at hid

lemma CIntType.eq_bool_of_machine {kind : CIntType} (h : kind.machine mm = .cInteger kind) :
    kind = .bool := by
  cases kind with
  | bool => rfl
  | char => by_cases hc : mm.charIsUnsigned = true <;> simp [CIntType.machine, hc] at h
  | _ => simp [CIntType.machine] at h

/-- The identifier of the irep that a type read on the machine is written as. -/
def Typ.irepId : Typ → IrepId
  | .array .. | .flexibleArray _ | .infiniteArray _ => .array
  | .bool => .bool
  | .cBitField .. => .cBitField
  | .cInteger _ => .cBool
  | .code .. | .variadicCode .. => .code
  | .constructor => .constructor
  | .double | .float => .floatbv
  | .empty => .empty
  | .incompleteStruct _ | .struct .. => .struct
  | .incompleteUnion _ | .union .. => .union
  | .pointer _ => .pointer
  | .signedbv _ => .signedbv
  | .structTag _ => .structTag
  | .unionTag _ => .unionTag
  | .unsignedbv _ => .unsignedbv
  | .vector .. => .vector

lemma Typ.id_of_toIrep {t : Typ} (ht : t.machine mm = t) {i : Irep} (h : t.toIrep mm = some i) :
    i.id = t.irepId := by
  cases t with
  | cInteger kind =>
    obtain rfl := CIntType.eq_bool_of_machine ht
    simp only [Typ.toIrep, Option.pure_def, Option.some.injEq] at h
    rw [← h]
    rfl
  | _ =>
    simp only [Typ.toIrep, pure_eq_some, bind_eq_some] at h
    first
      | (rw [← h]; rfl)
      | (obtain ⟨_, _, rfl⟩ := h; rfl)
      | (obtain ⟨_, _, _, _, rfl⟩ := h; rfl)

/-! ### Equal ireps have equal parts -/

section Parts

variable {x x' : Option Irep} {xs xs' : Option (List Irep)} {id : IrepId} {i : Irep}

lemma exists_of_sub_eq {n n' : List (IrepId × Irep)}
    (h : (do let j ← x; return .mk id [j] n) = some i)
    (h' : (do let j ← x'; return .mk id [j] n') = some i) :
    n = n' ∧ ∃ j, x = some j ∧ x' = some j := by
  simp only [bind_eq_some, pure_eq_some] at h h'
  obtain ⟨j, hj, rfl⟩ := h
  obtain ⟨j', hj', heq⟩ := h'
  simp only [Irep.mk.injEq, List.cons.injEq, and_true, true_and] at heq
  obtain ⟨rfl, rfl⟩ := heq
  exact ⟨rfl, j', hj, hj'⟩

lemma exists_of_components_eq {tag tag' : String}
    (h : (do let js ← xs
             return .mk id [] [(.tag, .justStringId tag), (.components, .justSub js)]) = some i)
    (h' : (do let js ← xs'
              return .mk id [] [(.tag, .justStringId tag'), (.components, .justSub js)]) = some i) :
    tag = tag' ∧ ∃ js, xs = some js ∧ xs' = some js := by
  simp only [bind_eq_some, pure_eq_some] at h h'
  obtain ⟨js, hjs, rfl⟩ := h
  obtain ⟨js', hjs', heq⟩ := h'
  simp only [Irep.mk.injEq, List.cons.injEq, Prod.mk.injEq, Irep.justStringId_inj,
    Irep.justSub_inj, and_true, true_and] at heq
  obtain ⟨rfl, rfl⟩ := heq
  exact ⟨rfl, js', hjs, hjs'⟩

lemma exists_of_code_eq {f f' : List Irep → Irep}
    (h : (do let js ← xs
             let r ← x
             return .mk .code [] [(.parameters, f js), (.returnType, r)]) = some i)
    (h' : (do let js ← xs'
              let r ← x'
              return .mk .code [] [(.parameters, f' js), (.returnType, r)]) = some i) :
    ∃ js js' r, xs = some js ∧ xs' = some js' ∧ f js = f' js' ∧ x = some r ∧ x' = some r := by
  simp only [bind_eq_some, pure_eq_some] at h h'
  obtain ⟨js, hjs, r, hr, rfl⟩ := h
  obtain ⟨js', hjs', r', hr', heq⟩ := h'
  simp only [Irep.mk.injEq, List.cons.injEq, Prod.mk.injEq, and_true, true_and] at heq
  obtain ⟨hf, rfl⟩ := heq
  exact ⟨js, js', r', hjs, hjs', hf.symm, hr, hr'⟩

lemma exists_of_cons_eq {is : List Irep}
    (h : (do let j ← x
             let js ← xs
             return j :: js) = some is)
    (h' : (do let j ← x'
              let js ← xs'
              return j :: js) = some is) :
    ∃ j js, x = some j ∧ xs = some js ∧ x' = some j ∧ xs' = some js := by
  simp only [bind_eq_some, pure_eq_some] at h h'
  obtain ⟨j, hj, js, hjs, rfl⟩ := h
  obtain ⟨j', hj', js', hjs', heq⟩ := h'
  obtain ⟨rfl, rfl⟩ := List.cons.inj heq
  exact ⟨j', js', hj, hjs, hj', hjs'⟩

lemma parameterIrep_inj {t t' : Irep} {identifier identifier' baseName baseName' : Option String}
    (h : ((Irep.mk .parameter [] [(.type, t)]).withNamedSubOption
        .cIdentifier (identifier.map .justStringId)).withNamedSubOption
        .cBaseName (baseName.map .justStringId) =
      ((Irep.mk .parameter [] [(.type, t')]).withNamedSubOption
        .cIdentifier (identifier'.map .justStringId)).withNamedSubOption
        .cBaseName (baseName'.map .justStringId)) :
    t = t' ∧ identifier = identifier' ∧ baseName = baseName' := by
  cases identifier <;> cases identifier' <;> cases baseName <;> cases baseName' <;>
    simp_all [Irep.withNamedSubOption, Irep.withNamedSub, Irep.isNil, Irep.justStringId,
      Irep.justId, IrepId.fromString, Irep.insertNamed, Irep.id, Irep.namedSub]

end Parts

mutual

/-- Types read on the machine are known from their ireps. -/
lemma Typ.toIrep_inj (t t' : Typ) (ht : t.machine mm = t) (ht' : t'.machine mm = t') {i : Irep}
    (h : t.toIrep mm = some i) (h' : t'.toIrep mm = some i) : t = t' := by
  have hid : t.irepId = t'.irepId := (Typ.id_of_toIrep ht h).symm.trans (Typ.id_of_toIrep ht' h')
  -- induction on the first type; only constructors with the same identifier remain
  cases t <;> cases t' <;> try (simp only [Typ.irepId, reduceCtorEq] at hid; done)
  -- no flexible arrays are left on the machine
  all_goals try (simp only [Typ.machine, reduceCtorEq] at ht ht'; done)
  all_goals
    clear hid
    simp only [Typ.machine, Typ.array.injEq, Typ.cBitField.injEq, Typ.code.injEq,
      Typ.infiniteArray.injEq, Typ.pointer.injEq, Typ.struct.injEq, Typ.union.injEq,
      Typ.variadicCode.injEq, Typ.vector.injEq, true_and, and_true] at ht ht'
    simp only [Typ.toIrep] at h h'
  case array.array t n t' n' =>
    obtain ⟨hn, j, hj, hj'⟩ := exists_of_sub_eq h h'
    simp only [List.cons.injEq, Prod.mk.injEq, ssizeConstantIrep_inj, and_true, true_and] at hn
    rw [hn, t.toIrep_inj t' ht ht' hj hj']
  case vector.vector t n t' n' =>
    obtain ⟨hn, j, hj, hj'⟩ := exists_of_sub_eq h h'
    simp only [List.cons.injEq, Prod.mk.injEq, ssizeConstantIrep_inj, and_true, true_and] at hn
    rw [hn, t.toIrep_inj t' ht ht' hj hj']
  case cBitField.cBitField t w t' w' =>
    obtain ⟨hw, j, hj, hj'⟩ := exists_of_sub_eq h h'
    simp only [List.cons.injEq, Prod.mk.injEq, Irep.justIntId_inj, Nat.cast_inj, and_true,
      true_and] at hw
    rw [hw, t.toIrep_inj t' ht ht' hj hj']
  case pointer.pointer t t' =>
    obtain ⟨-, j, hj, hj'⟩ := exists_of_sub_eq h h'
    rw [t.toIrep_inj t' ht ht' hj hj']
  case infiniteArray.infiniteArray t t' =>
    obtain ⟨-, j, hj, hj'⟩ := exists_of_sub_eq h h'
    rw [t.toIrep_inj t' ht ht' hj hj']
  -- an infinite array has no constant size
  case array.infiniteArray =>
    obtain ⟨hn, -⟩ := exists_of_sub_eq h h'
    simp [(infinity_ne_ssizeConstantIrep _).symm] at hn
  case infiniteArray.array =>
    obtain ⟨hn, -⟩ := exists_of_sub_eq h h'
    simp [infinity_ne_ssizeConstantIrep] at hn
  case struct.struct tag cs tag' cs' =>
    obtain ⟨htag, js, hjs, hjs'⟩ := exists_of_components_eq h h'
    rw [htag, componentsToIrep_inj cs cs' ht ht' hjs hjs']
  case union.union tag cs tag' cs' =>
    obtain ⟨htag, js, hjs, hjs'⟩ := exists_of_components_eq h h'
    rw [htag, componentsToIrep_inj cs cs' ht ht' hjs hjs']
  case code.code ps r ps' r' =>
    obtain ⟨js, js', k, hjs, hjs', heq, hk, hk'⟩ := exists_of_code_eq h h'
    obtain rfl := Irep.justSub_inj.mp heq
    rw [parametersToIrep_inj ps ps' ht.1 ht'.1 hjs hjs', r.toIrep_inj r' ht.2 ht'.2 hk hk']
  case variadicCode.variadicCode ps r ps' r' =>
    obtain ⟨js, js', k, hjs, hjs', heq, hk, hk'⟩ := exists_of_code_eq h h'
    simp only [withEllipsis_eq, Irep.mk.injEq, and_true, true_and] at heq
    subst heq
    rw [parametersToIrep_inj ps ps' ht.1 ht'.1 hjs hjs', r.toIrep_inj r' ht.2 ht'.2 hk hk']
  -- only the parameters of a variadic function are marked with an ellipsis
  case code.variadicCode =>
    obtain ⟨js, js', k, -, -, heq, -⟩ := exists_of_code_eq h h'
    rw [withEllipsis_eq] at heq
    simp [Irep.justSub] at heq
  case variadicCode.code =>
    obtain ⟨js, js', k, -, -, heq, -⟩ := exists_of_code_eq h h'
    rw [withEllipsis_eq] at heq
    simp [Irep.justSub] at heq
  case cInteger.cInteger kind kind' =>
    rw [CIntType.eq_bool_of_machine ht, CIntType.eq_bool_of_machine ht']
  -- an aggregate without a body has no components
  case struct.incompleteStruct | union.incompleteUnion =>
    rw [← h'] at h
    simp [Option.bind_eq_some_iff] at h
  case incompleteStruct.struct | incompleteUnion.union =>
    rw [← h] at h'
    simp [Option.bind_eq_some_iff] at h'
  case double.float | float.double =>
    have heq := h.trans h'.symm
    simp [floatIrep] at heq
  all_goals
    have heq := h.trans h'.symm
    first
      | rfl
      | simpa [bitvectorIrep] using heq
termination_by structural t

lemma DatatypeComponent.toIrep_inj (c c' : DatatypeComponent) (hc : c.machine mm = c)
    (hc' : c'.machine mm = c') {i : Irep} (h : c.toIrep mm = some i)
    (h' : c'.toIrep mm = some i) : c = c' := by
  cases c <;> cases c'
  case field.field name t name' t' =>
    simp only [DatatypeComponent.machine, DatatypeComponent.field.injEq, true_and] at hc hc'
    simp only [DatatypeComponent.toIrep, bind_eq_some, pure_eq_some] at h h'
    obtain ⟨j, hj, rfl⟩ := h
    obtain ⟨j', hj', heq⟩ := h'
    simp only [Irep.justNamedSub, Irep.mk.injEq, List.cons.injEq, Prod.mk.injEq,
      Irep.justStringId_inj, and_true, true_and] at heq
    obtain ⟨rfl, -, rfl⟩ := heq
    rw [t.toIrep_inj t' hc hc' hj hj']
  case padding.padding =>
    simp only [DatatypeComponent.toIrep, bind_eq_some, guard_eq_some, exists_const,
      pure_eq_some] at h h'
    have heq := h.2.trans h'.2.symm
    simpa [Irep.justNamedSub, bitvectorIrep] using heq
  -- padding is marked as such in the first named subtree
  case field.padding =>
    simp only [DatatypeComponent.toIrep, bind_eq_some, guard_eq_some, exists_const,
      pure_eq_some] at h h'
    obtain ⟨j, -, rfl⟩ := h
    simp [Irep.justNamedSub] at h'
  case padding.field =>
    simp only [DatatypeComponent.toIrep, bind_eq_some, guard_eq_some, exists_const,
      pure_eq_some] at h h'
    obtain ⟨j, -, rfl⟩ := h'
    simp [Irep.justNamedSub] at h
termination_by structural c

lemma Parameter.toIrep_inj (p p' : Parameter) (hp : p.machine mm = p)
    (hp' : p'.machine mm = p') {i : Irep} (h : p.toIrep mm = some i)
    (h' : p'.toIrep mm = some i) : p = p' := by
  cases p with | mk t identifier baseName
  cases p' with | mk t' identifier' baseName'
  simp only [Parameter.machine, Parameter.mk.injEq, and_true] at hp hp'
  simp only [Parameter.toIrep, bind_eq_some, pure_eq_some] at h h'
  obtain ⟨j, hj, rfl⟩ := h
  obtain ⟨j', hj', heq⟩ := h'
  obtain ⟨rfl, rfl, rfl⟩ := parameterIrep_inj heq
  rw [t.toIrep_inj t' hp hp' hj hj']
termination_by structural p

lemma componentsToIrep_inj (cs cs' : List DatatypeComponent) (hcs : machineComponents mm cs = cs)
    (hcs' : machineComponents mm cs' = cs') {is : List Irep}
    (h : componentsToIrep mm cs = some is) (h' : componentsToIrep mm cs' = some is) :
    cs = cs' := by
  cases cs <;> cases cs'
  case cons.cons c cs c' cs' =>
    simp only [machineComponents, List.cons.injEq] at hcs hcs'
    obtain ⟨j, js, hj, hjs, hj', hjs'⟩ := exists_of_cons_eq h h'
    rw [c.toIrep_inj c' hcs.1 hcs'.1 hj hj', componentsToIrep_inj cs cs' hcs.2 hcs'.2 hjs hjs']
  all_goals simp_all [componentsToIrep, Option.bind_eq_some_iff]
termination_by structural cs

lemma parametersToIrep_inj (ps ps' : List Parameter) (hps : machineParameters mm ps = ps)
    (hps' : machineParameters mm ps' = ps') {is : List Irep}
    (h : parametersToIrep mm ps = some is) (h' : parametersToIrep mm ps' = some is) :
    ps = ps' := by
  cases ps <;> cases ps'
  case cons.cons p ps p' ps' =>
    simp only [machineParameters, List.cons.injEq] at hps hps'
    obtain ⟨j, js, hj, hjs, hj', hjs'⟩ := exists_of_cons_eq h h'
    rw [p.toIrep_inj p' hps.1 hps'.1 hj hj', parametersToIrep_inj ps ps' hps.2 hps'.2 hjs hjs']
  all_goals simp_all [parametersToIrep, Option.bind_eq_some_iff]
termination_by structural ps

end

end Machine

/-- Types can be written exactly when their padding takes space, and such types are written alike
exactly when they are the same type on the machine, names of parameters included. -/
theorem toIrep_faithful (mm : MachineModel) (t t' : Typ) :
    ((t.toIrep mm).isSome = true ↔ t.PaddingFilled) ∧
      (t.PaddingFilled → t'.PaddingFilled →
        (t.toIrep mm = t'.toIrep mm ↔ t.machine mm = t'.machine mm)) := by
  refine ⟨t.isSome_toIrep mm, fun ht ht' => ⟨fun heq => ?_, fun heq => ?_⟩⟩
  · obtain ⟨i, hi⟩ := Option.isSome_iff_exists.mp ((t.isSome_toIrep mm).mpr ht)
    have hi' : t'.toIrep mm = some i := by rw [← heq, hi]
    rw [← t.toIrep_machine mm] at hi
    rw [← t'.toIrep_machine mm] at hi'
    exact Typ.toIrep_inj _ _ (t.machine_machine mm) (t'.machine_machine mm) hi hi'
  · rw [← t.toIrep_machine mm, ← t'.toIrep_machine mm, heq]

theorem toIrep_faithful_int :
    (Typ.pointer (.cInteger .int)).toIrep (machineModelFromSession none "x86_64" false 64) =
      (Typ.pointer (.signedbv 32)).toIrep (machineModelFromSession none "x86_64" false 64) := by
  have hint : (Typ.pointer (.cInteger .int)).PaddingFilled := by simp [Typ.PaddingFilled]
  have hword : (Typ.pointer (.signedbv 32)).PaddingFilled := by simp [Typ.PaddingFilled]
  exact ((toIrep_faithful _ _ _).2 hint hword).mpr rfl

/-- The type of functions of one number, its parameter named. -/
def unaryCode (name : String) : Typ :=
  .code [.mk (.signedbv 32) (some name) (some name)] .empty

/-- Two equal types may have different ireps, for the names of parameters are written. -/
theorem toIrep_unaryCode :
    (unaryCode "x" == unaryCode "y") = true ∧
      ∀ mm, (unaryCode "x").toIrep mm ≠ (unaryCode "y").toIrep mm := by
  refine ⟨Typ.beq_iff_erase.mpr rfl, fun mm heq => ?_⟩
  have hfilled (name : String) : (unaryCode name).PaddingFilled := by
    simp [unaryCode, Typ.PaddingFilled, parametersFilled, Parameter.PaddingFilled]
  obtain ⟨i, hi⟩ := Option.isSome_iff_exists.mp ((Typ.isSome_toIrep mm _).mpr (hfilled "x"))
  have hmachine (name : String) : (unaryCode name).machine mm = unaryCode name := rfl
  have hxy := Typ.toIrep_inj _ _ (hmachine "x") (hmachine "y") hi (heq ▸ hi)
  simp [unaryCode] at hxy

end Rmc

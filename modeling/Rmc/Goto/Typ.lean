import Rmc.MachineModel
import Rmc.Lib.Checked

/-!
# Types of goto programs

The types of a goto program (`typ.rs`), with their getters, predicates and constructors. A
constructor that asserts something of its arguments returns an `Option`: `none` is the panic.

Two types are compared as the program compares them, which does not look at the names of
function parameters. `Typ.erase` forgets those names, and comparison is equality of erasures.
-/

namespace Rmc

/-- Machine dependent integers. -/
inductive CIntType where
  | bool
  | char
  | int
  | sizeT
  | sSizeT
  deriving DecidableEq, Repr

mutual

/-- The types that can be used in a goto program. -/
inductive Typ where
  | array (typ : Typ) (size : ℕ)
  | bool
  | cBitField (typ : Typ) (width : ℕ)
  | cInteger (kind : CIntType)
  | code (parameters : List Parameter) (returnType : Typ)
  | constructor
  | double
  | empty
  | flexibleArray (typ : Typ)
  | float
  | incompleteStruct (tag : String)
  | incompleteUnion (tag : String)
  | infiniteArray (typ : Typ)
  | pointer (typ : Typ)
  | signedbv (width : ℕ)
  | struct (tag : String) (components : List DatatypeComponent)
  | structTag (tag : String)
  | union (tag : String) (components : List DatatypeComponent)
  | unionTag (tag : String)
  | unsignedbv (width : ℕ)
  | variadicCode (parameters : List Parameter) (returnType : Typ)
  | vector (typ : Typ) (size : ℕ)

/-- The fields of a struct or union. -/
inductive DatatypeComponent where
  | field (name : String) (typ : Typ)
  | padding (name : String) (bits : ℕ)

/-- The formal parameters of a function. -/
inductive Parameter where
  | mk (typ : Typ) (identifier : Option String) (baseName : Option String)

end

instance : Inhabited Typ := ⟨.empty⟩

namespace Parameter

/-- The type of a parameter. -/
def typ : Parameter → Typ
  | .mk t _ _ => t

/-- The unique name a parameter has in the symbol table. -/
def identifier : Parameter → Option String
  | .mk _ i _ => i

/-- The name a parameter has within its function. -/
def baseName : Parameter → Option String
  | .mk _ _ b => b

@[simp] lemma typ_mk (t : Typ) (i b : Option String) : (Parameter.mk t i b).typ = t := rfl

end Parameter

/-! ### Comparison -/

mutual

/-- Comparison of types, as derived from the comparisons of their parts. -/
def Typ.beq : Typ → Typ → Bool
  | .array t n, .array t' n' => t.beq t' && n == n'
  | .bool, .bool => true
  | .cBitField t w, .cBitField t' w' => t.beq t' && w == w'
  | .cInteger k, .cInteger k' => k == k'
  | .code ps r, .code ps' r' => beqParameters ps ps' && r.beq r'
  | .constructor, .constructor => true
  | .double, .double => true
  | .empty, .empty => true
  | .flexibleArray t, .flexibleArray t' => t.beq t'
  | .float, .float => true
  | .incompleteStruct tag, .incompleteStruct tag' => tag == tag'
  | .incompleteUnion tag, .incompleteUnion tag' => tag == tag'
  | .infiniteArray t, .infiniteArray t' => t.beq t'
  | .pointer t, .pointer t' => t.beq t'
  | .signedbv w, .signedbv w' => w == w'
  | .struct tag cs, .struct tag' cs' => tag == tag' && beqComponents cs cs'
  | .structTag tag, .structTag tag' => tag == tag'
  | .union tag cs, .union tag' cs' => tag == tag' && beqComponents cs cs'
  | .unionTag tag, .unionTag tag' => tag == tag'
  | .unsignedbv w, .unsignedbv w' => w == w'
  | .variadicCode ps r, .variadicCode ps' r' => beqParameters ps ps' && r.beq r'
  | .vector t n, .vector t' n' => t.beq t' && n == n'
  | _, _ => false
termination_by structural t => t

/-- Comparison of components: names and types, or names and bits. -/
def DatatypeComponent.beq : DatatypeComponent → DatatypeComponent → Bool
  | .field name t, .field name' t' => name == name' && t.beq t'
  | .padding name bits, .padding name' bits' => name == name' && bits == bits'
  | _, _ => false
termination_by structural c => c

/-- Comparison of parameters, which does not look at their names. -/
def Parameter.beq : Parameter → Parameter → Bool
  | .mk t _ _, .mk t' _ _ => t.beq t'
termination_by structural p => p

/-- Comparison of component lists. -/
def beqComponents : List DatatypeComponent → List DatatypeComponent → Bool
  | [], [] => true
  | c :: cs, c' :: cs' => c.beq c' && beqComponents cs cs'
  | _, _ => false
termination_by structural cs => cs

/-- Comparison of parameter lists. -/
def beqParameters : List Parameter → List Parameter → Bool
  | [], [] => true
  | p :: ps, p' :: ps' => p.beq p' && beqParameters ps ps'
  | _, _ => false
termination_by structural ps => ps

end

instance : BEq Typ := ⟨Typ.beq⟩

instance : BEq DatatypeComponent := ⟨DatatypeComponent.beq⟩

mutual

/-- A type with the names of all its parameters forgotten. -/
def Typ.erase : Typ → Typ
  | .array t n => .array t.erase n
  | .bool => .bool
  | .cBitField t w => .cBitField t.erase w
  | .cInteger k => .cInteger k
  | .code ps r => .code (eraseParameters ps) r.erase
  | .constructor => .constructor
  | .double => .double
  | .empty => .empty
  | .flexibleArray t => .flexibleArray t.erase
  | .float => .float
  | .incompleteStruct tag => .incompleteStruct tag
  | .incompleteUnion tag => .incompleteUnion tag
  | .infiniteArray t => .infiniteArray t.erase
  | .pointer t => .pointer t.erase
  | .signedbv w => .signedbv w
  | .struct tag cs => .struct tag (eraseComponents cs)
  | .structTag tag => .structTag tag
  | .union tag cs => .union tag (eraseComponents cs)
  | .unionTag tag => .unionTag tag
  | .unsignedbv w => .unsignedbv w
  | .variadicCode ps r => .variadicCode (eraseParameters ps) r.erase
  | .vector t n => .vector t.erase n

/-- A component with the parameter names in its type forgotten. -/
def DatatypeComponent.erase : DatatypeComponent → DatatypeComponent
  | .field name t => .field name t.erase
  | .padding name bits => .padding name bits

/-- A parameter with its names forgotten. -/
def Parameter.erase : Parameter → Parameter
  | .mk t _ _ => .mk t.erase none none

/-- Components with the parameter names forgotten. -/
def eraseComponents : List DatatypeComponent → List DatatypeComponent
  | [] => []
  | c :: cs => c.erase :: eraseComponents cs

/-- Parameters with their names forgotten. -/
def eraseParameters : List Parameter → List Parameter
  | [] => []
  | p :: ps => p.erase :: eraseParameters ps

end

@[simp] lemma eraseComponents_eq (cs : List DatatypeComponent) :
    eraseComponents cs = cs.map DatatypeComponent.erase := by
  induction cs with
  | nil => rfl
  | cons c cs ih => rw [eraseComponents, ih, List.map_cons]

@[simp] lemma eraseParameters_eq (ps : List Parameter) :
    eraseParameters ps = ps.map Parameter.erase := by
  induction ps with
  | nil => rfl
  | cons p ps ih => rw [eraseParameters, ih, List.map_cons]

mutual

/-- Types are the same to the program exactly when their erasures are the same type. -/
lemma Typ.beq_iff (t t' : Typ) : t.beq t' = true ↔ t.erase = t'.erase := by
  -- different constructors: both sides are false
  cases t <;> cases t' <;> first
    | (simp only [Typ.beq, Typ.erase, reduceCtorEq, Bool.false_eq_true]; done)
    | simp [Typ.beq, Typ.erase, Typ.beq_iff, beqComponents_iff, beqParameters_iff]
termination_by structural t

lemma DatatypeComponent.beq_iff (c c' : DatatypeComponent) :
    c.beq c' = true ↔ c.erase = c'.erase := by
  cases c <;> cases c' <;> simp [DatatypeComponent.beq, DatatypeComponent.erase, Typ.beq_iff]
termination_by structural c

lemma Parameter.beq_iff (p p' : Parameter) : p.beq p' = true ↔ p.erase = p'.erase := by
  cases p
  cases p'
  simp [Parameter.beq, Parameter.erase, Typ.beq_iff]
termination_by structural p

lemma beqComponents_iff (cs cs' : List DatatypeComponent) :
    beqComponents cs cs' = true ↔
      cs.map DatatypeComponent.erase = cs'.map DatatypeComponent.erase := by
  cases cs <;> cases cs' <;> simp [beqComponents, DatatypeComponent.beq_iff, beqComponents_iff]
termination_by structural cs

lemma beqParameters_iff (ps ps' : List Parameter) :
    beqParameters ps ps' = true ↔ ps.map Parameter.erase = ps'.map Parameter.erase := by
  cases ps <;> cases ps' <;> simp [beqParameters, Parameter.beq_iff, beqParameters_iff]
termination_by structural ps

end

variable {t t' : Typ}

namespace Typ

lemma beq_iff_erase : (t == t') = true ↔ t.erase = t'.erase := Typ.beq_iff t t'

@[simp] lemma beq_self (t : Typ) : (t == t) = true := beq_iff_erase.2 rfl

lemma beq_symm (h : (t == t') = true) : (t' == t) = true :=
  beq_iff_erase.2 (beq_iff_erase.1 h).symm

end Typ

/-! ### Getters -/

/-- A `u64` result: arithmetic that leaves the range panics. -/
def checkedU64 (n : ℕ) : Option ℕ := if n < 2 ^ 64 then some n else none

variable {n : ℕ}

lemma checkedU64_of_lt (h : n < 2 ^ 64) : checkedU64 n = some n := if_pos h

lemma checkedU64_eq_some {k : ℕ} : checkedU64 n = some k ↔ n < 2 ^ 64 ∧ k = n := by
  rw [checkedU64]
  split_ifs with h
  · rw [Option.some.injEq, and_iff_right h, eq_comm]
  · exact iff_of_false nofun fun hk => h hk.1

/-- The name of the aggregate called `n`. -/
def aggrTag (n : String) : String := "tag-" ++ n

namespace DatatypeComponent

def isPadding : DatatypeComponent → Bool
  | .field _ _ => false
  | .padding _ _ => true

def name : DatatypeComponent → String
  | .field name _ => name
  | .padding name _ => name

def fieldTyp : DatatypeComponent → Option Typ
  | .field _ t => some t
  | .padding _ _ => none

/-- The type of a component; padding of no bits has none, since integers have positive width. -/
def typ : DatatypeComponent → Option Typ
  | .field _ t => some t
  | .padding _ bits => if 0 < bits then some (.unsignedbv bits) else none

@[simp] lemma isPadding_field (n : String) (t : Typ) : (field n t).isPadding = false := rfl

@[simp] lemma isPadding_padding (n : String) (b : ℕ) : (padding n b).isPadding = true := rfl

@[simp] lemma typ_field (n : String) (t : Typ) : (field n t).typ = some t := rfl

@[simp] lemma name_field (n : String) (t : Typ) : (field n t).name = n := rfl

@[simp] lemma name_padding (n : String) (b : ℕ) : (padding n b).name = n := rfl

end DatatypeComponent

/-! ### Parts of a type -/

/-- The types right below a type. -/
def Typ.parts : Typ → List Typ
  | .array t _ | .cBitField t _ | .vector t _ | .flexibleArray t | .infiniteArray t => [t]
  | .pointer t => [t]
  | .code ps r | .variadicCode ps r => ps.map Parameter.typ ++ [r]
  | .struct _ cs | .union _ cs => cs.filterMap DatatypeComponent.fieldTyp
  | _ => []

variable {P : Typ → Prop}

/-- What holds of a type when it holds of the types right below it holds of every type. -/
@[elab_as_elim] theorem Typ.induction (h : ∀ t : Typ, (∀ u ∈ t.parts, P u) → P t) (t : Typ) :
    P t := by
  apply @Typ.rec P (fun c => ∀ u ∈ c.fieldTyp, P u) (fun p => P p.typ)
    (fun ps => ∀ p ∈ ps, P p.typ) (fun cs => ∀ c ∈ cs, ∀ u ∈ c.fieldTyp, P u)
  case struct => exact fun tag cs hcs => h _ (by simpa [Typ.parts] using fun u c hc => hcs c hc u)
  case union => exact fun tag cs hcs => h _ (by simpa [Typ.parts] using fun u c hc => hcs c hc u)
  case code => exact fun ps r hps hr => h _ (by simp_all [Typ.parts, or_imp])
  case variadicCode => exact fun ps r hps hr => h _ (by simp_all [Typ.parts, or_imp])
  case field => simp [DatatypeComponent.fieldTyp]
  case padding => simp [DatatypeComponent.fieldTyp]
  case mk => exact fun t i b ht => ht
  case nil | nil => simp
  case cons | cons => simp_all
  case array | cBitField | vector => exact fun t _ ht => h _ (by simpa [Typ.parts])
  case flexibleArray | infiniteArray | pointer => exact fun t ht => h _ (by simpa [Typ.parts])
  all_goals
    intros
    apply h
    simp [Typ.parts]

mutual

/-- The types that occur in a type. -/
def Typ.subTypes : Typ → List Typ
  | .array t n => .array t n :: t.subTypes
  | .bool => [.bool]
  | .cBitField t w => .cBitField t w :: t.subTypes
  | .cInteger k => [.cInteger k]
  | .code ps r => .code ps r :: (subTypesOfParameters ps ++ r.subTypes)
  | .constructor => [.constructor]
  | .double => [.double]
  | .empty => [.empty]
  | .flexibleArray t => .flexibleArray t :: t.subTypes
  | .float => [.float]
  | .incompleteStruct tag => [.incompleteStruct tag]
  | .incompleteUnion tag => [.incompleteUnion tag]
  | .infiniteArray t => .infiniteArray t :: t.subTypes
  | .pointer t => .pointer t :: t.subTypes
  | .signedbv w => [.signedbv w]
  | .struct tag cs => .struct tag cs :: subTypesOfComponents cs
  | .structTag tag => [.structTag tag]
  | .union tag cs => .union tag cs :: subTypesOfComponents cs
  | .unionTag tag => [.unionTag tag]
  | .unsignedbv w => [.unsignedbv w]
  | .variadicCode ps r => .variadicCode ps r :: (subTypesOfParameters ps ++ r.subTypes)
  | .vector t n => .vector t n :: t.subTypes

/-- The types that occur in a component. -/
def DatatypeComponent.subTypes : DatatypeComponent → List Typ
  | .field _ t => t.subTypes
  | .padding _ _ => []

/-- The types that occur in a parameter. -/
def Parameter.subTypes : Parameter → List Typ
  | .mk t _ _ => t.subTypes

def subTypesOfComponents : List DatatypeComponent → List Typ
  | [] => []
  | c :: cs => c.subTypes ++ subTypesOfComponents cs

def subTypesOfParameters : List Parameter → List Typ
  | [] => []
  | p :: ps => p.subTypes ++ subTypesOfParameters ps

end

@[simp] lemma Typ.self_mem_subTypes (t : Typ) : t ∈ t.subTypes := by
  cases t <;> simp [Typ.subTypes]

@[simp] lemma subTypesOfComponents_eq (cs : List DatatypeComponent) :
    subTypesOfComponents cs = cs.flatMap DatatypeComponent.subTypes := by
  induction cs with
  | nil => rfl
  | cons c cs ih => rw [subTypesOfComponents, ih, List.flatMap_cons]

@[simp] lemma subTypesOfParameters_eq (ps : List Parameter) :
    subTypesOfParameters ps = ps.flatMap Parameter.subTypes := by
  induction ps with
  | nil => rfl
  | cons p ps ih => rw [subTypesOfParameters, ih, List.flatMap_cons]

lemma Typ.subTypes_eq (t : Typ) : t.subTypes = t :: t.parts.flatMap Typ.subTypes := by
  have hps : ∀ ps : List Parameter,
      ps.flatMap Parameter.subTypes = (ps.map Parameter.typ).flatMap Typ.subTypes := by
    intro ps
    induction ps with
    | nil => rfl
    | cons p ps ih =>
      cases p
      simp [Parameter.subTypes, ih]
  have hcs : ∀ cs : List DatatypeComponent, cs.flatMap DatatypeComponent.subTypes =
      (cs.filterMap DatatypeComponent.fieldTyp).flatMap Typ.subTypes := by
    intro cs
    induction cs with
    | nil => rfl
    | cons c cs ih =>
      cases c <;> simp [DatatypeComponent.subTypes, DatatypeComponent.fieldTyp, ih,
        List.filterMap_cons]
  cases t <;> simp [Typ.subTypes, Typ.parts, hps, hcs]

lemma Typ.forall_mem_subTypes :
    (∀ u ∈ t.subTypes, P u) ↔ P t ∧ ∀ p ∈ t.parts, ∀ u ∈ p.subTypes, P u := by
  rw [Typ.subTypes_eq, List.forall_mem_cons, List.forall_mem_flatMap]

namespace Typ

/-- The base type of this type, if one exists. -/
def baseType : Typ → Option Typ
  | .array t _ => some t
  | .cBitField t _ => some t
  | .flexibleArray t => some t
  | .pointer t => some t
  | .vector t _ => some t
  | _ => none

def components : Typ → Option (List DatatypeComponent)
  | .struct _ cs => some cs
  | .union _ cs => some cs
  | _ => none

/-- The bit width of an integer or pointer type on the machine. -/
def nativeWidth (mm : MachineModel) : Typ → Option ℕ
  | .cInteger .sizeT => some mm.pointerWidth
  | .cInteger .sSizeT => some mm.pointerWidth
  | .pointer _ => some mm.pointerWidth
  | .cInteger .bool => some mm.boolWidth
  | .cInteger .char => some mm.charWidth
  | .cInteger .int => some mm.intWidth
  | .signedbv w => some w
  | .unsignedbv w => some w
  | _ => none

def parameters : Typ → Option (List Parameter)
  | .code ps _ => some ps
  | .variadicCode ps _ => some ps
  | _ => none

def returnType : Typ → Option Typ
  | .code _ r => some r
  | .variadicCode _ r => some r
  | _ => none

/-- The tag of a struct or union. -/
def tag : Typ → Option String
  | .incompleteStruct tag => some tag
  | .incompleteUnion tag => some tag
  | .struct tag _ => some tag
  | .structTag tag => some tag
  | .union tag _ => some tag
  | .unionTag tag => some tag
  | _ => none

/-- The symbol that a struct or union, or a tag, names in the symbol table. -/
def typeName : Typ → Option String
  | .incompleteStruct tag => some (Rmc.aggrTag tag)
  | .struct tag _ => some (Rmc.aggrTag tag)
  | .incompleteUnion tag => some (Rmc.aggrTag tag)
  | .union tag _ => some (Rmc.aggrTag tag)
  | .structTag tag => some tag
  | .unionTag tag => some tag
  | _ => none

/-- The width of an integer type whose width the type itself gives. -/
def width : Typ → Option ℕ
  | .cBitField _ w => some w
  | .signedbv w => some w
  | .unsignedbv w => some w
  | _ => none

/-! ### Predicates -/

def isArrayLike : Typ → Bool
  | .array _ _ => true
  | .flexibleArray _ => true
  | .vector _ _ => true
  | _ => false

def isBool : Typ → Bool
  | .bool => true
  | _ => false

def isCBool : Typ → Bool
  | .cInteger .bool => true
  | _ => false

def isCode : Typ → Bool
  | .code _ _ => true
  | _ => false

def isDouble : Typ → Bool
  | .double => true
  | _ => false

def isEmpty : Typ → Bool
  | .empty => true
  | _ => false

def isFloat : Typ → Bool
  | .float => true
  | _ => false

def isFloatingPoint : Typ → Bool
  | .double => true
  | .float => true
  | _ => false

def isCInteger : Typ → Bool
  | .cInteger _ => true
  | _ => false

/-- Whether this is an integer of finite width. -/
def isInteger : Typ → Bool
  | .cInteger _ => true
  | .signedbv _ => true
  | .unsignedbv _ => true
  | _ => false

/-- Whether a value of this type may be assigned and passed. -/
def isLvalue : Typ → Bool
  | .bool => true
  | .cBitField _ _ => true
  | .cInteger _ => true
  | .double => true
  | .float => true
  | .pointer _ => true
  | .signedbv _ => true
  | .struct _ _ => true
  | .structTag _ => true
  | .union _ _ => true
  | .unionTag _ => true
  | .unsignedbv _ => true
  | .vector _ _ => true
  | .array _ _ => false
  | .code _ _ => false
  | .constructor => false
  | .empty => false
  | .flexibleArray _ => false
  | .incompleteStruct _ => false
  | .incompleteUnion _ => false
  | .infiniteArray _ => false
  | .variadicCode _ _ => false

def isNumeric (t : Typ) : Bool := t.isFloatingPoint || t.isInteger

def isPointer : Typ → Bool
  | .pointer _ => true
  | _ => false

/-- Whether this is a signed integer on the machine. -/
def isSigned (mm : MachineModel) : Typ → Bool
  | .cInteger .int => true
  | .cInteger .sSizeT => true
  | .signedbv _ => true
  | .cInteger .char => !mm.charIsUnsigned
  | _ => false

def isStructLike : Typ → Bool
  | .incompleteStruct _ => true
  | .struct _ _ => true
  | .structTag _ => true
  | _ => false

def isStructTag : Typ → Bool
  | .structTag _ => true
  | _ => false

def isUnionTag : Typ → Bool
  | .unionTag _ => true
  | _ => false

def isVariadicCode : Typ → Bool
  | .variadicCode _ _ => true
  | _ => false

def isVector : Typ → Bool
  | .vector _ _ => true
  | _ => false

/-- Whether both types are the same, or integers of one width and signedness, on the machine. -/
def isEqualOnMachine (mm : MachineModel) (t t' : Typ) : Bool :=
  t == t' || (t.nativeWidth mm == t'.nativeWidth mm && t.isSigned mm == t'.isSigned mm)

/-- Whether a struct or union completes an incomplete one. -/
def completes : Typ → Typ → Bool
  | .struct newTag _, .incompleteStruct oldTag => oldTag == newTag
  | .union newTag _, .incompleteUnion oldTag => oldTag == newTag
  | _, _ => false

/-! The kinds of types that operators tell apart exclude each other. -/

@[grind →] lemma isPointer_of_isNumeric (h : t.isNumeric = true) : t.isPointer = false := by
  cases t <;> simp_all [isNumeric, isFloatingPoint, isInteger, isPointer]

@[grind →] lemma isVector_of_isNumeric (h : t.isNumeric = true) : t.isVector = false := by
  cases t <;> simp_all [isNumeric, isFloatingPoint, isInteger, isVector]

@[grind →] lemma isVector_of_isPointer (h : t.isPointer = true) : t.isVector = false := by
  cases t <;> simp_all [isPointer, isVector]

@[grind →] lemma isNumeric_of_isInteger (h : t.isInteger = true) : t.isNumeric = true := by
  simp [isNumeric, h]

@[grind →] lemma isInteger_of_isCBool (h : t.isCBool = true) : t.isInteger = true := by
  cases t <;> simp_all [isCBool, isInteger]

@[grind =] lemma isNumeric_iff :
    t.isNumeric = true ↔ t.isInteger = true ∨ t.isFloatingPoint = true := by
  simp [isNumeric, or_comm]

@[grind =] lemma isBool_iff : t.isBool = true ↔ t = .bool := by
  cases t <;> simp [isBool]

lemma isCBool_iff : t.isCBool = true ↔ t = .cInteger .bool := by
  cases t with
  | cInteger k => cases k <;> simp [isCBool]
  | _ => simp [isCBool]

lemma isEmpty_iff : t.isEmpty = true ↔ t = .empty := by
  cases t <;> simp [isEmpty]

lemma isPointer_iff : t.isPointer = true ↔ ∃ b, t = .pointer b := by
  cases t <;> simp [isPointer]

lemma isStructTag_iff : t.isStructTag = true ↔ ∃ tag, t = .structTag tag := by
  cases t <;> simp [isStructTag]

lemma isUnionTag_iff : t.isUnionTag = true ↔ ∃ tag, t = .unionTag tag := by
  cases t <;> simp [isUnionTag]

lemma beq_bool_iff : (t == .bool) = true ↔ t = .bool := by
  rw [beq_iff_erase]
  cases t <;> simp [erase]

@[grind →] lemma isPointer_eq_of_beq (h : (t == t') = true) : t.isPointer = t'.isPointer := by
  have he := beq_iff_erase.1 h
  cases t <;> cases t' <;> simp_all [erase, isPointer]

/-- A complete type is not completed again. -/
lemma completes_iff :
    t'.completes t = true ↔
    (∃ tag cs, t = .incompleteStruct tag ∧ t' = .struct tag cs) ∨
      ∃ tag cs, t = .incompleteUnion tag ∧ t' = .union tag cs := by
  constructor
  · intro h
    cases t <;> cases t' <;> simp_all [Typ.completes]
  · rintro (⟨tag, cs, rfl, rfl⟩ | ⟨tag, cs, rfl, rfl⟩) <;> simp [Typ.completes]

lemma completes_not_completes (h : t.completes t' = true) (t'' : Typ) :
    t''.completes t = false := by
  cases t <;> cases t' <;> simp_all [Typ.completes]

lemma components_of_completes {cs : List DatatypeComponent} (h : t'.completes t = true) :
    t.components ≠ some cs := by
  cases t <;> cases t' <;> simp_all [Typ.completes, Typ.components]

/-! ### Constructors -/

def arrayOf (t : Typ) (size : ℕ) : Typ := .array t size

def asBitfield (t : Typ) (width : ℕ) : Option Typ := do
  guard (0 < width)
  guard t.isInteger
  let w ← t.width
  guard (width ≤ w)
  return .cBitField t width

/-- A formal function parameter; only an lvalue can be passed. -/
def asParameter (t : Typ) (identifier baseName : Option String) : Option Parameter := do
  guard t.isLvalue
  return .mk t identifier baseName

def cBool : Typ := .cInteger .bool

def cChar : Typ := .cInteger .char

def cInt : Typ := .cInteger .int

def sizeT : Typ := .cInteger .sizeT

def ssizeT : Typ := .cInteger .sSizeT

def codeWithUnnamedParameters (paramTypes : List Typ) (returnType : Typ) : Option Typ := do
  let parameters ← paramTypes.mapM fun t => t.asParameter none none
  return .code parameters returnType

/-- Unlike `codeWithUnnamedParameters`, this does not check that the parameters are lvalues. -/
def variadicCodeWithUnnamedParameters (paramTypes : List Typ) (returnType : Typ) : Typ :=
  .variadicCode (paramTypes.map fun t => .mk t none none) returnType

def flexibleArrayOf (t : Typ) : Typ := .flexibleArray t

def infiniteArrayOf (t : Typ) : Typ := .infiniteArray t

def toPointer (t : Typ) : Typ := .pointer t

def voidPointer : Typ := .pointer .empty

lemma beq_voidPointer_iff : (t == voidPointer) = true ↔ t = voidPointer := by
  rw [beq_iff_erase]
  constructor
  · intro h
    cases t with
    | pointer b => cases b <;> simp_all [erase, voidPointer]
    | _ => simp_all [erase, voidPointer]
  · rintro rfl
    rfl

def signedInt (w : ℕ) : Option Typ := if 0 < w then some (.signedbv w) else none

def unsignedInt (w : ℕ) : Option Typ := if 0 < w then some (.unsignedbv w) else none

def componentsAreUnique (components : List DatatypeComponent) : Bool :=
  decide (components.map DatatypeComponent.name).Nodup

def structType (tag : String) (components : List DatatypeComponent) : Option Typ :=
  if componentsAreUnique components then some (.struct tag components) else none

def unionType (tag : String) (components : List DatatypeComponent) : Option Typ :=
  if componentsAreUnique components then some (.union tag components) else none

def mkStructTag (name : String) : Typ := .structTag (Rmc.aggrTag name)

def mkUnionTag (name : String) : Typ := .unionTag (Rmc.aggrTag name)

/-- A packed vector of numbers. -/
def mkVector (t : Typ) (size : ℕ) : Option Typ :=
  if t.isNumeric then some (.vector t size) else none

end Typ

end Rmc

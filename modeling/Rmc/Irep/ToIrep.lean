import Rmc.Goto.SymbolTable
import Rmc.Goto.Expr
import Rmc.Irep.Irep

/-!
# Conversion of goto programs to ireps

The converters of `to_irep.rs`. Converting a padding component makes an unsigned integer type of
its width, whose constructor panics on width zero; that panic is the only one, and `none` stands
for it.
-/

namespace Rmc

/-! ### Utility functions -/

def argumentsIrep (arguments : List Irep) : Irep := .mk .arguments arguments []

def codeIrep (kind : IrepId) (ops : List Irep) : Irep :=
  .mk .code ops [(.statement, .justId kind)]

def sideEffectIrep (kind : IrepId) (ops : List Irep) : Irep :=
  .mk .sideEffect ops [(.statement, .justId kind)]

def constantIrep (value : Irep) : Irep := .mk .constant [] [(.value, value)]

/-! ### Identifiers of operators -/

def BinaryOperand.toIrepId : BinaryOperand → IrepId
  | .and => .and
  | .ashr => .ashr
  | .bitand => .bitand
  | .bitor => .bitor
  | .bitxor => .bitxor
  | .div => .div
  | .equal => .equal
  | .ge => .ge
  | .gt => .gt
  | .ieeeFloatEqual => .ieeeFloatEqual
  | .ieeeFloatNotequal => .ieeeFloatNotequal
  | .implies => .implies
  | .le => .le
  | .lshr => .lshr
  | .lt => .lt
  | .minus => .minus
  | .mod => .mod
  | .mult => .mult
  | .notequal => .notequal
  | .or => .or
  | .overflowMinus => .overflowMinus
  | .overflowMult => .overflowMult
  | .overflowPlus => .overflowPlus
  | .plus => .plus
  | .rol => .rol
  | .ror => .ror
  | .shl => .shl
  | .xor => .xor

def SelfOperand.toIrepId : SelfOperand → IrepId
  | .postdecrement => .postdecrement
  | .postincrement => .postincrement
  | .predecrement => .predecrement
  | .preincrement => .preincrement

def UnaryOperand.toIrepId : UnaryOperand → IrepId
  | .bitnot => .bitnot
  | .bswap => .bswap
  | .countLeadingZeros _ => .countLeadingZeros
  | .countTrailingZeros _ => .countTrailingZeros
  | .isDynamicObject => .isDynamicObject
  | .not => .not
  | .objectSize => .objectSize
  | .pointerObject => .pointerObject
  | .pointerOffset => .pointerOffset
  | .popcount => .popcount
  | .unaryMinus => .unaryMinus

/-- The named subtrees of a unary operation: the bits of a byte, or whether zero is an error. -/
def UnaryOperand.namedSub : UnaryOperand → List (IrepId × Irep)
  | .bswap => [(.bitsPerByte, .justIntId 8)]
  | .countLeadingZeros allowZero => [(.cBoundsCheck, if allowZero then .zero else .one)]
  | .countTrailingZeros allowZero => [(.cBoundsCheck, if allowZero then .zero else .one)]
  | _ => []

/-! ### Locations -/

def Location.isNone : Location → Bool
  | .none => true
  | _ => false

def Location.toIrep : Location → Irep
  | .none => .nil
  | .builtinFunction functionName line =>
    (Irep.justNamedSub
      [(.file, .justStringId ("<builtin-library-" ++ functionName ++ ">")),
        (.function, .justStringId functionName)]).withNamedSubOption
      .line (line.map fun l => .justIntId l)
  | .loc file function line col =>
    ((Irep.justNamedSub
      [(.file, .justStringId file), (.line, .justIntId line)]).withNamedSubOption
      .column (col.map fun c => .justIntId c)).withNamedSubOption
      .function (function.map .justStringId)

def Irep.withLocation (self : Irep) (l : Location) : Irep :=
  if l.isNone then self else self.withNamedSub .cSourceLocation l.toIrep

/-! ### Types -/

/-- A bit vector of that width. -/
def bitvectorIrep (id : IrepId) (width : ℕ) : Irep := .mk id [] [(.width, .justIntId width)]

/-- A floating point number with that many fraction bits. -/
def floatIrep (f width : ℕ) (cType : IrepId) : Irep :=
  .mk .floatbv [] [(.f, .justIntId f), (.width, .justIntId width), (.cCType, .justId cType)]

def CIntType.toIrep (mm : MachineModel) : CIntType → Irep
  | .bool => bitvectorIrep .cBool mm.boolWidth
  | .char => bitvectorIrep (if mm.charIsUnsigned then .unsignedbv else .signedbv) mm.charWidth
  | .int => bitvectorIrep .signedbv mm.intWidth
  | .sizeT => bitvectorIrep .unsignedbv mm.pointerWidth
  | .sSizeT => bitvectorIrep .signedbv mm.pointerWidth

/-- The converted constant of type `ssize_t`, as array sizes and byte offsets are. -/
def ssizeConstantIrep (mm : MachineModel) (i : ℕ) : Irep :=
  (constantIrep (.justHexId i)).withNamedSub .type (CIntType.sSizeT.toIrep mm)

mutual

def Typ.toIrep (mm : MachineModel) : Typ → Option Irep
  | .array typ size => do
    let t ← typ.toIrep mm
    return .mk .array [t] [(.size, ssizeConstantIrep mm size)]
  | .cBitField typ width => do
    let t ← typ.toIrep mm
    return .mk .cBitField [t] [(.width, .justIntId width)]
  | .bool => return .justId .bool
  | .cInteger kind => return kind.toIrep mm
  | .code parameters returnType => do
    let ps ← parametersToIrep mm parameters
    let r ← returnType.toIrep mm
    return .mk .code [] [(.parameters, .justSub ps), (.returnType, r)]
  | .constructor => return .justId .constructor
  | .double => return floatIrep 52 64 .double
  | .empty => return .justId .empty
  | .flexibleArray typ => do
    let t ← typ.toIrep mm
    return .mk .array [t] [(.size, ssizeConstantIrep mm 0)]
  | .float => return floatIrep 23 32 .float
  | .incompleteStruct tag =>
    return .mk .struct [] [(.tag, .justStringId tag), (.incomplete, .one)]
  | .incompleteUnion tag =>
    return .mk .union [] [(.tag, .justStringId tag), (.incomplete, .one)]
  | .infiniteArray typ => do
    let t ← typ.toIrep mm
    let infinity := (Irep.justId .infinity).withNamedSub .type (CIntType.sSizeT.toIrep mm)
    return .mk .array [t] [(.size, infinity)]
  | .pointer typ => do
    let t ← typ.toIrep mm
    return .mk .pointer [t] [(.width, .justIntId mm.pointerWidth)]
  | .signedbv width => return bitvectorIrep .signedbv width
  | .struct tag components => do
    let cs ← componentsToIrep mm components
    return .mk .struct [] [(.tag, .justStringId tag), (.components, .justSub cs)]
  | .structTag name => return .mk .structTag [] [(.identifier, .justStringId name)]
  | .union tag components => do
    let cs ← componentsToIrep mm components
    return .mk .union [] [(.tag, .justStringId tag), (.components, .justSub cs)]
  | .unionTag name => return .mk .unionTag [] [(.identifier, .justStringId name)]
  | .unsignedbv width => return bitvectorIrep .unsignedbv width
  | .variadicCode parameters returnType => do
    let ps ← parametersToIrep mm parameters
    let r ← returnType.toIrep mm
    return .mk .code []
      [(.parameters, (Irep.justSub ps).withNamedSub .ellipsis .one), (.returnType, r)]
  | .vector typ size => do
    let t ← typ.toIrep mm
    return .mk .vector [t] [(.size, ssizeConstantIrep mm size)]

def DatatypeComponent.toIrep (mm : MachineModel) : DatatypeComponent → Option Irep
  | .field name typ => do
    let t ← typ.toIrep mm
    return .justNamedSub [(.name, .justStringId name), (.prettyName, .justStringId name),
      (.type, t)]
  | .padding name bits => do
    -- `Type::unsigned_int` asserts a positive width
    guard (0 < bits)
    return .justNamedSub
      [(.cIsPadding, .one), (.name, .justStringId name), (.type, bitvectorIrep .unsignedbv bits)]

def Parameter.toIrep (mm : MachineModel) : Parameter → Option Irep
  | .mk typ identifier baseName => do
    let t ← typ.toIrep mm
    return ((Irep.mk .parameter [] [(.type, t)]).withNamedSubOption
      .cIdentifier (identifier.map .justStringId)).withNamedSubOption
      .cBaseName (baseName.map .justStringId)

def componentsToIrep (mm : MachineModel) : List DatatypeComponent → Option (List Irep)
  | [] => return []
  | c :: cs => do
    let i ← c.toIrep mm
    let is ← componentsToIrep mm cs
    return i :: is

def parametersToIrep (mm : MachineModel) : List Parameter → Option (List Irep)
  | [] => return []
  | p :: ps => do
    let i ← p.toIrep mm
    let is ← parametersToIrep mm ps
    return i :: is

end

def Irep.withType (self : Irep) (mm : MachineModel) (t : Typ) : Option Irep := do
  let i ← t.toIrep mm
  return self.withNamedSub .type i

/-! ### Expressions and statements -/

mutual

def Expr.toIrep (mm : MachineModel) : Expr → Option Irep
  | .mk value typ location => do
    let i ← value.toIrep mm
    (i.withLocation location).withType mm typ

def ExprValue.toIrep (mm : MachineModel) : ExprValue → Option Irep
  | .addressOf e => do return .mk .addressOf [← e.toIrep mm] []
  | .array elems => do return .mk .array (← exprsToIrep mm elems) []
  | .arrayOf elem => do return .mk .arrayOf [← elem.toIrep mm] []
  | .assign left right => do
    return sideEffectIrep .assign [← left.toIrep mm, ← right.toIrep mm]
  | .binOp op lhs rhs => do
    return .mk op.toIrepId [← lhs.toIrep mm, ← rhs.toIrep mm] []
  | .boolConstant c => return constantIrep (.justId (if c then .true else .false))
  | .byteExtract e offset => do
    let id := if mm.isBigEndian then .byteExtractBigEndian else .byteExtractLittleEndian
    return .mk id [← e.toIrep mm, ssizeConstantIrep mm offset] []
  | .cBoolConstant c => return constantIrep (.justHexId (if c then 1 else 0))
  | .dereference e => do return .mk .dereference [← e.toIrep mm] []
  | .doubleConstant bits => return constantIrep (.justHexId bits.toNat)
  | .floatConstant bits => return constantIrep (.justHexId bits.toNat)
  | .functionCall function arguments => do
    return sideEffectIrep .functionCall
      [← function.toIrep mm, argumentsIrep (← exprsToIrep mm arguments)]
  | .ite c t e => do return .mk .ite [← c.toIrep mm, ← t.toIrep mm, ← e.toIrep mm] []
  | .index array index => do return .mk .index [← array.toIrep mm, ← index.toIrep mm] []
  | .intConstant i => return constantIrep (.justHexId i)
  | .member lhs field => do
    return .mk .member [← lhs.toIrep mm] [(.cLvalue, .one), (.componentName, .justStringId field)]
  | .nondet => return sideEffectIrep .nondet []
  | .pointerConstant 0 => return constantIrep (.justId .null)
  | .pointerConstant c => return constantIrep (.justHexId c)
  | .selfOp op e => do return sideEffectIrep op.toIrepId [← e.toIrep mm]
  | .statementExpression statements => do
    -- the statements as a block without a location
    return sideEffectIrep .statementExpression [codeIrep .block (← stmtsToIrep mm statements)]
  | .stringConstant s => return .mk .stringConstant [] [(.value, .justStringId s)]
  | .struct values => do return .mk .struct (← exprsToIrep mm values) []
  | .symbol identifier => return .mk .symbol [] [(.identifier, .justStringId identifier)]
  | .typecast e => do return .mk .typecast [← e.toIrep mm] []
  | .union value field => do
    return .mk .union [← value.toIrep mm] [(.componentName, .justStringId field)]
  | .unOp op e => do return .mk op.toIrepId [← e.toIrep mm] op.namedSub
  | .vector elems => do return .mk .vector (← exprsToIrep mm elems) []

def Stmt.toIrep (mm : MachineModel) : Stmt → Option Irep
  | .mk body location => do
    let i ← body.toIrep mm
    return i.withLocation location

def StmtBody.toIrep (mm : MachineModel) : StmtBody → Option Irep
  | .assign lhs rhs => do return codeIrep .assign [← lhs.toIrep mm, ← rhs.toIrep mm]
  | .assume cond => do return codeIrep .assume [← cond.toIrep mm]
  | .atomicBlock stmts => do
    return codeIrep .block
      ([codeIrep .atomicBegin []] ++ (← stmtsToIrep mm stmts) ++ [codeIrep .atomicEnd []])
  | .block stmts => do return codeIrep .block (← stmtsToIrep mm stmts)
  | .break => return codeIrep .break []
  | .continue => return codeIrep .continue []
  | .decl lhs (some value) => do return codeIrep .decl [← lhs.toIrep mm, ← value.toIrep mm]
  | .decl lhs none => do return codeIrep .decl [← lhs.toIrep mm]
  | .expression e => do return codeIrep .expression [← e.toIrep mm]
  | .for init cond update body => do
    return codeIrep .for [← init.toIrep mm, ← cond.toIrep mm, ← update.toIrep mm, ← body.toIrep mm]
  | .functionCall lhs function arguments => do
    return codeIrep .functionCall
      [← optionExprToIrep mm lhs, ← function.toIrep mm, argumentsIrep (← exprsToIrep mm arguments)]
  | .goto dest => return (codeIrep .goto []).withNamedSub .destination (.justStringId dest)
  | .ifthenelse i t e => do
    return codeIrep .ifthenelse [← i.toIrep mm, ← t.toIrep mm, ← optionStmtToIrep mm e]
  | .label label body => do
    return (codeIrep .label [← body.toIrep mm]).withNamedSub .label (.justStringId label)
  | .return e => do return codeIrep .return [← optionExprToIrep mm e]
  | .skip => return codeIrep .skip []
  | .switch control cases none => do
    return codeIrep .switch [← control.toIrep mm, codeIrep .block (← casesToIrep mm cases)]
  | .switch control cases (some default) => do
    let arms ← casesToIrep mm cases
    let body ← default.toIrep mm
    let arm := ((codeIrep .switchCase [.nil, body]).withNamedSub .default .one).withLocation
      default.location
    return codeIrep .switch [← control.toIrep mm, codeIrep .block (arms ++ [arm])]
  | .while cond body => do return codeIrep .while [← cond.toIrep mm, ← body.toIrep mm]

def SwitchCase.toIrep (mm : MachineModel) : SwitchCase → Option Irep
  | .mk value body => do
    return (codeIrep .switchCase [← value.toIrep mm, ← body.toIrep mm]).withLocation body.location

def exprsToIrep (mm : MachineModel) : List Expr → Option (List Irep)
  | [] => return []
  | e :: es => do return (← e.toIrep mm) :: (← exprsToIrep mm es)

def stmtsToIrep (mm : MachineModel) : List Stmt → Option (List Irep)
  | [] => return []
  | s :: ss => do return (← s.toIrep mm) :: (← stmtsToIrep mm ss)

def casesToIrep (mm : MachineModel) : List SwitchCase → Option (List Irep)
  | [] => return []
  | c :: cs => do return (← c.toIrep mm) :: (← casesToIrep mm cs)

/-- An expression that may be absent; its place is taken by the nil irep. -/
def optionExprToIrep (mm : MachineModel) : Option Expr → Option Irep
  | none => return .nil
  | some e => e.toIrep mm

/-- A statement that may be absent. -/
def optionStmtToIrep (mm : MachineModel) : Option Stmt → Option Irep
  | none => return .nil
  | some s => s.toIrep mm

end

/-! ### Symbols and symbol tables -/

/-- A symbol in the serialization format. -/
structure IrepSymbol where
  typ : Irep
  value : Irep
  location : Irep
  name : String
  module : String
  baseName : String
  prettyName : String
  mode : String
  isType : Bool
  isMacro : Bool
  isExported : Bool
  isInput : Bool
  isOutput : Bool
  isStateVar : Bool
  isProperty : Bool
  isStaticLifetime : Bool
  isThreadLocal : Bool
  isLvalue : Bool
  isFileLocal : Bool
  isExtern : Bool
  isVolatile : Bool
  isParameter : Bool
  isAuxiliary : Bool
  isWeak : Bool

def SymbolModes.toString : SymbolModes → String
  | .c => "C"
  | .rust => "Rust"

def SymbolValues.toIrep (mm : MachineModel) : SymbolValues → Option Irep
  | .expr e => e.toIrep mm
  | .stmt s => s.toIrep mm
  | .none => return .nil

def Symbol.toIrep (mm : MachineModel) (s : Symbol) : Option IrepSymbol := do
  let typ ← s.typ.toIrep mm
  let value ← s.value.toIrep mm
  return {
    typ := typ
    value := value
    location := s.location.toIrep
    name := s.name
    module := s.module.getD ""
    baseName := s.baseName.getD ""
    prettyName := s.prettyName.getD ""
    mode := s.mode.toString
    isType := s.isType
    isMacro := s.isMacro
    isExported := s.isExported
    isInput := s.isInput
    isOutput := s.isOutput
    isStateVar := s.isStateVar
    isProperty := s.isProperty
    isStaticLifetime := s.isStaticLifetime
    isThreadLocal := s.isThreadLocal
    isLvalue := s.isLvalue
    isFileLocal := s.isFileLocal
    isExtern := s.isExtern
    isVolatile := s.isVolatile
    isParameter := s.isParameter
    isAuxiliary := s.isAuxiliary
    isWeak := s.isWeak }

section Table

open OrdMap

variable [Ranked String]

/-- Convert the symbols one after the other and insert them by their names. -/
def symbolsToIrep (mm : MachineModel) :
    List (String × Symbol) → OrdMap String IrepSymbol → Option (OrdMap String IrepSymbol)
  | [], table => some table
  | (_, s) :: rest, table => do
    let i ← s.toIrep mm
    symbolsToIrep mm rest (table.insert i.name i)

def SymbolTable.toIrep (st : SymbolTable) : Option (OrdMap String IrepSymbol) :=
  symbolsToIrep st.machineModel st.symbolTable.entries OrdMap.empty

end Table

/-! ### Integer constants -/

/-- The text that stands for the value of a converted expression. -/
def Expr.valueText (mm : MachineModel) (e : Expr) : Option String := do
  let irep ← e.toIrep mm
  let value ← irep.lookup .value
  return value.id.toString

variable {t : Typ}

lemma Typ.exists_toIrep_of_isInteger (mm : MachineModel) (h : t.isInteger = true) :
    ∃ i, t.toIrep mm = some i := by
  cases t <;> simp_all [Typ.isInteger, Typ.toIrep]

/-- The text that is written for the constant `i` of type `typ`. -/
def intConstantText (mm : MachineModel) (i : ℤ) (typ : Typ) : Option String := do
  let e ← Expr.intConstant i typ
  e.valueText mm

/-- The text has the sign and the absolute value of the integer, whatever the type. -/
lemma intConstantText_eq (mm : MachineModel) (i : ℤ) {typ : Typ} (h : typ.isInteger = true) :
    intConstantText mm i typ = some (Numeral.signedUpperHex i) := by
  obtain ⟨it, hit⟩ := Typ.exists_toIrep_of_isInteger mm h
  have hlookup : ((constantIrep (.justHexId i)).withNamedSub .type it).lookup .value =
      some (.justHexId i) := by
    rw [Irep.lookup_withNamedSub_of_ne (by decide)]
    rfl
  have hirep : (Expr.mk (.intConstant i) typ .none).toIrep mm =
      some ((constantIrep (.justHexId i)).withNamedSub .type it) := by
    simp [Expr.toIrep, ExprValue.toIrep, Irep.withLocation, Location.isNone, Irep.withType, hit]
  have htext : (Expr.mk (.intConstant i) typ .none).valueText mm =
      some (Numeral.signedUpperHex i) := by
    simp only [Expr.valueText, hirep, some_bind, hlookup]
    rfl
  simpa [intConstantText, Expr.intConstant, h, Expr.new] using htext

lemma Typ.exists_nativeWidth_of_isInteger (mm : MachineModel) (h : t.isInteger = true) :
    ∃ w, t.nativeWidth mm = some w := by
  cases t with
  | cInteger kind => cases kind <;> simp [Typ.nativeWidth]
  | signedbv w => exact ⟨w, rfl⟩
  | unsignedbv w => exact ⟨w, rfl⟩
  | _ => simp [Typ.isInteger] at h

/-- The text of a constant is the hexadecimal numeral of its residue modulo `2 ^ w` exactly for the
integers from `0` to `2 ^ w - 1`, and two constants of one type that are congruent have the same
text only when they are equal. -/
theorem intConstantText_eq_upperHex_emod_iff (mm : MachineModel) {typ : Typ}
    (h : typ.isInteger = true) :
    ∃ w, typ.nativeWidth mm = some w ∧ ∀ i : ℤ,
      (intConstantText mm i typ = some (Numeral.upperHex (i % 2 ^ w).toNat) ↔ 0 ≤ i ∧ i < 2 ^ w) ∧
      ∀ j : ℤ, (intConstantText mm i typ = intConstantText mm j typ ↔ i % 2 ^ w = j % 2 ^ w) ↔
        (i % 2 ^ w = j % 2 ^ w → i = j) := by
  obtain ⟨w, hw⟩ := Typ.exists_nativeWidth_of_isInteger mm h
  refine ⟨w, hw, fun i => ⟨?_, fun j => ?_⟩⟩
  · have hpos : (0 : ℤ) < 2 ^ w := by positivity
    have hnonneg := Int.emod_nonneg i hpos.ne'
    rw [intConstantText_eq mm i h, Option.some_inj, Numeral.signedUpperHex_eq_upperHex_iff,
      Int.toNat_of_nonneg hnonneg]
    constructor
    · intro hi
      have hlt := Int.emod_lt_of_pos i hpos
      omega
    · rintro ⟨h0, hlt⟩
      exact (Int.emod_eq_of_lt h0 hlt).symm
  · rw [intConstantText_eq mm i h, intConstantText_eq mm j h, Option.some_inj,
      Numeral.signedUpperHex_injective.eq_iff]
    constructor
    · intro hiff
      exact hiff.mpr
    · intro hcong
      refine ⟨?_, hcong⟩
      rintro rfl
      rfl

/-- On `u8` the constants `200` and `-56` are the same byte, and only the first is written so. -/
theorem intConstantText_eq_upperHex_emod_iff_u8 :
    ∃ w, (Typ.unsignedbv 8).nativeWidth (machineModelFromSession none "x86_64" false 64) = some w ∧
      ∀ i : ℤ,
        (intConstantText (machineModelFromSession none "x86_64" false 64) i (.unsignedbv 8) =
          some (Numeral.upperHex (i % 2 ^ w).toNat) ↔ 0 ≤ i ∧ i < 2 ^ w) ∧
        ∀ j : ℤ,
          (intConstantText (machineModelFromSession none "x86_64" false 64) i (.unsignedbv 8) =
            intConstantText (machineModelFromSession none "x86_64" false 64) j (.unsignedbv 8) ↔
            i % 2 ^ w = j % 2 ^ w) ↔ (i % 2 ^ w = j % 2 ^ w → i = j) :=
  intConstantText_eq_upperHex_emod_iff (machineModelFromSession none "x86_64" false 64) rfl

/-- The least `i8` is written `-80`, where the pattern of its eight bits is `80`. -/
theorem intConstantText_minInt_i8 :
    (Typ.signedbv 8).minIntExpr (machineModelFromSession none "x86_64" false 64) =
      Expr.intConstant (-128) (.signedbv 8) ∧
    intConstantText (machineModelFromSession none "x86_64" false 64) (-128) (.signedbv 8) =
      some "-80" ∧
    Numeral.upperHex ((-128 : ℤ) % 2 ^ 8).toNat = "80" ∧
    intConstantText (machineModelFromSession none "x86_64" false 64) (-128) (.signedbv 8) ≠
      some (Numeral.upperHex ((-128 : ℤ) % 2 ^ 8).toNat) :=
  ⟨rfl, by decide, by decide, by decide⟩

end Rmc

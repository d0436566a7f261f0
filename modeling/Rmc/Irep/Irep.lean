import Rmc.Goto.Syntax
import Rmc.Lib.Numeral

/-!
# Ireps

The serialization format of goto programs (`irep.rs`, `irep_id.rs`): trees whose nodes have an
identifier, unnamed subtrees and named subtrees. Of the fixed identifiers, those stand here that
the conversion of goto programs uses.
-/

namespace Rmc

/-- The identifiers of irep nodes. -/
inductive IrepId where
  | freeformString (s : String)
  | freeformInteger (i : ℤ)
  | freeformHexInteger (i : ℤ)
  | emptyString
  | nil
  | type
  | bool
  | cBool
  | signedbv
  | unsignedbv
  | floatbv
  | cSourceLocation
  | cIsPadding
  | file
  | line
  | column
  | function
  | code
  | typecast
  | index
  | member
  | equal
  | implies
  | and
  | or
  | xor
  | not
  | bitand
  | bitor
  | bitnot
  | bitxor
  | notequal
  | ite
  | symbol
  | empty
  | sideEffect
  | statement
  | statementExpression
  | value
  | constant
  | block
  | decl
  | assign
  | assume
  | goto
  | ifthenelse
  | label
  | break
  | continue
  | functionCall
  | return
  | skip
  | arguments
  | array
  | size
  | pointer
  | switch
  | switchCase
  | for
  | while
  | incomplete
  | identifier
  | name
  | struct
  | cBitField
  | union
  | parameter
  | componentName
  | tag
  | default
  | cBaseName
  | stringConstant
  | width
  | components
  | f
  | true
  | false
  | addressOf
  | dereference
  | cLvalue
  | destination
  | expression
  | nondet
  | null
  | pointerOffset
  | pointerObject
  | ieeeFloatEqual
  | ieeeFloatNotequal
  | arrayOf
  | mod
  | ashr
  | lshr
  | shl
  | rol
  | ror
  | infinity
  | returnType
  | float
  | double
  | postincrement
  | postdecrement
  | preincrement
  | predecrement
  | id0
  | id1
  | ellipsis
  | ge
  | le
  | gt
  | lt
  | plus
  | minus
  | unaryMinus
  | mult
  | div
  | prettyName
  | cIdentifier
  | byteExtractBigEndian
  | byteExtractLittleEndian
  | atomicBegin
  | atomicEnd
  | constructor
  | parameters
  | overflowPlus
  | overflowMinus
  | overflowMult
  | isDynamicObject
  | objectSize
  | vector
  | cCType
  | structTag
  | unionTag
  | popcount
  | countLeadingZeros
  | countTrailingZeros
  | bswap
  | bitsPerByte
  | cBoundsCheck
  deriving DecidableEq, Repr

namespace IrepId

def fromInt (i : ℤ) : IrepId := .freeformInteger i

def hexFromInt (i : ℤ) : IrepId := .freeformHexInteger i

def fromString (s : String) : IrepId := .freeformString s

/-- The text of an identifier. Hexadecimal integers are written with sign and absolute value. -/
def toString : IrepId → String
  | .freeformString s => s
  | .freeformInteger i => ToString.toString i
  | .freeformHexInteger i => Numeral.signedUpperHex i
  | .emptyString => ""
  | .nil => "nil"
  | .type => "type"
  | .bool => "bool"
  | .cBool => "c_bool"
  | .signedbv => "signedbv"
  | .unsignedbv => "unsignedbv"
  | .floatbv => "floatbv"
  | .cSourceLocation => "#source_location"
  | .cIsPadding => "#is_padding"
  | .file => "file"
  | .line => "line"
  | .column => "column"
  | .function => "function"
  | .code => "code"
  | .typecast => "typecast"
  | .index => "index"
  | .member => "member"
  | .equal => "="
  | .implies => "=>"
  | .and => "and"
  | .or => "or"
  | .xor => "xor"
  | .not => "not"
  | .bitand => "bitand"
  | .bitor => "bitor"
  | .bitnot => "bitnot"
  | .bitxor => "bitxor"
  | .notequal => "notequal"
  | .ite => "if"
  | .symbol => "symbol"
  | .empty => "empty"
  | .sideEffect => "side_effect"
  | .statement => "statement"
  | .statementExpression => "statement_expression"
  | .value => "value"
  | .constant => "constant"
  | .block => "block"
  | .decl => "decl"
  | .assign => "assign"
  | .assume => "assume"
  | .goto => "goto"
  | .ifthenelse => "ifthenelse"
  | .label => "label"
  | .break => "break"
  | .continue => "continue"
  | .functionCall => "function_call"
  | .return => "return"
  | .skip => "skip"
  | .arguments => "arguments"
  | .array => "array"
  | .size => "size"
  | .pointer => "pointer"
  | .switch => "switch"
  | .switchCase => "switch_case"
  | .for => "for"
  | .while => "while"
  | .incomplete => "incomplete"
  | .identifier => "identifier"
  | .name => "name"
  | .struct => "struct"
  | .cBitField => "c_bit_field"
  | .union => "union"
  | .parameter => "parameter"
  | .componentName => "component_name"
  | .tag => "tag"
  | .default => "default"
  | .cBaseName => "#base_name"
  | .stringConstant => "string_constant"
  | .width => "width"
  | .components => "components"
  | .f => "f"
  | .true => "true"
  | .false => "false"
  | .addressOf => "address_of"
  | .dereference => "dereference"
  | .cLvalue => "#lvalue"
  | .destination => "destination"
  | .expression => "expression"
  | .nondet => "nondet"
  | .null => "NULL"
  | .pointerOffset => "pointer_offset"
  | .pointerObject => "pointer_object"
  | .ieeeFloatEqual => "ieee_float_equal"
  | .ieeeFloatNotequal => "ieee_float_notequal"
  | .arrayOf => "array_of"
  | .mod => "mod"
  | .ashr => "ashr"
  | .lshr => "lshr"
  | .shl => "shl"
  | .rol => "rol"
  | .ror => "ror"
  | .infinity => "infinity"
  | .returnType => "return_type"
  | .float => "float"
  | .double => "double"
  | .postincrement => "postincrement"
  | .postdecrement => "postdecrement"
  | .preincrement => "preincrement"
  | .predecrement => "predecrement"
  | .id0 => "0"
  | .id1 => "1"
  | .ellipsis => "ellipsis"
  | .ge => ">="
  | .le => "<="
  | .gt => ">"
  | .lt => "<"
  | .plus => "+"
  | .minus => "-"
  | .unaryMinus => "unary-"
  | .mult => "*"
  | .div => "/"
  | .prettyName => "pretty_name"
  | .cIdentifier => "#identifier"
  | .byteExtractBigEndian => "byte_extract_big_endian"
  | .byteExtractLittleEndian => "byte_extract_little_endian"
  | .atomicBegin => "atomic_begin"
  | .atomicEnd => "atomic_end"
  | .constructor => "constructor"
  | .parameters => "parameters"
  | .overflowPlus => "overflow-+"
  | .overflowMinus => "overflow--"
  | .overflowMult => "overflow-*"
  | .isDynamicObject => "is_dynamic_object"
  | .objectSize => "object_size"
  | .vector => "vector"
  | .cCType => "#c_type"
  | .structTag => "struct_tag"
  | .unionTag => "union_tag"
  | .popcount => "popcount"
  | .countLeadingZeros => "count_leading_zeros"
  | .countTrailingZeros => "count_trailing_zeros"
  | .bswap => "bswap"
  | .bitsPerByte => "bits_per_byte"
  | .cBoundsCheck => "#bounds_check"

end IrepId

/-- An irep: an identifier with unnamed and named subtrees. -/
inductive Irep where
  | mk (id : IrepId) (sub : List Irep) (namedSub : List (IrepId × Irep))

namespace Irep

def id : Irep → IrepId
  | .mk i _ _ => i

def sub : Irep → List Irep
  | .mk _ s _ => s

def namedSub : Irep → List (IrepId × Irep)
  | .mk _ _ n => n

/-! ### Getters -/

/-- The subtree of that name. -/
def lookup (self : Irep) (key : IrepId) : Option Irep := self.namedSub.lookup key

def isNil (self : Irep) : Bool := self.id == .nil

/-! ### Constructors -/

def justId (id : IrepId) : Irep := .mk id [] []

def justHexId (i : ℤ) : Irep := justId (.hexFromInt i)

def justIntId (i : ℤ) : Irep := justId (.fromInt i)

def justStringId (s : String) : Irep := justId (.fromString s)

def justNamedSub (namedSub : List (IrepId × Irep)) : Irep := .mk .emptyString [] namedSub

def justSub (sub : List Irep) : Irep := .mk .emptyString sub []

def nil : Irep := justId .nil

def one : Irep := justId .id1

def zero : Irep := justId .id0

/-! ### Builders -/

/-- Insertion into a vector map: the entry of the key is replaced in place, or one is pushed. -/
def insertNamed (key : IrepId) (value : Irep) : List (IrepId × Irep) → List (IrepId × Irep)
  | [] => [(key, value)]
  | (k, v) :: rest => if k = key then (k, value) :: rest else (k, v) :: insertNamed key value rest

def withNamedSub (self : Irep) (key : IrepId) (value : Irep) : Irep :=
  if value.isNil then self else .mk self.id self.sub (insertNamed key value self.namedSub)

def withNamedSubOption (self : Irep) (key : IrepId) : Option Irep → Irep
  | some value => self.withNamedSub key value
  | none => self

@[simp] lemma lookup_mk (i : IrepId) (s : List Irep) (n : List (IrepId × Irep)) (key : IrepId) :
    (mk i s n).lookup key = n.lookup key := rfl

variable {key key' : IrepId}

lemma lookup_insertNamed_of_ne (h : key' ≠ key) (value : Irep) (n : List (IrepId × Irep)) :
    (insertNamed key value n).lookup key' = n.lookup key' := by
  induction n with
  | nil => simp [insertNamed, List.lookup_cons, beq_false_of_ne h]
  | cons entry rest ih =>
    obtain ⟨k, v⟩ := entry
    by_cases hk : k = key
    · simp [insertNamed, hk, List.lookup_cons, beq_false_of_ne h]
    · by_cases hk' : key' = k
      · simp [insertNamed, hk, hk']
      · simp [insertNamed, hk, List.lookup_cons, beq_false_of_ne hk', ih]

lemma lookup_withNamedSub_of_ne (h : key' ≠ key) (self value : Irep) :
    (self.withNamedSub key value).lookup key' = self.lookup key' := by
  unfold withNamedSub
  split
  · rfl
  · exact lookup_insertNamed_of_ne h value self.namedSub

end Irep

end Rmc

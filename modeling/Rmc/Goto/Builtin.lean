import Rmc.Goto.Expr

/-!
# Builtin functions and the symbols every table starts with

The functions of the model checker that are declared in every symbol table (`builtin.rs`), the
symbols that describe the machine (`env.rs`), and the table that holds them
(`SymbolTable::new`).
-/

namespace Rmc

/-- The functions that the model checker knows. -/
inductive BuiltinFn where
  | abort
  | cProverAssert
  | cProverAssume
  | calloc
  | ceil
  | ceilf
  | copysign
  | copysignf
  | cos
  | cosf
  | exp
  | exp2
  | exp2f
  | expf
  | fabs
  | fabsf
  | floor
  | floorf
  | fma
  | fmaf
  | fmax
  | fmaxf
  | fmin
  | fminf
  | free
  | log
  | log10
  | log10f
  | log2
  | log2f
  | logf
  | malloc
  | memcmp
  | memcpy
  | memmove
  | memset
  | nearbyint
  | nearbyintf
  | pow
  | powf
  | powi
  | powif
  | realloc
  | rint
  | rintf
  | round
  | roundf
  | sin
  | sinf
  | sqrt
  | sqrtf
  | trunc
  | truncf
  deriving DecidableEq, Repr

namespace BuiltinFn

/-- The name a builtin function has in the symbol table. -/
def toString : BuiltinFn → String
  | .abort => "abort"
  | .cProverAssert => "__CPROVER_assert"
  | .cProverAssume => "__CPROVER_assume"
  | .calloc => "calloc"
  | .ceil => "ceil"
  | .ceilf => "ceilf"
  | .copysign => "copysign"
  | .copysignf => "copysignf"
  | .cos => "cos"
  | .cosf => "cosf"
  | .exp => "exp"
  | .exp2 => "exp2"
  | .exp2f => "exp2f"
  | .expf => "expf"
  | .fabs => "fabs"
  | .fabsf => "fabsf"
  | .floor => "floor"
  | .floorf => "floorf"
  | .fma => "fma"
  | .fmaf => "fmaf"
  | .fmax => "fmax"
  | .fmaxf => "fmaxf"
  | .fmin => "fmin"
  | .fminf => "fminf"
  | .free => "free"
  | .log => "log"
  | .log10 => "log10"
  | .log10f => "log10f"
  | .log2 => "log2"
  | .log2f => "log2f"
  | .logf => "logf"
  | .malloc => "malloc"
  | .memcmp => "memcmp"
  | .memcpy => "memcpy"
  | .memmove => "memmove"
  | .memset => "memset"
  | .nearbyint => "nearbyint"
  | .nearbyintf => "nearbyintf"
  | .pow => "pow"
  | .powf => "powf"
  | .powi => "__builtin_powi"
  | .powif => "__builtin_powif"
  | .realloc => "realloc"
  | .rint => "rint"
  | .rintf => "rintf"
  | .round => "round"
  | .roundf => "roundf"
  | .sin => "sin"
  | .sinf => "sinf"
  | .sqrt => "sqrt"
  | .sqrtf => "sqrtf"
  | .trunc => "trunc"
  | .truncf => "truncf"

def paramTypes : BuiltinFn → List Typ
  | .abort => []
  | .cProverAssert => [.bool, Typ.cChar.toPointer]
  | .cProverAssume => [.bool]
  | .calloc => [.sizeT, .sizeT]
  | .ceil | .cos | .exp | .exp2 | .fabs | .floor | .log | .log10 | .log2 | .nearbyint | .rint
  | .round | .sin | .sqrt | .trunc => [.double]
  | .ceilf | .cosf | .exp2f | .expf | .fabsf | .floorf | .log10f | .log2f | .logf | .nearbyintf
  | .rintf | .roundf | .sinf | .sqrtf | .truncf => [.float]
  | .copysign | .fmax | .fmin | .pow => [.double, .double]
  | .copysignf | .fmaxf | .fminf | .powf => [.float, .float]
  | .fma => [.double, .double, .double]
  | .fmaf => [.float, .float, .float]
  | .free => [.voidPointer]
  | .malloc => [.sizeT]
  | .memcmp | .memcpy | .memmove => [.voidPointer, .voidPointer, .sizeT]
  | .memset => [.voidPointer, .cInt, .sizeT]
  | .powi => [.double, .cInt]
  | .powif => [.float, .cInt]
  | .realloc => [.voidPointer, .sizeT]

def returnType : BuiltinFn → Typ
  | .abort | .cProverAssert | .cProverAssume | .free => .empty
  | .calloc | .malloc | .memcpy | .memmove | .memset | .realloc => .voidPointer
  | .ceil | .copysign | .cos | .exp | .exp2 | .fabs | .floor | .fma | .fmax | .fmin | .log
  | .log10 | .log2 | .nearbyint | .pow | .powi | .rint | .round | .sin | .sqrt | .trunc => .double
  | .ceilf | .copysignf | .cosf | .exp2f | .expf | .fabsf | .floorf | .fmaf | .fmaxf | .fminf
  | .log10f | .log2f | .logf | .nearbyintf | .powf | .powif | .rintf | .roundf | .sinf | .sqrtf
  | .truncf => .float
  | .memcmp => .cInt

def listAll : List BuiltinFn :=
  [.abort, .cProverAssert, .cProverAssume, .calloc, .ceil, .ceilf, .copysign, .copysignf, .cos,
   .cosf, .exp, .exp2, .exp2f, .expf, .fabs, .fabsf, .floor, .floorf, .fma, .fmaf, .fmax, .fmaxf,
   .fmin, .fminf, .free, .log, .log10, .log10f, .log2, .log2f, .logf, .malloc, .memcmp, .memcpy,
   .memmove, .memset, .nearbyint, .nearbyintf, .pow, .powf, .powi, .powif, .realloc, .rint,
   .rintf, .round, .roundf, .sin, .sinf, .sqrt, .sqrtf, .trunc, .truncf]

def asSymbol (b : BuiltinFn) : Option Symbol :=
  Symbol.builtinFunction b.toString b.paramTypes b.returnType

def asExpr (b : BuiltinFn) : Option Expr := do return (← b.asSymbol).toExpr

def call (b : BuiltinFn) (arguments : List Expr) (loc : Location) : Option Expr := do
  let f ← b.asExpr
  let e ← (f.withLocation loc).call arguments
  return e.withLocation loc

end BuiltinFn

/-! ### The environment -/

namespace Env

def intConstant (name : String) (value : ℤ) : Option Symbol := do
  return Symbol.constant name name name (← Expr.intConstant value .cInt) .none

def intConstantFromBool (name : String) (value : Bool) : Option Symbol :=
  intConstant name (if value then 1 else 0)

def stringConstant (name value : String) : Option Symbol := do
  return Symbol.constant name name name (← Expr.stringConstant value) .none

def machineModelSymbols (mm : MachineModel) : List (Option Symbol) :=
  [stringConstant "__CPROVER_architecture_arch" mm.architecture,
   intConstantFromBool "__CPROVER_architecture_NULL_is_zero" mm.nullIsZero,
   intConstant "__CPROVER_architecture_alignment" mm.alignment,
   intConstant "__CPROVER_architecture_bool_width" mm.boolWidth,
   intConstantFromBool "__CPROVER_architecture_char_is_unsigned" mm.charIsUnsigned,
   intConstant "__CPROVER_architecture_char_width" mm.charWidth,
   intConstant "__CPROVER_architecture_double_width" mm.doubleWidth,
   intConstant "__CPROVER_architecture_endianness" (if mm.isBigEndian then 2 else 1),
   intConstant "__CPROVER_architecture_int_width" mm.intWidth,
   intConstant "__CPROVER_architecture_long_double_width" mm.longDoubleWidth,
   intConstant "__CPROVER_architecture_long_int_width" mm.longIntWidth,
   intConstant "__CPROVER_architecture_long_long_int_width" mm.longLongIntWidth,
   intConstant "__CPROVER_architecture_memory_operand_size" mm.memoryOperandSize,
   intConstant "__CPROVER_architecture_pointer_width" mm.pointerWidth,
   intConstant "__CPROVER_architecture_short_int_width" mm.shortIntWidth,
   intConstant "__CPROVER_architecture_single_width" mm.singleWidth,
   intConstantFromBool "__CPROVER_architecture_wchar_t_is_unsigned" mm.wcharTIsUnsigned,
   intConstant "__CPROVER_architecture_wchar_t_width" mm.wcharTWidth,
   intConstant "__CPROVER_architecture_word_size" mm.wordSize,
   intConstant "__CPROVER_rounding_mode" mm.roundingMode.toInt]

def additionalEnvSymbols : List (Option Symbol) :=
  [Symbol.builtinFunction "__CPROVER_initialize" [] .empty,
   intConstant "__CPROVER_malloc_failure_mode_assert_then_assume" 2,
   intConstant "__CPROVER_malloc_failure_mode_return_null" 1,
   some (Symbol.typedefSymbol "__CPROVER_size_t" "__CPROVER_size_t" .sizeT .none),
   some { Symbol.staticVariable "__CPROVER_memory" "__CPROVER_memory"
           (Typ.unsignedbv 8).infiniteArrayOf .none with isExtern := true }]

end Env

open OrdMap

variable [Ranked String]

namespace SymbolTable

/-- The symbols that every table starts with, in the order in which they are inserted. -/
def initialSymbols (mm : MachineModel) : List (Option Symbol) :=
  Env.machineModelSymbols mm ++ Env.additionalEnvSymbols ++ BuiltinFn.listAll.map BuiltinFn.asSymbol

/-- Insert symbols one after the other. -/
def insertAll : SymbolTable → List (Option Symbol) → Option SymbolTable
  | st, [] => some st
  | st, s :: ss => do insertAll (← st.insert (← s)) ss

/-- A new symbol table. -/
def new (mm : MachineModel) : Option SymbolTable := insertAll (empty mm) (initialSymbols mm)

/-! ### A new table has its symbols -/

/-- Symbols of distinct new names can be inserted, and are all that is added. -/
lemma exists_insertAll {ss : List Symbol} (hnodup : (ss.map Symbol.name).Nodup)
    {st : SymbolTable} (hmissing : ∀ s ∈ ss, st.lookup s.name = none) :
    ∃ st', insertAll st (ss.map some) = some st' ∧
      ∀ name s, st'.lookup name = some s ↔ st.lookup name = some s ∨ s ∈ ss ∧ s.name = name := by
  induction ss generalizing st with
  | nil => exact ⟨st, rfl, by simp⟩
  | cons s ss ih =>
    obtain ⟨hs, hmissing⟩ := List.forall_mem_cons.1 hmissing
    rw [List.map_cons, List.nodup_cons] at hnodup
    have hmissing' : ∀ s' ∈ ss, (st.set s).lookup s'.name = none := by
      intro s' hs'
      have hne : s'.name ≠ s.name := fun heq => hnodup.1 (heq ▸ List.mem_map_of_mem hs')
      rw [lookup_set, if_neg hne]
      exact hmissing s' hs'
    obtain ⟨st', hrun, hlookup⟩ := ih hnodup.2 hmissing'
    have hinsert : st.insert s = some (st.set s) := insert_eq_some.2 ⟨hs, rfl⟩
    refine ⟨st', by simp [insertAll, hinsert, hrun], fun name s' => ?_⟩
    rw [hlookup, lookup_set]
    split_ifs with hname
    · subst hname
      simp only [hs, List.mem_cons, Option.some.injEq, reduceCtorEq, false_or]
      constructor
      · rintro (rfl | ⟨hmem, heq⟩)
        · exact ⟨.inl rfl, rfl⟩
        · exact ⟨.inr hmem, heq⟩
      · rintro ⟨rfl | hmem, heq⟩
        · exact .inl rfl
        · exact .inr ⟨hmem, heq⟩
    · have hne : ¬ (s' = s ∧ s'.name = name) := by
        rintro ⟨rfl, rfl⟩
        exact hname rfl
      simp only [List.mem_cons, or_and_right, hne, false_or]

section

omit [Ranked String]

/-- The names of the initial symbols are the same for all machines. -/
lemma names_initialSymbols (mm : MachineModel) :
    (initialSymbols mm).map (Option.map Symbol.name) =
      (initialSymbols (machineModelFromSession none "x86_64" false 64)).map
        (Option.map Symbol.name) :=
  rfl

lemma isSome_initialSymbols (mm : MachineModel) : ∀ o ∈ initialSymbols mm, o.isSome = true := by
  intro o ho
  have hname : o.map Symbol.name ∈ (initialSymbols mm).map (Option.map Symbol.name) :=
    List.mem_map_of_mem ho
  rw [names_initialSymbols] at hname
  have hall : ∀ o ∈ (initialSymbols (machineModelFromSession none "x86_64" false 64)).map
      (Option.map Symbol.name), o.isSome = true := by decide
  rw [← Option.isSome_map]
  exact hall _ hname

lemma nodup_names_initialSymbols (mm : MachineModel) :
    ((initialSymbols mm).map (Option.map Symbol.name)).Nodup := by
  rw [names_initialSymbols]
  decide +kernel

end

/-- No assertion fails when a table is made, and it has the initial symbols. -/
theorem exists_new (mm : MachineModel) : ∃ st, SymbolTable.new mm = some st ∧
    ∀ name s, st.lookup name = some s ↔ some s ∈ initialSymbols mm ∧ s.name = name := by
  obtain ⟨ss, hss⟩ : initialSymbols mm ∈ Set.range (List.map some) := by
    rw [Set.range_list_map]
    intro o ho
    obtain ⟨s, rfl⟩ := Option.isSome_iff_exists.1 (isSome_initialSymbols mm o ho)
    exact ⟨s, rfl⟩
  have hnodup : (ss.map Symbol.name).Nodup := by
    have h := nodup_names_initialSymbols mm
    rw [← hss, List.map_map] at h
    exact List.Nodup.of_map some (by rwa [List.map_map])
  have hmissing : ∀ s ∈ ss, (empty mm).lookup s.name = none := fun _ _ => rfl
  obtain ⟨st, hrun, hlookup⟩ := exists_insertAll hnodup hmissing
  refine ⟨st, by rw [SymbolTable.new, ← hss, hrun], fun name s => ?_⟩
  rw [hlookup, ← hss]
  simp [lookup, empty]

end SymbolTable

end Rmc

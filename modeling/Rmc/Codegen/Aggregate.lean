import Rmc.Goto.Eval
import Rmc.Lib.Numeral
import Rmc.Lib.RoundUp

/-!
# Structs and unions

How the struct or union of a Rust type gets into the symbol table (`ensure_struct`,
`ensure_union`) and how its components are laid out (`codegen_struct_fields`). The table first
holds an incomplete type, so that a type which refers to itself ends, and then the complete one.
The components are the fields in the order of their offsets, with padding in between.
-/

namespace Rmc.Codegen

open OrdMap RoundUp

variable [Ranked String] {name : String} {s : Symbol} {st st' st'' : SymbolTable}

/-! ### Tables that keep their symbols -/

/-- The table only got new symbols. -/
structure Keeps (st st' : SymbolTable) : Prop where
  machineModel : st'.machineModel = st.machineModel
  lookup : ∀ {name s}, st.lookup name = some s → st'.lookup name = some s

namespace Keeps

lemma refl (st : SymbolTable) : Keeps st st := ⟨rfl, fun h => h⟩

section

variable (h : Keeps st st')

include h

lemma trans (h' : Keeps st' st'') : Keeps st st'' :=
  ⟨h'.machineModel.trans h.machineModel, fun hs => h'.lookup (h.lookup hs)⟩

lemma le : SymbolTable.Le st st' :=
  ⟨h.machineModel, fun hs => ⟨_, h.lookup hs, .inl rfl⟩⟩

lemma lookup_eq_none (hnone : st'.lookup name = none) : st.lookup name = none := by
  cases hs : st.lookup name with
  | none => rfl
  | some s => simp [h.lookup hs] at hnone

/-- A symbol under a new name can be put into the table. -/
lemma set (hnew : st.lookup s.name = none) : Keeps st (st'.set s) := by
  refine ⟨h.machineModel, fun {name s'} hs' => ?_⟩
  have hne : name ≠ s.name := by
    rintro rfl
    simp [hnew] at hs'
  rw [SymbolTable.lookup_set_of_ne _ hne]
  exact h.lookup hs'

end

end Keeps

/-! ### Entering an aggregate -/

/-- The two kinds of aggregates. -/
inductive Aggr where
  | struct
  | union
  deriving DecidableEq, Repr

namespace Aggr

def incomplete : Aggr → String → Option String → Option Symbol
  | .struct => Symbol.incompleteStruct
  | .union => Symbol.incompleteUnion

def complete : Aggr → String → Option String → List DatatypeComponent → Option Symbol
  | .struct => Symbol.structType
  | .union => Symbol.unionType

def tag : Aggr → String → Typ
  | .struct => Typ.mkStructTag
  | .union => Typ.mkUnionTag

def incompleteTyp : Aggr → String → Typ
  | .struct => .incompleteStruct
  | .union => .incompleteUnion

def completeTyp : Aggr → String → List DatatypeComponent → Typ
  | .struct => .struct
  | .union => .union

/-- The symbol of an aggregate type. -/
def symbol (name : String) (prettyName : Option String) (t : Typ) : Symbol :=
  { name := aggrTag name, location := .none, typ := t, value := .none, baseName := some name,
    prettyName := prettyName, isType := true }

variable (k : Aggr) (name : String) (prettyName : Option String)

section

omit [Ranked String]

lemma incomplete_eq :
    k.incomplete name prettyName = some (symbol name prettyName (k.incompleteTyp name)) := by
  cases k <;> rfl

variable {components : List DatatypeComponent}

lemma complete_eq (h : (components.map DatatypeComponent.name).Nodup) :
    k.complete name prettyName components =
      some (symbol name prettyName (k.completeTyp name components)) := by
  cases k <;>
    simp [complete, Symbol.structType, Symbol.unionType, Typ.structType, Typ.unionType,
      Typ.componentsAreUnique, h, Symbol.aggrTy, Typ.tag, symbol, completeTyp]

/-- An aggregate with two components of one name is refused. -/
lemma complete_eq_some :
    k.complete name prettyName components = some s ↔
      (components.map DatatypeComponent.name).Nodup ∧
        s = symbol name prettyName (k.completeTyp name components) := by
  by_cases h : (components.map DatatypeComponent.name).Nodup
  · simp [k.complete_eq name prettyName h, h, eq_comm]
  · cases k <;>
      simp [complete, Symbol.structType, Symbol.unionType, Typ.structType, Typ.unionType,
        Typ.componentsAreUnique, h]

@[simp] lemma name_symbol (t : Typ) : (symbol name prettyName t).name = aggrTag name := rfl

@[simp] lemma typ_symbol (t : Typ) : (symbol name prettyName t).typ = t := rfl

lemma completes_incompleteTyp (components : List DatatypeComponent) :
    (k.completeTyp name components).completes (k.incompleteTyp name) = true := by
  cases k <;> simp [completeTyp, incompleteTyp, Typ.completes]

@[simp] lemma typeName_tag : (k.tag name).typeName = some (aggrTag name) := by
  cases k <;> rfl

@[simp] lemma components_completeTyp (components : List DatatypeComponent) :
    (k.completeTyp name components).components = some components := by
  cases k <;> rfl

end

end Aggr

/-- A state of the translation, which holds the symbol table. -/
class TableState (σ : Type) where
  table : σ → SymbolTable
  withTable : SymbolTable → σ → σ
  table_withTable : ∀ st ctx, table (withTable st ctx) = st

export TableState (table withTable table_withTable)

attribute [simp] table_withTable

/-- The symbol table alone, for what works on nothing else. -/
instance : TableState SymbolTable := ⟨fun st => st, fun st _ => st, fun _ _ => rfl⟩

@[simp] lemma table_symbolTable (st : SymbolTable) : table st = st := rfl

@[simp] lemma withTable_symbolTable (st st' : SymbolTable) : withTable st st' = st := rfl

/-- Code generation on a state. -/
abbrev GenOn (σ α : Type) := σ → Option (α × σ)

/-- Code generation that works on the symbol table. -/
abbrev Gen (α : Type) := GenOn SymbolTable α

def startsWithTag (name : String) : Bool := "tag-".toList.isPrefixOf name.toList

omit [Ranked String] in
lemma startsWithTag_append_of_true (h : startsWithTag name = true) (rest : String) :
    startsWithTag (name ++ rest) = true := by
  rw [startsWithTag, List.isPrefixOf_iff_prefix] at h ⊢
  rw [String.toList_append]
  exact h.trans (List.prefix_append _ _)

omit [Ranked String] in
/-- A name that is long enough decides how a longer one starts. -/
lemma startsWithTag_append_of_false (h : startsWithTag name = false) (hlength : 4 ≤ name.length)
    (rest : String) :
    startsWithTag (name ++ rest) = false := by
  rw [← Bool.not_eq_true, startsWithTag, List.isPrefixOf_iff_prefix] at h ⊢
  rw [String.toList_append]
  refine fun hprefix => h (List.prefix_of_prefix_length_le hprefix (List.prefix_append _ _) ?_)
  rwa [String.length_toList]

/-- The tag of an aggregate, which is entered with the components that `f` makes unless it is in
the table. -/
def ensureAggr {σ : Type} [TableState σ] (k : Aggr) (name : String) (prettyName : Option String)
    (f : String → GenOn σ (List DatatypeComponent)) : GenOn σ Typ := fun ctx => do
  guard (startsWithTag name = false)
  if (table ctx).contains (aggrTag name) then return (k.tag name, ctx)
  else
    -- the incomplete type ends the recursion of a type that refers to itself
    let st₁ ← (table ctx).insert (← k.incomplete name prettyName)
    let (components, ctx₂) ← f name (withTable st₁ ctx)
    let st₃ ← (table ctx₂).replaceWithCompletion (← k.complete name prettyName components)
    return (k.tag name, withTable st₃ ctx₂)

def ensureStruct {σ : Type} [TableState σ] (structName : String) (prettyName : Option String)
    (f : String → GenOn σ (List DatatypeComponent)) : GenOn σ Typ :=
  ensureAggr .struct structName prettyName f

def ensureUnion {σ : Type} [TableState σ] (unionName : String) (prettyName : Option String)
    (f : String → GenOn σ (List DatatypeComponent)) : GenOn σ Typ :=
  ensureAggr .union unionName prettyName f

variable {t : Typ}

section Ensure

variable {k : Aggr} {prettyName : Option String} {f : String → Gen (List DatatypeComponent)}
  {components : List DatatypeComponent} {σ : Type} {ctx : σ}

variable (k prettyName) in
/-- A new aggregate stands in the table with its components, next to what its components
entered. -/
lemma exists_ensureAggr [TableState σ] (f : String → GenOn σ (List DatatypeComponent))
    {ctx₂ : σ} (hname : startsWithTag name = false)
    (hnew : (table ctx).lookup (aggrTag name) = none)
    (hf : f name (withTable
      ((table ctx).set (Aggr.symbol name prettyName (k.incompleteTyp name))) ctx) =
        some (components, ctx₂))
    (hkeeps : Keeps ((table ctx).set (Aggr.symbol name prettyName (k.incompleteTyp name)))
      (table ctx₂)) (hunique : (components.map DatatypeComponent.name).Nodup) :
    ∃ st', ensureAggr k name prettyName f ctx = some (k.tag name, withTable st' ctx₂) ∧
      Keeps (table ctx) st' ∧ SymbolTable.Le (table ctx₂) st' ∧ st'.lookup (aggrTag name) =
        some (Aggr.symbol name prettyName (k.completeTyp name components)) ∧
      ∀ {x}, x ≠ aggrTag name → st'.lookup x = (table ctx₂).lookup x := by
  have hcontains := SymbolTable.contains_eq_false_iff.mpr hnew
  have hinsert : (table ctx).insert (Aggr.symbol name prettyName (k.incompleteTyp name)) =
      some ((table ctx).set (Aggr.symbol name prettyName (k.incompleteTyp name))) :=
    SymbolTable.insert_eq_some.mpr ⟨hnew, rfl⟩
  have hold := hkeeps.lookup
    ((table ctx).lookup_set_self (Aggr.symbol name prettyName (k.incompleteTyp name)))
  have hreplace : (table ctx₂).replaceWithCompletion
      (Aggr.symbol name prettyName (k.completeTyp name components)) = some _ :=
    SymbolTable.replaceWithCompletion_eq_some.mpr
      ⟨⟨_, hold, k.completes_incompleteTyp name components⟩, rfl⟩
  refine ⟨_, ?_, ?_, SymbolTable.le_replaceWithCompletion hreplace, ?_, ?_⟩
  · simp [ensureAggr, hname, hcontains, k.incomplete_eq, hinsert, hf,
      k.complete_eq name prettyName hunique, hreplace]
  · exact (((Keeps.refl _).set hnew).trans hkeeps).set hnew
  · exact (table ctx₂).lookup_set_self _
  · exact fun hne => (table ctx₂).lookup_set_of_ne hne

lemma ensureAggr_eq_none (hname : startsWithTag name = true) :
    ensureAggr k name prettyName f st = none := by
  simp [ensureAggr, hname]

/-- What entering an aggregate did: it was in the table, or its components were made with the
incomplete type in the table. -/
lemma ensureAggr_eq_some [TableState σ] {f : String → GenOn σ (List DatatypeComponent)} {ctx' : σ}
    (h : ensureAggr k name prettyName f ctx = some (t, ctx')) :
    t = k.tag name ∧
      ((∃ s, (table ctx).lookup (aggrTag name) = some s) ∧ ctx' = ctx ∨
        (table ctx).lookup (aggrTag name) = none ∧ ∃ components ctx₂,
          f name (withTable
            ((table ctx).set (Aggr.symbol name prettyName (k.incompleteTyp name))) ctx) =
              some (components, ctx₂) ∧
          ctx' = withTable ((table ctx₂).set
            (Aggr.symbol name prettyName (k.completeTyp name components))) ctx₂) := by
  simp only [ensureAggr, bind_eq_some, Option.pure_def] at h
  obtain ⟨_, _, h⟩ := h
  split at h
  · rename_i hcontains
    simp only [Option.some.injEq, Prod.mk.injEq] at h
    exact ⟨h.1.symm, .inl ⟨SymbolTable.contains_iff.mp hcontains, h.2.symm⟩⟩
  · simp only [bind_eq_some, k.incomplete_eq, Option.some.injEq, exists_eq_left',
      SymbolTable.insert_eq_some, Aggr.name_symbol, Prod.exists, Aggr.complete_eq_some,
      SymbolTable.replaceWithCompletion_eq_some, Prod.mk.injEq] at h
    obtain ⟨_, ⟨hnew, rfl⟩, components, ctx₂, hf, _, ⟨_, rfl⟩, _, ⟨_, rfl⟩, rfl, rfl⟩ := h
    exact ⟨rfl, .inr ⟨hnew, components, ctx₂, hf, rfl⟩⟩

section

variable (h : st.lookup (aggrTag name) =
  some (Aggr.symbol name prettyName (k.completeTyp name components)))

include h

lemma lookupFieldsInType_of_lookup : st.lookupFieldsInType (k.tag name) = some components := by
  rw [SymbolTable.lookupFieldsInType_eq, Aggr.typeName_tag, Option.bind_some,
    SymbolTable.lookupComponents]
  simp [h]

lemma sizeofInBits_of_lookup :
    (k.tag name).sizeofInBits st = (k.completeTyp name components).sizeofInBits st := by
  have htag : (k.tag name).sizeofInBits st = st.sizeofTag (aggrTag name) := by
    cases k <;> rfl
  rw [htag, SymbolTable.sizeofTag_eq, h]
  rfl

end

end Ensure

/-! ### Layouts -/

/-- How the fields of a type are placed; offsets are in bits. -/
inductive FieldsShape where
  | primitive
  | union (count : ℕ)
  | array (stride count : ℕ)
  | arbitrary (offsets memoryIndex : List ℕ)
  deriving DecidableEq, Repr

/-- What is read of a layout: its fields, and its alignment in bits. -/
structure Layout where
  fields : FieldsShape
  align : ℕ
  deriving DecidableEq, Repr

/-- The place of a field in memory order is entered into the inverse. -/
def invertAt (memoryIndex : List ℕ) (inverse : List ℕ) (i : ℕ) : Option (List ℕ) := do
  let m ← memoryIndex[i]?
  guard (m < inverse.length)
  return inverse.set m i

namespace FieldsShape

def count : FieldsShape → ℕ
  | .primitive => 0
  | .union count => count
  | .array _ count => count
  | .arbitrary offsets _ => offsets.length

/-- The offset of a field. -/
def offset : FieldsShape → ℕ → Option ℕ
  | .primitive, _ => none
  | .union count, i => if i < count then some 0 else none
  | .array stride count, i => if i < count then some (stride * i) else none
  | .arbitrary offsets _, i => offsets[i]?

/-- The fields in memory order. Up to 64 fields the inverse is an array of 64 places. -/
def indexByIncreasingOffset : FieldsShape → Option (List ℕ)
  | .arbitrary offsets memoryIndex => do
    let count := offsets.length
    let size := if count ≤ 64 then 64 else count
    let inverse ← (List.range count).foldlM (invertAt memoryIndex) (List.replicate size 0)
    return inverse.take count
  | shape => some (List.range shape.count)

end FieldsShape

/-! ### Fields -/

/-- The padding between two offsets. -/
def codegenStructPadding (currentOffset nextOffset idx : ℕ) : Option (Option DatatypeComponent) :=
  if currentOffset < nextOffset then
    some (some (.padding ("$pad" ++ toString idx) (nextOffset - currentOffset)))
  else if currentOffset = nextOffset then some none
  else none

/-- The padding at the end of a struct, to a multiple of its alignment. -/
def codegenAlignPadding (finalFields : List DatatypeComponent) (offset align : ℕ) :
    Option (List DatatypeComponent) := do
  guard (align ≠ 0)
  let overhang := offset % align
  if overhang ≠ 0 then
    let padding ← codegenStructPadding offset ((← checkedU64 (offset + align)) - overhang)
      finalFields.length
    return finalFields ++ [← padding]
  else return finalFields

section StructFields

variable {Ty : Type} (codegenTy : Ty → Gen Typ) (sizeInBits : Ty → ℕ)

/-- One field of a struct, after the padding in front of it. -/
def codegenStructField (offsets : List ℕ) (flds : List (String × Ty))
    (acc : (List DatatypeComponent × ℕ) × SymbolTable) (idx : ℕ) :
    Option ((List DatatypeComponent × ℕ) × SymbolTable) := do
  let ((finalFields, offset), st) := acc
  let fldOffset ← offsets[idx]?
  let (fldName, fldTy) ← flds[idx]?
  let padding ← codegenStructPadding offset fldOffset finalFields.length
  let (t, st) ← codegenTy fldTy st
  let offset ← checkedU64 (fldOffset + sizeInBits fldTy)
  return ((finalFields ++ padding.toList ++ [.field fldName t], offset), st)

/-- The components of a struct. The fields are `flds`, their order and offsets those of the
layout; `initialOffset` is where the struct starts in its parent. -/
def codegenStructFields (flds : List (String × Ty)) (layout : Layout) (initialOffset : ℕ) :
    Gen (List DatatypeComponent) := fun st =>
  match layout.fields with
  | .arbitrary offsets memoryIndex => do
    guard (flds.length = offsets.length)
    guard (offsets.length = memoryIndex.length)
    let order ← layout.fields.indexByIncreasingOffset
    let ((finalFields, offset), st) ←
      order.foldlM (codegenStructField codegenTy sizeInBits offsets flds) (([], initialOffset), st)
    return (← codegenAlignPadding finalFields offset layout.align, st)
  | .primitive => some ([], st)
  | _ => none

/-- The components of a union: its fields, with no padding behind them. -/
def codegenUnionFields : List (String × Ty) → Gen (List DatatypeComponent)
  | [], st => some ([], st)
  | (fldName, fldTy) :: flds, st => do
    let (t, st) ← codegenTy fldTy st
    let (components, st) ← codegenUnionFields flds st
    return (.field fldName t :: components, st)

/-- The union of a union type; `name` is its mangled name. -/
def codegenUnion (name prettyName : String) (flds : List (String × Ty)) : Gen Typ :=
  ensureUnion name (some prettyName) fun _ => codegenUnionFields codegenTy flds

end StructFields

/-! ### Components in a row -/

section Row

variable {mm : MachineModel} {tags : String → Option ℕ} {cs : List DatatypeComponent}
  {c : DatatypeComponent} {a b : ℕ}

omit [Ranked String] in
lemma sizeofSum_concat (hcs : sizeofSum mm tags cs = some a) (hc : c.sizeofWith mm tags = some b)
    (hlt : a + b < 2 ^ 64) : sizeofSum mm tags (cs ++ [c]) = some (a + b) := by
  induction cs generalizing a with
  | nil =>
    simp only [sizeofSum, Option.some.injEq] at hcs
    subst hcs
    simp_all [sizeofSum, checkedU64]
  | cons d cs ih =>
    simp only [sizeofSum, bind_eq_some] at hcs
    obtain ⟨m, hm, k, hk, hsum⟩ := hcs
    have ha : a = m + k := by
      simp only [checkedU64, Option.ite_none_right_eq_some, Option.some.injEq] at hsum
      exact hsum.2.symm
    have hrest := ih hk (by omega)
    simp only [List.cons_append, sizeofSum, hm, hrest, some_bind, checkedU64]
    rw [if_pos (by omega), ha, Nat.add_assoc]

variable {field : String}

lemma fieldOffsetInBits_concat (h : fieldOffsetInBits st cs field = some a) :
    fieldOffsetInBits st (cs ++ [c]) field = some a := by
  induction cs generalizing a with
  | nil => simp [fieldOffsetInBits] at h
  | cons d cs ih =>
    rw [fieldOffsetInBits] at h
    rw [List.cons_append, fieldOffsetInBits]
    split_ifs at h ⊢ with hname
    · exact h
    · simp only [bind_eq_some] at h ⊢
      obtain ⟨m, hm, o, ho, hsum⟩ := h
      exact ⟨m, hm, o, ih ho, hsum⟩

lemma fieldOffsetInBits_concat_self (hnew : c.name ∉ cs.map DatatypeComponent.name)
    (h : sizeofSum st.machineModel st.sizeofTag cs = some a) :
    fieldOffsetInBits st (cs ++ [c]) c.name = some a := by
  induction cs generalizing a with
  | nil =>
    simp only [sizeofSum, Option.some.injEq] at h
    simp [fieldOffsetInBits, h]
  | cons d cs ih =>
    simp only [List.map_cons, List.mem_cons, not_or] at hnew
    simp only [sizeofSum, bind_eq_some] at h
    obtain ⟨m, hm, k, hk, hsum⟩ := h
    have ha : a = m + k := by
      simp only [checkedU64, Option.ite_none_right_eq_some, Option.some.injEq] at hsum
      exact hsum.2.symm
    rw [List.cons_append, fieldOffsetInBits, if_neg (Ne.symm hnew.1), hm, ih hnew.2 hk, ha]
    rfl

lemma fieldOffsetInBits_mono (hle : SymbolTable.Le st st')
    (h : fieldOffsetInBits st cs field = some a) : fieldOffsetInBits st' cs field = some a := by
  induction cs generalizing a with
  | nil => simp [fieldOffsetInBits] at h
  | cons d cs ih =>
    rw [fieldOffsetInBits] at h ⊢
    split_ifs at h ⊢ with hname
    · exact h
    · simp only [bind_eq_some] at h ⊢
      obtain ⟨m, hm, o, ho, hsum⟩ := h
      refine ⟨m, ?_, o, ih ho, hsum⟩
      rw [hle.machineModel]
      cases d with
      | field name t => exact Typ.sizeofWith_mono hle.sizeofTag t hm
      | padding name bits => exact hm

end Row

def IsPadName (name : String) : Prop := ∃ i : ℕ, name = "$pad" ++ toString i

omit [Ranked String] in
lemma not_isPadName_of_head (name : String) (h : name.toList.head? ≠ some '$') :
    ¬ IsPadName name := by
  rintro ⟨i, rfl⟩
  exact h (by simp [String.toList_append])

/-- The components fill the place from `start` to `offset`, and hold the fields with their
offsets. -/
structure Filled (st : SymbolTable) (start : ℕ) (cs : List DatatypeComponent) (offset : ℕ)
    (fields : List (String × ℕ)) : Prop where
  start_le : start ≤ offset
  size : sizeofSum st.machineModel st.sizeofTag cs = some (offset - start)
  unique : (cs.map DatatypeComponent.name).Nodup
  names : ∀ name ∈ cs.map DatatypeComponent.name,
    (∃ i < cs.length, name = "$pad" ++ toString i) ∨ name ∈ fields.map Prod.fst
  placed : ∀ p ∈ fields, fieldOffsetInBits st cs p.1 = some (p.2 - start)

namespace Filled

variable {start offset : ℕ} {cs : List DatatypeComponent} {fields : List (String × ℕ)}

lemma nil (st : SymbolTable) (start : ℕ) : Filled st start [] start [] :=
  ⟨le_rfl, by simp [sizeofSum], by simp, by simp, by simp⟩

section

variable (h : Filled st start cs offset fields)

include h

lemma mono (hle : SymbolTable.Le st st') :
    Filled st' start cs offset fields where
  start_le := h.start_le
  size := by
    rw [hle.machineModel]
    exact Typ.sizeofWith_mono hle.sizeofTag (.struct "" cs) h.size
  unique := h.unique
  names := h.names
  placed p hp := fieldOffsetInBits_mono hle (h.placed p hp)

/-- A field is put at the end. -/
lemma field {n : ℕ} (ht : t.sizeofInBits st = some n) (hlt : offset + n < 2 ^ 64)
    (hnew : name ∉ fields.map Prod.fst) (hpad : ¬ IsPadName name) :
    Filled st start (cs ++ [.field name t]) (offset + n) (fields ++ [(name, offset)]) := by
  have hstart := h.start_le
  have hfresh : name ∉ cs.map DatatypeComponent.name := by
    intro hmem
    rcases h.names name hmem with ⟨i, -, hi⟩ | hmem
    · exact hpad ⟨i, hi⟩
    · exact hnew hmem
  refine ⟨by omega, ?_, ?_, ?_, ?_⟩
  · rw [show offset + n - start = offset - start + n by omega]
    exact sizeofSum_concat h.size ht (by omega)
  · rw [List.map_append, List.map_singleton, ← List.concat_eq_append]
    exact h.unique.concat hfresh
  · intro name' hname'
    rw [List.map_append, List.map_singleton, List.mem_append, List.mem_singleton] at hname'
    rcases hname' with hname' | rfl
    · rcases h.names name' hname' with ⟨i, hi, rfl⟩ | hmem
      · exact .inl ⟨i, by simp; omega, rfl⟩
      · exact .inr (by simp [hmem])
    · exact .inr (by simp)
  · intro p hp
    rcases List.mem_append.mp hp with hp | hp
    · exact fieldOffsetInBits_concat (h.placed p hp)
    · obtain rfl := List.mem_singleton.mp hp
      exact fieldOffsetInBits_concat_self hfresh h.size

variable {current next : ℕ}

/-- Padding under an unused name is put at the end; it is as long as the way between the two
offsets that it is made for. -/
lemma padding_of_fresh (idx : ℕ) (hle : current ≤ next) (hlt : offset + (next - current) < 2 ^ 64)
    (hidx : idx ≤ cs.length) (hfresh : "$pad" ++ toString idx ∉ cs.map DatatypeComponent.name) :
    ∃ pad, codegenStructPadding current next idx = some pad ∧
      Filled st start (cs ++ pad.toList) (offset + (next - current)) fields := by
  rcases hle.lt_or_eq with hlt' | rfl
  · have hstart := h.start_le
    refine ⟨_, by rw [codegenStructPadding, if_pos hlt'], by omega, ?_, ?_, ?_, ?_⟩
    · rw [show offset + (next - current) - start = offset - start + (next - current) by omega]
      exact sizeofSum_concat h.size (by simp [DatatypeComponent.sizeofWith, hlt']) (by omega)
    · rw [Option.toList_some, List.map_append, List.map_singleton, ← List.concat_eq_append]
      exact h.unique.concat hfresh
    · intro name hname
      rw [Option.toList_some, List.map_append, List.map_singleton, List.mem_append,
        List.mem_singleton] at hname
      rcases hname with hname | rfl
      · rcases h.names name hname with ⟨i, hi, rfl⟩ | hmem
        · exact .inl ⟨i, by simp; omega, rfl⟩
        · exact .inr hmem
      · exact .inl ⟨idx, by simp; omega, rfl⟩
    · exact fun p hp => fieldOffsetInBits_concat (h.placed p hp)
  · refine ⟨none, by simp [codegenStructPadding], ?_⟩
    simpa using h

/-- Padding that is named by the number of components has an unused name. -/
lemma padding (hle : current ≤ next) (hlt : offset + (next - current) < 2 ^ 64)
    (hfields : ∀ name ∈ fields.map Prod.fst, ¬ IsPadName name) :
    ∃ pad, codegenStructPadding current next cs.length = some pad ∧
      Filled st start (cs ++ pad.toList) (offset + (next - current)) fields := by
  refine h.padding_of_fresh cs.length hle hlt le_rfl fun hmem => ?_
  rcases h.names _ hmem with ⟨i, hi, heq⟩ | hmem
  · have : cs.length = i := Numeral.repr_injective (by simpa using heq)
    omega
  · exact hfields _ hmem ⟨_, rfl⟩

end

end Filled

variable {fields : List (String × ℕ)}

/-- The padding at the end of a struct leads to a multiple of the alignment from where its fields
end in the layout. -/
lemma exists_codegenAlignPadding (h : Filled st start cs pos fields) (halign : 0 < align)
    (hlt : roundUp offset align + offset % align < 2 ^ 64)
    (hpos : pos + (roundUp offset align - offset) < 2 ^ 64)
    (hfields : ∀ name ∈ fields.map Prod.fst, ¬ IsPadName name) :
    ∃ cs', codegenAlignPadding cs offset align = some cs' ∧
      Filled st start cs' (pos + (roundUp offset align - offset)) fields := by
  by_cases hover : offset % align = 0
  · refine ⟨cs, ?_, ?_⟩
    · simp [codegenAlignPadding, hover, halign.ne']
    · simpa [roundUp, hover] using h
  · have hmod := Nat.mod_lt offset halign
    have hle : offset ≤ offset + align - offset % align := by omega
    rw [roundUp, if_neg hover] at hlt hpos ⊢
    have hlt' : offset + align < 2 ^ 64 := by omega
    obtain ⟨pad, hpad, hfilled⟩ := h.padding hle hpos hfields
    -- the offset moves, so there is padding
    have hsome : pad = some (.padding ("$pad" ++ toString cs.length)
        (offset + align - offset % align - offset)) := by
      rw [codegenStructPadding, if_pos (by omega), Option.some.injEq] at hpad
      exact hpad.symm
    subst hsome
    refine ⟨_, ?_, hfilled⟩
    simp [codegenAlignPadding, hover, halign.ne', checkedU64_of_lt hlt', hpad]

/-! ### The fields of a struct -/

/-- The table only got new symbols, and none of the reserved ones. -/
structure Grows (reserved : String → Prop) (st st' : SymbolTable) : Prop where
  keeps : Keeps st st'
  fresh : ∀ {name}, reserved name → st.lookup name = none → st'.lookup name = none

namespace Grows

variable {reserved : String → Prop}

lemma refl (st : SymbolTable) : Grows reserved st st := ⟨.refl st, fun _ h => h⟩

lemma trans (h : Grows reserved st st') (h' : Grows reserved st' st'') : Grows reserved st st'' :=
  ⟨h.keeps.trans h'.keeps, fun hname hnone => h'.fresh hname (h.fresh hname hnone)⟩

/-- A symbol under a new name that is not reserved can be put into the table. -/
lemma set (h : Grows reserved st st') (hnew : st.lookup s.name = none) (hname : ¬ reserved s.name) :
    Grows reserved st (st'.set s) := by
  refine ⟨h.keeps.set hnew, fun {name} hreserved hnone => ?_⟩
  have hne : name ≠ s.name := by
    rintro rfl
    exact hname hreserved
  rw [SymbolTable.lookup_set_of_ne _ hne]
  exact h.fresh hreserved hnone

end Grows

/-- A field in memory order. -/
@[ext] structure Item (Ty : Type) where
  offset : ℕ
  name : String
  ty : Ty

variable {offsets order : List ℕ} {st₀ : SymbolTable} {reserved : String → Prop}

section Items

variable {Ty : Type} (codegenTy : Ty → Gen Typ) (sizeInBits actual : Ty → ℕ)

/-- The translation of a type, from the table `st₀` on, succeeds with a type of the given size, and
enters none of the reserved symbols. -/
def TySized (size : Ty → ℕ) (reserved : String → Prop) (st₀ : SymbolTable) (ty : Ty) : Prop :=
  ∀ st, Keeps st₀ st → ∃ t st', codegenTy ty st = some (t, st') ∧ Grows reserved st st' ∧
    t.sizeofInBits st' = some (size ty)

/-- Where fields in memory order end. -/
def endOf (start : ℕ) : List (Item Ty) → ℕ
  | [] => start
  | item :: items => endOf (item.offset + sizeInBits item.ty) items

/-- Fields in memory order do not overlap. -/
def Placed (start : ℕ) : List (Item Ty) → Prop
  | [] => True
  | item :: items => start ≤ item.offset ∧ Placed (item.offset + sizeInBits item.ty) items

/-- Where the components of fields are that take `actual` bits each: the padding in front of them is
that of the layout, from the offset `offset` on. -/
def placesOf (pos offset : ℕ) : List (Item Ty) → List (String × ℕ)
  | [] => []
  | item :: items => (item.name, pos + (item.offset - offset)) ::
    placesOf (pos + (item.offset - offset) + actual item.ty) (item.offset + sizeInBits item.ty)
      items

/-- Where these components end. -/
def filledEnd (pos offset : ℕ) : List (Item Ty) → ℕ
  | [] => pos
  | item :: items =>
    filledEnd (pos + (item.offset - offset) + actual item.ty) (item.offset + sizeInBits item.ty)
      items

variable {codegenTy sizeInBits actual} {items : List (Item Ty)}

section

omit [Ranked String]

lemma Placed.le_endOf (h : Placed sizeInBits start items) :
    start ≤ endOf sizeInBits start items := by
  induction items generalizing start with
  | nil => exact le_rfl
  | cons item items ih =>
    have := ih h.2
    have := h.1
    simp only [endOf]
    omega

lemma map_fst_placesOf :
    (placesOf sizeInBits actual pos offset items).map Prod.fst = items.map Item.name := by
  induction items generalizing pos offset with
  | nil => rfl
  | cons item items ih => rw [placesOf, List.map_cons, List.map_cons, ih]

lemma le_of_mem_placesOf {p : String × ℕ} (hp : p ∈ placesOf sizeInBits actual pos offset items) :
    pos ≤ p.2 := by
  induction items generalizing pos offset with
  | nil => cases hp
  | cons item items ih =>
    rcases List.mem_cons.mp hp with rfl | hp
    · exact Nat.le_add_right _ _
    · exact (Nat.le_add_right _ _).trans ((Nat.le_add_right _ _).trans (ih hp))

lemma le_filledEnd (actual : Ty → ℕ) (pos offset : ℕ) (items : List (Item Ty)) :
    pos ≤ filledEnd sizeInBits actual pos offset items := by
  induction items generalizing pos offset with
  | nil => exact le_rfl
  | cons item items ih =>
    exact (Nat.le_add_right _ _).trans ((Nat.le_add_right _ _).trans (ih _ _))

/-- The components end where the layout ends, but for the fields that take other sizes. -/
lemma Placed.filledEnd_add (h : Placed sizeInBits offset items) (actual : Ty → ℕ) (pos : ℕ) :
    filledEnd sizeInBits actual pos offset items + offset +
        (items.map fun item => sizeInBits item.ty).sum =
      pos + endOf sizeInBits offset items + (items.map fun item => actual item.ty).sum := by
  induction items generalizing pos offset with
  | nil => simp [filledEnd, endOf]
  | cons item items ih =>
    have := ih h.2 (pos + (item.offset - offset) + actual item.ty)
    have := h.1
    simp only [filledEnd, endOf, List.map_cons, List.sum_cons]
    omega

/-- The components are at the offsets of the layout and end with it exactly when all fields take the
sizes that the layout gives them. -/
lemma Placed.placesOf_eq_iff (h : Placed sizeInBits offset items) (actual : Ty → ℕ) :
    placesOf sizeInBits actual offset offset items =
        items.map (fun item => (item.name, item.offset)) ∧
      filledEnd sizeInBits actual offset offset items = endOf sizeInBits offset items ↔
    ∀ item ∈ items, actual item.ty = sizeInBits item.ty := by
  induction items generalizing offset with
  | nil => simp [placesOf, filledEnd, endOf]
  | cons item items ih =>
    obtain ⟨hle, hrest⟩ := h
    simp only [placesOf, filledEnd, endOf, List.map_cons, Nat.add_sub_cancel' hle, List.cons.injEq,
      true_and, List.forall_mem_cons]
    constructor
    · intro hplaces
      have heq : actual item.ty = sizeInBits item.ty := by
        -- the next field, or the end, is not where it should be otherwise
        cases items with
        | nil =>
          have hend := hplaces.2
          simp only [filledEnd, endOf] at hend
          omega
        | cons next items =>
          have hnext := (List.cons.inj hplaces.1).1
          have hle' := hrest.1
          rw [Prod.mk.injEq] at hnext
          omega
      rw [heq] at hplaces
      exact ⟨heq, (ih hrest).mp hplaces⟩
    · rintro ⟨heq, hitems⟩
      rw [heq]
      exact (ih hrest).mpr hitems

end

/-- What the loop over the fields makes of the components so far. The loop is followed item by
item; the components fill the place up to the end of the last item. -/
lemma exists_foldlM_codegenStructField {flds : List (String × Ty)}
    (hitems : List.Forall₂ (fun idx item => offsets[idx]? = some item.offset ∧
      flds[idx]? = some (item.name, item.ty)) order items)
    (hty : ∀ item ∈ items, TySized codegenTy actual reserved st₀ item.ty)
    (hpad : ∀ item ∈ items, ¬ IsPadName item.name)
    (hst : Keeps st₀ st) (h : Filled st start cs pos fields)
    (hfields : ∀ name ∈ fields.map Prod.fst, ¬ IsPadName name)
    (hunique : (fields.map Prod.fst ++ items.map Item.name).Nodup)
    (hplaced : Placed sizeInBits offset items) (hlt : endOf sizeInBits offset items < 2 ^ 64)
    (hend : filledEnd sizeInBits actual pos offset items < 2 ^ 64) :
    ∃ cs' st', order.foldlM (codegenStructField codegenTy sizeInBits offsets flds)
        ((cs, offset), st) = some ((cs', endOf sizeInBits offset items), st') ∧
      Grows reserved st st' ∧
      Filled st' start cs' (filledEnd sizeInBits actual pos offset items)
        (fields ++ placesOf sizeInBits actual pos offset items) := by
  induction hitems generalizing st pos offset cs fields with
  | nil => exact ⟨cs, st, rfl, .refl st, by simpa [filledEnd, placesOf] using h⟩
  | @cons idx item order items hitem _ ih =>
    obtain ⟨hle, hplaced⟩ := hplaced
    have hle' := hplaced.le_endOf
    rw [endOf] at hlt ⊢
    rw [filledEnd] at hend ⊢
    have hnext : pos + (item.offset - offset) + actual item.ty ≤ filledEnd sizeInBits actual
        (pos + (item.offset - offset) + actual item.ty) (item.offset + sizeInBits item.ty) items :=
      le_filledEnd actual _ _ items
    obtain ⟨pad, hpadding, hpadded⟩ := h.padding hle (by omega) hfields
    obtain ⟨t, st', hgen, hgrows, hsize⟩ := hty item (by simp) st hst
    have hnew : item.name ∉ fields.map Prod.fst := by
      intro hmem
      exact (List.nodup_append.mp hunique).2.2 _ hmem _ (by simp) rfl
    have hfield := (hpadded.mono hgrows.keeps.le).field hsize (by omega) hnew (hpad item (by simp))
    have hstep : codegenStructField codegenTy sizeInBits offsets flds ((cs, offset), st) idx =
        some ((cs ++ pad.toList ++ [.field item.name t], item.offset + sizeInBits item.ty),
          st') := by
      simp [codegenStructField, hitem.1, hitem.2, hpadding, hgen,
        checkedU64_of_lt (show item.offset + sizeInBits item.ty < 2 ^ 64 by omega)]
    obtain ⟨cs', st'', hfold, hgrows', hfilled⟩ := ih
      (fun item' h' => hty item' (by simp [h'])) (fun item' h' => hpad item' (by simp [h']))
      (hst.trans hgrows.keeps) hfield
      (by
        intro name hname
        rw [List.map_append, List.mem_append] at hname
        rcases hname with hname | hname
        · exact hfields name hname
        · obtain rfl : name = item.name := by simpa using hname
          exact hpad item (by simp))
      (by simpa using hunique) hplaced hlt hend
    refine ⟨cs', st'', ?_, hgrows.trans hgrows', by simpa [placesOf] using hfilled⟩
    rw [List.foldlM_cons, hstep]
    exact hfold

end Items

/-! ### Memory order -/

variable {memoryIndex : List ℕ}

omit [Ranked String] in
/-- Entering the fields one after the other keeps those that are entered, since no two have the
same place. -/
lemma exists_foldlM_invertAt {size : ℕ} (hnodup : memoryIndex.Nodup)
    (hlt : ∀ m ∈ memoryIndex, m < size) (k : ℕ) (hk : k ≤ memoryIndex.length) :
    ∃ inverse, (List.range k).foldlM (invertAt memoryIndex) (List.replicate size 0) =
        some inverse ∧ inverse.length = size ∧
      ∀ i < k, ∀ m, memoryIndex[i]? = some m → inverse[m]? = some i := by
  induction k with
  | zero => exact ⟨_, rfl, by simp, by simp⟩
  | succ k ih =>
    obtain ⟨inverse, hfold, hlength, hinv⟩ := ih (by omega)
    have hm : memoryIndex[k]? = some (memoryIndex.get ⟨k, hk⟩) := by simp
    generalize memoryIndex.get ⟨k, hk⟩ = m at hm
    have hmlt : m < inverse.length := by
      rw [hlength]
      exact hlt m (List.mem_of_getElem? hm)
    refine ⟨inverse.set m k, ?_, by simpa using hlength, ?_⟩
    · rw [List.range_succ, List.foldlM_append, hfold]
      simp [invertAt, hm, hmlt]
    · intro i hi m' hm'
      rcases Nat.lt_succ_iff_lt_or_eq.mp hi with hi | rfl
      · have hne : m ≠ m' := by
          rintro rfl
          have := (List.getElem?_inj (by omega) hnodup).mp (hm'.trans hm.symm)
          omega
        rw [List.getElem?_set_ne hne]
        exact hinv i hi m' hm'
      · rw [hm, Option.some.injEq] at hm'
        subst hm'
        simp [hmlt]

omit [Ranked String] in
/-- The memory order is the inverse of the memory index. -/
lemma exists_indexByIncreasingOffset (hperm : memoryIndex.Perm (List.range offsets.length)) :
    ∃ order, (FieldsShape.arbitrary offsets memoryIndex).indexByIncreasingOffset = some order ∧
      order.length = offsets.length ∧
      ∀ i m : ℕ, memoryIndex[i]? = some m → order[m]? = some i := by
  have hlength : memoryIndex.length = offsets.length := by simpa using hperm.length_eq
  have hmem : ∀ m ∈ memoryIndex, m < offsets.length := by
    intro m hm
    simpa using hperm.mem_iff.mp hm
  have hsize : offsets.length ≤ if offsets.length ≤ 64 then 64 else offsets.length := by
    split <;> omega
  obtain ⟨inverse, hfold, hinverse, hinv⟩ := exists_foldlM_invertAt
    (hperm.nodup_iff.mpr List.nodup_range) (fun m hm => (hmem m hm).trans_le hsize)
    offsets.length hlength.ge
  refine ⟨inverse.take offsets.length, ?_, ?_, ?_⟩
  · simp [FieldsShape.indexByIncreasingOffset, hfold]
  · simpa [hinverse] using hsize
  · intro i m hm
    have hi : i < offsets.length := by
      rw [← hlength]
      exact (List.getElem?_eq_some_iff.mp hm).1
    rw [List.getElem?_take_of_lt (hmem m (List.mem_of_getElem? hm))]
    exact hinv i hi m hm

/-! ### Types that need no table -/

/-- Types that are translated without the table, as integers and arrays of them are. -/
def codegenPlainTy (t : Typ) : Gen Typ := fun st => some (t, st)

def plainSize (mm : MachineModel) (t : Typ) : ℕ := (t.sizeofWith mm fun _ => none).getD 0

lemma tySized_plain {reserved : String → Prop}
    (h : (t.sizeofWith st.machineModel fun _ => none).isSome = true) :
    TySized codegenPlainTy (plainSize st.machineModel) reserved st t := by
  intro st' hst'
  obtain ⟨n, hn⟩ := Option.isSome_iff_exists.mp h
  refine ⟨t, st', rfl, .refl st', ?_⟩
  rw [plainSize, hn, Option.getD_some, Typ.sizeofInBits, hst'.machineModel]
  exact Typ.sizeofWith_mono (fun _ _ hnone => by simp at hnone) t hn

/-- A plain type, or a union of plain types with its name and its size in bits. -/
inductive PlainOrUnion
  | plain (t : Typ)
  | union (name : String) (flds : List (String × Typ)) (size : ℕ)

namespace PlainOrUnion

def codegenTy : PlainOrUnion → Gen Typ
  | .plain t => codegenPlainTy t
  | .union name flds _ => codegenUnion codegenPlainTy name name flds

def sizeInBits (mm : MachineModel) : PlainOrUnion → ℕ
  | .plain t => plainSize mm t
  | .union _ _ size => size

end PlainOrUnion

section Arranged

variable {Ty : Type} (sizeInBits : Ty → ℕ)

/-- The fields of a layout: each has its place in memory order, and starts after the fields before
it end. Field names are distinct, and none is the name of padding. -/
structure Arranged (flds : List (String × Ty)) (offsets memoryIndex : List ℕ) : Prop where
  length_eq : flds.length = offsets.length
  perm : memoryIndex.Perm (List.range offsets.length)
  increasing : ∀ {i j m n o o' : ℕ} {fld : String × Ty}, memoryIndex[i]? = some m →
    memoryIndex[j]? = some n → m < n → flds[i]? = some fld → offsets[i]? = some o →
    offsets[j]? = some o' → o + sizeInBits fld.2 ≤ o'
  unique : (flds.map Prod.fst).Nodup
  notPad : ∀ fld ∈ flds, ¬ IsPadName fld.1

/-- Where the fields of a layout end. -/
def extent (start : ℕ) (flds : List (String × Ty)) (offsets : List ℕ) : ℕ :=
  (List.zipWith (fun fld o => o + sizeInBits fld.2) flds offsets).foldr max start

variable {sizeInBits} {x : ℕ}

section

omit [Ranked String]

lemma foldr_max_le_iff {l : List ℕ} : l.foldr max start ≤ x ↔ start ≤ x ∧ ∀ a ∈ l, a ≤ x := by
  induction l with
  | nil => simp
  | cons a l ih =>
    rw [List.foldr_cons, max_le_iff, ih, List.forall_mem_cons]
    exact and_left_comm

lemma extent_le_iff {flds : List (String × Ty)} :
    extent sizeInBits start flds offsets ≤ x ↔
      start ≤ x ∧ ∀ p ∈ flds.zip offsets, p.2 + sizeInBits p.1.2 ≤ x := by
  rw [extent, foldr_max_le_iff, ← List.map_uncurry_zip_eq_zipWith, List.forall_mem_map]
  rfl

lemma Placed.endOf_le_iff {items : List (Item Ty)} (h : Placed sizeInBits start items) :
    endOf sizeInBits start items ≤ x ↔
      start ≤ x ∧ ∀ item ∈ items, item.offset + sizeInBits item.ty ≤ x := by
  induction items generalizing start with
  | nil => simp [endOf]
  | cons item items ih =>
    have hle := h.1
    rw [endOf, ih h.2]
    rw [List.forall_mem_cons]
    constructor
    · exact fun ⟨hx, hitems⟩ => ⟨by omega, hx, hitems⟩
    · exact fun ⟨_, hx, hitems⟩ => ⟨hx, hitems⟩

lemma placed_of_pairwise {items : List (Item Ty)} (hstart : ∀ item ∈ items, start ≤ item.offset)
    (h : items.Pairwise fun item item' => item.offset + sizeInBits item.ty ≤ item'.offset) :
    Placed sizeInBits start items := by
  induction items generalizing start with
  | nil => trivial
  | cons item items ih =>
    rw [List.pairwise_cons] at h
    exact ⟨hstart item (by simp), ih h.1 h.2⟩

end

variable (sizeInBits) in
/-- The items of an arranged layout, in memory order. -/
structure Arranged.Items (flds : List (String × Ty)) (offsets memoryIndex order : List ℕ)
    (items : List (Item Ty)) : Prop where
  order_eq : (FieldsShape.arbitrary offsets memoryIndex).indexByIncreasingOffset = some order
  forall₂ : List.Forall₂ (fun idx item => offsets[idx]? = some item.offset ∧
    flds[idx]? = some (item.name, item.ty)) order items
  pairwise : items.Pairwise fun item item' => item.offset + sizeInBits item.ty ≤ item'.offset
  mem_iff : ∀ item, item ∈ items ↔ ((item.name, item.ty), item.offset) ∈ flds.zip offsets
  unique : (items.map Item.name).Nodup

namespace Arranged

variable {flds : List (String × Ty)}

omit [Ranked String] in
/-- The items by their places in memory order. -/
lemma exists_forall₂ (h : Arranged sizeInBits flds offsets memoryIndex) :
    ∃ order items,
      (FieldsShape.arbitrary offsets memoryIndex).indexByIncreasingOffset = some order ∧
      List.Forall₂ (fun idx (item : Item Ty) => offsets[idx]? = some item.offset ∧
        flds[idx]? = some (item.name, item.ty)) order items ∧
      (∀ (a : ℕ) (item : Item Ty), items[a]? = some item → ∃ idx : ℕ,
        memoryIndex[idx]? = some a ∧ offsets[idx]? = some item.offset ∧
          flds[idx]? = some (item.name, item.ty)) ∧
      items.length = offsets.length := by
  obtain ⟨order, horder, hlength, hinv⟩ := exists_indexByIncreasingOffset h.perm
  -- the field at a place of the memory order has that place as its memory index
  have hplace : ∀ {a idx : ℕ}, order[a]? = some idx → memoryIndex[idx]? = some a := by
    intro a idx ha
    have halt : a < offsets.length := hlength ▸ (List.getElem?_eq_some_iff.mp ha).1
    have hmem : a ∈ memoryIndex := h.perm.mem_iff.mpr (List.mem_range.mpr halt)
    obtain ⟨i, hi⟩ := List.mem_iff_getElem?.mp hmem
    rw [hinv i a hi, Option.some.injEq] at ha
    exact ha ▸ hi
  have hitem : ∀ idx ∈ order, ∃ item : Item Ty, offsets[idx]? = some item.offset ∧
      flds[idx]? = some (item.name, item.ty) := by
    intro idx hidx
    obtain ⟨a, ha⟩ := List.mem_iff_getElem?.mp hidx
    have hlt : idx < offsets.length := by
      have := (List.getElem?_eq_some_iff.mp (hplace ha)).1
      rwa [h.perm.length_eq, List.length_range] at this
    exact ⟨⟨offsets[idx], (flds.get ⟨idx, by rw [h.length_eq]; exact hlt⟩).1,
      (flds.get ⟨idx, by rw [h.length_eq]; exact hlt⟩).2⟩, by simp [hlt], by simp⟩
  obtain ⟨items, hitems⟩ := Checked.exists_forall₂ hitem
  refine ⟨order, items, horder, hitems, ?_, hitems.length_eq ▸ hlength⟩
  intro a item ha
  obtain ⟨halt, rfl⟩ := List.getElem?_eq_some_iff.mp ha
  have halt' : a < order.length := hitems.length_eq ▸ halt
  exact ⟨order[a], hplace (List.getElem?_eq_getElem halt'), hitems.get halt' halt⟩

omit [Ranked String] in
lemma exists_items (h : Arranged sizeInBits flds offsets memoryIndex) :
    ∃ order items, Items sizeInBits flds offsets memoryIndex order items := by
  obtain ⟨order, items, horder, hforall, hplace, hlength⟩ := h.exists_forall₂
  refine ⟨order, items, horder, hforall, ?_, ?_, ?_⟩
  · rw [List.pairwise_iff_getElem]
    intro a b ha hb hab
    obtain ⟨i, hi, hoi, hfi⟩ := hplace a _ (List.getElem?_eq_getElem ha)
    obtain ⟨j, hj, hoj, -⟩ := hplace b _ (List.getElem?_eq_getElem hb)
    exact h.increasing hi hj hab hfi hoi hoj
  · intro item
    constructor
    · intro hmem
      obtain ⟨a, ha⟩ := List.mem_iff_getElem?.mp hmem
      obtain ⟨i, -, hoi, hfi⟩ := hplace a item ha
      exact List.mem_of_getElem? (List.getElem?_zip_eq_some.mpr ⟨hfi, hoi⟩)
    · intro hmem
      obtain ⟨i, hi⟩ := List.mem_iff_getElem?.mp hmem
      obtain ⟨hfi, hoi⟩ := List.getElem?_zip_eq_some.mp hi
      have hlt : i < memoryIndex.length := by
        rw [h.perm.length_eq, List.length_range]
        exact (List.getElem?_eq_some_iff.mp hoi).1
      -- the item at the place of field `i` is that field
      have hm : memoryIndex[i] < items.length := by
        rw [hlength]
        exact List.mem_range.mp (h.perm.mem_iff.mp (List.getElem_mem hlt))
      obtain ⟨j, hj, hoj, hfj⟩ := hplace _ _ (List.getElem?_eq_getElem hm)
      have hij : j = i := by
        have hnodup : memoryIndex.Nodup := h.perm.nodup_iff.mpr List.nodup_range
        refine (List.getElem?_inj ?_ hnodup).mp (hj.trans (List.getElem?_eq_getElem hlt).symm)
        exact (List.getElem?_eq_some_iff.mp hj).1
      subst hij
      have hitem : items[memoryIndex[j]] = item := by
        rw [hoj, Option.some.injEq] at hoi
        rw [hfj, Option.some.injEq, Prod.mk.injEq] at hfi
        exact Item.ext hoi hfi.1 hfi.2
      exact hitem ▸ List.getElem_mem hm
  · rw [List.Nodup, List.pairwise_map, List.pairwise_iff_getElem]
    intro a b ha hb hab heq
    obtain ⟨i, hi, -, hfi⟩ := hplace a _ (List.getElem?_eq_getElem ha)
    obtain ⟨j, hj, -, hfj⟩ := hplace b _ (List.getElem?_eq_getElem hb)
    have hij : i = j := by
      have hlt : i < (flds.map Prod.fst).length := by
        simpa using (List.getElem?_eq_some_iff.mp hfi).1
      refine (List.getElem?_inj hlt h.unique).mp ?_
      simp [hfi, hfj, heq]
    subst hij
    rw [hi, Option.some.injEq] at hj
    omega

omit [Ranked String] in
/-- The items are the fields. -/
lemma Items.perm (h : Arranged sizeInBits flds offsets memoryIndex) {order : List ℕ}
    {items : List (Item Ty)} (hitems : Items sizeInBits flds offsets memoryIndex order items) :
    (items.map fun item => (item.name, item.ty)).Perm flds := by
  have hnodup : (items.map fun item => (item.name, item.ty)).Nodup := by
    refine List.Nodup.of_map Prod.fst ?_
    simpa [Function.comp_def] using hitems.unique
  refine (List.perm_ext_iff_of_nodup hnodup (.of_map _ h.unique)).mpr fun fld => ?_
  constructor
  · intro hfld
    obtain ⟨item, hitem, rfl⟩ := List.mem_map.mp hfld
    exact (List.of_mem_zip ((hitems.mem_iff item).mp hitem)).1
  · intro hfld
    obtain ⟨i, hi, rfl⟩ := List.mem_iff_getElem.mp hfld
    refine List.mem_map.mpr ⟨⟨offsets.get ⟨i, h.length_eq ▸ hi⟩, flds[i].1, flds[i].2⟩, ?_, rfl⟩
    refine (hitems.mem_iff _).mpr (List.mem_of_getElem? (i := i) ?_)
    simp [hi, h.length_eq ▸ hi]

variable {codegenTy : Ty → Gen Typ} {actual : Ty → ℕ} {items : List (Item Ty)}

omit [Ranked String] in
/-- In memory order the fields of a layout do not overlap. -/
lemma Items.placed (hitems : Items sizeInBits flds offsets memoryIndex order items)
    {initialOffset : ℕ} (hinit : ∀ o ∈ offsets, initialOffset ≤ o) :
    Placed sizeInBits initialOffset items ∧ endOf sizeInBits initialOffset items =
      extent sizeInBits initialOffset flds offsets := by
  have hoffsets : ∀ item ∈ items, initialOffset ≤ item.offset := fun item hitem =>
    hinit _ (List.of_mem_zip ((hitems.mem_iff item).mp hitem)).2
  have hplaced := placed_of_pairwise hoffsets hitems.pairwise
  refine ⟨hplaced, eq_of_forall_ge_iff fun x => ?_⟩
  rw [hplaced.endOf_le_iff, extent_le_iff]
  refine and_congr_right fun _ => ⟨fun hx p hp => ?_, fun hx item hitem => ?_⟩
  · exact hx ⟨p.2, p.1.1, p.1.2⟩ ((hitems.mem_iff _).mpr hp)
  · exact hx _ ((hitems.mem_iff item).mp hitem)

/-- The components of a struct whose fields take any sizes: the padding between them and behind them
is that of the layout. -/
lemma Items.exists_codegenStructFields (h : Arranged sizeInBits flds offsets memoryIndex)
    (hitems : Items sizeInBits flds offsets memoryIndex order items) (hst : Keeps st₀ st)
    (hty : ∀ fld ∈ flds, TySized codegenTy actual reserved st₀ fld.2)
    {layout : Layout} (hlayout : layout.fields = .arbitrary offsets memoryIndex)
    {initialOffset : ℕ} (hinit : ∀ o ∈ offsets, initialOffset ≤ o) (halign : 0 < layout.align)
    (hlt : roundUp (extent sizeInBits initialOffset flds offsets) layout.align +
      extent sizeInBits initialOffset flds offsets % layout.align < 2 ^ 64)
    (hpos : filledEnd sizeInBits actual initialOffset initialOffset items +
      (roundUp (extent sizeInBits initialOffset flds offsets) layout.align -
        extent sizeInBits initialOffset flds offsets) < 2 ^ 64) :
    ∃ cs st', codegenStructFields codegenTy sizeInBits flds layout initialOffset st =
        some (cs, st') ∧
      Grows reserved st st' ∧
      Filled st' initialOffset cs
        (filledEnd sizeInBits actual initialOffset initialOffset items +
          (roundUp (extent sizeInBits initialOffset flds offsets) layout.align -
            extent sizeInBits initialOffset flds offsets))
        (placesOf sizeInBits actual initialOffset initialOffset items) := by
  have hflds : ∀ item ∈ items, (item.name, item.ty) ∈ flds := fun item hitem =>
    (List.of_mem_zip ((hitems.mem_iff item).mp hitem)).1
  obtain ⟨hplaced, hend⟩ := hitems.placed hinit
  have hpad : ∀ item ∈ items, ¬ IsPadName item.name := fun item hitem =>
    h.notPad _ (hflds item hitem)
  have hle := le_roundUp (extent sizeInBits initialOffset flds offsets) halign
  obtain ⟨cs, st', hfold, hgrows, hfilled⟩ := exists_foldlM_codegenStructField hitems.forall₂
    (fun item hitem => hty _ (hflds item hitem)) hpad hst (.nil st initialOffset) (by simp)
    (by simpa using hitems.unique) hplaced (by omega) (by omega)
  rw [List.nil_append] at hfilled
  obtain ⟨cs', halignPadding, hfilled'⟩ := exists_codegenAlignPadding hfilled halign hlt hpos (by
    intro name hname
    rw [map_fst_placesOf] at hname
    obtain ⟨item, hitem, rfl⟩ := List.mem_map.mp hname
    exact hpad item hitem)
  have hmemoryIndex : offsets.length = memoryIndex.length := by simpa using h.perm.length_eq.symm
  refine ⟨cs', st', ?_, hgrows, hfilled'⟩
  simp [codegenStructFields, hlayout, h.length_eq, hmemoryIndex, hitems.order_eq, hfold, hend,
    halignPadding]

/-- The struct of an arranged layout whose fields take the sizes of the layout: its components are
the padding and the fields at their offsets, up to the next multiple of the alignment. -/
lemma exists_codegenStructFields (h : Arranged sizeInBits flds offsets memoryIndex)
    (hst : Keeps st₀ st)
    (hty : ∀ fld ∈ flds, TySized codegenTy sizeInBits reserved st₀ fld.2)
    {layout : Layout} (hlayout : layout.fields = .arbitrary offsets memoryIndex)
    {initialOffset : ℕ} (hinit : ∀ o ∈ offsets, initialOffset ≤ o) (halign : 0 < layout.align)
    (hlt : roundUp (extent sizeInBits initialOffset flds offsets) layout.align +
      extent sizeInBits initialOffset flds offsets % layout.align < 2 ^ 64) :
    ∃ cs st' fields,
      codegenStructFields codegenTy sizeInBits flds layout initialOffset st = some (cs, st') ∧
      Grows reserved st st' ∧
      Filled st' initialOffset cs
        (roundUp (extent sizeInBits initialOffset flds offsets) layout.align) fields ∧
      ∀ p ∈ flds.zip offsets, (p.1.1, p.2) ∈ fields := by
  obtain ⟨order, items, hitems⟩ := h.exists_items
  obtain ⟨hplaced, hend⟩ := hitems.placed hinit
  obtain ⟨hplaces, hfilledEnd⟩ := (hplaced.placesOf_eq_iff sizeInBits).mpr fun _ _ => rfl
  have hle := le_roundUp (extent sizeInBits initialOffset flds offsets) halign
  obtain ⟨cs, st', hgen, hgrows, hfilled⟩ := hitems.exists_codegenStructFields h hst hty hlayout
    hinit halign hlt (by omega)
  rw [hplaces, hfilledEnd, hend, Nat.add_sub_cancel' hle] at hfilled
  refine ⟨cs, st', _, hgen, hgrows, hfilled, fun p hp => ?_⟩
  exact List.mem_map.mpr ⟨⟨p.2, p.1.1, p.1.2⟩, (hitems.mem_iff _).mpr hp, rfl⟩

/-- The fields are where the layout has them exactly when their places are its offsets. -/
lemma Items.forall_fieldOffset_iff
    (hitems : Items sizeInBits flds offsets memoryIndex order items) {initialOffset pos : ℕ}
    (hfilled : Filled st initialOffset cs pos
      (placesOf sizeInBits actual initialOffset initialOffset items)) :
    (∀ p ∈ flds.zip offsets, ∃ n, fieldOffsetInBits st cs p.1.1 = some n ∧
        initialOffset + n = p.2) ↔
      placesOf sizeInBits actual initialOffset initialOffset items =
        items.map fun item => (item.name, item.offset) := by
  constructor
  · intro hplaced
    -- both lists give each name the place that is found for it
    let place (name : String) : String × ℕ :=
      (name, initialOffset + (fieldOffsetInBits st cs name).getD 0)
    have hplaces : ∀ q ∈ placesOf sizeInBits actual initialOffset initialOffset items,
        place q.1 = q := by
      intro q hq
      have hle := le_of_mem_placesOf hq
      simp only [place, hfilled.placed q hq, Option.getD_some]
      exact Prod.ext rfl (Nat.add_sub_cancel' hle)
    have hoffsets : ∀ item ∈ items, place item.name = (item.name, item.offset) := by
      intro item hitem
      obtain ⟨n, hn, heq⟩ := hplaced _ ((hitems.mem_iff item).mp hitem)
      simp only [place, hn, Option.getD_some]
      exact Prod.ext rfl heq
    calc placesOf sizeInBits actual initialOffset initialOffset items
        = ((placesOf sizeInBits actual initialOffset initialOffset items).map
            Prod.fst).map place := by
          rw [List.map_map]
          exact ((List.map_congr_left hplaces).trans (List.map_id _)).symm
      _ = (items.map Item.name).map place := by rw [map_fst_placesOf]
      _ = items.map fun item => (item.name, item.offset) := by
          rw [List.map_map]
          exact List.map_congr_left hoffsets
  · intro hplaces p hp
    have hmem : (p.1.1, p.2) ∈ placesOf sizeInBits actual initialOffset initialOffset items := by
      rw [hplaces]
      exact List.mem_map.mpr ⟨⟨p.2, p.1.1, p.1.2⟩, (hitems.mem_iff _).mpr hp, rfl⟩
    exact ⟨_, hfilled.placed _ hmem, Nat.add_sub_cancel' (le_of_mem_placesOf hmem)⟩

section Pair

omit [Ranked String]

lemma arranged_pair {a b : String × Ty} {o o' : ℕ} (hne : a.1 ≠ b.1) (ha : ¬ IsPadName a.1)
    (hb : ¬ IsPadName b.1) (h : memoryIndex = [0, 1] ∧ o + sizeInBits a.2 ≤ o' ∨
      memoryIndex = [1, 0] ∧ o' + sizeInBits b.2 ≤ o) :
    Arranged sizeInBits [a, b] [o, o'] memoryIndex := by
  refine ⟨rfl, ?_, ?_, by simpa using hne, by simp [ha, hb]⟩
  · rcases h with ⟨rfl, -⟩ | ⟨rfl, -⟩ <;> simp [List.range_succ, List.Perm.swap]
  · intro i j m n p p' fld hm hn hlt hfld hp hp'
    rcases h with ⟨rfl, hle⟩ | ⟨rfl, hle⟩ <;>
    match i, j with
    | 0, 0 | 1, 1 | 0, 1 | 1, 0 =>
      simp only [List.getElem?_cons_zero, List.getElem?_cons_succ, Option.some.injEq]
        at hm hn hfld hp hp'
      subst hm hn hfld hp hp'
      omega
    | i + 2, _ => simp at hm
    | _, j + 2 => simp at hn

end Pair

/-! ### A last field of any size -/

section Tail

variable {g : Ty → Option Typ} {st : SymbolTable} {f o : ℕ} {name : String} {ty : Ty} (actual)

omit [Ranked String] in
/-- The last field in memory order, after the others. -/
lemma exists_items_concat (h : Arranged sizeInBits flds offsets memoryIndex)
    (htail : memoryIndex[f]? = some (offsets.length - 1)) (hfld : flds[f]? = some (name, ty))
    (ho : offsets[f]? = some o) :
    ∃ order items, order.length = items.length ∧
      Items sizeInBits flds offsets memoryIndex (order ++ [f]) (items ++ [⟨o, name, ty⟩]) := by
  obtain ⟨order, items, hitems⟩ := h.exists_items
  obtain ⟨order', horder', hlength, hinv⟩ := exists_indexByIncreasingOffset h.perm
  cases hitems.order_eq.symm.trans horder'
  have hlast := hinv f _ htail
  have hpos : 0 < offsets.length := Nat.zero_lt_of_lt (List.getElem?_eq_some_iff.mp ho).1
  -- the last item is the field that is last in memory order
  obtain ⟨init, last, rfl⟩ : ∃ init last, items = init ++ [last] := by
    refine (List.eq_nil_or_concat' items).resolve_left ?_
    rintro rfl
    rw [← hlength, hitems.forall₂.length_eq] at hpos
    exact absurd hpos (by simp)
  have hinit : init.length = offsets.length - 1 := by
    have := hitems.forall₂.length_eq
    simp only [List.length_append, List.length_singleton] at this
    omega
  have horder : order = order.take init.length ++ [f] := by
    have hdrop : order.drop (offsets.length - 1) = [f] := by
      obtain ⟨hlt, hf⟩ := List.getElem?_eq_some_iff.mp hlast
      rw [List.drop_eq_getElem_cons hlt, hf, List.drop_eq_nil_of_le (by omega)]
    rw [hinit, ← hdrop, List.take_append_drop]
  have hlastItem : last = ⟨o, name, ty⟩ := by
    have hforall := hitems.forall₂
    rw [horder] at hforall
    have hdrop := List.forall₂_drop_append _ init [last] hforall
    rw [List.drop_left' (by simp; omega)] at hdrop
    obtain ⟨⟨hoffset, hfield⟩, -⟩ := List.forall₂_cons.mp hdrop
    cases ho.symm.trans hoffset
    cases hfld.symm.trans hfield
    rfl
  refine ⟨order.take init.length, init, by simp; omega, ?_⟩
  rw [← horder, ← hlastItem]
  exact hitems

/-- Types that are translated without a change of the table leave it as it is. -/
lemma eq_of_foldlM_codegenStructField
    {acc acc' : (List DatatypeComponent × ℕ) × SymbolTable}
    (h : order.foldlM (codegenStructField (fun ty st => (g ty).map fun t => (t, st)) sizeInBits
      offsets flds) acc = some acc') : acc'.2 = acc.2 := by
  induction order generalizing acc with
  | nil =>
    cases h
    rfl
  | cons idx order ih =>
    rw [List.foldlM_cons, Option.bind_eq_bind] at h
    obtain ⟨acc₁, hstep, hrest⟩ := bind_eq_some.mp h
    rw [ih hrest]
    simp only [codegenStructField, bind_eq_some, Option.map_eq_some_iff, pure_eq_some] at hstep
    obtain ⟨_, -, _, -, _, -, _, ⟨_, -, rfl⟩, _, -, rfl⟩ := hstep
    rfl

omit [Ranked String] in
lemma codegenAlignPadding_eq_some {cs' : List DatatypeComponent}
    (h : codegenAlignPadding cs offset align = some cs') :
    cs' = cs ∨ ∃ n, cs' = cs ++ [.padding ("$pad" ++ toString cs.length) n] := by
  simp only [codegenAlignPadding, bind_eq_some] at h
  obtain ⟨_, -, h⟩ := h
  split_ifs at h
  · simp only [bind_eq_some, Option.pure_def, Option.some.injEq] at h
    obtain ⟨_, -, pad, hpad, _, rfl, rfl⟩ := h
    unfold codegenStructPadding at hpad
    split_ifs at hpad
    · cases hpad
      exact .inr ⟨_, rfl⟩
    · cases hpad
  · exact .inl (Option.some.inj h).symm

/-- A struct whose last field may have a type of any size: the last field is as far from where the
layout has it as the sizes of the other fields are from those of the layout. -/
lemma fieldOffsetInBits_last (h : Arranged sizeInBits flds offsets memoryIndex)
    (htail : memoryIndex[f]? = some (offsets.length - 1)) (hfld : flds[f]? = some (name, ty))
    (ho : offsets[f]? = some o)
    (hsized : ∀ fld ∈ flds.eraseIdx f, ∃ t, g fld.2 = some t ∧
      t.sizeofInBits st = some (actual fld.2))
    (hlt : o + ((flds.eraseIdx f).map fun fld => actual fld.2).sum < 2 ^ 64)
    (hcs : codegenStructFields (fun ty st => (g ty).map fun t => (t, st)) sizeInBits flds
      ⟨.arbitrary offsets memoryIndex, align⟩ 0 st = some (cs, st)) :
    ∃ t n, g ty = some t ∧ .field name t ∈ cs ∧ (cs.map DatatypeComponent.name).Nodup ∧
      fieldOffsetInBits st cs name = some n ∧
      n + ((flds.eraseIdx f).map fun fld => sizeInBits fld.2).sum =
        o + ((flds.eraseIdx f).map fun fld => actual fld.2).sum := by
  obtain ⟨order, items, hlength, hitems⟩ := h.exists_items_concat htail hfld ho
  have hperm : (items.map fun item => (item.name, item.ty)).Perm (flds.eraseIdx f) := by
    obtain ⟨hf, hfld⟩ := List.getElem?_eq_some_iff.mp hfld
    have hall := (hitems.perm h).trans (List.getElem_cons_eraseIdx_perm hf).symm
    rw [hfld, List.map_append, List.map_singleton] at hall
    exact ((List.perm_append_singleton _ _).symm.trans hall).cons_inv
  have hsum (size : Ty → ℕ) : (items.map fun item => size item.ty).sum =
      ((flds.eraseIdx f).map fun fld => size fld.2).sum := by
    rw [← (hperm.map fun fld => size fld.2).sum_eq, List.map_map]
    rfl
  have hmem : ∀ item ∈ items, (item.name, item.ty) ∈ flds.eraseIdx f := fun item hitem =>
    hperm.mem_iff.mp (List.mem_map_of_mem hitem)
  have hpad : ∀ item ∈ items, ¬ IsPadName item.name := fun item hitem =>
    h.notPad _ (List.mem_of_mem_eraseIdx (hmem item hitem))
  obtain ⟨hpairwise, -, hbefore⟩ := List.pairwise_append.mp hitems.pairwise
  obtain ⟨hunique, -, hne⟩ := List.nodup_append.mp (List.map_append ▸ hitems.unique)
  have hforall := List.forall₂_take_append _ items _ hitems.forall₂
  rw [List.take_left' hlength] at hforall
  have hplaced : Placed sizeInBits 0 items :=
    placed_of_pairwise (fun _ _ => Nat.zero_le _) hpairwise
  have hend : endOf sizeInBits 0 items ≤ o := by
    rw [hplaced.endOf_le_iff]
    exact ⟨Nat.zero_le _, fun item hitem => hbefore item hitem _ (List.mem_singleton_self _)⟩
  have hty : ∀ item ∈ items, TySized (fun ty st => (g ty).map fun t => (t, st)) actual
      (fun _ => False) st item.ty := by
    intro item hitem st' hst'
    obtain ⟨t, ht, hsize⟩ := hsized _ (hmem item hitem)
    exact ⟨t, st', by simp [ht], .refl st', hst'.le.sizeofInBits hsize⟩
  have hfilledEnd := hplaced.filledEnd_add actual 0
  rw [hsum, hsum] at hfilledEnd
  obtain ⟨cs₀, st', hfold, hgrows, hfilled⟩ := exists_foldlM_codegenStructField hforall hty hpad
    (.refl st) (.nil st 0) (by simp) (by simpa using hunique) hplaced (by omega) (by omega)
  obtain rfl : st' = st := eq_of_foldlM_codegenStructField hfold
  have hfields : ∀ name' ∈ (([] : List (String × ℕ)) ++
      placesOf sizeInBits actual 0 0 items).map Prod.fst, ¬ IsPadName name' ∧ name' ≠ name := by
    intro name' hname'
    rw [List.nil_append, map_fst_placesOf] at hname'
    obtain ⟨item, hitem, rfl⟩ := List.mem_map.mp hname'
    exact ⟨hpad item hitem, hne _ (List.mem_map_of_mem hitem) _ (by simp)⟩
  obtain ⟨pad, hpadding, hpadded⟩ := hfilled.padding hend (by omega) fun name' h' =>
    (hfields name' h').1
  -- the loop ends with the last field, and there may be padding behind it
  simp only [codegenStructFields, hitems.order_eq, bind_eq_some,
    guard_eq_some, exists_const, Option.pure_def, Option.some.injEq, Prod.exists,
    Prod.mk.injEq] at hcs
  obtain ⟨-, -, _, rfl, cs₁, offset, st₁, hloop, cs₂, halign, rfl, -⟩ := hcs
  rw [List.foldlM_append, hfold] at hloop
  simp only [List.foldlM_cons, List.foldlM_nil, codegenStructField, ho, hfld, hpadding,
    some_bind, bind_eq_some, Option.map_eq_some_iff,
    Option.pure_def, Option.some.injEq] at hloop
  obtain ⟨_, ⟨_, ⟨t, ht, rfl⟩, offset', -, rfl⟩, hacc⟩ := hloop
  cases hacc
  have hnew : name ∉ (cs₀ ++ pad.toList).map DatatypeComponent.name := by
    intro hmem
    rcases hpadded.names name hmem with ⟨i, -, hi⟩ | hmem
    · exact h.notPad _ (List.mem_of_getElem? hfld) ⟨i, hi⟩
    · exact (hfields name hmem).2 rfl
  have hplacedLast :
      fieldOffsetInBits st' (cs₀ ++ pad.toList ++ [.field name t]) name =
        some (filledEnd sizeInBits actual 0 0 items + (o - endOf sizeInBits 0 items)) :=
    fieldOffsetInBits_concat_self hnew hpadded.size
  have hnodup :
      ((cs₀ ++ pad.toList ++ [DatatypeComponent.field name t]).map
        DatatypeComponent.name).Nodup := by
    rw [List.map_append, List.map_singleton, ← List.concat_eq_append]
    exact hpadded.unique.concat hnew
  refine ⟨t, filledEnd sizeInBits actual 0 0 items + (o - endOf sizeInBits 0 items), ht, ?_⟩
  rcases codegenAlignPadding_eq_some halign with rfl | ⟨n, rfl⟩
  · exact ⟨by simp, hnodup, hplacedLast, by omega⟩
  · refine ⟨by simp, ?_, fieldOffsetInBits_concat hplacedLast, by omega⟩
    rw [List.map_append, List.map_singleton, ← List.concat_eq_append]
    refine hnodup.concat fun hmem => ?_
    rw [List.map_append, List.map_singleton, List.mem_append, List.mem_singleton] at hmem
    rcases hmem with hmem | hmem
    · rcases hpadded.names _ hmem with ⟨i, hi, heq⟩ | hmem
      · have : (cs₀ ++ pad.toList ++ [DatatypeComponent.field name t]).length = i :=
          Numeral.repr_injective (by simpa using heq)
        simp at this hi
        omega
      · exact (hfields _ hmem).1 ⟨_, rfl⟩
    · exact h.notPad _ (List.mem_of_getElem? hfld) ⟨_, hmem.symm⟩

end Tail

end Arranged

end Arranged

end Rmc.Codegen

import Rmc.Goto.Syntax
import Rmc.Lib.OrdMap
import Rmc.Lib.PartialFix

/-!
# The symbol table

The symbol table (`symbol_table.rs`) is a map ordered by its interned names; interning gives
names numbers in an order of its own, so the table is parametric in the rank of names. A symbol
always stands under its own name.

Tables grow: symbols are added, incomplete structs and unions are completed, declared functions
get a body. `SymbolTable.Le` is this order, and what is looked up in a table or computed from it
stays when the table grows.
-/

namespace Rmc

open OrdMap

variable [Ranked String]

/-- A symbol table: the symbols in the order of their names, and the machine model. -/
structure SymbolTable [Ranked String] where
  symbolTable : OrdMap String Symbol
  machineModel : MachineModel
  keyed : ∀ {name s}, symbolTable.get? name = some s → s.name = name

namespace SymbolTable

variable (st : SymbolTable)

/-! ### Getters -/

def lookup (name : String) : Option Symbol := st.symbolTable.get? name

def contains (name : String) : Bool := st.symbolTable.containsKey name

def lookupComponents (aggrName : String) : Option (List DatatypeComponent) := do
  let s ← st.lookup aggrName
  s.typ.components

def lookupComponentsInType (baseType : Typ) : Option (List DatatypeComponent) := do
  let aggrName ← baseType.typeName
  st.lookupComponents aggrName

/-- The type of a field; a padding field has none. -/
def lookupFieldType (aggrName fieldName : String) : Option Typ := do
  let fields ← st.lookupComponents aggrName
  let field ← fields.find? fun c => c.name == fieldName
  field.fieldTyp

def lookupFieldTypeInType (baseType : Typ) (fieldName : String) : Option Typ := do
  let aggrName ← baseType.typeName
  st.lookupFieldType aggrName fieldName

def lookupFieldsInType (baseType : Typ) : Option (List DatatypeComponent) := do
  let aggrName ← baseType.typeName
  let s ← st.lookup aggrName
  s.typ.components

variable {st} {name : String} {s : Symbol} {fields : List DatatypeComponent}

lemma lookup_name (h : st.lookup name = some s) : s.name = name :=
  st.keyed h

lemma contains_iff : st.contains name = true ↔ ∃ s, st.lookup name = some s :=
  OrdMap.containsKey_iff

lemma contains_eq_false_iff : st.contains name = false ↔ st.lookup name = none := by
  rw [← Bool.not_eq_true, contains_iff, ← Option.isSome_iff_exists, Option.not_isSome_iff_eq_none]

omit [Ranked String] in
lemma find?_name_of_mem {c : DatatypeComponent}
    (hnames : (fields.map DatatypeComponent.name).Nodup) (hc : c ∈ fields) :
    (fields.find? fun d => d.name == c.name) = some c := by
  induction fields with
  | nil => simp at hc
  | cons d fields ih =>
    rw [List.map_cons, List.nodup_cons] at hnames
    rw [List.find?_cons]
    rcases List.mem_cons.mp hc with rfl | hmem
    · simp
    · have hne : (d.name == c.name) = false := by
        rw [beq_eq_false_iff_ne]
        intro heq
        exact hnames.1 (heq ▸ List.mem_map_of_mem hmem)
      rw [hne]
      exact ih hnames.2 hmem

variable {t : Typ}

lemma lookupFieldTypeInType_of_mem {baseType : Typ}
    (h : st.lookupFieldsInType baseType = some fields)
    (hnames : (fields.map DatatypeComponent.name).Nodup)
    (hmem : DatatypeComponent.field name t ∈ fields) :
    st.lookupFieldTypeInType baseType name = some t := by
  simp only [lookupFieldsInType, bind_eq_some] at h
  obtain ⟨aggrName, haggr, s, hs, hcomps⟩ := h
  have hfind := find?_name_of_mem hnames hmem
  rw [DatatypeComponent.name_field] at hfind
  simp [lookupFieldTypeInType, haggr, lookupFieldType, lookupComponents, hs, hcomps, hfind,
    DatatypeComponent.fieldTyp]

/-! ### Setters -/

variable (st)

/-- The table with a symbol put under its name. -/
def set (s : Symbol) : SymbolTable where
  symbolTable := st.symbolTable.insert s.name s
  machineModel := st.machineModel
  keyed := by
    intro name s' h
    rw [OrdMap.get?_insert] at h
    split_ifs at h with hn
    · cases h
      exact hn.symm
    · exact st.keyed h

/-- The table without symbols. -/
def empty (mm : MachineModel) : SymbolTable where
  symbolTable := OrdMap.empty
  machineModel := mm
  keyed := by simp

/-- Insert a symbol whose name is not in the table yet. -/
def insert (s : Symbol) : Option SymbolTable :=
  if (st.lookup s.name).isNone then some (st.set s) else none

/-- Replace a symbol, after a check of the one that is replaced. -/
def replace (checkerFn : Option Symbol → Bool) (newValue : Symbol) : Option SymbolTable :=
  if checkerFn (st.lookup newValue.name) then some (st.set newValue) else none

/-- Replace an incomplete struct or union with a complete one. -/
def replaceWithCompletion (newSymbol : Symbol) : Option SymbolTable :=
  st.replace newSymbol.completes newSymbol

/-- Give a declared function its body. -/
def updateFnDeclarationWithDefinition (name : String) (body : Stmt) : Option SymbolTable := do
  let s ← st.lookup name
  let s' ← s.updateFnDeclarationWithDefinition body
  return st.set s'

/-- Insert the symbol that `f` makes, unless the name is in the table. -/
def ensure (name : String) (f : SymbolTable → String → Option Symbol) : Option SymbolTable :=
  if st.contains name then some st
  else do
    let sym ← f st name
    guard (sym.name = name)
    st.insert sym

@[simp] lemma machineModel_set (s : Symbol) : (st.set s).machineModel = st.machineModel := rfl

@[simp] lemma lookup_empty (mm : MachineModel) (name : String) :
    (empty mm).lookup name = none := rfl

@[simp] lemma lookup_set_self (s : Symbol) : (st.set s).lookup s.name = some s :=
  OrdMap.get?_insert_self _ _ _

lemma lookup_set (s : Symbol) (name : String) :
    (st.set s).lookup name = if name = s.name then some s else st.lookup name :=
  OrdMap.get?_insert _ _ _ _

lemma lookup_set_of_ne (h : name ≠ s.name) : (st.set s).lookup name = st.lookup name := by
  rw [lookup_set, if_neg h]

variable {st} {st' : SymbolTable} {body : Stmt} {cs : List DatatypeComponent}

lemma insert_eq_some : st.insert s = some st' ↔ st.lookup s.name = none ∧ st' = st.set s := by
  rw [insert]
  split_ifs with h
  · simp [Option.isNone_iff_eq_none.1 h, eq_comm]
  · simp only [Option.isNone_iff_eq_none] at h
    simp [h]

lemma replaceWithCompletion_eq_some :
    st.replaceWithCompletion s = some st' ↔
      (∃ old, st.lookup s.name = some old ∧ s.typ.completes old.typ = true) ∧ st' = st.set s := by
  rw [replaceWithCompletion, replace]
  cases h : st.lookup s.name with
  | none => simp [Symbol.completes]
  | some old =>
    simp only [Symbol.completes, Option.some.injEq, exists_eq_left']
    split_ifs with hc <;> simp [hc, eq_comm (a := st')]

lemma updateFnDeclarationWithDefinition_eq_some :
    st.updateFnDeclarationWithDefinition name body = some st' ↔
      ∃ s, st.lookup name = some s ∧ s.isFunctionDeclaration = true ∧
        st' = st.set { s with value := .stmt body } := by
  rw [updateFnDeclarationWithDefinition]
  cases h : st.lookup name with
  | none => simp
  | some s =>
    simp only [Symbol.updateFnDeclarationWithDefinition, Option.some.injEq, exists_eq_left',
      some_bind]
    split_ifs with hd <;> simp [hd, eq_comm (a := st')]

/-- Two tables with the same symbols and the same machine model are the same table. -/
lemma ext_lookup (hmm : st.machineModel = st'.machineModel)
    (h : ∀ name, st.lookup name = st'.lookup name) :
    st = st' := by
  obtain ⟨m, mm, hk⟩ := st
  obtain ⟨m', mm', hk'⟩ := st'
  cases hmm
  have hm : m = m' := OrdMap.ext_get? h
  subst hm
  rfl

/-! ### Growth -/

/-- What a table can become: every symbol stays, and its type stays or is completed. -/
structure Le (st st' : SymbolTable) : Prop where
  machineModel : st'.machineModel = st.machineModel
  lookup : ∀ {name s}, st.lookup name = some s →
    ∃ s', st'.lookup name = some s' ∧ (s'.typ = s.typ ∨ s'.typ.completes s.typ = true)

lemma Le.refl (st : SymbolTable) : Le st st := ⟨rfl, fun h => ⟨_, h, .inl rfl⟩⟩

lemma Le.trans {st'' : SymbolTable} (h : Le st st') (h' : Le st' st'') : Le st st'' := by
  refine ⟨h'.machineModel.trans h.machineModel, fun hs => ?_⟩
  obtain ⟨s', hs', ht'⟩ := h.lookup hs
  obtain ⟨s'', hs'', ht''⟩ := h'.lookup hs'
  refine ⟨s'', hs'', ?_⟩
  rcases ht'' with ht'' | ht''
  · rwa [ht'']
  · -- a type that is completed here was still incomplete, so it was not completed before
    rcases ht' with ht' | ht'
    · exact .inr (ht' ▸ ht'')
    · exact absurd ht'' (by simp [Typ.completes_not_completes ht'])

lemma le_set
    (h : ∀ old, st.lookup s.name = some old → s.typ = old.typ ∨ s.typ.completes old.typ = true) :
    Le st (st.set s) := by
  refine ⟨rfl, fun {name s'} hs' => ?_⟩
  rw [lookup_set]
  split_ifs with hn
  · exact ⟨s, rfl, h _ (hn ▸ hs')⟩
  · exact ⟨s', hs', .inl rfl⟩

lemma le_insert (h : st.insert s = some st') : Le st st' := by
  obtain ⟨hnone, rfl⟩ := insert_eq_some.1 h
  exact le_set fun old hold => by simp [hnone] at hold

lemma le_replaceWithCompletion (h : st.replaceWithCompletion s = some st') : Le st st' := by
  obtain ⟨⟨old, hold, hc⟩, rfl⟩ := replaceWithCompletion_eq_some.1 h
  refine le_set fun old' hold' => .inr ?_
  rw [hold, Option.some.injEq] at hold'
  exact hold' ▸ hc

lemma le_updateFnDeclarationWithDefinition
    (h : st.updateFnDeclarationWithDefinition name body = some st') :
    Le st st' := by
  obtain ⟨s, hs, -, rfl⟩ := updateFnDeclarationWithDefinition_eq_some.1 h
  refine le_set fun old hold => .inl ?_
  have hold' : st.lookup name = some old := by
    rw [← lookup_name hs]
    exact hold
  rw [hs, Option.some.injEq] at hold'
  exact hold' ▸ rfl

/-- The components of an aggregate do not change once it is complete. -/
lemma Le.lookupComponents (h : Le st st') (hcs : st.lookupComponents name = some cs) :
    st'.lookupComponents name = some cs := by
  simp only [SymbolTable.lookupComponents, bind_eq_some] at hcs ⊢
  obtain ⟨s, hs, hcs⟩ := hcs
  obtain ⟨s', hs', ht⟩ := h.lookup hs
  refine ⟨s', hs', ?_⟩
  rcases ht with ht | ht
  · rw [ht, hcs]
  · exact absurd hcs (Typ.components_of_completes ht)

lemma lookupFieldsInType_eq (st : SymbolTable) (t : Typ) :
    st.lookupFieldsInType t = t.typeName.bind st.lookupComponents := rfl

lemma Le.lookupFieldsInType (h : Le st st') (hcs : st.lookupFieldsInType t = some cs) :
    st'.lookupFieldsInType t = some cs := by
  rw [lookupFieldsInType_eq, Option.bind_eq_some_iff] at hcs ⊢
  obtain ⟨name, hname, hcs⟩ := hcs
  exact ⟨name, hname, h.lookupComponents hcs⟩

lemma Le.lookupFieldTypeInType (h : Le st st') {ft : Typ} {field : String}
    (hf : st.lookupFieldTypeInType t field = some ft) :
    st'.lookupFieldTypeInType t field = some ft := by
  simp only [SymbolTable.lookupFieldTypeInType, SymbolTable.lookupFieldType, bind_eq_some] at hf ⊢
  obtain ⟨name, hname, cs, hcs, c, hc, hft⟩ := hf
  exact ⟨name, hname, cs, h.lookupComponents hcs, c, hc, hft⟩

end SymbolTable

end Rmc

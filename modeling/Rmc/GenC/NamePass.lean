import Rmc.GenC.NameTransformer
import Rmc.Goto.IdentityTransformer

/-!
# Renaming a symbol table

The pass that makes the names of a program into C identifiers (`name_transformer.rs`), on a whole
symbol table. The transformer renames whatever name it comes to: of symbols, tags, components,
parameters and labels. A name is mapped to one result whenever it is met, and distinct names to
distinct results; which results these are depends on the order in which names that would become the
same are met.

So the pass maps the table by one renaming, or panics. It does not see the symbols that every table
starts with, though, and takes no care of their names; and the driver compares old names with new
ones. Whether it panics can be read off the renaming.
-/

namespace Rmc.GenC

open OrdMap SymbolTable SymbolTransformer Effect

variable [UnicodeTables] {n r : String}

namespace NameTransformer

/-! ### Results that do not depend on the order -/

/-- A result that a name may get: the name made into identifiers, and that with a number. -/
def Candidate (origName result : String) : Prop :=
  ∃ parts, splitVariable (splitTag origName.toList).2 = some parts ∧
    (result = base origName parts ∨ ∃ k, result = numbered (base origName parts) k)

variable {self self' last : NameTransformer} {names results : List String}

/-- Each call gives a name one of its candidates. -/
lemma candidate_of_lookup (hrun : new.normalizeIdentifiers names = some (results, self))
    (h : self.mappedNames.lookup n = some r) : Candidate n r := by
  refine normalizeIdentifiers_invariant
    (P := fun nt => ∀ n r, nt.mappedNames.lookup n = some r → Candidate n r)
    (fun {self self' m r} _ hself hcall n x hn => ?_) (by simp [new]) hrun n r h
  obtain ⟨-, ⟨-, rfl⟩ | ⟨hnew, ⟨-, parts, hparts, hr⟩, rfl⟩⟩ := normalizeIdentifier_cases hcall
  · exact hself n x hn
  · rcases (lookup_cons_iff hnew).mp hn with ⟨rfl, rfl⟩ | hn
    · exact ⟨parts, hparts, hr.imp And.right And.right⟩
    · exact hself n x hn

/-! ### Bases of names -/

lemma base_ne_empty {parts : List Char × Option (List Char)} (hne : n ≠ "")
    (hparts : splitVariable (splitTag n.toList).2 = some parts) :
    base n parts ≠ "" := by
  intro hempty
  obtain ⟨name, suffix⟩ := parts
  have hnil : fixIdentifier (splitTag n.toList).1 name suffix = [] := by
    simpa [base] using congrArg String.toList hempty
  refine hne (String.toList_injective ?_)
  rw [← (splitTag_eq n.toList).2, eq_append_of_splitVariable hparts]
  cases suffix with
  | none =>
    rw [fixIdentifier, List.append_eq_nil_iff, fixName_eq_nil_iff] at hnil
    simp [hnil]
  | some suffix => simp [fixIdentifier] at hnil

lemma Candidate.ne_empty (h : Candidate n r) (hne : n ≠ "") : r ≠ "" := by
  obtain ⟨parts, hparts, rfl | ⟨k, rfl⟩⟩ := h
  · exact base_ne_empty hne hparts
  · intro hempty
    have hlist := congrArg String.toList hempty
    simp [numbered] at hlist

/-! ### The renaming of a run -/

/-- What the names have become in the end. -/
def result (last : NameTransformer) (n : String) : String := (last.mappedNames.lookup n).getD n

/-- A renaming of a list of names, as one run of the transformer makes it. -/
structure Renames (names : List String) (f : String → String) : Prop where
  injOn : Set.InjOn f {n | n ∈ names}
  other : ∀ n, n ∉ names → f n = n
  candidate : ∀ n ∈ names, Candidate n (f n)

/-- The names of a list are renamed when they are converted in turn. -/
lemma renames_of_run (hrun : new.normalizeIdentifiers names = some (results, last)) :
    Renames names (result last) := by
  have hlookup : ∀ n ∈ names, last.mappedNames.lookup n = some (result last n) := by
    intro n hn
    obtain ⟨r, hr⟩ := coherent_new.exists_lookup hrun hn
    simp [result, hr]
  refine ⟨fun n hn n' hn' heq => ?_, fun n hn => ?_,
    fun n hn => candidate_of_lookup hrun (hlookup n hn)⟩
  · apply (coherent_new.normalizeIdentifiers hrun).1.unique (hlookup n hn)
    rw [heq]
    exact hlookup n' hn'
  · have hnone : last.mappedNames.lookup n = none := by
      rw [Option.eq_none_iff_forall_ne_some]
      exact fun r hr => hn (mem_of_lookup hrun hr)
    rw [result, hnone, Option.getD_none]

/-- No name becomes empty. -/
lemma Renames.ne_empty {f : String → String} (h : Renames names f) (hne : n ≠ "") : f n ≠ "" := by
  by_cases hmem : n ∈ names
  · exact (h.candidate n hmem).ne_empty hne
  · rwa [h.other n hmem]

/-- The states of a run that ends in `last`, by the names that are to come. -/
def runTo (last : NameTransformer) : Effect NameTransformer String where
  Inv names self := self.Coherent ∧
    ∃ results, self.normalizeIdentifiers names = some (results, last)

/-- A call returns what the name has become in the end. -/
lemma yields_normalizeIdentifier (n : String) :
    (runTo last).Yields (fun self => self.normalizeIdentifier n) (result last n) [n] := by
  rintro names self ⟨hc, results, hrun⟩
  obtain ⟨r, self₁, rs, hfirst, hrest, -⟩ := normalizeIdentifiers_cons.mp hrun
  obtain ⟨hc₁, -, hlookup⟩ := hc.normalizeIdentifier hfirst
  have hr : result last n = r := by
    simp [result, (hc₁.normalizeIdentifiers hrest).2.1 hlookup]
  rw [hr]
  exact ⟨self₁, hfirst, hc₁, rs, hrest⟩

/-- The first names of a run have become what they become when they are converted alone. -/
lemma map_result {l r : List String} (h : (runTo last).Inv (l ++ r) self)
    (hrun : self.normalizeIdentifiers l = some (results, self')) :
    l.map (result last) = results := by
  induction l generalizing self results with
  | nil =>
    cases hrun
    rfl
  | cons n l ih =>
    obtain ⟨self₁, hfirst, h₁⟩ := yields_normalizeIdentifier n (l ++ r) self h
    have hfirst' : self.normalizeIdentifier n = some (result last n, self₁) := hfirst
    obtain ⟨x, nt, rs, hcall, hrest, rfl⟩ := normalizeIdentifiers_cons.mp hrun
    obtain ⟨rfl, rfl⟩ := Prod.mk.inj (Option.some.inj (hfirst'.symm.trans hcall))
    rw [List.map_cons, ih h₁ hrest]

end NameTransformer

/-! ### The pass -/

section Pass

variable [Ranked String] [DebugTyp]

namespace NameTransformer

/-- The methods of the transformer: names are converted, and all else is built again. -/
def traversal (st : SymbolTable) : Traversal (StateT NameTransformer Option) :=
  Traversal.naming (fun n self => self.normalizeIdentifier n) st

/-- Normalize symbol names. -/
def transformSymbol (st : SymbolTable) (symbol : Symbol) :
    StateT NameTransformer Option Symbol := do
  let m := traversal st
  let newTyp ← m.transformType symbol.typ
  let newValue ← m.transformValue symbol.value
  let newName ← m.name symbol.name
  let newBaseName ← m.transformName? symbol.baseName
  let newPrettyName ← m.transformName? symbol.prettyName
  return { symbol with
    typ := newTyp, value := newValue, name := newName, baseName := newBaseName,
    prettyName := newPrettyName }

def symbolTransformer : SymbolTransformer NameTransformer where
  transformSymbol symbol := withTable fun st => transformSymbol st symbol
  postprocess := pure ()

/-- Transform all identifiers in the symbol table to be valid C identifiers. -/
def transform (originalSymbolTable : SymbolTable) : Option SymbolTable :=
  symbolTransformer.transform new originalSymbolTable

end NameTransformer

open NameTransformer

/-! ### Tables that the pass is made for -/

section Table

/-- A name that matters to the pass: of a symbol that every table starts with, or in one of the
others. -/
def Identifier (st₀ st : SymbolTable) (n : String) : Prop :=
  st₀.contains n = true ∨ ∃ s, Own st₀ st s ∧ n ∈ s.identifiers

/-- A table with further symbols, built by constructors, whose references resolve and whose names
can be converted. -/
structure Convertible (st₀ st : SymbolTable) : Prop where
  defaults : ∀ n s, st₀.lookup n = some s → st.lookup n = some s
  filled : Filled st₀ st
  resolves : ∀ s, Own st₀ st s → ∀ n, s.value.References n → st.contains n = true
  identifiers : ∀ n, Identifier st₀ st n → n ≠ "" ∧ AtMostOneSeparator n
  /-- The parameters of the function types can be passed. -/
  parameters : ∀ u, st.Occurs u → u.LvalueParameters
  /-- A tag names a further symbol, and one without a value. -/
  tags : ∀ tag s, st.OccursTag tag → st.lookup tag = some s →
    Own st₀ st s ∧ s.value.isNone = true

/-- All names that matter: first those that are converted, in turn. -/
def tableNames (st₀ st : SymbolTable) : List String :=
  (typeSymbols st₀ st.symbolTable.entries).flatMap Symbol.events ++
    ((valueSymbols st₀ st.symbolTable.entries).flatMap Symbol.events ++
      ((typeSymbols st₀ st.symbolTable.entries ++
        valueSymbols st₀ st.symbolTable.entries).flatMap Symbol.identifiers ++
        st₀.symbolTable.entries.map Prod.fst))

variable {mm : MachineModel} {st₀ st t : SymbolTable} {s : Symbol}

omit [UnicodeTables] [DebugTyp] in
lemma mem_tableNames : n ∈ tableNames st₀ st ↔ Identifier st₀ st n := by
  have hevents : ∀ l : List Symbol, (∀ s ∈ l, Own st₀ st s) → n ∈ l.flatMap Symbol.events →
      Identifier st₀ st n := by
    intro l hl hn
    obtain ⟨s, hs, hn⟩ := List.mem_flatMap.mp hn
    exact .inr ⟨s, hl s hs, List.mem_append_left _ hn⟩
  simp only [tableNames, List.mem_append]
  constructor
  · rintro (hn | hn | hn | hn)
    · exact hevents _ (fun s hs => (mem_typeSymbols.mp hs).1) hn
    · exact hevents _ (fun s hs => (mem_valueSymbols.mp hs).1) hn
    · obtain ⟨s, hs, hn⟩ := List.mem_flatMap.mp hn
      exact .inr ⟨s, mem_symbols.mp hs, hn⟩
    · exact .inl (mem_names_iff.mp hn)
  · rintro (hn | ⟨s, hs, hn⟩)
    · exact .inr (.inr (.inr (mem_names_iff.mpr hn)))
    · exact .inr (.inr (.inl (List.mem_flatMap.mpr ⟨s, mem_symbols.mpr hs, hn⟩)))

omit [UnicodeTables] [DebugTyp] in
lemma mem_tableNames_of_contains (h : st.contains n = true) : n ∈ tableNames st₀ st := by
  obtain ⟨s, hs⟩ := contains_iff.mp h
  obtain rfl : s.name = n := lookup_name hs
  refine mem_tableNames.mpr ?_
  cases hs₀ : st₀.lookup s.name with
  | some s₀ => exact .inl (contains_iff.mpr ⟨s₀, hs₀⟩)
  | none => exact .inr ⟨s, ⟨hs, hs₀⟩, s.name_mem_identifiers⟩

omit [UnicodeTables] in
lemma Convertible.composed (h : Convertible st₀ st) (hs : Own st₀ st s) : s.Composed st := by
  refine (h.filled s.name s hs.mem).resolve_left ?_
  rw [contains_eq_false_iff.mpr hs.missing]
  exact Bool.false_ne_true

omit [UnicodeTables] in
lemma Convertible.rebuildable (h : Convertible st₀ st) : Rebuildable st₀ st :=
  ⟨h.defaults, h.parameters, fun tag s htag hs => (h.tags tag s htag hs).2⟩

omit [UnicodeTables] in
lemma Convertible.missing (h : Convertible st₀ st) {tag : String} (htag : st.OccursTag tag) :
    st₀.lookup tag = none := by
  rw [Option.eq_none_iff_forall_ne_some]
  intro s hs
  obtain ⟨hown, -⟩ := h.tags tag s htag (h.defaults tag s hs)
  rw [← lookup_name hs, hown.missing] at hs
  cases hs

/-! ### The pass renames, or panics -/

section Run

variable {results : List String} {last : NameTransformer}

/-- A further symbol is renamed by what the names have become in the end. -/
lemma Convertible.makes (h : Convertible st₀ st) (hr : Renames (tableNames st₀ st) (result last))
    (hs : Own st₀ st s)
    (hcarries : s.value.isNone = false → (namePass (result last)).Carries st.OccursTag st t) :
    symbolTransformer.Makes (runTo last) (Symbol.rename (result last)) Symbol.events t s := by
  have hN : ∀ s, Own st₀ st s → ∀ n ∈ s.identifiers, n ∈ {n | n ∈ tableNames st₀ st} :=
    fun s hs n hn => mem_tableNames.mpr (.inr ⟨s, hs, hn⟩)
  have hname : ∀ n, (runTo last).Yields ((traversal t).name n) (result last n) [n] :=
    yields_normalizeIdentifier
  have hname? : ∀ o : Option String, (runTo last).Yields ((traversal t).transformName? o)
      (o.map (result last)) o.toList := by
    intro o
    have hyields : (runTo last).Yields ((traversal t).transformName? o) (o.map (result last))
        (o.toList.flatMap fun n => [n]) := yields_name? fun n _ => hname n
    rwa [List.flatMap_singleton'] at hyields
  have htyp := h.rebuildable.yields_type (t := t) hN hr.injOn hs (h.composed hs) hname
    List.mem_cons_self
  have hvalue := h.rebuildable.yields_value hN hr.injOn hs (h.composed hs) hname
    (fun _ => hr.ne_empty) hcarries
  exact Makes.of_yields rfl (htyp.bind (hvalue.bind
    ((hname s.name).bind ((hname? s.baseName).bind (hname? s.prettyName).map))))

section

variable (hnew : SymbolTable.new mm = some st₀) (hmm : st.machineModel = mm)
  (h : Convertible st₀ st)
  (hrun : NameTransformer.new.normalizeIdentifiers (tableNames st₀ st) = some (results, last))

include hnew hmm h hrun

/-- The pass returns when the renamed symbols can be told apart, and then the table has them beside
the symbols that it starts with. Otherwise the pass panics. -/
lemma Convertible.transform_cases :
    Separable st₀ st (Symbol.rename (result last)) ∧
      (∃ st', NameTransformer.transform st = some st' ∧
      Holds st₀ ((typeSymbols st₀ st.symbolTable.entries ++
        valueSymbols st₀ st.symbolTable.entries).map (Symbol.rename (result last))) st') ∨
    ¬ Separable st₀ st (Symbol.rename (result last)) ∧ NameTransformer.transform st = none := by
  have hr := renames_of_run hrun
  have hnames : ∀ s, Own st₀ st s → ∀ n ∈ s.identifiers, n ∈ {n | n ∈ tableNames st₀ st} :=
    fun s hs n hn => mem_tableNames.mpr (.inr ⟨s, hs, hn⟩)
  have hmm₀ : st.machineModel = st₀.machineModel := hmm.trans (machineModel_new hnew).symm
  refine SymbolTransformer.transform_cases (Symbol.rename (result last)) Symbol.events
    (E := runTo last) (hmm ▸ hnew) rfl
    (fun s s' hs hs' heq => ?_) (fun s hs hnone t => ?_) (fun s hs _ xs t _ ht => ?_)
    ⟨coherent_new, results, hrun⟩
  · exact hs.eq_of_name hs' (hr.injOn (hnames s hs _ s.name_mem_identifiers)
      (hnames s' hs' _ s'.name_mem_identifiers) heq)
  · refine h.makes hr hs fun hsome => ?_
    rw [hnone] at hsome
    cases hsome
  · exact h.makes hr hs fun _ => h.rebuildable.carries hnames hr.injOn hmm₀
      (.inr fun _ => h.missing) (fun _ => rfl) (fun _ => rfl) ht

/-- What the pass makes has a property when the renamed symbols can be told apart and have it. -/
lemma Convertible.exists_transform_iff {P : SymbolTable → Prop} {Q : Prop}
    (hP : Separable st₀ st (Symbol.rename (result last)) → ∀ st',
      Holds st₀ ((typeSymbols st₀ st.symbolTable.entries ++
        valueSymbols st₀ st.symbolTable.entries).map (Symbol.rename (result last))) st' →
      (P st' ↔ Q)) :
    (∃ st', NameTransformer.transform st = some st' ∧ P st') ↔
      Separable st₀ st (Symbol.rename (result last)) ∧ Q := by
  rcases h.transform_cases hnew hmm hrun with ⟨hsep, st', hst', hholds⟩ | ⟨hsep, hnone⟩
  · simp [hst', hsep, hP hsep st' hholds]
  · simp [hnone, hsep]

end

end Run

/-! ### What every table starts with -/

/-- The names of the symbols that every table starts with. -/
def initialNames : List (Option String) :=
  (initialSymbols (machineModelFromSession none "x86_64" false 64)).map (Option.map Symbol.name)

variable {d : String}

omit [UnicodeTables] [DebugTyp] in
/-- The names do not depend on the machine. -/
lemma mem_initialNames (hnew : SymbolTable.new mm = some st₀) :
    some d ∈ initialNames ↔ st₀.contains d = true := by
  obtain ⟨st₁, hnew', hlookup⟩ := exists_new mm
  obtain rfl := Option.some.inj (hnew.symm.trans hnew')
  rw [initialNames, ← names_initialSymbols, contains_iff]
  constructor
  · intro hd
    obtain ⟨o, hmem, ho⟩ := List.mem_map.mp hd
    obtain ⟨s, rfl, hname⟩ := Option.map_eq_some_iff.mp ho
    exact ⟨s, (hlookup d s).mpr ⟨hmem, hname⟩⟩
  · rintro ⟨s, hs⟩
    obtain ⟨hmem, rfl⟩ := (hlookup d s).mp hs
    exact List.mem_map_of_mem (f := Option.map Symbol.name) hmem

section

omit [UnicodeTables] [DebugTyp]

variable (hnew : SymbolTable.new mm = some st₀)

include hnew

/-- These names are identifiers, and do not end in a reserved word. -/
lemma isCIdentifier_of_new (hd : st₀.contains d = true) :
    isCIdentifier d.toList = true ∧ ∀ p ∈ illegalNames, p.1.toList.isSuffixOf d.toList = false := by
  have hall : ∀ o ∈ initialNames, ∀ d ∈ o, isCIdentifier d.toList = true ∧
      ∀ p ∈ illegalNames, p.1.toList.isSuffixOf d.toList = false := by
    decide +kernel
  exact hall _ ((mem_initialNames hnew).mpr hd) d rfl

/-- What the initial symbols show on all machines can be checked on one. -/
lemma of_new {α : Type} {P : α → Prop} (v : Symbol → α)
    (hsame : (initialSymbols mm).map (Option.map v) =
      (initialSymbols (machineModelFromSession none "x86_64" false 64)).map (Option.map v))
    (hall : ∀ o ∈ (initialSymbols (machineModelFromSession none "x86_64" false 64)).map
      (Option.map v), ∀ a ∈ o, P a)
    (hs : st₀.lookup n = some s) : P (v s) := by
  obtain ⟨st₁, hnew', hlookup⟩ := exists_new mm
  obtain rfl := Option.some.inj (hnew.symm.trans hnew')
  have hmem := List.mem_map_of_mem (f := Option.map v) ((hlookup n s).mp hs).1
  rw [hsame] at hmem
  exact hall _ hmem _ rfl

/-- The types of the initial symbols have no names, and their values no references. -/
lemma allNames_of_new (hs : st₀.lookup d = some s) :
    s.typ.allNames = [] ∧ ∀ e ∈ s.value.exprs, e.isSymbol = false := by
  obtain ⟨hnames, hrefs⟩ := of_new (P := fun p => p.1 = [] ∧ ∀ b ∈ p.2, b = false) hnew
    (fun s => (s.typ.allNames, s.value.exprs.map Expr.isSymbol)) rfl (by decide +kernel) hs
  exact ⟨hnames, fun e he => hrefs _ (List.mem_map_of_mem he)⟩

end

omit [DebugTyp] in
lemma base_of_new (hnew : SymbolTable.new mm = some st₀) (hd : st₀.contains d = true) :
    splitVariable (splitTag d.toList).2 = some (d.toList, none) ∧ base d (d.toList, none) = d := by
  obtain ⟨hident, hillegal⟩ := isCIdentifier_of_new hnew hd
  obtain ⟨htag, hparts⟩ := splitVariable_of_isCIdentifier hident
  rw [base, htag, fixIdentifier, fixName_eq_self hident hillegal]
  exact ⟨hparts, String.ofList_toList⟩

/-! ### Tables with declarations -/

/-- A type that is not a tag, and whose parameters can be passed if it is that of a function. -/
def plainType (u : Typ) : Bool :=
  !u.isStructTag && !u.isUnionTag && u.parameters.all fun ps => ps.all fun p => p.typ.isLvalue

omit [UnicodeTables] [Ranked String] [DebugTyp] in
lemma plainType_iff {u : Typ} : plainType u = true ↔
    u.isStructTag = false ∧ u.isUnionTag = false ∧ u.LvalueParameters := by
  rw [plainType, Bool.and_eq_true, Bool.and_eq_true, Bool.not_eq_true', Bool.not_eq_true',
    and_assoc]
  refine and_congr_right fun _ => and_congr_right fun _ => ?_
  rw [Typ.LvalueParameters]
  cases u.parameters <;> simp

/-- Declarations for any table: they have no value, new names that can be converted, and types
without tags. -/
abbrev Declarable (l : List Symbol) : Prop :=
  (l.map Symbol.name).Nodup ∧ (l.flatMap Symbol.identifiers).length ≤ 1000 ∧ ∀ s ∈ l,
    some s.name ∉ initialNames ∧ s.value.isNone = true ∧
      (∀ n ∈ s.identifiers, n ≠ "" ∧ AtMostOneSeparator n) ∧
      ∀ t ∈ s.types, ∀ u ∈ t.subTypes, plainType u = true

/-- A new table with declarations, and the run that converts its names. -/
structure Declared (mm : MachineModel) (l : List Symbol) where
  st₀ : SymbolTable
  st : SymbolTable
  results : List String
  last : NameTransformer
  declarable : Declarable l
  new : SymbolTable.new mm = some st₀
  insert : l.foldlM SymbolTable.insert st₀ = some st
  adds : st₀.Adds l st
  machineModel : st.machineModel = mm
  convertible : Convertible st₀ st
  run : NameTransformer.new.normalizeIdentifiers (tableNames st₀ st) = some (results, last)

variable {l : List Symbol}

namespace Declarable

variable (h : Declarable l)

include h

omit [UnicodeTables] [DebugTyp] in
lemma missing (hnew : SymbolTable.new mm = some st₀) : ∀ s ∈ l, st₀.lookup s.name = none := by
  intro s hs
  rw [← contains_eq_false_iff, ← Bool.not_eq_true]
  exact fun hd => (h.2.2 s hs).1 ((mem_initialNames hnew).mpr hd)

omit [UnicodeTables] in
lemma convertible (htyp : ∀ s ∈ l, s.typ.Composed) (hnew : SymbolTable.new mm = some st₀)
    (hadds : st₀.Adds l st) : Convertible st₀ st := by
  have hvalue : ∀ s ∈ l, s.value = .none := by
    intro s hs
    have hnone := (h.2.2 s hs).2.1
    cases hv : s.value <;> simp_all [SymbolValues.isNone]
  have hoccurs : ∀ u, st.Occurs u → u.isStructTag = false ∧ u.isUnionTag = false ∧
      u.LvalueParameters := by
    rintro u ⟨n, s, hs, t, ht, hu⟩
    rw [← plainType_iff]
    rcases (hadds.lookup n s).mp hs with hs | ⟨hs, -⟩
    · have hplain := of_new (P := (· = true)) hnew
        (fun s => s.types.all fun t => t.subTypes.all plainType) rfl (by decide +kernel) hs
      rw [List.all_eq_true] at hplain
      exact List.all_eq_true.mp (hplain t ht) u hu
    · exact (h.2.2 s hs).2.2.2 t ht u hu
  refine ⟨fun n s hs => (hadds.lookup n s).mpr (.inl hs), fun n s hs => ?_, fun s hs n hn => ?_, ?_,
    fun u hu => (hoccurs u hu).2.2, ?_⟩
  · rcases (hadds.lookup n s).mp hs with hs | ⟨hs, -⟩
    · exact .inl (contains_iff.mpr ⟨s, hs⟩)
    · refine .inr ⟨fun t ht => ?_, ?_⟩
      · rw [Symbol.types, hvalue s hs] at ht
        rw [List.mem_singleton.mp ht]
        exact htyp s hs
      · rw [hvalue s hs]
        trivial
  · obtain ⟨e, he, -⟩ := hn
    rw [hvalue s (hadds.own_iff.mp hs)] at he
    cases he
  · rintro n (hn | ⟨s, hs, hn⟩)
    · exact admissible_of_isCIdentifier (isCIdentifier_of_new hnew hn).1
    · exact (h.2.2 s (hadds.own_iff.mp hs)).2.2.1 n hn
  · rintro tag s (htag | htag) -
    · exact absurd (hoccurs _ htag).1 (by simp [Typ.isStructTag])
    · exact absurd (hoccurs _ htag).2.1 (by simp [Typ.isUnionTag])

/-- Declarations whose types are built by constructors make a table that the pass is made for, with
numbers for its names. -/
lemma nonempty_declared (htyp : ∀ s ∈ l, s.typ.Composed) (mm : MachineModel) :
    Nonempty (Declared mm l) := by
  obtain ⟨st₀, hnew, -⟩ := exists_new mm
  obtain ⟨st, hst, hadds⟩ := st₀.exists_adds h.1 (h.missing hnew)
  have hconv := h.convertible htyp hnew hadds
  have hsub : (tableNames st₀ st).toFinset ⊆
      (initialNames.filterMap id ++ l.flatMap Symbol.identifiers).toFinset := by
    intro n hn
    rw [List.mem_toFinset, mem_tableNames] at hn
    rw [List.mem_toFinset, List.mem_append]
    rcases hn with hn | ⟨s, hs, hn⟩
    · exact .inl (List.mem_filterMap.mpr ⟨_, (mem_initialNames hnew).mpr hn, rfl⟩)
    · exact .inr (List.mem_flatMap.mpr ⟨s, hadds.own_iff.mp hs, hn⟩)
  have hcard : (tableNames st₀ st).toFinset.card ≤ suffixLimit :=
    calc (tableNames st₀ st).toFinset.card
        ≤ (initialNames.filterMap id ++ l.flatMap Symbol.identifiers).length :=
          (Finset.card_le_card hsub).trans (List.toFinset_card_le _)
      _ ≤ 1000 + 1000 := by
          rw [List.length_append]
          exact Nat.add_le_add (by decide +kernel) h.2.1
      _ ≤ suffixLimit := by decide
  obtain ⟨results, last, hrun⟩ := exists_run_of_card_le
    (fun n hn => hconv.identifiers n (mem_tableNames.mp hn)) hcard
  exact ⟨st₀, st, results, last, h, hnew, hst, hadds,
    hadds.machineModel.trans (machineModel_new hnew), hconv, hrun⟩

end Declarable

omit [UnicodeTables] [Ranked String] [DebugTyp] in
/-- One or two things have only two orders. -/
private lemma mem_of_perm {α : Type} {l l' : List α} (h : l'.Perm l) (hl : l.length ≤ 2) :
    l' ∈ [l, l.reverse] := by
  match l, hl with
  | [], _ => simp [h.eq_nil]
  | [a], _ => simp [List.perm_singleton.mp h]
  | [a, b], _ =>
    obtain ⟨x, y, rfl⟩ := List.length_eq_two.mp h.length_eq
    rcases List.mem_pair.mp (h.subset List.mem_cons_self) with rfl | rfl
    · simp [List.singleton_perm_singleton.mp ((List.perm_cons x).mp h)]
    · have hswap := h.trans (.swap x a [])
      simp [List.singleton_perm_singleton.mp ((List.perm_cons x).mp hswap)]

/-- What the names of declarations become when these are converted in an order of their own. -/
def converted (l l' : List Symbol) : Option (List String) :=
  (NameTransformer.new.normalizeIdentifiers (l'.flatMap Symbol.events)).map fun p =>
    (l.flatMap Symbol.events).map (result p.2)

namespace Declared

variable (d : Declared mm l)

/-- One or two declarations are converted in one order or the other, before everything else. -/
lemma check_results {p : List String → Bool} (hl : l.length ≤ 2)
    (h : ∀ l' ∈ [l, l.reverse], (converted l l').any p = true) :
    p ((l.flatMap Symbol.events).map (result d.last)) = true := by
  have hperm := d.adds.typeSymbols_perm d.declarable.1 fun s hs => (d.declarable.2.2 s hs).2.1
  have hany := h _ (mem_of_perm hperm hl)
  rw [converted] at hany
  cases hfirst : NameTransformer.new.normalizeIdentifiers
      ((typeSymbols d.st₀ d.st.symbolTable.entries).flatMap Symbol.events) with
  | none => simp [hfirst] at hany
  | some x =>
    obtain ⟨rs, k⟩ := x
    have hlast := map_result ⟨coherent_new, d.results, d.run⟩ hfirst
    have hk := map_result (r := []) ⟨coherent_new, rs, by rwa [List.append_nil]⟩ hfirst
    have heq := List.map_inj_left.mp (hlast.trans hk.symm)
    rw [hfirst, Option.map_some, Option.any_some] at hany
    rwa [List.map_congr_left fun n hn => heq n ?_]
    obtain ⟨s, hs, hn⟩ := List.mem_flatMap.mp hn
    exact List.mem_flatMap.mpr ⟨s, hperm.mem_iff.mpr hs, hn⟩

/-- The declarations can be told apart when none becomes a symbol that is there already. -/
lemma separable {f : String → String} (hnew : ∀ s ∈ l, some (f s.name) ∉ initialNames)
    (hother : ∀ s ∈ l, ∀ s' ∈ l, f s.name = s'.name → s = s') :
    Separable d.st₀ d.st (Symbol.rename f) := by
  refine ⟨fun s hs => ?_, ?_⟩
  · rw [← contains_eq_false_iff, ← Bool.not_eq_true]
    exact fun hd => hnew s (d.adds.own_iff.mp hs) ((mem_initialNames d.new).mpr hd)
  · refine (List.nodup_append.mp nodup_symbols).1.pairwise_of_forall_ne
      fun s hs s' hs' hne heq => hne ?_
    exact hother s (d.adds.own_iff.mp (mem_typeSymbols.mp hs).1) s'
      (d.adds.own_iff.mp (mem_typeSymbols.mp hs').1) heq

lemma separable_singleton (d : Declared mm [s]) (hname : result d.last s.name = r)
    (hnew : some r ∉ initialNames) : Separable d.st₀ d.st (Symbol.rename (result d.last)) := by
  apply d.separable
  · rw [List.forall_mem_singleton, hname]
    exact hnew
  · simp

/-- Declarations refer to nothing. -/
lemma not_references (hs : Own d.st₀ d.st s) : ¬ s.value.References n := by
  rintro ⟨e, he, -⟩
  have hnone := (d.declarable.2.2 s (d.adds.own_iff.mp hs)).2.1
  cases hv : s.value <;> simp_all [SymbolValues.isNone, SymbolValues.exprs]

end Declared

end Table

end Pass

end Rmc.GenC

import Rmc.Irep.ToIrep

/-!
# Serialization

Symbol tables are written as JSON (`serialize.rs`). An irep table is written entry by entry. A goto
table is written without building its irep table: each symbol is converted when its entry is
written. Both ways write the same text, because a symbol stands under its own name and both tables
list their entries in the order of the names.
-/

namespace Rmc

/-- What a serializer is given: the entries of an object stay in order. -/
inductive Json where
  | str (s : String)
  | bool (b : Bool)
  | arr (elems : List Json)
  | obj (entries : List (String × Json))

mutual

/-- An irep without subtrees has no entry for them. -/
def Irep.serialize : Irep → Json
  | .mk id sub namedSub =>
    .obj (("id", .str id.toString) ::
      (if sub.isEmpty then [] else [("sub", .arr (serializeIreps sub))]) ++
      (if namedSub.isEmpty then [] else [("namedSub", .obj (serializeNamedIreps namedSub))]))

def serializeIreps : List Irep → List Json
  | [] => []
  | irep :: rest => irep.serialize :: serializeIreps rest

def serializeNamedIreps : List (IrepId × Irep) → List (String × Json)
  | [] => []
  | (k, v) :: rest => (k.toString, v.serialize) :: serializeNamedIreps rest

end

def IrepSymbol.serialize (s : IrepSymbol) : Json :=
  .obj
    [("type", s.typ.serialize),
     ("value", s.value.serialize),
     ("location", s.location.serialize),
     ("name", .str s.name),
     ("module", .str s.module),
     ("baseName", .str s.baseName),
     ("prettyName", .str s.prettyName),
     ("mode", .str s.mode),
     ("isType", .bool s.isType),
     ("isMacro", .bool s.isMacro),
     ("isExported", .bool s.isExported),
     ("isInput", .bool s.isInput),
     ("isOutput", .bool s.isOutput),
     ("isStateVar", .bool s.isStateVar),
     ("isProperty", .bool s.isProperty),
     ("isStaticLifetime", .bool s.isStaticLifetime),
     ("isThreadLocal", .bool s.isThreadLocal),
     ("isLvalue", .bool s.isLvalue),
     ("isFileLocal", .bool s.isFileLocal),
     ("isExtern", .bool s.isExtern),
     ("isVolatile", .bool s.isVolatile),
     ("isParameter", .bool s.isParameter),
     ("isAuxiliary", .bool s.isAuxiliary),
     ("isWeak", .bool s.isWeak)]

open OrdMap

variable [Ranked String] {s : Symbol} {i : IrepSymbol} {mm : MachineModel}

/-- Write an irep table. -/
def serializeIrepTable (table : OrdMap String IrepSymbol) : Json :=
  .obj [("symbolTable", .obj (table.entries.map fun (k, v) => (k, v.serialize)))]

/-- The entries of a goto table as they are written: a symbol is converted when it is its turn. -/
def streamingSymbols (mm : MachineModel) :
    List (String × Symbol) → Option (List (String × IrepSymbol))
  | [] => some []
  | (k, v) :: rest => do
    let i ← v.toIrep mm
    return (k, i) :: (← streamingSymbols mm rest)

/-- Write a goto table. -/
def SymbolTable.serialize (st : SymbolTable) : Option Json := do
  let entries ← streamingSymbols st.machineModel st.symbolTable.entries
  return .obj [("symbolTable", .obj (entries.map fun (k, v) => (k, v.serialize)))]

/-! ### Both ways write the same -/

omit [Ranked String] in
lemma Symbol.name_of_toIrep (h : s.toIrep mm = some i) : i.name = s.name := by
  simp only [Symbol.toIrep, bind_eq_some, pure_eq_some] at h
  obtain ⟨typ, -, value, -, rfl⟩ := h
  rfl

section Entries

variable {e : String × Symbol} {l : List (String × Symbol)}
  {entries : List (String × IrepSymbol)}

section

omit [Ranked String]

lemma streamingSymbols_cons_eq_some : streamingSymbols mm (e :: l) = some entries ↔
    ∃ i rest, e.2.toIrep mm = some i ∧ streamingSymbols mm l = some rest ∧
      (e.1, i) :: rest = entries := by
  obtain ⟨k, s⟩ := e
  simp only [streamingSymbols, bind_eq_some, pure_eq_some]
  constructor
  · rintro ⟨i, hi, rest, hrest, h⟩
    exact ⟨i, rest, hi, hrest, h⟩
  · rintro ⟨i, rest, hi, hrest, h⟩
    exact ⟨i, hi, rest, hrest, h⟩

lemma keys_streamingSymbols (h : streamingSymbols mm l = some entries) :
    entries.map Prod.fst = l.map Prod.fst := by
  induction l generalizing entries with
  | nil =>
    cases h
    rfl
  | cons e l ih =>
    obtain ⟨i, rest, -, hrest, rfl⟩ := streamingSymbols_cons_eq_some.1 h
    rw [List.map_cons, List.map_cons, ih hrest]

lemma mem_streamingSymbols_iff (h : streamingSymbols mm l = some entries) {k : String} :
    (k, i) ∈ entries ↔ ∃ s, (k, s) ∈ l ∧ s.toIrep mm = some i := by
  induction l generalizing entries with
  | nil =>
    cases h
    simp
  | cons e l ih =>
    obtain ⟨i', rest, hi', hrest, rfl⟩ := streamingSymbols_cons_eq_some.1 h
    simp only [List.mem_cons, ih hrest]
    constructor
    · rintro (heq | ⟨s, hs, hi⟩)
      · cases heq
        exact ⟨e.2, .inl rfl, hi'⟩
      · exact ⟨s, .inr hs, hi⟩
    · rintro ⟨s, rfl | hs, hi⟩
      · rw [hi'] at hi
        cases hi
        exact .inl rfl
      · exact .inr ⟨s, hs, hi⟩

/-- All entries can be written when every symbol can be converted. -/
lemma exists_streamingSymbols_iff :
    (∃ entries, streamingSymbols mm l = some entries) ↔ ∀ e ∈ l, ∃ i, e.2.toIrep mm = some i := by
  induction l with
  | nil => simp [streamingSymbols]
  | cons e l ih =>
    rw [List.forall_mem_cons, ← ih]
    simp only [streamingSymbols_cons_eq_some]
    constructor
    · rintro ⟨_, i, rest, hi, hrest, -⟩
      exact ⟨⟨i, hi⟩, rest, hrest⟩
    · rintro ⟨⟨i, hi⟩, rest, hrest⟩
      exact ⟨_, i, rest, hi, hrest, rfl⟩

end

end Entries

variable {table : OrdMap String IrepSymbol}

/-- Inserting the converted symbols in the order of their names puts each behind the others. -/
lemma entries_symbolsToIrep {l : List (String × Symbol)} (hl : Ascending l)
    (hname : ∀ e ∈ l, e.2.name = e.1)
    (hlt : ∀ e ∈ table.entries, ∀ e' ∈ l, Ranked.rank e.1 < Ranked.rank e'.1) :
    (symbolsToIrep mm l table).map OrdMap.entries =
      (streamingSymbols mm l).map (table.entries ++ ·) := by
  induction l generalizing table with
  | nil => simp [symbolsToIrep, streamingSymbols]
  | cons e l ih =>
    obtain ⟨k, s⟩ := e
    obtain ⟨hfirst, hl⟩ := List.pairwise_cons.1 hl
    obtain ⟨hs, hname⟩ := List.forall_mem_cons.1 hname
    cases hi : s.toIrep mm with
    | none => simp [symbolsToIrep, streamingSymbols, hi]
    | some i =>
      have hk : i.name = k := (Symbol.name_of_toIrep hi).trans hs
      have hentries : (table.insert i.name i).entries = table.entries ++ [(k, i)] := by
        rw [hk]
        exact insertEntry_of_forall_lt i fun e he => hlt e he _ List.mem_cons_self
      have hlt' : ∀ e ∈ (table.insert i.name i).entries, ∀ e' ∈ l,
          Ranked.rank e.1 < Ranked.rank e'.1 := by
        intro e he e' he'
        rw [hentries, List.mem_append, List.mem_singleton] at he
        rcases he with he | rfl
        · exact hlt e he e' (List.mem_cons_of_mem _ he')
        · exact hfirst e' he'
      have hrest := ih hl hname hlt'
      rw [hentries] at hrest
      simp only [symbolsToIrep, streamingSymbols, hi, some_bind, Option.pure_def, hrest]
      cases streamingSymbols mm l with
      | none => rfl
      | some rest => simp

lemma SymbolTable.entries_toIrep (st : SymbolTable) :
    st.toIrep.map OrdMap.entries = streamingSymbols st.machineModel st.symbolTable.entries := by
  have hname : ∀ e ∈ st.symbolTable.entries, e.2.name = e.1 :=
    fun e he => st.keyed (mem_entries_iff.1 he)
  rw [SymbolTable.toIrep, entries_symbolsToIrep st.symbolTable.ascending hname
    fun e he => by simp [OrdMap.empty] at he]
  simp [OrdMap.empty]

variable {st : SymbolTable}

lemma SymbolTable.exists_toIrep
    (h : ∀ name s, st.lookup name = some s → ∃ i, s.toIrep st.machineModel = some i) :
    ∃ table, st.toIrep = some table := by
  have hall : ∀ e ∈ st.symbolTable.entries, ∃ i, e.2.toIrep st.machineModel = some i :=
    fun e he => h e.1 e.2 (mem_entries_iff.1 he)
  obtain ⟨entries, hentries⟩ := exists_streamingSymbols_iff.2 hall
  rw [← st.entries_toIrep, Option.map_eq_some_iff] at hentries
  obtain ⟨table, htable, -⟩ := hentries
  exact ⟨table, htable⟩

lemma SymbolTable.get?_of_toIrep (h : st.toIrep = some table) {name : String}
    (hs : st.lookup name = some s) :
    ∃ i, s.toIrep st.machineModel = some i ∧ table.get? name = some i := by
  have hentries := st.entries_toIrep
  rw [h, Option.map_some] at hentries
  obtain ⟨i, hi⟩ :=
    exists_streamingSymbols_iff.1 ⟨_, hentries.symm⟩ (name, s) (mem_entries_iff.2 hs)
  refine ⟨i, hi, mem_entries_iff.1 ?_⟩
  exact (mem_streamingSymbols_iff hentries.symm).2 ⟨s, mem_entries_iff.2 hs, hi⟩

/-- Writing a table as it streams is writing the table it converts to, and fails when that fails.
Every symbol has one entry, under its name. A table keeps its symbols under their names by
construction, so this is about every table that the public functions reach. -/
theorem SymbolTable.serialize_eq (st : SymbolTable) :
    st.serialize = st.toIrep.map serializeIrepTable ∧
    ∀ entries, streamingSymbols st.machineModel st.symbolTable.entries = some entries →
      (∀ e ∈ entries, e.1 = e.2.name) ∧ (entries.map Prod.fst).Nodup ∧
      ∀ name i, (name, i) ∈ entries ↔
        ∃ s, st.lookup name = some s ∧ s.toIrep st.machineModel = some i := by
  refine ⟨?_, fun entries h => ?_⟩
  · rw [SymbolTable.serialize, ← st.entries_toIrep]
    cases st.toIrep <;> rfl
  · have hmem : ∀ name i, (name, i) ∈ entries ↔
        ∃ s, st.lookup name = some s ∧ s.toIrep st.machineModel = some i := by
      intro name i
      simp only [mem_streamingSymbols_iff h, mem_entries_iff, SymbolTable.lookup]
    refine ⟨?_, ?_, hmem⟩
    · rintro ⟨name, i⟩ he
      obtain ⟨s, hs, hi⟩ := (hmem name i).1 he
      rw [Symbol.name_of_toIrep hi, lookup_name hs]
    · rw [keys_streamingSymbols h]
      exact st.symbolTable.ascending.nodup_keys

end Rmc

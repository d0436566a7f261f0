import Rmc.GenC.NamePass

/-!
# What renaming keeps

The pass renames a table one to one when the renamed symbols can be told apart, and no symbol that
every table starts with has to give way to another name. What relates the names of one symbol is
kept only as far as the names are numbered alike: a struct is in the table under the name of its tag
behind `tag-`, and the name of a local variable ends in its base name. Each of these names is
converted and numbered on its own, so that a clash with an unrelated name can number one of the two
and not the other.
-/

namespace Rmc

/-- The tag of a struct or union type, complete or incomplete. -/
def Typ.aggregateTag : Typ → Option String
  | .struct tag _ => some tag
  | .union tag _ => some tag
  | .incompleteStruct tag => some tag
  | .incompleteUnion tag => some tag
  | _ => none

/-- The tag of the struct or union that a symbol defines. -/
def Symbol.definedTag (s : Symbol) : Option String :=
  if s.isType then s.typ.aggregateTag else none

/-- The base name of a symbol ends its name. -/
def Symbol.BaseNameEnds (s : Symbol) : Prop := ∀ b ∈ s.baseName, b.toList <:+ s.name.toList

lemma Typ.aggregateTag_rename (f : String → String) (t : Typ) :
    (t.rename f).aggregateTag = t.aggregateTag.map f := by
  cases t <;> rfl

lemma Typ.aggregateTag_mem_allNames {t : Typ} {tag : String} (h : t.aggregateTag = some tag) :
    tag ∈ t.allNames := by
  cases t with
  | struct _ _ | union _ _ | incompleteStruct _ | incompleteUnion _ =>
    obtain rfl := Option.some.inj h
    simp [Typ.allNames]
  | _ => cases h

lemma Symbol.definedTag_rename (f : String → String) (s : Symbol) :
    (s.rename f).definedTag = s.definedTag.map f := by
  change (if s.isType then (s.typ.rename f).aggregateTag else none) = _
  rw [Symbol.definedTag, Typ.aggregateTag_rename]
  split_ifs <;> rfl

lemma Symbol.definedTag_mem_identifiers {s : Symbol} {tag : String}
    (h : s.definedTag = some tag) : tag ∈ s.identifiers := by
  rw [Symbol.definedTag] at h
  split_ifs at h
  exact List.mem_append_left _ (List.mem_append_left _ (Typ.aggregateTag_mem_allNames h))

end Rmc

namespace Rmc.GenC

open OrdMap SymbolTable SymbolTransformer NameTransformer

/-! ### Names behind `tag-` -/

lemma toList_aggrTag (tag : String) : (aggrTag tag).toList = "tag-".toList ++ tag.toList := by
  rw [aggrTag, String.toList_append]

lemma splitTag_of_not_isPrefixOf {l : List Char} (h : "tag-".toList.isPrefixOf l = false) :
    splitTag l = ([], l) := by
  rw [splitTag, if_neg (Bool.eq_false_iff.mp h)]

/-- Behind `tag-`, the name of a symbol is split as its tag is. -/
lemma splitTag_aggrTag (tag : String) :
    splitTag (aggrTag tag).toList = ("tag-".toList, tag.toList) := by
  rw [splitTag, toList_aggrTag, if_pos (List.isPrefixOf_iff_prefix.mpr (List.prefix_append _ _))]
  rfl

section Numbers

variable [UnicodeTables] {n : String}

/-- Two names get the same extension: none, or the same number. -/
def NameTransformer.SameNumber (f : String → String) (n n' : String) : Prop :=
  ∃ p p' ext, splitVariable (splitTag n.toList).2 = some p ∧
    splitVariable (splitTag n'.toList).2 = some p' ∧ f n = base n p ++ ext ∧
      f n' = base n' p' ++ ext

lemma base_aggrTag {tag : String} (htag : "tag-".toList.isPrefixOf tag.toList = false)
    (parts : List Char × Option (List Char)) :
    base (aggrTag tag) parts = aggrTag (base tag parts) := by
  apply String.toList_injective
  rw [toList_aggrTag, base, base, splitTag_aggrTag, splitTag_of_not_isPrefixOf htag]
  obtain ⟨name, _ | suffix⟩ := parts
  · simp [fixIdentifier]
  · simp [fixIdentifier]

/-- A result has no dash behind its tag. -/
lemma NameTransformer.Candidate.exists_eq_append {r : String} (h : Candidate n r) :
    ∃ l, r.toList = (splitTag n.toList).1 ++ l ∧ '-' ∉ l := by
  have hfix : ∀ l : List Char, '-' ∉ fixName l := fun l hmem =>
    (fixed_fixName l).ne (by decide) (by decide) '-' hmem rfl
  have hbase : ∀ p, ∃ l, (base n p).toList = (splitTag n.toList).1 ++ l ∧ '-' ∉ l := by
    rintro ⟨name, _ | suffix⟩
    · exact ⟨fixName name, by simp [base, fixIdentifier], hfix name⟩
    · exact ⟨fixName name ++ "::".toList ++ fixName suffix, by simp [base, fixIdentifier],
        by simp [hfix]⟩
  obtain ⟨p, -, rfl | ⟨k, rfl⟩⟩ := h
  · exact hbase p
  · obtain ⟨l, hl, hdash⟩ := hbase p
    refine ⟨l ++ '_' :: Nat.toDigits 10 k, by rw [toList_numbered, hl, List.append_assoc], ?_⟩
    have hdigits : '-' ∉ Nat.toDigits 10 k := fun hmem =>
      absurd (Nat.isDigit_of_mem_toDigits (by decide) (by decide) hmem) (by decide)
    simp [hdash, hdigits]

/-- The name of a struct stays in step with its tag exactly when both get the same number and the
tag does not begin with `tag-` itself. -/
lemma eq_aggrTag_iff {f : String → String} {tag : String} (h : Candidate tag (f tag))
    (h' : Candidate (aggrTag tag) (f (aggrTag tag))) :
    f (aggrTag tag) = aggrTag (f tag) ↔
      "tag-".toList.isPrefixOf tag.toList = false ∧ SameNumber f tag (aggrTag tag) := by
  by_cases htag : "tag-".toList.isPrefixOf tag.toList = true
  · refine iff_of_false (fun heq => ?_) fun hnot => Bool.false_ne_true (hnot.1.symm.trans htag)
    -- the second `tag-` is kept in one of the two and not in the other
    obtain ⟨l, hl, -⟩ := h.exists_eq_append
    obtain ⟨l', hl', hdash⟩ := h'.exists_eq_append
    have htake : tag.toList.take 4 = "tag-".toList := by
      obtain ⟨rest, hrest⟩ := List.isPrefixOf_iff_prefix.mp htag
      rw [← hrest]
      rfl
    rw [splitTag, if_pos htag, htake] at hl
    rw [splitTag_aggrTag, heq, toList_aggrTag, hl, List.append_cancel_left_eq] at hl'
    exact hdash (hl' ▸ by simp)
  · rw [Bool.not_eq_true] at htag
    rw [and_iff_right htag]
    constructor
    · intro heq
      obtain ⟨p, hparts, hr⟩ := h
      have hparts' : splitVariable (splitTag (aggrTag tag).toList).2 = some p := by
        rw [splitTag_aggrTag]
        rwa [splitTag_of_not_isPrefixOf htag] at hparts
      obtain ⟨ext, hext⟩ : ∃ ext, f tag = base tag p ++ ext := by
        rcases hr with hr | ⟨k, hr⟩
        · exact ⟨"", by rw [hr, String.append_empty]⟩
        · exact ⟨"_" ++ toString k, by rw [hr, numbered, String.append_assoc]⟩
      refine ⟨p, p, ext, hparts, hparts', hext, ?_⟩
      rw [heq, hext, base_aggrTag htag, aggrTag, aggrTag, String.append_assoc]
    · rintro ⟨p, p', ext, hparts, hparts', hext, hext'⟩
      rw [splitTag_aggrTag] at hparts'
      rw [splitTag_of_not_isPrefixOf htag] at hparts
      obtain rfl := Option.some.inj (hparts.symm.trans hparts')
      rw [hext, hext', base_aggrTag htag, aggrTag, aggrTag, String.append_assoc]

end Numbers

variable [Ranked String] {mm : MachineModel} {st₀ st st' : SymbolTable} {s : Symbol} {n : String}

/-! ### The table is renamed one to one -/

section Holds

/-- The symbols that every table starts with stay, and the others are renamed. -/
def renamed (st₀ : SymbolTable) (f : String → String) (s : Symbol) : Symbol :=
  if st₀.contains s.name then s else s.rename f

/-- The name that a symbol has after the pass. -/
def imageName (st₀ : SymbolTable) (f : String → String) (n : String) : String :=
  if st₀.contains n then n else f n

/-- What the pass should make of a table: the symbols are renamed one to one, those that every table
starts with are kept, and a reference names the image of what it named. -/
structure RenamedBy (st₀ : SymbolTable) (f : String → String) (st st' : SymbolTable) : Prop where
  injOn : Set.InjOn (imageName st₀ f) {n | st.contains n = true}
  contains : ∀ n', st'.contains n' = true ↔ ∃ n, st.contains n = true ∧ imageName st₀ f n = n'
  lookup : ∀ n s, st.lookup n = some s → st'.lookup (imageName st₀ f n) = some (renamed st₀ f s)
  reference : ∀ n s, st.lookup n = some s → ∀ m', (renamed st₀ f s).value.References m' →
    ∃ m x, s.value.References m ∧ f m = m' ∧ st.lookup m = some x ∧
      st'.lookup m' = some (renamed st₀ f x)

variable {f : String → String}

lemma renamed_of_own (hs : Own st₀ st s) :
    renamed st₀ f s = s.rename f ∧ imageName st₀ f s.name = f s.name := by
  simp [renamed, imageName, contains_eq_false_iff.mpr hs.missing]

lemma renamed_of_contains (hs : st₀.contains s.name = true) :
    renamed st₀ f s = s ∧ imageName st₀ f s.name = s.name := by
  simp [renamed, imageName, hs]

variable (hdefaults : ∀ n s, st₀.lookup n = some s → st.lookup n = some s)
  (ht : Holds st₀ ((typeSymbols st₀ st.symbolTable.entries ++
    valueSymbols st₀ st.symbolTable.entries).map (Symbol.rename f)) st')

include ht in
lemma lookup_own (hs : Own st₀ st s) : st'.lookup (f s.name) = some (s.rename f) :=
  ht.images _ (List.mem_map_of_mem (mem_symbols.mpr hs))

/-- A symbol of a table is one that every table starts with, or a further one. -/
lemma contains_or_own (st₀ : SymbolTable) (hs : st.lookup n = some s) :
    s.name = n ∧ (st₀.contains s.name = true ∨ Own st₀ st s) := by
  obtain rfl : s.name = n := lookup_name hs
  refine ⟨rfl, ?_⟩
  cases hs₀ : st₀.lookup s.name with
  | some s₀ => exact .inl (contains_iff.mpr ⟨s₀, hs₀⟩)
  | none => exact .inr ⟨hs, hs₀⟩

include hdefaults ht in
lemma lookup_imageName (hs : st.lookup n = some s) :
    st'.lookup (imageName st₀ f n) = some (renamed st₀ f s) := by
  obtain ⟨rfl, hd | hown⟩ := contains_or_own st₀ hs
  · obtain ⟨s₀, hs₀⟩ := contains_iff.mp hd
    obtain rfl := Option.some.inj ((hdefaults _ s₀ hs₀).symm.trans hs)
    rw [(renamed_of_contains hd).1, (renamed_of_contains hd).2]
    exact ht.initial hs₀
  · rw [(renamed_of_own hown).1, (renamed_of_own hown).2]
    exact lookup_own ht hown

include hdefaults ht in
/-- Every symbol of the new table is the image of one. -/
lemma exists_of_lookup {n' : String} {s' : Symbol} (hs' : st'.lookup n' = some s') :
    ∃ s, st.lookup s.name = some s ∧ s' = renamed st₀ f s ∧ n' = imageName st₀ f s.name := by
  rcases ht.only hs' with hs₀ | hmem
  · obtain rfl : s'.name = n' := lookup_name hs₀
    have hd : st₀.contains s'.name = true := contains_iff.mpr ⟨s', hs₀⟩
    exact ⟨s', hdefaults _ _ hs₀, (renamed_of_contains hd).1.symm, (renamed_of_contains hd).2.symm⟩
  · obtain ⟨s, hs, rfl⟩ := List.mem_map.mp hmem
    have hown := mem_symbols.mp hs
    exact ⟨s, hown.mem, (renamed_of_own hown).1.symm,
      (lookup_name hs').symm.trans (renamed_of_own hown).2.symm⟩

/-- The table that holds the renamed symbols is the one asked for when references to the symbols
that every table starts with keep their names. -/
lemma renamedBy_iff [DebugTyp] (hnew : SymbolTable.new mm = some st₀) (h : Convertible st₀ st)
    (hf : Set.InjOn f {n | n ∈ tableNames st₀ st}) (hsep : Separable st₀ st (Symbol.rename f))
    (ht : Holds st₀ ((typeSymbols st₀ st.symbolTable.entries ++
      valueSymbols st₀ st.symbolTable.entries).map (Symbol.rename f)) st') :
    RenamedBy st₀ f st st' ↔
      ∀ s d, Own st₀ st s → s.value.References d → st₀.contains d = true → f d = d := by
  constructor
  · intro hby s d hs hd hdefault
    obtain ⟨sd, hsd⟩ := contains_iff.mp hdefault
    have href : (renamed st₀ f s).value.References (f d) := by
      rw [(renamed_of_own hs).1]
      exact (references_namePass f).mpr ⟨d, hd, rfl⟩
    obtain ⟨m, x, hm, heq, hx, hlookup⟩ := hby.reference _ s hs.mem _ href
    obtain rfl : m = d := hf (mem_tableNames_of_contains (h.resolves s hs m hm))
      (mem_tableNames_of_contains (h.resolves s hs d hd)) heq
    obtain rfl : x.name = m := lookup_name hx
    rw [(renamed_of_contains hdefault).1] at hlookup
    exact (lookup_name hlookup).symm
  · intro hkeep
    have himage : ∀ s s' : Symbol, st₀.contains s.name = true → Own st₀ st s' →
        s.name ≠ f s'.name := by
      intro s s' hs hs' heq
      rw [heq, contains_iff] at hs
      obtain ⟨x, hx⟩ := hs
      have hfree : st₀.lookup (f s'.name) = none := hsep.free s' hs'
      rw [hfree] at hx
      cases hx
    refine ⟨fun n hn n' hn' heq => ?_, fun n' => ⟨fun hn' => ?_, ?_⟩,
      fun n s hs => lookup_imageName h.defaults ht hs, fun n s hs m' hm' => ?_⟩
    · obtain ⟨s, hs⟩ := contains_iff.mp hn
      obtain ⟨s', hs'⟩ := contains_iff.mp hn'
      obtain ⟨rfl, hd | hown⟩ := contains_or_own st₀ hs <;>
        obtain ⟨rfl, hd' | hown'⟩ := contains_or_own st₀ hs'
      · rwa [(renamed_of_contains hd).2, (renamed_of_contains hd').2] at heq
      · rw [(renamed_of_contains hd).2, (renamed_of_own hown').2] at heq
        exact absurd heq (himage s s' hd hown')
      · rw [(renamed_of_own hown).2, (renamed_of_contains hd').2] at heq
        exact absurd heq.symm (himage s' s hd' hown)
      · rw [(renamed_of_own hown).2, (renamed_of_own hown').2] at heq
        exact hf (mem_tableNames_of_contains hn) (mem_tableNames_of_contains hn') heq
    · obtain ⟨s', hs'⟩ := contains_iff.mp hn'
      obtain ⟨s, hs, -, rfl⟩ := exists_of_lookup h.defaults ht hs'
      exact ⟨s.name, contains_iff.mpr ⟨s, hs⟩, rfl⟩
    · rintro ⟨n, hn, rfl⟩
      obtain ⟨s, hs⟩ := contains_iff.mp hn
      exact contains_iff.mpr ⟨_, lookup_imageName h.defaults ht hs⟩
    · obtain ⟨rfl, hd | hown⟩ := contains_or_own st₀ hs
      · -- the initial symbols have no references
        rw [(renamed_of_contains hd).1] at hm'
        obtain ⟨s₀, hs₀⟩ := contains_iff.mp hd
        obtain rfl := Option.some.inj ((h.defaults _ s₀ hs₀).symm.trans hs)
        obtain ⟨e, he, hvalue⟩ := hm'
        have hfalse := (allNames_of_new hnew hs₀).2 e he
        rw [Expr.isSymbol, hvalue] at hfalse
        cases hfalse
      · rw [(renamed_of_own hown).1] at hm'
        obtain ⟨m, hm, rfl⟩ := (references_namePass f).mp hm'
        obtain ⟨x, hx⟩ := contains_iff.mp (h.resolves s hown m hm)
        refine ⟨m, x, hm, rfl, hx, ?_⟩
        have hlookup := lookup_imageName h.defaults ht hx
        obtain ⟨rfl, hd | hown'⟩ := contains_or_own st₀ hx
        · rwa [(renamed_of_contains hd).2, ← hkeep s x.name hown hm hd] at hlookup
        · rwa [(renamed_of_own hown').2] at hlookup

end Holds

variable {results : List String} {last : NameTransformer}

/-- Structs and unions are in the table under the names of their tags. -/
def InStep (st : SymbolTable) : Prop :=
  ∀ n s tag, st.lookup n = some s → s.definedTag = some tag → s.name = aggrTag tag

/-- The symbol of a struct with one field. -/
def structSymbol (tag field : String) : Symbol :=
  { name := aggrTag tag, location := .none, typ := .struct tag [.field field .bool],
    value := .none, baseName := some tag, prettyName := none, isType := true }

omit [Ranked String] in
lemma composed_structSymbol (tag field : String) :
    ∀ s ∈ [structSymbol tag field], s.typ.Composed := by
  have hcomponents : ∀ c ∈ [DatatypeComponent.field field .bool], c.Composed := by
    intro c hc
    rw [List.mem_singleton.mp hc]
    exact .field .bool
  intro s hs
  rw [List.mem_singleton.mp hs]
  exact .structType hcomponents rfl

lemma inStep_structSymbol (hnew : SymbolTable.new mm = some st₀) {tag field : String}
    (h : st₀.Adds [structSymbol tag field] st) : InStep st := by
  intro n s tag' hs htag'
  rcases (h.lookup n s).mp hs with hs | ⟨hs, -⟩
  · -- the initial symbols have no names in their types
    rw [Symbol.definedTag] at htag'
    split_ifs at htag'
    have hmem := Typ.aggregateTag_mem_allNames htag'
    rw [(allNames_of_new hnew hs).1] at hmem
    cases hmem
  · rw [List.mem_singleton.mp hs] at htag' ⊢
    cases htag'
    rfl

/-- The variable in the name of a local variable, `<function>::1::<variable>`. -/
def localName (n : String) : Option (List Char) :=
  (splitVariable (splitTag n.toList).2).bind Prod.snd

/-- No table starts with local variables. -/
lemma missing_of_localName [UnicodeTables] (hnew : SymbolTable.new mm = some st₀) {v : List Char}
    (h : localName n = some v) : st₀.lookup n = none := by
  rw [← contains_eq_false_iff, ← Bool.not_eq_true]
  intro hd
  obtain ⟨parts, hparts, hsnd⟩ := bind_eq_some.mp h
  rw [(base_of_new hnew hd).1, Option.some.injEq] at hparts
  subst hparts
  cases hsnd

/-- A table whose names are C already is given back, in whatever order they are converted. -/
theorem NameTransformer.transform_of_settled [UnicodeTables] [DebugTyp]
    (hnew : SymbolTable.new mm = some st₀) (hmm : st.machineModel = mm)
    (h : Convertible st₀ st)
    (hs : ∀ s, Own st₀ st s → ∀ n ∈ s.identifiers, settled n = true) :
    NameTransformer.transform st = some st := by
  have hsettled : ∀ n ∈ tableNames st₀ st, settled n = true := by
    intro n hn
    rcases mem_tableNames.mp hn with hn | ⟨s, hown, hn⟩
    · obtain ⟨hident, hillegal⟩ := isCIdentifier_of_new hnew hn
      exact settled_of_isCIdentifier hident hillegal
    · exact hs s hown n hn
  obtain ⟨results, last, hrun⟩ := exists_run_of_settled fun n hn =>
    ⟨(h.identifiers n (mem_tableNames.mp hn)).1, hsettled n hn⟩
  have hkeeps := keepsNames_of_run hsettled hrun
  have hid : result last = id := by
    funext n
    cases hn : last.mappedNames.lookup n with
    | none => simp [result, hn]
    | some r => simp [result, hn, hkeeps n r hn]
  have hcases := h.transform_cases hnew hmm hrun
  rw [hid] at hcases
  rcases hcases with ⟨-, st', hst', ht⟩ | ⟨hnot, -⟩
  · rw [hst', eq_of_holds ((machineModel_new hnew).trans hmm.symm) h.defaults
      (fun s _ => s.rename_id) ht]
  · exact absurd (.of_name fun _ _ => rfl) hnot

omit [Ranked String] in
/-- A struct, and variables one of which looks like a numbered version of the other. -/
theorem NameTransformer.transform_of_settled_numbered :
    let _ : Ranked String := rankedString
    let _ : DebugTyp := ⟨fun _ => "type"⟩
    let _ : UnicodeTables := latin1
    ∃ st₀ st, SymbolTable.new (machineModelFromSession none "x86_64" false 64) = some st₀ ∧
      [structSymbol "Foo" "field", Symbol.staticVariable "xyz" "xyz" .bool .none,
        Symbol.staticVariable "xyz_0" "xyz_0" .bool .none].foldlM SymbolTable.insert st₀ = some st ∧
      NameTransformer.transform st = some st := by
  intro _ _ _
  obtain ⟨d⟩ := Declarable.nonempty_declared
    (l := [structSymbol "Foo" "field", Symbol.staticVariable "xyz" "xyz" .bool .none,
      Symbol.staticVariable "xyz_0" "xyz_0" .bool .none]) (by decide +kernel)
    (List.forall_mem_cons.mpr ⟨composed_structSymbol _ _ _ List.mem_cons_self,
      List.forall_mem_cons.mpr ⟨.bool, List.forall_mem_singleton.mpr .bool⟩⟩)
    (machineModelFromSession none "x86_64" false 64)
  refine ⟨d.st₀, d.st, d.new, d.insert,
    NameTransformer.transform_of_settled d.new d.machineModel d.convertible fun s hown => ?_⟩
  have hall : ∀ s ∈ [structSymbol "Foo" "field", Symbol.staticVariable "xyz" "xyz" .bool .none,
      Symbol.staticVariable "xyz_0" "xyz_0" .bool .none], ∀ n ∈ s.identifiers,
        settled n = true := by
    decide +kernel
  exact hall s (d.adds.own_iff.mp hown)

end Rmc.GenC

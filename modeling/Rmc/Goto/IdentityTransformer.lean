import Rmc.Goto.RenameSymbol
import Rmc.Goto.SymbolTransformer
import Rmc.Goto.Transformer
import Rmc.Irep.Serialize

/-!
# The identity transformer

The pass over a whole symbol table (`transform_symbol_table`), for the transformer that changes
nothing. The new table starts with the symbols that every table has. Symbols without a value are
copied first, since expressions and statements are checked against the types in the new table; the
others follow in the order of their names.

The pass gives back the table it is given when three things hold of it. The symbols that every
table starts with are as they were, since they are not copied. Function types have parameters that
can be passed, since parameters are checked when they are rebuilt. And a tag in a type names a
symbol without a value, since the others may not have been copied yet when the tag is looked up.
-/

namespace Rmc

open OrdMap Effect SymbolTransformer

/-! ### Symbols that constructors have built -/

section Table

variable [Ranked String]

/-- The value is built by public constructors, by the time the table is `st`. -/
def SymbolValues.Composed [DebugTyp] (st : SymbolTable) : SymbolValues → Prop
  | .expr e => Rmc.Composed st (.expr e)
  | .stmt s => Rmc.Composed st (.stmt s)
  | .none => True

/-- The types, expressions and statements of a symbol are built by public constructors. -/
structure Symbol.Composed [DebugTyp] (st : SymbolTable) (s : Symbol) : Prop where
  types : ∀ t ∈ s.types, t.Composed
  value : s.value.Composed st

/-- The calls that pass what public constructors have built. The unchecked replacement is not among
them. -/
def SymbolTable.Mutator.Composed [DebugTyp] (st : SymbolTable) : Mutator → Prop
  | .ensure name f => ∀ s, f st name = some s → s.Composed st
  | .insert s => s.Composed st
  | .replace _ _ => False
  | .replaceWithCompletion s => s.Composed st
  | .updateFnDeclarationWithDefinition _ body =>
    Rmc.Composed st (.stmt body) ∧ ∀ e ∈ body.subExprs, e.typ.Composed

/-! ### The pass -/

variable [DebugTyp]

/-- All methods are the default ones. -/
def IdentityTransformer.symbolTransformer : SymbolTransformer Unit where
  transformSymbol symbol := withTable fun st => (Traversal.naming pure st).transformSymbol symbol
  postprocess := pure ()

/-- The identity transformation. -/
def IdentityTransformer.transform (originalSymbolTable : SymbolTable) : Option SymbolTable :=
  IdentityTransformer.symbolTransformer.transform () originalSymbolTable

end Table

section Pass

variable [Ranked String] [DebugTyp]

open SymbolTable

/-! ### Tables that constructors have filled -/

section Filled

variable {st : SymbolTable} {s : Symbol} {name : String}

lemma Symbol.Composed.mono {st' : SymbolTable} (h : s.Composed st) (hle : st.Le st') :
    s.Composed st' := by
  refine ⟨h.types, ?_⟩
  have hvalue := h.value
  cases hs : s.value with
  | none => trivial
  | expr e =>
    rw [hs] at hvalue
    exact Rmc.Composed.grow hvalue hle
  | stmt b =>
    rw [hs] at hvalue
    exact Rmc.Composed.grow hvalue hle

/-- Every symbol that was not there from the start is built by public constructors. -/
def SymbolTable.Filled (st₀ st : SymbolTable) : Prop :=
  ∀ name s, st.lookup name = some s → st₀.contains name = true ∨ s.Composed st

variable {st₀ : SymbolTable}

lemma SymbolTable.Filled.set (h : Filled st₀ st) (hle : st.Le (st.set s))
    (hs : st₀.contains s.name = true ∨ s.Composed st) :
    Filled st₀ (st.set s) := by
  intro name s' hs'
  rw [lookup_set] at hs'
  split_ifs at hs' with hname
  · subst hname
    rw [← Option.some.inj hs']
    exact hs.imp_right fun hc => hc.mono hle
  · exact (h name s' hs').imp_right fun hc => hc.mono hle

lemma SymbolTable.Filled.apply {st' : SymbolTable} {m : Mutator} (h : Filled st₀ st)
    (hm : m.Composed st) (happly : m.apply st = some st') :
    Filled st₀ st' := by
  cases m with
  | ensure name f =>
    simp only [Mutator.apply, SymbolTable.ensure] at happly
    split_ifs at happly
    · exact Option.some.inj happly ▸ h
    · simp only [bind_eq_some] at happly
      obtain ⟨s, hf, -, -, hinsert⟩ := happly
      have hle := le_insert hinsert
      obtain ⟨-, rfl⟩ := insert_eq_some.1 hinsert
      exact h.set hle (.inr (hm s hf))
  | insert s =>
    have hle := le_insert happly
    obtain ⟨-, rfl⟩ := insert_eq_some.1 happly
    exact h.set hle (.inr hm)
  | replace checkerFn s => exact hm.elim
  | replaceWithCompletion s =>
    have hle := le_replaceWithCompletion happly
    obtain ⟨-, rfl⟩ := replaceWithCompletion_eq_some.1 happly
    exact h.set hle (.inr hm)
  | updateFnDeclarationWithDefinition name body =>
    have hle := le_updateFnDeclarationWithDefinition happly
    obtain ⟨s, hs, -, rfl⟩ := updateFnDeclarationWithDefinition_eq_some.1 happly
    obtain rfl : s.name = name := lookup_name hs
    refine h.set hle ((h _ s hs).imp_right fun hc => ⟨?_, hm.1⟩)
    -- the type stays, and the types of the value are those of the body
    refine List.forall_mem_cons.2 ⟨hc.types _ List.mem_cons_self, fun t ht => ?_⟩
    obtain ⟨e, he, rfl⟩ := List.mem_map.1 ht
    exact hm.2 e he

lemma SymbolTable.Filled.of_reachable (h : Reachable Mutator.Composed st₀ st) : Filled st₀ st := by
  induction h with
  | refl => exact fun name s hs => .inl (contains_iff.2 ⟨s, hs⟩)
  | step _ hm happly ih => exact ih.apply hm happly

/-- What a table must be like for the pass to give it back. -/
structure SymbolTable.Rebuildable (st₀ st : SymbolTable) : Prop where
  /-- The symbols that every table starts with are as they were. -/
  defaults : ∀ name s, st₀.lookup name = some s → st.lookup name = some s
  /-- The parameters of the function types can be passed. -/
  parameters : ∀ u, st.Occurs u → u.LvalueParameters
  /-- A tag names a symbol without a value. -/
  tags : ∀ tag s, st.OccursTag tag → st.lookup tag = some s → s.value.isNone = true

/-- The nodes of the value of a symbol are typed, and are among its expressions. -/
lemma Symbol.Composed.within (h : s.Composed st) {marked : Typ → List Expr → List Bool} :
    ∀ n ∈ Events.nodes.symbolValue marked s.value, n.Within st s.value.exprs := by
  have hvalue := h.value
  cases hv : s.value with
  | none => simp [Events.symbolValue]
  | expr e =>
    rw [hv] at hvalue
    exact within_tree.1 e hvalue.wellTyped
  | stmt b =>
    rw [hv] at hvalue
    exact within_tree.2 b hvalue.wellTyped

lemma Symbol.Composed.constructible (h : s.Composed st) :
    ∀ e ∈ s.value.exprs, e.value.constructible = true := by
  have hvalue := h.value
  cases hv : s.value with
  | none => simp [SymbolValues.exprs]
  | expr e =>
    rw [hv] at hvalue
    exact constructible_of_composed hvalue
  | stmt b =>
    rw [hv] at hvalue
    exact constructible_of_composed hvalue

end Filled

/-! ### Rebuilding the symbols of a table -/

namespace SymbolTable.Rebuildable

variable {st₀ st t : SymbolTable} {N : Set String} {f : String → String} (h : Rebuildable st₀ st)
  (hN : ∀ s, Own st₀ st s → ∀ n ∈ s.identifiers, n ∈ N) (hf : Set.InjOn f N)

include h hN hf

omit [DebugTyp] in
/-- Once the symbols without a value are there, the new table says of tags what the old one says,
renamed. -/
lemma carries (hmm : st.machineModel = st₀.machineModel)
    (hdefault : f = id ∨ ∀ tag, st.OccursTag tag → st₀.lookup tag = none)
    {image : Symbol → Symbol} (hname : ∀ s, (image s).name = f s.name)
    (htyp : ∀ s, (image s).typ = s.typ.rename f) {xs : List Symbol}
    (ht : Holds st₀ ((typeSymbols st₀ st.symbolTable.entries ++ xs).map image) t) :
    (namePass f).Carries st.OccursTag st t := by
  have hown : ∀ {tag s s₀}, st.OccursTag tag → st.lookup tag = some s → st₀.lookup tag = some s₀ →
      f = id ∧ s₀ = s := by
    intro tag s s₀ htag hs hs₀
    refine ⟨hdefault.resolve_right fun hnone => ?_, ?_⟩
    · rw [hnone tag htag] at hs₀
      cases hs₀
    · exact Option.some.inj ((h.defaults tag s₀ hs₀).symm.trans hs)
  refine ⟨ht.machineModel.trans hmm.symm, fun {tag s} htag hs => ?_,
    fun _ hs => tagsIn_of_mem hs List.mem_cons_self, fun {tag s cs} htag hs hcs => ?_⟩
  · cases hs₀ : st₀.lookup tag with
    | some s₀ =>
      obtain ⟨rfl, rfl⟩ := hown htag hs hs₀
      exact ⟨s₀, ht.initial hs₀, s₀.typ.rename_id.symm⟩
    | none =>
      obtain rfl : s.name = tag := lookup_name hs
      have hmem : s ∈ typeSymbols st₀ st.symbolTable.entries :=
        mem_typeSymbols.mpr ⟨⟨hs, hs₀⟩, h.tags s.name s htag hs⟩
      have himage := ht.images _ (List.mem_map_of_mem (List.mem_append_left _ hmem))
      rw [hname] at himage
      exact ⟨image s, himage, htyp s⟩
  · cases hs₀ : st₀.lookup tag with
    | some s₀ =>
      obtain ⟨rfl, -⟩ := hown htag hs hs₀
      exact Function.injective_id.injOn
    | none =>
      obtain rfl : s.name = tag := lookup_name hs
      refine hf.mono fun n hn => ?_
      exact allNames_subset (hN s ⟨hs, hs₀⟩) List.mem_cons_self
        (s.typ.names_subset_allNames _ s.typ.self_mem_subTypes n
          (Typ.mem_names_of_components hcs hn))

variable {s : Symbol} {κ : Type} {E : Effect κ String} {name : String → StateT κ Option String}
  (hs : Own st₀ st s) (hc : s.Composed st) (hname : ∀ n, E.Yields (name n) (f n) [n])

include hs hc hname

/-- A type of a symbol that constructors have built is renamed. -/
lemma yields_type {u : Typ} (hu : u ∈ s.types) :
    E.Yields ((Traversal.naming name t).transformType u) (u.rename f) u.allNames :=
  yields_transformType (hc.types u hu).forall_rebuild
    (fun v hv => h.parameters v (occurs_of_mem hs.mem hu hv))
    (hf.mono (allNames_subset (hN s hs) hu)) hname

/-- At each node of a symbol, the transformer renames. -/
lemma fits (hne : ∀ n, n ≠ "" → f n ≠ "") (hcarries : (namePass f).Carries st.OccursTag st t) :
    ∀ n ∈ Events.nodes.symbolValue (namePass f).marked s.value,
      (namePass f).Fits E (Traversal.naming name t) identifierEvents n := by
  intro n hn
  have hwithin := hc.within n hn
  have hsuits : ∀ x ∈ n.subExprs, (namePass f).Suits st.OccursTag (· ∈ N) x :=
    fun x hx => suits_of_mem hs.mem (hN s hs) (hwithin.sub hx)
  cases n with
  | expr e =>
    obtain ⟨v, u, l⟩ := e
    have hmem : Expr.mk v u l ∈ s.value.exprs := hwithin.sub (Expr.self_mem_subExprs _)
    have htyp : (Expr.mk v u l).typ ∈ s.types := List.mem_cons_of_mem _ (List.mem_map_of_mem hmem)
    have hv := hcarries.hasType (lawful_namePass _) hf (hsuits _ (Expr.self_mem_subExprs _))
      (fun x hx => hsuits x (List.mem_cons_of_mem _ hx)) hwithin.typed
    refine ⟨fun _ => h.yields_type hN hf hs hc hname htyp, fun n _ => hname n, fun es hes => ?_, ?_⟩
    · subst hes
      obtain ⟨tag, rfl⟩ : ∃ tag, u = .structTag tag := by
        cases hwithin.typed
        exact ⟨_, rfl⟩
      exact Yields.of_option rfl
    · exact Pass.yields_rebuild hv (hc.constructible _ hmem)
  | stmt b =>
    obtain ⟨b, l⟩ := b
    refine ⟨fun n _ => hname n, Pass.exists_yields_rebuild ?_⟩
    exact (lawful_namePass _).agrees
      (fun n hn => hne n (StmtBody.Agrees.names_ne hwithin.typed n hn)) hwithin.typed

/-- The value of a symbol is renamed. It is only read against the new table if there is one. -/
lemma yields_value (hne : ∀ n, n ≠ "" → f n ≠ "")
    (hcarries : s.value.isNone = false → (namePass f).Carries st.OccursTag st t) :
    E.Yields ((Traversal.naming name t).transformValue s.value) ((namePass f).symbolValue s.value)
      (identifierEvents.symbolValue (namePass f).marked s.value) := by
  cases hnone : s.value.isNone with
  | false => exact Pass.yields_symbolValue _ (h.fits hN hf hs hc hname hne (hcarries hnone))
  | true =>
    cases hv : s.value with
    | none => exact Yields.pure
    | expr e => simp [hv, SymbolValues.isNone] at hnone
    | stmt b => simp [hv, SymbolValues.isNone] at hnone

end SymbolTable.Rebuildable

/-! ### The pass gives back the table -/

/-- The identity transformation gives back every table that constructors have filled, as long as the
default symbols are left alone, function types have parameters that can be passed and tags name
symbols without a value. -/
theorem IdentityTransformer.transform_of_reachable {mm : MachineModel} {st₀ st : SymbolTable}
    (hnew : SymbolTable.new mm = some st₀) (hrun : Reachable Mutator.Composed st₀ st)
    (h : Rebuildable st₀ st) :
    ∃ st', IdentityTransformer.transform st = some st' ∧ st'.toIrep = st.toIrep := by
  have hmm : st.machineModel = mm := by rw [hrun.machineModel, machineModel_new hnew]
  have hcomposed : ∀ s, Own st₀ st s → s.Composed st := by
    intro s hs
    refine (Filled.of_reachable hrun s.name s hs.mem).resolve_left ?_
    rw [contains_eq_false_iff.mpr hs.missing]
    exact Bool.false_ne_true
  -- the methods have no effects, so that events do not matter
  let E : Effect Unit String := ⟨fun _ _ => True⟩
  have hmakes : ∀ s t, Own st₀ st s →
      (s.value.isNone = false → (namePass id).Carries st.OccursTag st t) →
      symbolTransformer.Makes E id Symbol.events t s := by
    intro s t hs hcarries
    have hname : ∀ n, E.Yields (pure n) (id n) [n] := fun n _ k _ => ⟨k, rfl, trivial⟩
    have hN : ∀ s, Own st₀ st s → ∀ n ∈ s.identifiers, n ∈ Set.univ := fun _ _ _ _ => trivial
    have hinj : Set.InjOn (id : String → String) Set.univ := Function.injective_id.injOn
    have htyp : E.Yields ((Traversal.naming pure t).transformType s.typ) s.typ s.typ.allNames := by
      have hyields := h.yields_type (t := t) hN hinj hs (hcomposed s hs) hname List.mem_cons_self
      rwa [Typ.rename_id] at hyields
    have hvalue := h.yields_value hN hinj hs (hcomposed s hs) hname (fun _ hn => hn) hcarries
    rw [symbolValue_namePass_id] at hvalue
    have hsymbol : E.Yields ((Traversal.naming pure t).transformSymbol s) (id s) _ :=
      htyp.bind hvalue.map
    exact Makes.of_yields (f := fun st => (Traversal.naming pure st).transformSymbol) rfl
      fun r k _ => hsymbol r k trivial
  have hcarries : ∀ {xs t}, Holds st₀ ((typeSymbols st₀ st.symbolTable.entries ++ xs).map id) t →
      (namePass id).Carries st.OccursTag st t :=
    fun ht => h.carries (fun _ _ _ _ => Set.mem_univ _) Function.injective_id.injOn
      hrun.machineModel (.inl rfl) (fun _ => rfl) (fun s => s.typ.rename_id.symm) ht
  rcases transform_cases id Symbol.events (T := symbolTransformer) (E := E) (r := []) (k := ())
      (hmm ▸ hnew) rfl (fun s s' hs hs' => hs.eq_of_name hs')
      (fun s hs hnone t => hmakes s t hs fun hsome => by simp [hnone] at hsome)
      (fun s hs _ xs t _ ht => hmakes s t hs fun _ => hcarries ht) trivial with
    ⟨-, t', ht', hholds⟩ | ⟨hbad, -⟩
  · obtain rfl := eq_of_holds hrun.machineModel.symm h.defaults (fun _ _ => rfl) hholds
    exact ⟨t', ht', rfl⟩
  · exact absurd (.of_name fun _ _ => rfl) hbad

end Pass

open SymbolTable

theorem IdentityTransformer.transform_staticVariable :
    let _ : Ranked String := rankedString
    let _ : DebugTyp := ⟨fun _ => "type"⟩
    let x : Symbol := { Symbol.staticVariable "x" "x" .bool .none with value := .expr .boolTrue }
    ∃ st₀ st, SymbolTable.new (machineModelFromSession none "x86_64" false 64) = some st₀ ∧
      st₀.insert x = some st ∧
      ∃ st', IdentityTransformer.transform st = some st' ∧ st'.toIrep = st.toIrep := by
  intro _ _ x
  obtain ⟨st₀, hnew, hlookup⟩ := exists_new (machineModelFromSession none "x86_64" false 64)
  have hmissing : st₀.lookup x.name = none := by
    rw [Option.eq_none_iff_forall_ne_some]
    intro s hs
    have hmem := List.mem_map_of_mem (f := Option.map Symbol.name) ((hlookup _ _).1 hs).1
    rw [Option.map_some, ((hlookup _ _).1 hs).2] at hmem
    exact absurd hmem (by decide +kernel)
  have hinsert : st₀.insert x = some (st₀.set x) := insert_eq_some.2 ⟨hmissing, rfl⟩
  have hcomposed : x.Composed st₀ :=
    ⟨List.forall_mem_cons.2 ⟨.bool, List.forall_mem_cons.2 ⟨.bool, nofun⟩⟩, Composed.boolConstant⟩
  -- neither the initial symbols nor the new one have a tag in a type
  have hinitial : ∀ o ∈ initialSymbols (machineModelFromSession none "x86_64" false 64),
      ∀ s ∈ o, ∀ t ∈ s.types, ∀ u ∈ t.subTypes, u.isStructTag = false ∧ u.isUnionTag = false ∧
        ∀ ps ∈ u.parameters, ∀ p ∈ ps, p.typ.isLvalue = true := by
    decide +kernel
  have hx : ∀ t ∈ x.types, ∀ u ∈ t.subTypes, u.isStructTag = false ∧ u.isUnionTag = false ∧
      ∀ ps ∈ u.parameters, ∀ p ∈ ps, p.typ.isLvalue = true := by
    decide
  have hoccurs : ∀ u, (st₀.set x).Occurs u → u.isStructTag = false ∧ u.isUnionTag = false ∧
      u.LvalueParameters := by
    rintro u ⟨name, s, hs, t, ht, hu⟩
    rw [lookup_set] at hs
    split_ifs at hs
    · obtain rfl := Option.some.inj hs
      exact hx t ht u hu
    · exact hinitial (some s) ((hlookup _ _).1 hs).1 s rfl t ht u hu
  refine ⟨st₀, st₀.set x, hnew, hinsert, IdentityTransformer.transform_of_reachable hnew
    (.step .refl (m := .insert x) hcomposed hinsert) ⟨?_, ?_, ?_⟩⟩
  · intro name s hs
    rw [lookup_set]
    split_ifs with hname
    · subst hname
      rw [hmissing] at hs
      cases hs
    · exact hs
  · exact fun u hu => (hoccurs u hu).2.2
  · rintro tag s (htag | htag) -
    · exact absurd (hoccurs _ htag).1 (by simp [Typ.isStructTag])
    · exact absurd (hoccurs _ htag).2.1 (by simp [Typ.isUnionTag])

/-- A body for a function that every table declares is lost: the new table has its own declaration,
which the pass keeps. -/
theorem IdentityTransformer.transform_malloc_definition :
    let _ : Ranked String := rankedString
    let _ : DebugTyp := ⟨fun _ => "type"⟩
    ∃ st₀ st, SymbolTable.new (machineModelFromSession none "x86_64" false 64) = some st₀ ∧
      Reachable Mutator.Composed st₀ st ∧
      ¬ ∃ st', IdentityTransformer.transform st = some st' ∧ st'.toIrep = st.toIrep := by
  intro _ _
  let mm := machineModelFromSession none "x86_64" false 64
  let body : Stmt := .skip .none
  obtain ⟨st₀, hnew, hlookup⟩ := exists_new mm
  obtain ⟨s, hs, hname, hdecl, hconv, hconv'⟩ : ∃ s, BuiltinFn.asSymbol .malloc = some s ∧
      s.name = "malloc" ∧ s.isFunctionDeclaration = true ∧
      (s.toIrep mm).map (fun i => i.value.id) = some .nil ∧
      (({ s with value := .stmt body } : Symbol).toIrep mm).map (fun i => i.value.id) =
        some .code :=
    ⟨_, rfl, rfl, rfl, rfl, rfl⟩
  have hmem : st₀.lookup "malloc" = some s :=
    (hlookup _ _).2 ⟨hs ▸ List.mem_append_right _ (List.mem_map_of_mem (by decide)), hname⟩
  have hupdate : st₀.updateFnDeclarationWithDefinition "malloc" body =
      some (st₀.set { s with value := .stmt body }) :=
    updateFnDeclarationWithDefinition_eq_some.2 ⟨s, hmem, hdecl, rfl⟩
  have hcomposed : Mutator.Composed st₀ (.updateFnDeclarationWithDefinition "malloc" body) :=
    ⟨.skip, nofun⟩
  have hrun := Reachable.refl.step hcomposed hupdate
  have hmm : (st₀.set { s with value := .stmt body }).machineModel = mm :=
    hrun.machineModel.trans (machineModel_new hnew)
  refine ⟨st₀, _, hnew, hrun, ?_⟩
  rintro ⟨st', htransform, heq⟩
  -- the table can be converted, with the body at the name
  have hall : ∀ o ∈ initialSymbols mm, ∀ s ∈ o, (s.toIrep mm).isSome = true := by decide +kernel
  obtain ⟨table, htable⟩ : ∃ table,
      (st₀.set { s with value := .stmt body }).toIrep = some table := by
    refine exists_toIrep fun n s' hs' => ?_
    rw [hmm, ← Option.isSome_iff_exists]
    rw [lookup_set] at hs'
    split_ifs at hs'
    · rw [← Option.some.inj hs', ← Option.isSome_map, hconv', Option.isSome_some]
    · exact hall (some s') ((hlookup _ _).1 hs').1 s' rfl
  have hset : (st₀.set { s with value := .stmt body }).lookup "malloc" =
      some { s with value := .stmt body } := by
    rw [lookup_set, if_pos hname.symm]
  obtain ⟨i, hi, hget⟩ := get?_of_toIrep htable hset
  -- the result has the declaration there, since the table has no further symbols
  have hown : ∀ x, ¬ Own st₀ (st₀.set { s with value := .stmt body }) x := by
    rintro x ⟨hx, hmissing⟩
    rw [lookup_set] at hx
    split_ifs at hx with hxname
    · rw [hxname, hname, hmem] at hmissing
      cases hmissing
    · rw [hmissing] at hx
      cases hx
  have hinitial : st'.machineModel = mm ∧ st'.lookup "malloc" = some s := by
    rcases transform_cases id (fun _ => []) (T := IdentityTransformer.symbolTransformer) (k := ())
        (E := ⟨fun (_ : List Unit) _ => True⟩) (r := []) (hmm ▸ hnew) rfl
        (fun x _ hx => absurd hx (hown x)) (fun x hx => absurd hx (hown x))
        (fun x hx => absurd hx (hown x)) trivial with ⟨-, t', ht', hholds⟩ | ⟨-, hnone⟩
    · obtain rfl := Option.some.inj (htransform.symm.trans ht')
      exact ⟨hholds.machineModel.trans (machineModel_new hnew), hholds.initial hmem⟩
    · rw [IdentityTransformer.transform, hnone] at htransform
      cases htransform
  obtain ⟨i', hi', hget'⟩ := get?_of_toIrep (heq.trans htable) hinitial.2
  rw [hget, Option.some.injEq] at hget'
  rw [hinitial.1] at hi'
  rw [hmm] at hi
  rw [hi', Option.map_some, Option.some.injEq] at hconv
  rw [hi, Option.map_some, Option.some.injEq, hget', hconv] at hconv'
  cases hconv'

end Rmc

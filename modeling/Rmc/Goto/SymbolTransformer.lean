import Rmc.Goto.Mutators
import Rmc.Lib.Effect

/-!
# Transforming a symbol table

The driver of the transformers (`transform_symbol_table`), for any method that transforms a symbol.
The method has a state of its own and may read the new table. Symbols without a value come first.
Whether one of them is there already is asked of the new table under its old name, while it is
inserted under its new one; so the first loop passes over a symbol when its old name is the new name
of an earlier one, and the second loop does not expect such a symbol.

Where new names are distinct, the driver ends exactly when this does not happen and no new name is
that of a symbol the new table starts with. The new table then has the symbols it started with and
one image for each of the others.
-/

namespace Rmc

open OrdMap SymbolTable

section Driver

variable [Ranked String] {κ : Type}

/-- The methods that the driver calls. -/
structure SymbolTransformer (κ : Type) where
  transformSymbol : Symbol → StateT (SymbolTable × κ) Option Symbol
  postprocess : StateT (SymbolTable × κ) Option Unit

namespace SymbolTransformer

/-- Insert a symbol into the new table. -/
def insertSymbol (s : Symbol) : StateT (SymbolTable × κ) Option Unit := do
  let (st, k) ← get
  set (← st.insert s, k)

/-- A method that reads the new table and does not change it. -/
def withTable {α : Type} (f : SymbolTable → StateT κ Option α) :
    StateT (SymbolTable × κ) Option α := do
  let (st, k) ← get
  let (a, k') ← (f st).run k
  set (st, k')
  return a

variable (T : SymbolTransformer κ)

/-- Transform the symbols without a value that the new table lacks; their names are added. -/
def addTypeSymbols :
    List (String × Symbol) → List String → StateT (SymbolTable × κ) Option (List String)
  | [], added => pure added
  | (name, symbol) :: rest, added => do
    let (st, _) ← get
    if !st.contains name && symbol.value.isNone then
      let newSymbol ← T.transformSymbol symbol
      insertSymbol newSymbol
      addTypeSymbols rest (name :: added)
    else addTypeSymbols rest added

/-- Transform the symbols whose names have not been added. -/
def addValueSymbols (added : List String) :
    List (String × Symbol) → StateT (SymbolTable × κ) Option Unit
  | [] => pure ()
  | (name, symbol) :: rest => do
    if name ∈ added then addValueSymbols added rest
    else
      guard !symbol.value.isNone
      let newSymbol ← T.transformSymbol symbol
      insertSymbol newSymbol
      addValueSymbols added rest

def transformSymbolTable (origSymtab : SymbolTable) : StateT (SymbolTable × κ) Option Unit := do
  let (st, _) ← get
  let added ← T.addTypeSymbols origSymtab.symbolTable.entries
    (st.symbolTable.entries.map Prod.fst)
  T.addValueSymbols added origSymtab.symbolTable.entries
  T.postprocess

/-- The transformed table, from a new one and the initial state. -/
def transform (k : κ) (originalSymbolTable : SymbolTable) : Option SymbolTable := do
  let newSymbolTable ← SymbolTable.new originalSymbolTable.machineModel
  let (_, st, _) ← (T.transformSymbolTable originalSymbolTable).run (newSymbolTable, k)
  return st

end SymbolTransformer

/-! ### What the new table holds -/

variable {new t t' : SymbolTable} {done : List Symbol}

/-- The table holds the symbols of the new one and those in a list, and no others. -/
structure SymbolTable.Holds (new : SymbolTable) (done : List Symbol) (t : SymbolTable) : Prop where
  machineModel : t.machineModel = new.machineModel
  initial : ∀ {n s}, new.lookup n = some s → t.lookup n = some s
  images : ∀ s ∈ done, t.lookup s.name = some s
  only : ∀ {n s}, t.lookup n = some s → new.lookup n = some s ∨ s ∈ done

variable {s : Symbol} {st : SymbolTable}

namespace SymbolTable

lemma mem_names_iff {n : String} :
    n ∈ st.symbolTable.entries.map Prod.fst ↔ st.contains n = true := by
  rw [contains_iff, List.mem_map]
  constructor
  · rintro ⟨⟨n', s⟩, hmem, rfl⟩
    exact ⟨s, mem_entries_iff.1 hmem⟩
  · rintro ⟨s, hs⟩
    exact ⟨(n, s), mem_entries_iff.2 hs, rfl⟩

lemma Holds.init : Holds new [] new := ⟨rfl, id, by simp, .inl⟩

lemma Holds.lookup_eq_none_iff (h : Holds new done t) {n : String} :
    t.lookup n = none ↔ new.lookup n = none ∧ ∀ x ∈ done, x.name ≠ n := by
  constructor
  · intro hnone
    refine ⟨?_, ?_⟩
    · rw [Option.eq_none_iff_forall_ne_some]
      intro s hs
      rw [h.initial hs] at hnone
      cases hnone
    · rintro x hx rfl
      rw [h.images x hx] at hnone
      cases hnone
  · rintro ⟨hnew, hdone⟩
    rw [Option.eq_none_iff_forall_ne_some]
    intro x hx
    rcases h.only hx with hx' | hx'
    · rw [hnew] at hx'
      cases hx'
    · exact hdone x hx' (lookup_name hx)

lemma Holds.set (h : Holds new done t) (hnone : t.lookup s.name = none) :
    Holds new (done ++ [s]) (t.set s) := by
  have hother : ∀ {n x}, t.lookup n = some x → (t.set s).lookup n = some x := by
    intro n x hx
    rw [lookup_set_of_ne]
    · exact hx
    · rintro rfl
      rw [hnone] at hx
      cases hx
  refine ⟨h.machineModel, fun hx => hother (h.initial hx), fun x hx => ?_, fun {n x} hx => ?_⟩
  · rcases List.mem_append.mp hx with hx | hx
    · exact hother (h.images x hx)
    · rw [List.mem_singleton.mp hx, lookup_set_self]
  · rw [lookup_set] at hx
    split_ifs at hx
    · obtain rfl := Option.some.inj hx
      exact .inr (by simp)
    · exact (h.only hx).imp_right (List.mem_append_left _)

/-- The next image can be inserted when the new table does not start with its name. -/
lemma Holds.insert_cases {image : Symbol → Symbol} {rest : List Symbol}
    (h : Holds new (done.map image) t)
    (hinj : (done ++ s :: rest).Pairwise fun s s' => (image s).name ≠ (image s').name) :
    new.lookup (image s).name = none ∧
      (∃ t', t.insert (image s) = some t' ∧ Holds new ((done ++ [s]).map image) t') ∨
    new.lookup (image s).name ≠ none ∧ t.insert (image s) = none := by
  have hfree : t.lookup (image s).name = none ↔ new.lookup (image s).name = none := by
    rw [h.lookup_eq_none_iff, List.forall_mem_map]
    exact and_iff_left fun d hd => (List.pairwise_append.mp hinj).2.2 d hd s List.mem_cons_self
  cases hinsert : t.insert (image s) with
  | some t' =>
    obtain ⟨hnone, rfl⟩ := insert_eq_some.mp hinsert
    exact .inl ⟨hfree.mp hnone, _, rfl, by simpa using h.set hnone⟩
  | none =>
    refine .inr ⟨fun hnone => ?_, rfl⟩
    rw [insert_eq_some.mpr ⟨hfree.mpr hnone, rfl⟩] at hinsert
    cases hinsert

end SymbolTable

/-! ### Runs of the driver -/

namespace SymbolTransformer

variable {T : SymbolTransformer κ} {ε : Type} {E : Effect κ ε} {image : Symbol → Symbol}
  {events : Symbol → List ε} {k k' : κ} {r : List ε} {l : List (String × Symbol)}
  {added added' : List String}

/-- The method makes the image of a symbol, with its events, when the new table is `t`. -/
def Makes (T : SymbolTransformer κ) (E : Effect κ ε) (image : Symbol → Symbol)
    (events : Symbol → List ε) (t : SymbolTable) (s : Symbol) : Prop :=
  ∀ r k, E.Inv (events s ++ r) k → ∃ k', (T.transformSymbol s).run (t, k) =
    some (image s, t, k') ∧ E.Inv r k'

/-- A symbol of the table that the new one does not start with. -/
structure Own (new st : SymbolTable) (s : Symbol) : Prop where
  mem : st.lookup s.name = some s
  missing : new.lookup s.name = none

lemma Own.eq_of_name {s' : Symbol} (hs : Own new st s) (hs' : Own new st s')
    (h : s.name = s'.name) : s = s' :=
  Option.some.inj (hs.mem.symm.trans ((congrArg st.lookup h).trans hs'.mem))

/-- The symbols that the first loop transforms. -/
def typeSymbols (new : SymbolTable) (l : List (String × Symbol)) : List Symbol :=
  (l.filter fun e => !new.contains e.1 && e.2.value.isNone).map Prod.snd

/-- The symbols that the second loop transforms. -/
def valueSymbols (new : SymbolTable) (l : List (String × Symbol)) : List Symbol :=
  (l.filter fun e => !new.contains e.1 && !e.2.value.isNone).map Prod.snd

/-- No image has the name of a symbol that is there from the start. -/
def Free (new : SymbolTable) (image : Symbol → Symbol) (l : List Symbol) : Prop :=
  ∀ s ∈ l, new.lookup (image s).name = none

/-- No symbol has, as its old name, the name of an earlier image. -/
def Unshadowed (image : Symbol → Symbol) (l : List Symbol) : Prop :=
  l.Pairwise fun s s' => (image s).name ≠ s'.name

/-- What a method that reads the table yields is made. -/
lemma Makes.of_yields {f : SymbolTable → Symbol → StateT κ Option Symbol}
    (hT : T.transformSymbol = fun s => withTable fun st => f st s)
    (h : E.Yields (f t s) (image s) (events s)) :
    T.Makes E image events t s := by
  intro r k hk
  obtain ⟨k', hrun, hk'⟩ := h r k hk
  refine ⟨k', ?_, hk'⟩
  rw [hT]
  simp [withTable, hrun]

lemma run_insertSymbol :
    (insertSymbol s).run (t, k) = (t.insert s).map fun t' => ((), t', k) := by
  cases h : t.insert s <;> simp [insertSymbol, h]

private lemma mem_filter_entries {p : Symbol → Bool} :
    s ∈ (st.symbolTable.entries.filter fun e => !new.contains e.1 && p e.2).map Prod.snd ↔
      Own new st s ∧ p s = true := by
  constructor
  · intro h
    obtain ⟨⟨n, s'⟩, he, rfl⟩ := List.mem_map.mp h
    obtain ⟨hmem, hcond⟩ := List.mem_filter.mp he
    have hs : st.lookup n = some s' := mem_entries_iff.mp hmem
    rw [Bool.and_eq_true, Bool.not_eq_true', contains_eq_false_iff] at hcond
    obtain rfl : s'.name = n := lookup_name hs
    exact ⟨⟨hs, hcond.1⟩, hcond.2⟩
  · rintro ⟨⟨hs, hnone⟩, hp⟩
    refine List.mem_map.mpr ⟨(s.name, s), List.mem_filter.mpr ⟨mem_entries_iff.mpr hs, ?_⟩, rfl⟩
    rw [Bool.and_eq_true, Bool.not_eq_true', contains_eq_false_iff]
    exact ⟨hnone, hp⟩

lemma mem_typeSymbols :
    s ∈ typeSymbols new st.symbolTable.entries ↔
    Own new st s ∧ s.value.isNone = true :=
  mem_filter_entries (p := fun s => s.value.isNone)

lemma mem_valueSymbols :
    s ∈ valueSymbols new st.symbolTable.entries ↔
    Own new st s ∧ s.value.isNone = false := by
  rw [← Bool.not_eq_true', valueSymbols]
  exact mem_filter_entries (p := fun s => !s.value.isNone)

lemma mem_symbols :
    s ∈ typeSymbols new st.symbolTable.entries ++
    valueSymbols new st.symbolTable.entries ↔ Own new st s := by
  rw [List.mem_append, mem_typeSymbols, mem_valueSymbols]
  cases s.value.isNone <;> simp

private lemma nodup_filter_entries {p : String × Symbol → Bool} :
    ((st.symbolTable.entries.filter p).map Prod.snd).Nodup := by
  refine List.Nodup.of_map Symbol.name ?_
  have hnames : ((st.symbolTable.entries.filter p).map Prod.snd).map Symbol.name =
      (st.symbolTable.entries.filter p).map Prod.fst := by
    rw [List.map_map]
    refine List.map_congr_left fun e he => ?_
    exact lookup_name (mem_entries_iff.mp (List.mem_of_mem_filter he))
  rw [hnames]
  exact st.symbolTable.ascending.nodup_keys.sublist (List.filter_sublist.map _)

lemma nodup_symbols : (typeSymbols new st.symbolTable.entries ++
    valueSymbols new st.symbolTable.entries).Nodup := by
  refine List.nodup_append.mpr ⟨nodup_filter_entries, nodup_filter_entries, ?_⟩
  rintro s hs _ hs' rfl
  have hnone := (mem_typeSymbols.mp hs).2
  rw [(mem_valueSymbols.mp hs').2] at hnone
  cases hnone

lemma typeSymbols_cons {name : String} :
    typeSymbols new ((name, s) :: l) =
      if !new.contains name && s.value.isNone then s :: typeSymbols new l
      else typeSymbols new l := by
  rw [typeSymbols, List.filter_cons]
  split_ifs <;> rfl

/-- The first loop adds no names but those of its symbols. -/
lemma mem_of_addTypeSymbols {t' : SymbolTable}
    (h : (T.addTypeSymbols l added).run (t, k) = some (added', t', k')) {n : String}
    (hn : n ∈ added') : n ∈ added ∨ n ∈ l.map Prod.fst := by
  induction l generalizing added t k with
  | nil =>
    cases h
    exact .inl hn
  | cons e l ih =>
    obtain ⟨name, s⟩ := e
    by_cases hcopy : (!t.contains name && s.value.isNone) = true
    · simp only [addTypeSymbols, StateT.run_bind, StateT.run_get, Option.pure_def,
        Option.bind_eq_bind, Option.bind_some, if_pos hcopy, Option.bind_eq_some_iff,
        Prod.exists] at h
      obtain ⟨s', t₁, k₁, -, -, t₂, k₂, -, h⟩ := h
      rcases ih h with hn | hn
      · rcases List.mem_cons.mp hn with rfl | hn
        · exact .inr List.mem_cons_self
        · exact .inl hn
      · exact .inr (List.mem_cons_of_mem _ hn)
    · simp only [addTypeSymbols, StateT.run_bind, StateT.run_get, Option.pure_def,
        Option.bind_eq_bind, Option.bind_some, if_neg hcopy] at h
      exact (ih h).imp_right (List.mem_cons_of_mem _)

variable (done) in
/-- The first loop transforms the symbols without a value when their images can be inserted and
none is shadowed. Otherwise it panics, or passes over a symbol. -/
lemma run_addTypeSymbols (hl : ∀ e ∈ l, e.2.name = e.1) (hkeys : (l.map Prod.fst).Nodup)
    (hmakes : ∀ s ∈ typeSymbols new l, ∀ t, T.Makes E image events t s)
    (hinj : (done ++ typeSymbols new l).Pairwise fun s s' => (image s).name ≠ (image s').name)
    (hadded : ∀ s ∈ typeSymbols new l, s.name ∉ added) (hdone : Unshadowed image done)
    (hholds : Holds new (done.map image) t)
    (hk : E.Inv ((typeSymbols new l).flatMap events ++ r) k) :
    (Free new image (typeSymbols new l) ∧ Unshadowed image (done ++ typeSymbols new l)) ∧
      (∃ added' t' k', (T.addTypeSymbols l added).run (t, k) = some (added', t', k') ∧
        Holds new ((done ++ typeSymbols new l).map image) t' ∧ E.Inv r k' ∧
        ∀ n, n ∈ added' ↔ n ∈ added ∨ n ∈ (typeSymbols new l).map Symbol.name) ∨
    ¬ (Free new image (typeSymbols new l) ∧ Unshadowed image (done ++ typeSymbols new l)) ∧
      ∀ added' t' k', (T.addTypeSymbols l added).run (t, k) = some (added', t', k') →
        ∃ s ∈ typeSymbols new l, s.name ∉ added' := by
  induction l generalizing done t k added with
  | nil =>
    refine .inl ⟨⟨by simp [Free, typeSymbols], by simpa [typeSymbols] using hdone⟩, added, t, k,
      rfl, by simpa [typeSymbols] using hholds, hk, by simp [typeSymbols]⟩
  | cons e l ih =>
    obtain ⟨name, s⟩ := e
    obtain ⟨(hname : s.name = name), hl⟩ := List.forall_mem_cons.mp hl
    obtain ⟨hnotMem, hkeys⟩ := List.nodup_cons.mp hkeys
    rw [typeSymbols_cons] at hmakes hinj hadded hk ⊢
    by_cases hcopy : (!new.contains name && s.value.isNone) = true
    · rw [if_pos hcopy] at hmakes hinj hadded hk ⊢
      rw [Bool.and_eq_true, Bool.not_eq_true', contains_eq_false_iff] at hcopy
      by_cases hshadow : ∃ d ∈ done, (image d).name = s.name
      · -- the loop passes over the symbol, and does not come to it again
        obtain ⟨d, hd, heq⟩ := hshadow
        have hthere : t.contains name = true := by
          rw [contains_iff, ← hname, ← heq]
          exact ⟨_, hholds.images _ (List.mem_map_of_mem hd)⟩
        refine .inr ⟨fun h => ?_, fun added' t' k' hrun => ⟨s, List.mem_cons_self, fun hmem => ?_⟩⟩
        · exact (List.pairwise_append.mp h.2).2.2 d hd s List.mem_cons_self heq
        · have hrun' : (T.addTypeSymbols l added).run (t, k) = some (added', t', k') := by
            simpa [addTypeSymbols, hthere] using hrun
          rcases mem_of_addTypeSymbols hrun' hmem with hmem | hmem
          · exact hadded s List.mem_cons_self hmem
          · exact hnotMem (hname ▸ hmem)
      · push Not at hshadow
        have hmissing : t.contains name = false := by
          rw [contains_eq_false_iff, hholds.lookup_eq_none_iff, List.forall_mem_map, ← hname]
          exact ⟨hname ▸ hcopy.1, hshadow⟩
        rw [List.flatMap_cons, List.append_assoc] at hk
        obtain ⟨hmakes₁, hmakes⟩ := List.forall_mem_cons.mp hmakes
        obtain ⟨k₁, hrun, hk₁⟩ := hmakes₁ t _ k hk
        obtain ⟨hfree, t₂, hinsert, hholds₂⟩ | ⟨htaken, hinsert⟩ := hholds.insert_cases hinj
        · rw [List.append_cons] at hinj ⊢
          have hdone₂ : Unshadowed image (done ++ [s]) :=
            List.pairwise_append.mpr ⟨hdone, List.pairwise_singleton _ _,
              fun d hd x hx => List.mem_singleton.mp hx ▸ hshadow d hd⟩
          have hadded₂ : ∀ x ∈ typeSymbols new l, x.name ∉ name :: added := by
            intro x hx hmem
            rcases List.mem_cons.mp hmem with heq | hmem
            · obtain ⟨e, he, rfl⟩ := List.mem_map.mp hx
              refine hnotMem (heq ▸ List.mem_map.mpr ⟨e, List.mem_of_mem_filter he, ?_⟩)
              exact (hl e (List.mem_of_mem_filter he)).symm
            · exact hadded x (List.mem_cons_of_mem _ hx) hmem
          have hstep : (T.addTypeSymbols ((name, s) :: l) added).run (t, k) =
              (T.addTypeSymbols l (name :: added)).run (t₂, k₁) := by
            simp [addTypeSymbols, hmissing, hcopy.2, hrun, run_insertSymbol, hinsert]
          rw [hstep]
          rcases ih (done ++ [s]) hl hkeys hmakes hinj hadded₂ hdone₂ hholds₂ hk₁ with
            ⟨⟨hfrees, hunsh⟩, added', t', k', hrest, hholds', hk', hmem⟩ | ⟨hbad, hrest⟩
          · refine .inl ⟨⟨List.forall_mem_cons.mpr ⟨hfree, hfrees⟩, hunsh⟩, added', t', k', hrest,
              hholds', hk', fun n => ?_⟩
            rw [hmem, List.mem_cons, List.map_cons, List.mem_cons, hname]
            tauto
          · refine .inr ⟨fun h => hbad ⟨(List.forall_mem_cons.mp h.1).2, h.2⟩, fun _ _ _ h => ?_⟩
            obtain ⟨x, hx, hnot⟩ := hrest _ _ _ h
            exact ⟨x, List.mem_cons_of_mem _ hx, hnot⟩
        · refine .inr ⟨fun h => htaken (h.1 s List.mem_cons_self), fun added' t' k' h => ?_⟩
          simp [addTypeSymbols, hmissing, hcopy.2, hrun, run_insertSymbol, hinsert] at h
    · rw [if_neg hcopy] at hmakes hinj hadded hk ⊢
      have hskip : ¬ (t.contains name = false ∧ s.value.isNone = true) := by
        rintro ⟨hmissing, hnone⟩
        rw [contains_eq_false_iff, hholds.lookup_eq_none_iff] at hmissing
        simp [contains_eq_false_iff.mpr hmissing.1, hnone] at hcopy
      have hstep : (T.addTypeSymbols ((name, s) :: l) added).run (t, k) =
          (T.addTypeSymbols l added).run (t, k) := by
        simp [addTypeSymbols, hskip]
      rw [hstep]
      exact ih done hl hkeys hmakes hinj hadded hdone hholds hk

/-- The second loop transforms the symbols with a value when their images can be inserted, and
panics otherwise. -/
lemma run_addValueSymbols {todo : List Symbol}
    (htodo : todo = (l.filter fun e => e.1 ∉ added).map Prod.snd)
    (hmakes : ∀ s ∈ todo, ∀ xs t, xs ⊆ todo → Holds new ((done ++ xs).map image) t →
      T.Makes E image events t s)
    (hvalue : ∀ s ∈ todo, s.value.isNone = false)
    (hinj : (done ++ todo).Pairwise fun s s' => (image s).name ≠ (image s').name)
    (hholds : Holds new (done.map image) t)
    (hk : E.Inv (todo.flatMap events ++ r) k) :
    Free new image todo ∧ (∃ t' k', (T.addValueSymbols added l).run (t, k) = some ((), t', k') ∧
      Holds new ((done ++ todo).map image) t' ∧ E.Inv r k') ∨
    ¬ Free new image todo ∧ (T.addValueSymbols added l).run (t, k) = none := by
  induction l generalizing done todo t k with
  | nil =>
    subst htodo
    exact .inl ⟨by simp [Free], t, k, rfl, by simpa using hholds, hk⟩
  | cons e l ih =>
    obtain ⟨name, s⟩ := e
    by_cases hmem : name ∈ added
    · have hstep : (T.addValueSymbols added ((name, s) :: l)).run (t, k) =
          (T.addValueSymbols added l).run (t, k) := by
        simp [addValueSymbols, hmem]
      rw [hstep]
      exact ih (by simpa [hmem] using htodo) hmakes hvalue hinj hholds hk
    · obtain ⟨rest, hrest, rfl⟩ : ∃ rest, rest = (l.filter fun e => e.1 ∉ added).map Prod.snd ∧
          todo = s :: rest := ⟨_, rfl, by simpa [hmem] using htodo⟩
      obtain ⟨hmakes₁, hmakes⟩ := List.forall_mem_cons.mp hmakes
      obtain ⟨hvalue₁, hvalue⟩ := List.forall_mem_cons.mp hvalue
      rw [List.flatMap_cons, List.append_assoc] at hk
      obtain ⟨k₁, hrun, hk₁⟩ := hmakes₁ [] t (by simp) (by simpa using hholds) _ k hk
      obtain ⟨hfree, t₂, hinsert, hholds₂⟩ | ⟨htaken, hinsert⟩ := hholds.insert_cases hinj
      · rw [List.append_cons] at hinj ⊢
        have hmakes' : ∀ x ∈ rest, ∀ xs t, xs ⊆ rest →
            Holds new ((done ++ [s] ++ xs).map image) t → T.Makes E image events t x := by
          intro x hx xs t hxs ht
          exact hmakes x hx (s :: xs) t (List.cons_subset_cons s hxs) (by simpa using ht)
        have hstep : (T.addValueSymbols added ((name, s) :: l)).run (t, k) =
            (T.addValueSymbols added l).run (t₂, k₁) := by
          simp [addValueSymbols, hmem, hvalue₁, hrun, run_insertSymbol, hinsert]
        rw [hstep]
        rcases ih hrest hmakes' hvalue hinj hholds₂ hk₁ with ⟨hfrees, hrest⟩ | ⟨hbad, hrest⟩
        · exact .inl ⟨List.forall_mem_cons.mpr ⟨hfree, hfrees⟩, hrest⟩
        · exact .inr ⟨fun h => hbad (List.forall_mem_cons.mp h).2, hrest⟩
      · refine .inr ⟨fun h => htaken (h s List.mem_cons_self), ?_⟩
        simp [addValueSymbols, hmem, hvalue₁, hrun, run_insertSymbol, hinsert]

/-- The second loop does not expect a symbol without a value. -/
lemma isNone_of_addValueSymbols {x : Unit × SymbolTable × κ}
    (h : (T.addValueSymbols added l).run (t, k) = some x) :
    ∀ e ∈ l, e.1 ∉ added → e.2.value.isNone = false := by
  induction l generalizing t k with
  | nil => simp
  | cons e l ih =>
    obtain ⟨name, s⟩ := e
    by_cases hmem : name ∈ added
    · refine List.forall_mem_cons.mpr ⟨fun hnot => absurd hmem hnot, ih (t := t) (k := k) ?_⟩
      simpa [addValueSymbols, hmem] using h
    · cases hnone : s.value.isNone with
      | true => simp [addValueSymbols, hmem, hnone] at h
      | false =>
        simp only [addValueSymbols, if_neg hmem, hnone, Bool.not_false, guard_true,
          StateT.run_bind, Option.bind_eq_bind, Option.bind_eq_some_iff, Prod.exists] at h
        obtain ⟨-, t₁, k₁, -, s', t₂, k₂, -, -, t₃, k₃, -, h⟩ := h
        exact List.forall_mem_cons.mpr ⟨fun _ => hnone, ih h⟩

/-- What has not been added by the first loop is what has a value. -/
private lemma valueSymbols_eq
    (hadded : ∀ n, n ∈ added ↔ n ∈ new.symbolTable.entries.map Prod.fst ∨
      n ∈ (typeSymbols new st.symbolTable.entries).map Symbol.name) :
    valueSymbols new st.symbolTable.entries =
      (st.symbolTable.entries.filter fun e => e.1 ∉ added).map Prod.snd := by
  rw [valueSymbols]
  congr 1
  refine List.filter_congr fun e he => ?_
  obtain ⟨n, s⟩ := e
  have hs : st.lookup n = some s := mem_entries_iff.mp he
  obtain rfl : s.name = n := lookup_name hs
  rw [Bool.eq_iff_iff, decide_eq_true_eq, hadded, mem_names_iff, Bool.and_eq_true,
    Bool.not_eq_true', Bool.not_eq_true', not_or, Bool.not_eq_true]
  refine and_congr_right fun hmissing => ?_
  rw [← Bool.not_eq_true, not_iff_not]
  constructor
  · intro hnone
    refine List.mem_map_of_mem (mem_typeSymbols.mpr ⟨⟨hs, ?_⟩, hnone⟩)
    exact contains_eq_false_iff.mp hmissing
  · intro hmem
    obtain ⟨s', hs', (hname : s'.name = s.name)⟩ := List.mem_map.mp hmem
    obtain ⟨hs', hnone⟩ := mem_typeSymbols.mp hs'
    have heq : st.lookup s.name = some s' := hname ▸ hs'.mem
    obtain rfl := Option.some.inj (hs.symm.trans heq)
    exact hnone

/-- The images of a table can be told apart: from what the new table starts with, and, in the first
loop, from the old names of the symbols that follow. -/
structure Separable (new st : SymbolTable) (image : Symbol → Symbol) : Prop where
  free : ∀ s, Own new st s → new.lookup (image s).name = none
  unshadowed : Unshadowed image (typeSymbols new st.symbolTable.entries)

lemma separable_iff : Separable new st image ↔
    (Free new image (typeSymbols new st.symbolTable.entries) ∧
      Unshadowed image ([] ++ typeSymbols new st.symbolTable.entries)) ∧
    Free new image (valueSymbols new st.symbolTable.entries) := by
  rw [List.nil_append]
  constructor
  · rintro ⟨hfree, hunsh⟩
    exact ⟨⟨fun s hs => hfree s (mem_typeSymbols.mp hs).1, hunsh⟩,
      fun s hs => hfree s (mem_valueSymbols.mp hs).1⟩
  · rintro ⟨⟨htypes, hunsh⟩, hvalues⟩
    refine ⟨fun s hs => ?_, hunsh⟩
    rcases List.mem_append.mp (mem_symbols.mpr hs) with hs | hs
    · exact htypes s hs
    · exact hvalues s hs

variable (image events) in
/-- A pass whose images differ from each other returns when they can be told apart, and then the
table has them beside the symbols that it starts with. Otherwise the pass panics. -/
theorem transform_cases (hnew : SymbolTable.new st.machineModel = some new)
    (hpost : T.postprocess = pure ())
    (hinj : ∀ s s', Own new st s → Own new st s' → (image s).name = (image s').name → s = s')
    (htypes : ∀ s, Own new st s → s.value.isNone = true → ∀ t, T.Makes E image events t s)
    (hvalues : ∀ s, Own new st s → s.value.isNone = false → ∀ xs t, (∀ x ∈ xs, Own new st x) →
      Holds new ((typeSymbols new st.symbolTable.entries ++ xs).map image) t →
      T.Makes E image events t s)
    (hk : E.Inv ((typeSymbols new st.symbolTable.entries).flatMap events ++
      ((valueSymbols new st.symbolTable.entries).flatMap events ++ r)) k) :
    Separable new st image ∧ (∃ t', T.transform k st = some t' ∧
      Holds new ((typeSymbols new st.symbolTable.entries ++
        valueSymbols new st.symbolTable.entries).map image) t') ∨
    ¬ Separable new st image ∧ T.transform k st = none := by
  let added₀ := new.symbolTable.entries.map Prod.fst
  have hpair : (typeSymbols new st.symbolTable.entries ++
      valueSymbols new st.symbolTable.entries).Pairwise fun s s' =>
      (image s).name ≠ (image s').name :=
    nodup_symbols.pairwise_of_forall_ne fun s hs s' hs' hne heq =>
      hne (hinj s s' (mem_symbols.mp hs) (mem_symbols.mp hs') heq)
  have hmissing : ∀ s ∈ typeSymbols new st.symbolTable.entries, s.name ∉ added₀ := by
    intro s hs hmem
    rw [mem_names_iff, contains_iff, (mem_typeSymbols.mp hs).1.missing] at hmem
    obtain ⟨_, h⟩ := hmem
    cases h
  have hloops : T.transform k st = (T.addTypeSymbols st.symbolTable.entries added₀).run (new, k) >>=
      fun x => (T.addValueSymbols x.1 st.symbolTable.entries).run x.2 >>= fun y => pure y.2.1 := by
    simp [transform, SymbolTransformer.transformSymbolTable, hnew, hpost, added₀,
      Option.bind_assoc]
  rw [hloops, separable_iff]
  rcases run_addTypeSymbols [] (fun e he => lookup_name (mem_entries_iff.mp he))
      st.symbolTable.ascending.nodup_keys
      (fun s hs => htypes s (mem_typeSymbols.mp hs).1 (mem_typeSymbols.mp hs).2)
      (List.pairwise_append.mp hpair).1 hmissing List.Pairwise.nil Holds.init hk with
    ⟨hgood, added, t₁, k₁, hfirst, hholds, hk₁, hadded⟩ | ⟨hbad, hfirst⟩
  · rw [List.nil_append] at hholds
    have hmakes : ∀ s ∈ valueSymbols new st.symbolTable.entries, ∀ xs t,
        xs ⊆ valueSymbols new st.symbolTable.entries →
        Holds new ((typeSymbols new st.symbolTable.entries ++ xs).map image) t →
        T.Makes E image events t s := by
      intro s hs xs t hxs ht
      obtain ⟨hs, hsome⟩ := mem_valueSymbols.mp hs
      exact hvalues s hs hsome xs t (fun x hx => (mem_valueSymbols.mp (hxs hx)).1) ht
    rcases run_addValueSymbols (valueSymbols_eq hadded) hmakes
        (fun s hs => (mem_valueSymbols.mp hs).2) hpair hholds hk₁ with
      ⟨hfree, t', k', hsecond, hholds', -⟩ | ⟨hbad, hsecond⟩
    · exact .inl ⟨⟨hgood, hfree⟩, t', by simp [hfirst, hsecond], hholds'⟩
    · exact .inr ⟨fun h => hbad h.2, by simp [hfirst, hsecond]⟩
  · refine .inr ⟨fun h => hbad h.1, ?_⟩
    cases hrun : (T.addTypeSymbols st.symbolTable.entries added₀).run (new, k) with
    | none => rfl
    | some x =>
      obtain ⟨added, t₁, k₁⟩ := x
      -- the symbol that was passed over has no value
      obtain ⟨s, hs, hnot⟩ := hfirst added t₁ k₁ hrun
      obtain ⟨hown, hnone⟩ := mem_typeSymbols.mp hs
      cases hsecond : (T.addValueSymbols added st.symbolTable.entries).run (t₁, k₁) with
      | none => simp [hsecond]
      | some y =>
        have hvalue := isNone_of_addValueSymbols hsecond _ (mem_entries_iff.mpr hown.mem) hnot
        rw [hnone] at hvalue
        cases hvalue

/-- Symbols that keep their names can be told apart. -/
lemma Separable.of_name (h : ∀ s, Own new st s → (image s).name = s.name) :
    Separable new st image := by
  refine ⟨fun s hs => (h s hs).symm ▸ hs.missing, ?_⟩
  refine (List.nodup_append.mp nodup_symbols).1.pairwise_of_forall_ne fun s hs s' hs' hne heq => ?_
  have hown := (mem_typeSymbols.mp hs).1
  exact hne (hown.eq_of_name (mem_typeSymbols.mp hs').1 ((h s hown).symm.trans heq))

/-- A table whose symbols are images of themselves is held as it is. -/
lemma eq_of_holds (hmm : new.machineModel = st.machineModel)
    (hnew : ∀ n s, new.lookup n = some s → st.lookup n = some s)
    (himage : ∀ s, Own new st s → image s = s)
    (h : Holds new ((typeSymbols new st.symbolTable.entries ++
      valueSymbols new st.symbolTable.entries).map image) t) : t = st := by
  refine ext_lookup (h.machineModel.trans hmm) fun n => Option.ext fun s => ⟨fun hs => ?_,
    fun hs => ?_⟩
  · rcases h.only hs with hs' | hmem
    · exact hnew n s hs'
    · obtain ⟨x, hx, rfl⟩ := List.mem_map.mp hmem
      have hx := mem_symbols.mp hx
      rw [himage x hx] at hs ⊢
      rw [← lookup_name hs]
      exact hx.mem
  · obtain rfl : s.name = n := lookup_name hs
    cases hn : new.lookup s.name with
    | some s' => rw [h.initial hn, ← hs, hnew _ _ hn]
    | none =>
      have hown : Own new st s := ⟨hs, hn⟩
      have hmem := h.images _ (List.mem_map_of_mem (mem_symbols.mpr hown))
      rwa [himage s hown] at hmem

end SymbolTransformer

/-! ### Tables with further symbols -/

/-- The table has the symbols of another one and further ones. -/
structure SymbolTable.Adds (st₀ : SymbolTable) (l : List Symbol) (st : SymbolTable) : Prop where
  machineModel : st.machineModel = st₀.machineModel
  missing : ∀ s ∈ l, st₀.lookup s.name = none
  lookup : ∀ n s, st.lookup n = some s ↔ st₀.lookup n = some s ∨ s ∈ l ∧ s.name = n

variable {l : List Symbol}

/-- Symbols with new names can be inserted. -/
lemma SymbolTable.exists_adds (st₀ : SymbolTable) (hl : (l.map Symbol.name).Nodup)
    (hmissing : ∀ s ∈ l, st₀.lookup s.name = none) :
    ∃ st, l.foldlM SymbolTable.insert st₀ = some st ∧ st₀.Adds l st := by
  induction l using List.reverseRecOn with
  | nil => exact ⟨st₀, rfl, rfl, by simp, by simp⟩
  | append_singleton l x ih =>
    rw [List.map_append, List.map_singleton, List.nodup_append] at hl
    obtain ⟨hl, -, hx⟩ := hl
    obtain ⟨st, hst, hmm, -, hlookup⟩ := ih hl fun s hs => hmissing s (List.mem_append_left _ hs)
    have hx₀ : st₀.lookup x.name = none := hmissing x (by simp)
    have hnone : st.lookup x.name = none := by
      rw [Option.eq_none_iff_forall_ne_some]
      intro s hs
      rcases (hlookup _ _).mp hs with hs | ⟨hs, hname⟩
      · rw [hx₀] at hs
        cases hs
      · exact hx _ (List.mem_map_of_mem hs) _ (List.mem_singleton.mpr rfl) hname
    refine ⟨st.set x, ?_, hmm, hmissing, fun n s => ?_⟩
    · have hinsert : st.insert x = some (st.set x) := insert_eq_some.mpr ⟨hnone, rfl⟩
      simp [List.foldlM_append, hst, hinsert]
    · rw [lookup_set]
      split_ifs with hn
      · subst hn
        constructor
        · intro h
          exact .inr ⟨by simp [Option.some.inj h], congrArg Symbol.name (Option.some.inj h).symm⟩
        · rintro (h | ⟨h, hname⟩)
          · rw [hx₀] at h
            cases h
          · rcases List.mem_append.mp h with h | h
            · exact absurd hname (hx _ (List.mem_map_of_mem h) _ (List.mem_singleton.mpr rfl))
            · rw [List.mem_singleton.mp h]
      · rw [hlookup, List.mem_append, List.mem_singleton]
        refine or_congr_right (and_congr_left fun hname => ?_)
        refine (or_iff_left ?_).symm
        rintro rfl
        exact hn hname.symm

variable {st₀ : SymbolTable}

lemma SymbolTable.Adds.own_iff (h : st₀.Adds l st) : SymbolTransformer.Own st₀ st s ↔ s ∈ l := by
  constructor
  · rintro ⟨hs, hmissing⟩
    rcases (h.lookup _ _).mp hs with hs | hs
    · rw [hmissing] at hs
      cases hs
    · exact hs.1
  · intro hs
    exact ⟨(h.lookup _ _).mpr (.inr ⟨hs, rfl⟩), h.missing s hs⟩

/-- Further symbols without a value are all that the first loop transforms. -/
lemma SymbolTable.Adds.typeSymbols_perm (h : st₀.Adds l st) (hl : (l.map Symbol.name).Nodup)
    (hnone : ∀ s ∈ l, s.value.isNone = true) :
    (SymbolTransformer.typeSymbols st₀ st.symbolTable.entries).Perm l := by
  refine (List.perm_ext_iff_of_nodup (List.nodup_append.mp SymbolTransformer.nodup_symbols).1
    (List.Nodup.of_map _ hl)).mpr fun s => ?_
  rw [SymbolTransformer.mem_typeSymbols, h.own_iff]
  exact and_iff_left_of_imp (hnone s)

end Driver

end Rmc

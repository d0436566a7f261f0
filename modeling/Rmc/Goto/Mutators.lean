import Rmc.Goto.Builtin

/-!
# Runs of the symbol table

The public functions that change a symbol table, and the tables that they reach. Which calls a run
may make is a parameter, so that a result can be about all runs or about those that only pass what
was built in a certain way.

Apart from `replace`, which leaves the check to its caller, the functions only add to what a table
says: a symbol stays, or it is a declared function that gets its body, or it has an incomplete type
that is completed. A completion compares the types alone, so the new symbol can be of another kind.
-/

namespace Rmc

open OrdMap

/-! ### What a symbol can become -/

/-- What a symbol stands for. -/
inductive SymbolKind where
  | type
  | function
  | variable
  deriving DecidableEq, Repr

namespace Symbol

def kind (s : Symbol) : SymbolKind :=
  if s.isType then .type else if s.isFunction then .function else .variable

/-- What a call can put in the place of a symbol. -/
inductive Becomes (s : Symbol) : Symbol → Prop
  | same : Becomes s s
  | defined {body : Stmt} (h : s.isFunctionDeclaration = true) :
      Becomes s { s with value := .stmt body }
  | completed {s' : Symbol} (hname : s'.name = s.name) (h : s'.typ.completes s.typ = true) :
      Becomes s s'

/-- A symbol keeps what is known of it. -/
structure Grows (s s' : Symbol) : Prop where
  name : s'.name = s.name
  /-- The kind stays, but where an incomplete type is completed. -/
  kind : s'.kind = s.kind ∨ s'.typ.completes s.typ = true
  /-- A complete aggregate keeps its components. -/
  components : ∀ {cs}, s.typ.components = some cs → s'.typ = s.typ
  struct : ∀ {tag}, s.typ = .incompleteStruct tag → s' = s ∨ ∃ cs, s'.typ = .struct tag cs
  union : ∀ {tag}, s.typ = .incompleteUnion tag → s' = s ∨ ∃ cs, s'.typ = .union tag cs
  /-- A defined function keeps its body. -/
  body : s.isFunctionDefinition = true → s' = s

variable {s s' s'' : Symbol}

lemma isFunction_of_completes (h : s'.typ.completes s.typ = true) :
    s.isFunction = false ∧ s'.isFunction = false := by
  obtain ⟨tag, cs, hs, hs'⟩ | ⟨tag, cs, hs, hs'⟩ := Typ.completes_iff.mp h
  · simp [isFunction, hs, hs', Typ.isCode, Typ.isVariadicCode]
  · simp [isFunction, hs, hs', Typ.isCode, Typ.isVariadicCode]

lemma isFunction_of_isFunctionDeclaration (h : s.isFunctionDeclaration = true) :
    s.isFunction = true := by
  rw [isFunctionDeclaration, Bool.and_eq_true] at h
  exact h.1

namespace Becomes

/-- A symbol gets a body or is completed at most once. -/
lemma trans (h : s.Becomes s') (h' : s'.Becomes s'') : s.Becomes s'' := by
  cases h with
  | same => exact h'
  | @defined body h =>
    have hfunction := isFunction_of_isFunctionDeclaration h
    cases h' with
    | same => exact .defined h
    | defined hdecl => simp [isFunctionDeclaration, SymbolValues.isNone] at hdecl
    | completed _ hc =>
      have hnot := (isFunction_of_completes hc).1
      simp [isFunction] at hfunction hnot
      simp [hnot] at hfunction
  | completed hname h =>
    cases h' with
    | same => exact .completed hname h
    | defined hdecl =>
      have hfunction := isFunction_of_isFunctionDeclaration hdecl
      simp [(isFunction_of_completes h).2] at hfunction
    | completed _ hc => simp [Typ.completes_not_completes h] at hc

lemma grows (h : s.Becomes s') : s.Grows s' := by
  cases h with
  | same => exact ⟨rfl, .inl rfl, fun _ => rfl, fun _ => .inl rfl, fun _ => .inl rfl, fun _ => rfl⟩
  | defined h =>
    have hfunction := isFunction_of_isFunctionDeclaration h
    refine ⟨rfl, .inl rfl, fun _ => rfl, fun htag => ?_, fun htag => ?_, fun hdef => ?_⟩
    · simp [isFunction, htag, Typ.isCode, Typ.isVariadicCode] at hfunction
    · simp [isFunction, htag, Typ.isCode, Typ.isVariadicCode] at hfunction
    · rw [isFunctionDeclaration, Bool.and_eq_true] at h
      rw [isFunctionDefinition, Bool.and_eq_true] at hdef
      cases hvalue : s.value <;> simp [hvalue, SymbolValues.isNone, SymbolValues.isStmt] at h hdef
  | completed hname h =>
    refine ⟨hname, .inr h, fun hcs => ?_, fun htag => ?_, fun htag => ?_, fun hdef => ?_⟩
    · exact absurd hcs (Typ.components_of_completes h)
    · obtain ⟨_, cs, hs, hs'⟩ | ⟨_, cs, hs, hs'⟩ := Typ.completes_iff.mp h
      · rw [htag, Typ.incompleteStruct.injEq] at hs
        exact .inr ⟨cs, hs ▸ hs'⟩
      · simp [htag] at hs
    · obtain ⟨_, cs, hs, hs'⟩ | ⟨_, cs, hs, hs'⟩ := Typ.completes_iff.mp h
      · simp [htag] at hs
      · rw [htag, Typ.incompleteUnion.injEq] at hs
        exact .inr ⟨cs, hs ▸ hs'⟩
    · rw [isFunctionDefinition, (isFunction_of_completes h).1] at hdef
      simp at hdef

end Becomes

end Symbol

/-! ### Calls and runs -/

variable [Ranked String]

namespace SymbolTable

/-- A call that changes the table. -/
inductive Mutator where
  | ensure (name : String) (f : SymbolTable → String → Option Symbol)
  | insert (symbol : Symbol)
  | replace (checkerFn : Option Symbol → Bool) (newValue : Symbol)
  | replaceWithCompletion (newSymbol : Symbol)
  | updateFnDeclarationWithDefinition (name : String) (body : Stmt)

/-- The table after a call; `none` is a failed assertion. -/
def Mutator.apply (st : SymbolTable) : Mutator → Option SymbolTable
  | .ensure name f => st.ensure name f
  | .insert symbol => st.insert symbol
  | .replace checkerFn newValue => st.replace checkerFn newValue
  | .replaceWithCompletion newSymbol => st.replaceWithCompletion newSymbol
  | .updateFnDeclarationWithDefinition name body => st.updateFnDeclarationWithDefinition name body

/-- The tables that allowed calls reach from a table. -/
inductive Reachable (allowed : SymbolTable → Mutator → Prop) (st₀ : SymbolTable) :
    SymbolTable → Prop
  | refl : Reachable allowed st₀ st₀
  | step {st m st'} : Reachable allowed st₀ st → allowed st m → Mutator.apply st m = some st' →
      Reachable allowed st₀ st'

variable {st st' st₀ : SymbolTable} {m : Mutator} {name : String} {s s₁ : Symbol}

/-- What a call does to the table: nothing, or it puts one symbol into it. -/
lemma Mutator.apply_eq_some (h : m.apply st = some st') : st' = st ∨ ∃ s, st' = st.set s := by
  cases m with
  | ensure name f =>
    simp only [Mutator.apply, SymbolTable.ensure] at h
    split_ifs at h
    · exact .inl (Option.some.inj h).symm
    · simp only [bind_eq_some] at h
      obtain ⟨s, -, -, -, h⟩ := h
      exact .inr ⟨s, (insert_eq_some.1 h).2⟩
  | insert symbol => exact .inr ⟨symbol, (insert_eq_some.1 h).2⟩
  | replace checkerFn newValue =>
    simp only [Mutator.apply, SymbolTable.replace] at h
    split_ifs at h
    exact .inr ⟨newValue, (Option.some.inj h).symm⟩
  | replaceWithCompletion newSymbol =>
    exact .inr ⟨newSymbol, (replaceWithCompletion_eq_some.1 h).2⟩
  | updateFnDeclarationWithDefinition name body =>
    obtain ⟨s, -, -, h⟩ := updateFnDeclarationWithDefinition_eq_some.1 h
    exact .inr ⟨_, h⟩

lemma machineModel_insertAll {ss : List (Option Symbol)} (h : insertAll st ss = some st') :
    st'.machineModel = st.machineModel := by
  induction ss generalizing st with
  | nil =>
    cases h
    rfl
  | cons s ss ih =>
    simp only [insertAll, bind_eq_some] at h
    obtain ⟨s', -, st₁, hinsert, h⟩ := h
    rw [ih h, (insert_eq_some.1 hinsert).2, machineModel_set]

lemma machineModel_new {mm : MachineModel} (h : SymbolTable.new mm = some st) :
    st.machineModel = mm :=
  machineModel_insertAll h

lemma Reachable.machineModel {allowed : SymbolTable → Mutator → Prop}
    (h : Reachable allowed st₀ st) :
    st.machineModel = st₀.machineModel := by
  induction h with
  | refl => rfl
  | step _ _ happly ih =>
    rcases Mutator.apply_eq_some happly with rfl | ⟨s, rfl⟩
    · exact ih
    · exact ih

/-! ### Runs that only add -/

/-- The calls that check what they replace. -/
def Mutator.Adds : Mutator → Prop
  | .replace _ _ => False
  | _ => True

/-- A symbol that is set stands under its name, and the others stay. -/
lemma exists_becomes_set (h : ∀ s, st.lookup s₁.name = some s → s.Becomes s₁)
    (hs : st.lookup name = some s) :
    ∃ s', (st.set s₁).lookup name = some s' ∧ s.Becomes s' := by
  rw [lookup_set]
  by_cases hname : name = s₁.name
  · rw [if_pos hname]
    exact ⟨s₁, rfl, h s (hname ▸ hs)⟩
  · rw [if_neg hname]
    exact ⟨s, hs, .same⟩

lemma exists_becomes_insert (h : st.insert s₁ = some st') (hs : st.lookup name = some s) :
    ∃ s', st'.lookup name = some s' ∧ s.Becomes s' := by
  obtain ⟨hnew, rfl⟩ := insert_eq_some.mp h
  refine exists_becomes_set (fun s' hs' => ?_) hs
  simp [hnew] at hs'

/-- One call keeps every symbol, or gives it a body, or completes it. -/
lemma Mutator.exists_becomes (hm : m.Adds) (h : m.apply st = some st')
    (hs : st.lookup name = some s) :
    ∃ s', st'.lookup name = some s' ∧ s.Becomes s' := by
  cases m with
  | ensure n f =>
    simp only [Mutator.apply, SymbolTable.ensure] at h
    split_ifs at h
    · obtain rfl := Option.some.inj h
      exact ⟨s, hs, .same⟩
    · simp only [bind_eq_some] at h
      obtain ⟨_, -, -, -, h⟩ := h
      exact exists_becomes_insert h hs
  | insert symbol => exact exists_becomes_insert h hs
  | replace checkerFn newValue => exact hm.elim
  | replaceWithCompletion newSymbol =>
    obtain ⟨⟨old, hold, hc⟩, rfl⟩ := replaceWithCompletion_eq_some.mp h
    refine exists_becomes_set (fun s' hs' => ?_) hs
    rw [hold, Option.some.injEq] at hs'
    subst hs'
    exact .completed (lookup_name hold).symm hc
  | updateFnDeclarationWithDefinition n body =>
    obtain ⟨old, hold, hdecl, rfl⟩ := updateFnDeclarationWithDefinition_eq_some.mp h
    refine exists_becomes_set (fun s' hs' => ?_) hs
    have hself : st.lookup old.name = some s' := hs'
    rw [lookup_name hold, hold, Option.some.injEq] at hself
    subst hself
    exact .defined hdecl

/-- A whole run does to a symbol what one call does. -/
lemma Reachable.exists_becomes (h : Reachable (fun _ m => m.Adds) st₀ st)
    (hs : st₀.lookup name = some s) :
    ∃ s', st.lookup name = some s' ∧ s.Becomes s' := by
  induction h with
  | refl => exact ⟨s, hs, .same⟩
  | step _ hm happly ih =>
    obtain ⟨s₁, hs₁, hbecomes₁⟩ := ih
    obtain ⟨s₂, hs₂, hbecomes₂⟩ := Mutator.exists_becomes hm happly hs₁
    exact ⟨s₂, hs₂, hbecomes₁.trans hbecomes₂⟩

/-- Along every run the symbols of a table stand under their names and keep what is known of
them. -/
theorem Reachable.lookup_grows {st₀ st : SymbolTable}
    (h : Reachable (fun _ m => m.Adds) st₀ st) :
    (∀ {name s}, st.lookup name = some s → s.name = name) ∧
      ∀ {name s}, st₀.lookup name = some s → ∃ s', st.lookup name = some s' ∧ s.Grows s' := by
  refine ⟨fun hs => lookup_name hs, fun hs => ?_⟩
  obtain ⟨s', hs', hbecomes⟩ := h.exists_becomes hs
  exact ⟨s', hs', hbecomes.grows⟩

omit [Ranked String] in
theorem lookup_grows_completed :
    let _ : Ranked String := rankedString
    ∃ st₀ st : SymbolTable, ∃ s s', Reachable (fun _ m => m.Adds) st₀ st ∧
      st₀.lookup "tag-S" = some s ∧ st.lookup "tag-S" = some s' ∧ s.Grows s' ∧
      s.typ = .incompleteStruct "S" ∧ s'.typ = .struct "S" [.field "x" .bool] := by
  intro _
  let s : Symbol :=
    { Symbol.mkVariable "tag-S" "S" (.incompleteStruct "S") .none with isType := true }
  let s' : Symbol := { s with typ := .struct "S" [.field "x" .bool] }
  let st₀ : SymbolTable := (empty (machineModelFromSession none "x86_64" false 64)).set s
  have hs : st₀.lookup "tag-S" = some s := lookup_set_self _ s
  have hs' : (st₀.set s').lookup "tag-S" = some s' := lookup_set_self _ s'
  have hrun : Reachable (fun _ m => m.Adds) st₀ (st₀.set s') := by
    refine .step .refl (m := .replaceWithCompletion s') trivial ?_
    exact replaceWithCompletion_eq_some.mpr ⟨⟨s, hs, rfl⟩, rfl⟩
  obtain ⟨s₁, hs₁, hgrows⟩ := (Reachable.lookup_grows hrun).2 hs
  rw [hs', Option.some.injEq] at hs₁
  exact ⟨st₀, st₀.set s', s, s', hrun, hs, hs', hs₁ ▸ hgrows, rfl, rfl⟩

omit [Ranked String] in
/-- A variable of an incomplete type becomes a type when its type is completed. -/
theorem exists_kind_ne :
    let _ : Ranked String := rankedString
    ∃ st₀ st₁ st₂ : SymbolTable, ∃ new s s',
      SymbolTable.new (machineModelFromSession none "x86_64" false 64) = some st₀ ∧
      st₀.insert (Symbol.mkVariable "tag-S" "S" (.incompleteStruct "S") .none) = some st₁ ∧
      Symbol.structType "S" none [] = some new ∧ st₁.replaceWithCompletion new = some st₂ ∧
      st₁.lookup "tag-S" = some s ∧ st₂.lookup "tag-S" = some s' ∧
      s.kind = .variable ∧ s'.kind = .type := by
  intro _
  obtain ⟨st₀, hnew, hlookup⟩ := exists_new (machineModelFromSession none "x86_64" false 64)
  let x := Symbol.mkVariable "tag-S" "S" (.incompleteStruct "S") .none
  have hfree : st₀.lookup x.name = none := by
    rw [Option.eq_none_iff_forall_ne_some]
    intro s hs
    obtain ⟨hmem, hname⟩ := (hlookup _ _).mp hs
    have hnames : some "tag-S" ∉ (initialSymbols (machineModelFromSession none "x86_64" false
        64)).map (Option.map Symbol.name) := by decide +kernel
    have hmem' := List.mem_map_of_mem (f := Option.map Symbol.name) hmem
    rw [Option.map_some, hname] at hmem'
    exact hnames hmem'
  obtain ⟨new, hstruct⟩ : ∃ new, Symbol.structType "S" none [] = some new := ⟨_, rfl⟩
  have hx : (st₀.set x).lookup "tag-S" = some x := lookup_set_self _ x
  obtain rfl := Option.some.inj hstruct
  refine ⟨st₀, st₀.set x, _, _, x, _, hnew, insert_eq_some.mpr ⟨hfree, rfl⟩, rfl,
    replaceWithCompletion_eq_some.mpr ⟨⟨x, hx, rfl⟩, rfl⟩, hx, lookup_set_self _ _, rfl, rfl⟩

end SymbolTable

end Rmc

import Rmc.Goto.PassTyping

/-!
# Renaming symbols

The pass that renames and changes nothing else, on the symbols of a table. The expressions of a
renamed symbol are the renamed expressions, and its references are the renamed references. When no
name is changed, the symbol stays as it is.
-/

namespace Rmc

open OrdMap

/-! ### What occurs in a symbol table -/

/-- The expressions that occur in the value of a symbol. -/
def SymbolValues.exprs : SymbolValues → List Expr
  | .expr e => e.subExprs
  | .stmt s => s.subExprs
  | .none => []

/-- An expression in the value refers to the symbol of the name. -/
def SymbolValues.References (v : SymbolValues) (n : String) : Prop :=
  ∃ e ∈ v.exprs, e.value = .symbol n

/-- The type of a symbol and the types of the expressions in its value. -/
def Symbol.types (s : Symbol) : List Typ := s.typ :: s.value.exprs.map Expr.typ

namespace SymbolTable

variable [Ranked String] {st : SymbolTable} {s : Symbol} {t : Typ} {name : String}

/-- A type occurs in a type of the table. -/
def Occurs (st : SymbolTable) (u : Typ) : Prop :=
  ∃ name s, st.lookup name = some s ∧ ∃ t ∈ s.types, u ∈ t.subTypes

/-- A tag occurs in a type of the table. -/
def OccursTag (st : SymbolTable) (tag : String) : Prop :=
  st.Occurs (.structTag tag) ∨ st.Occurs (.unionTag tag)

lemma occurs_of_mem {u : Typ} (hs : st.lookup name = some s) (ht : t ∈ s.types)
    (hu : u ∈ t.subTypes) : st.Occurs u :=
  ⟨name, s, hs, t, ht, hu⟩

/-- The tags in the types of a symbol are tags of the table. -/
lemma tagsIn_of_mem (hs : st.lookup name = some s) (ht : t ∈ s.types) :
    t.TagsIn st.OccursTag :=
  fun _ htag => htag.imp (occurs_of_mem hs ht) (occurs_of_mem hs ht)

end SymbolTable

/-! ### The pass -/

/-- The pass that renames, and changes nothing else. -/
def namePass (f : String → String) : Pass where
  name := f
  flags _ es := es.map fun _ => true
  node := Expr.new

/-- A symbol with all of its names renamed. -/
def Symbol.rename (f : String → String) (s : Symbol) : Symbol :=
  { s with
    typ := s.typ.rename f, value := (namePass f).symbolValue s.value, name := f s.name,
    baseName := s.baseName.map f, prettyName := s.prettyName.map f }

/-! ### Expressions of a renamed symbol -/

section SubExprs

variable (f : String → String)

/-! The parts of a renamed tree are the renamed parts. -/

@[simp] lemma value_struct (es : List Expr) (t : Typ) :
    (namePass f).value (.struct es) t = .struct (es.map (namePass f).expr) := by
  have hvalue : (namePass f).value (.struct es) t =
    .struct ((namePass f).values es (es.map fun _ => true)) := rfl
  rw [hvalue, Pass.values_eq, List.zipWith_map_right, List.zipWith_self]
  rfl

lemma exprs_value (v : ExprValue) (t : Typ) :
    ((namePass f).value v t).exprs = v.exprs.map (namePass f).expr := by
  cases v with
  | struct es | array es | functionCall g es | vector es => simp [ExprValue.exprs]
  | _ => rfl

lemma stmts_value (v : ExprValue) (t : Typ) :
    ((namePass f).value v t).stmts = v.stmts.map (namePass f).stmt := by
  cases v with
  | statementExpression ss => simp [ExprValue.stmts]
  | _ => rfl

lemma exprs_body (b : StmtBody) :
    ((namePass f).body b).exprs = b.exprs.map (namePass f).expr := by
  cases b with
  | «break» | «continue» | goto n | skip => rfl
  | switch c cs d => simp [StmtBody.exprs, Function.comp_def, SwitchCase.value]
  | _ => simp [StmtBody.exprs, Option.toList_map]

lemma stmts_body (b : StmtBody) :
    ((namePass f).body b).stmts = b.stmts.map (namePass f).stmt := by
  cases b with
  | «break» | «continue» | goto n | skip => rfl
  | switch c cs d =>
    have hcase : ∀ e s, (SwitchCase.mk e s).body = s := fun _ _ => rfl
    simp [StmtBody.stmts, Function.comp_def, hcase, Option.toList_map]
  | _ => simp [StmtBody.stmts, Option.toList_map]

lemma expr_mk (v : ExprValue) (t : Typ) (l : Location) : (namePass f).expr (.mk v t l) =
    .mk ((namePass f).value v t) ((namePass f).typ t) l := by
  rw [Pass.expr_mk]
  rfl

private lemma exists_map_iff {α : Type} {l : List α} {g : α → α} {sub : α → List Expr}
    {h : Expr → Expr} {x' : Expr} (hl : ∀ a ∈ l, ∀ x', x' ∈ sub (g a) ↔ ∃ x ∈ sub a, h x = x') :
    (∃ a ∈ l.map g, x' ∈ sub a) ↔ ∃ x, (∃ a ∈ l, x ∈ sub a) ∧ h x = x' := by
  constructor
  · rintro ⟨_, hmem, hx'⟩
    obtain ⟨a, ha, rfl⟩ := List.mem_map.mp hmem
    obtain ⟨x, hx, rfl⟩ := (hl a ha x').mp hx'
    exact ⟨x, ⟨a, ha, hx⟩, rfl⟩
  · rintro ⟨x, ⟨a, ha, hx⟩, rfl⟩
    exact ⟨g a, List.mem_map_of_mem ha, (hl a ha _).mpr ⟨x, hx, rfl⟩⟩

/-- The expressions in a renamed tree are those of the tree, renamed. -/
lemma mem_subExprs_namePass :
    (∀ e x', x' ∈ ((namePass f).expr e).subExprs ↔ ∃ x ∈ e.subExprs, (namePass f).expr x = x') ∧
      ∀ s x', x' ∈ ((namePass f).stmt s).subExprs ↔ ∃ x ∈ s.subExprs, (namePass f).expr x = x' := by
  refine tree_induction (fun v t l he hs x' => ?_) fun b l he hs x' => ?_
  · rw [expr_mk]
    change x' ∈ _ :: ((namePass f).value v t).subExprs ↔
      ∃ x ∈ Expr.mk v t l :: v.subExprs, (namePass f).expr x = x'
    rw [List.exists_mem_cons_iff, List.mem_cons, expr_mk, eq_comm]
    refine or_congr_right ?_
    simp only [ExprValue.mem_subExprs, exprs_value, stmts_value, or_and_right, exists_or]
    exact or_congr (exists_map_iff he) (exists_map_iff hs)
  · change x' ∈ ((namePass f).body b).subExprs ↔ ∃ x ∈ b.subExprs, (namePass f).expr x = x'
    simp only [StmtBody.mem_subExprs, exprs_body, stmts_body, or_and_right, exists_or]
    exact or_congr (exists_map_iff he) (exists_map_iff hs)

/-- The references in a renamed value are the renamed references. -/
lemma references_namePass {v : SymbolValues} {n' : String} :
    ((namePass f).symbolValue v).References n' ↔ ∃ n, v.References n ∧ f n = n' := by
  have hexprs : ∀ e', e' ∈ ((namePass f).symbolValue v).exprs ↔
      ∃ e ∈ v.exprs, (namePass f).expr e = e' := by
    intro e'
    cases v with
    | expr e => exact (mem_subExprs_namePass f).1 e e'
    | stmt s => exact (mem_subExprs_namePass f).2 s e'
    | none => exact ⟨nofun, nofun⟩
  have hvalue : ∀ e : Expr, ((namePass f).expr e).value = .symbol n' ↔
      ∃ n, e.value = .symbol n ∧ f n = n' := by
    rintro ⟨v, t, l⟩
    rw [expr_mk]
    change (namePass f).value v t = _ ↔ ∃ n, v = _ ∧ _
    cases v with
    | symbol n =>
      change ExprValue.symbol (f n) = _ ↔ _
      simp
    | _ => exact ⟨nofun, nofun⟩
  simp only [SymbolValues.References, hexprs]
  grind

end SubExprs

/-! ### Names that stay -/

private lemma map_eq_self_iff {α : Type} {g : α → α} {l : List α} :
    l.map g = l ↔ ∀ x ∈ l, g x = x := by
  refine ⟨fun h => List.map_inj_left.mp (h.trans (List.map_id l).symm), fun h => ?_⟩
  exact (List.map_congr_left h).trans (List.map_id l)

/-- The parts of a value stay when they are renamed by the identity. -/
private lemma value_namePass_id {v : ExprValue} (t : Typ)
    (he : ∀ e ∈ v.exprs, (namePass id).expr e = e)
    (hs : ∀ s ∈ v.stmts, (namePass id).stmt s = s) : (namePass id).value v t = v := by
  have hname : ∀ n, (namePass id).name n = n := fun _ => rfl
  cases v with
  | boolConstant c | cBoolConstant c | doubleConstant c | floatConstant c | intConstant c => rfl
  | nondet | pointerConstant c | stringConstant c => rfl
  | _ => simp_all [ExprValue.exprs, ExprValue.stmts, map_eq_self_iff]

private lemma body_namePass_id {b : StmtBody}
    (he : ∀ e ∈ b.exprs, (namePass id).expr e = e)
    (hs : ∀ s ∈ b.stmts, (namePass id).stmt s = s) : (namePass id).body b = b := by
  have hname : ∀ n, (namePass id).name n = n := fun _ => rfl
  cases b with
  | «break» | «continue» | goto n | skip => rfl
  | decl x o | functionCall o f es | ifthenelse i t o | «return» o =>
    cases o <;> simp_all [StmtBody.exprs, StmtBody.stmts, map_eq_self_iff]
  | switch c cs o =>
    have hmk (x : SwitchCase) : .mk x.value x.body = x := by cases x; rfl
    obtain ⟨hbodies, ho⟩ := List.forall_mem_append.mp hs
    rw [List.forall_mem_map] at hbodies
    cases o <;> simp_all [StmtBody.exprs, map_eq_self_iff]
  | _ => simp_all [StmtBody.exprs, StmtBody.stmts, map_eq_self_iff]

/-- A tree whose names are not changed stays. -/
lemma namePass_id :
    (∀ e, (namePass id).expr e = e) ∧ ∀ s, (namePass id).stmt s = s := by
  refine tree_induction (fun v t l he hs => ?_) fun b l he hs => ?_
  · have ht : (namePass id).typ t = t := t.rename_id
    rw [expr_mk, value_namePass_id t he hs, ht]
  · have hstmt : (namePass id).stmt (.mk b l) = .mk ((namePass id).body b) l := rfl
    rw [hstmt, body_namePass_id he hs]

lemma symbolValue_namePass_id (v : SymbolValues) : (namePass id).symbolValue v = v := by
  cases v with
  | expr e => exact congrArg SymbolValues.expr (namePass_id.1 e)
  | stmt s => exact congrArg SymbolValues.stmt (namePass_id.2 s)
  | none => rfl

/-- A symbol whose names are not changed stays. -/
lemma Symbol.rename_id (s : Symbol) : s.rename id = s := by
  simp [Symbol.rename, Typ.rename_id, symbolValue_namePass_id]

/-! ### Names of a symbol -/

/-- The names of a tree, in the order in which they are converted. -/
def identifierEvents : Events String where
  typ := Typ.allNames
  name n := [n]
  node _ := []

/-- The names of a symbol, in the order in which they are converted. -/
def Symbol.events (s : Symbol) : List String :=
  s.typ.allNames ++ (identifierEvents.symbolValue (namePass id).marked s.value ++
    ([s.name] ++ (s.baseName.toList ++ s.prettyName.toList)))

/-- All names of a symbol: those that are converted, and those in the types of its expressions. -/
def Symbol.identifiers (s : Symbol) : List String := s.events ++ s.types.flatMap Typ.allNames

lemma Symbol.name_mem_identifiers (s : Symbol) : s.name ∈ s.identifiers :=
  List.mem_append_left _ (List.mem_append_right _ (List.mem_append_right _
    (List.mem_append_left _ List.mem_cons_self)))

lemma lawful_namePass (f : String → String) : (namePass f).Lawful :=
  ⟨fun _ _ => rfl, fun _ _ => rfl, fun _ _ h => h⟩

lemma isIntConstant_namePass {f : String → String} {x : Expr} (h : x.isIntConstant = true) :
    ((namePass f).expr x).isIntConstant = true := by
  obtain ⟨v, t, l⟩ := x
  cases v with
  | intConstant i => rfl
  | _ => simp [Expr.isIntConstant] at h

section Table

variable [Ranked String] {st : SymbolTable} {N : Set String} {s : Symbol}

/-- What is known of the expressions of a symbol. -/
lemma suits_of_mem (hs : st.lookup s.name = some s) (hN : ∀ n ∈ s.identifiers, n ∈ N) {f}
    {e : Expr} (he : e ∈ s.value.exprs) :
    (namePass f).Suits st.OccursTag (· ∈ N) e := by
  have hmem : e.typ ∈ s.types := List.mem_cons_of_mem _ (List.mem_map_of_mem he)
  refine ⟨SymbolTable.tagsIn_of_mem hs hmem, fun u hu n hn => ?_,
    fun x _ hx => isIntConstant_namePass hx, fun xs _ => ⟨List.length_map _, fun x _ hfalse => ?_⟩⟩
  · refine hN n (List.mem_append_right _ (List.mem_flatMap.mpr ⟨e.typ, hmem, ?_⟩))
    exact e.typ.names_subset_allNames u hu n hn
  · simp [namePass] at hfalse

omit [Ranked String] in
lemma allNames_subset (hN : ∀ n ∈ s.identifiers, n ∈ N) {u : Typ} (hu : u ∈ s.types) :
    {n | n ∈ u.allNames} ⊆ N :=
  fun n hn => hN n (List.mem_append_right _ (List.mem_flatMap.mpr ⟨u, hu, hn⟩))

end Table

end Rmc

import Rmc.Goto.PassTyping

/-!
# The default methods of a transformer

A transformer (`transformer.rs`) takes a symbol table apart and builds a new one: unless a method is
overridden, every type, expression and statement is rebuilt by its public constructor, so that every
check is made again, and those that read the table read the new one as far as it has been filled.

A type that the constructors have built is rebuilt as it is, provided that function types only have
parameters that can be passed; when names are changed it is renamed, as long as its names stay
distinct. An expression or a statement whose parts have been mapped is built again when it is typed
in the new table.
-/

namespace Rmc

open Effect OrdMap Checked

/-! ### Types built by constructors -/

mutual

/-- What the public constructors of types build. -/
inductive Typ.Composed : Typ → Prop
  | arrayOf {t : Typ} {n} : t.Composed → Typ.Composed (t.arrayOf n)
  | asBitfield {t w t'} : t.Composed → Typ.asBitfield t w = some t' → t'.Composed
  | bool : Typ.Composed .bool
  | cInteger {k} : Typ.Composed (.cInteger k)
  | code {ps r} : (∀ p ∈ ps, p.Composed) → r.Composed → Typ.Composed (.code ps r)
  | codeWithUnnamedParameters {ts r t} : (∀ t ∈ ts, t.Composed) → r.Composed →
      Typ.codeWithUnnamedParameters ts r = some t → t.Composed
  | constructor : Typ.Composed .constructor
  | double : Typ.Composed .double
  | empty : Typ.Composed .empty
  | emptyStruct {tag} : Typ.Composed (.struct tag [])
  | emptyUnion {tag} : Typ.Composed (.union tag [])
  | flexibleArrayOf {t : Typ} : t.Composed → Typ.Composed t.flexibleArrayOf
  | float : Typ.Composed .float
  | incompleteStruct {tag} : Typ.Composed (.incompleteStruct tag)
  | incompleteUnion {tag} : Typ.Composed (.incompleteUnion tag)
  | infiniteArrayOf {t : Typ} : t.Composed → Typ.Composed t.infiniteArrayOf
  | toPointer {t : Typ} : t.Composed → Typ.Composed t.toPointer
  | signedInt {w t} : Typ.signedInt w = some t → t.Composed
  | structTagRaw {tag} : Typ.Composed (.structTag tag)
  | structType {tag cs t} : (∀ c ∈ cs, c.Composed) → Typ.structType tag cs = some t → t.Composed
  | unionTagRaw {tag} : Typ.Composed (.unionTag tag)
  | unionType {tag cs t} : (∀ c ∈ cs, c.Composed) → Typ.unionType tag cs = some t → t.Composed
  | unsignedInt {w t} : Typ.unsignedInt w = some t → t.Composed
  | variadicCode {ps r} : (∀ p ∈ ps, p.Composed) → r.Composed → Typ.Composed (.variadicCode ps r)
  | vector {t n t'} : t.Composed → Typ.mkVector t n = some t' → t'.Composed

/-- Parameters are made from types that can be passed. Those that
`variadicCodeWithUnnamedParameters` makes are not checked, and can be taken out of the type. -/
inductive Parameter.Composed : Parameter → Prop
  | asParameter {t i b p} : t.Composed → Typ.asParameter t i b = some p → p.Composed
  | unnamed {t} : t.Composed → Parameter.Composed (.mk t none none)

inductive DatatypeComponent.Composed : DatatypeComponent → Prop
  | field {name t} : t.Composed → DatatypeComponent.Composed (.field name t)
  | padding {name bits} : DatatypeComponent.Composed (.padding name bits)

end

/-! ### Types are built again -/

variable {t : Typ}

lemma asParameter_eq_some {i b : Option String} {p : Parameter} :
    t.asParameter i b = some p ↔ t.isLvalue = true ∧ Parameter.mk t i b = p := by
  simp [Typ.asParameter]

/-- What is built from the parts of a type is the type. -/
lemma Typ.eq_of_rebuild {t' : Typ} (h : t.rebuild = some t') : t' = t := by
  cases t with
  | cBitField t w =>
    simp only [Typ.rebuild, Typ.asBitfield, bind_eq_some, guard_eq_some, exists_const,
      pure_eq_some] at h
    obtain ⟨-, -, _, -, -, rfl⟩ := h
    rfl
  | signedbv w | unsignedbv w | struct tag cs | union tag cs | vector t n =>
    simp only [Typ.rebuild, Typ.signedInt, Typ.unsignedInt, Typ.structType, Typ.unionType,
      Typ.mkVector] at h
    split_ifs at h
    exact (Option.some.inj h).symm
  | _ => exact (Option.some.inj h).symm

lemma Typ.eq_code {ts : List Typ} {r : Typ} (h : Typ.codeWithUnnamedParameters ts r = some t) :
    ∃ ps, t = .code ps r ∧ ∀ p ∈ ps, p.typ ∈ ts := by
  simp only [Typ.codeWithUnnamedParameters, bind_eq_some, pure_eq_some] at h
  obtain ⟨ps, hps, rfl⟩ := h
  refine ⟨ps, rfl, fun p hp => ?_⟩
  obtain ⟨u, hu, hpu⟩ := exists_of_mem_mapM hps hp
  obtain ⟨-, rfl⟩ := asParameter_eq_some.mp hpu
  exact hu

/-- What the constructors have built is built again from its parts. -/
lemma Typ.Composed.rebuild_eq (h : t.Composed) : t.rebuild = some t := by
  cases h with
  | @asBitfield u w _ _ h =>
    obtain rfl := eq_of_rebuild (t := .cBitField u w) h
    exact h
  | codeWithUnnamedParameters _ _ h =>
    obtain ⟨ps, rfl, -⟩ := eq_code h
    rfl
  | @signedInt w _ h =>
    obtain rfl := eq_of_rebuild (t := .signedbv w) h
    exact h
  | @unsignedInt w _ h =>
    obtain rfl := eq_of_rebuild (t := .unsignedbv w) h
    exact h
  | @structType tag cs _ _ h =>
    obtain rfl := eq_of_rebuild (t := .struct tag cs) h
    exact h
  | @unionType tag cs _ _ h =>
    obtain rfl := eq_of_rebuild (t := .union tag cs) h
    exact h
  | @vector u n _ _ h =>
    obtain rfl := eq_of_rebuild (t := .vector u n) h
    exact h
  | _ => rfl

/-- The types in a type that the constructors have built are built by them too. -/
lemma Typ.Composed.parts (h : t.Composed) : ∀ u ∈ t.parts, u.Composed := by
  have hparameter : ∀ {p : Parameter}, p.Composed → p.typ.Composed := by
    intro p h
    cases h with
    | asParameter ht hp =>
      obtain ⟨-, rfl⟩ := asParameter_eq_some.mp hp
      exact ht
    | unnamed ht => exact ht
  have hcomponents : ∀ {cs : List DatatypeComponent}, (∀ c ∈ cs, c.Composed) →
      ∀ u ∈ cs.filterMap DatatypeComponent.fieldTyp, u.Composed := by
    intro cs hcs u hu
    obtain ⟨c, hc, hu⟩ := List.mem_filterMap.mp hu
    cases hcs c hc with
    | field ht => exact Option.some.inj hu ▸ ht
    | padding => cases hu
  have hcode : ∀ {ps : List Parameter} {r : Typ}, (∀ p ∈ ps, p.typ.Composed) → r.Composed →
      ∀ u ∈ ps.map Parameter.typ ++ [r], u.Composed :=
    fun hps hr => List.forall_mem_append.mpr
      ⟨List.forall_mem_map.mpr hps, List.forall_mem_singleton.mpr hr⟩
  cases h with
  | arrayOf h | flexibleArrayOf h | infiniteArrayOf h | toPointer h =>
    exact List.forall_mem_singleton.mpr h
  | @asBitfield u w _ h hw =>
    obtain rfl := eq_of_rebuild (t := .cBitField u w) hw
    exact List.forall_mem_singleton.mpr h
  | code hps hr | variadicCode hps hr => exact hcode (fun p hp => hparameter (hps p hp)) hr
  | codeWithUnnamedParameters hts hr h =>
    obtain ⟨ps, rfl, hps⟩ := eq_code h
    exact hcode (fun p hp => hts _ (hps p hp)) hr
  | @signedInt w _ h =>
    obtain rfl := eq_of_rebuild (t := .signedbv w) h
    simp [Typ.parts]
  | @unsignedInt w _ h =>
    obtain rfl := eq_of_rebuild (t := .unsignedbv w) h
    simp [Typ.parts]
  | @structType tag cs _ hcs h =>
    obtain rfl := eq_of_rebuild (t := .struct tag cs) h
    exact hcomponents hcs
  | @unionType tag cs _ hcs h =>
    obtain rfl := eq_of_rebuild (t := .union tag cs) h
    exact hcomponents hcs
  | @vector u n _ h hn =>
    obtain rfl := eq_of_rebuild (t := .vector u n) hn
    exact List.forall_mem_singleton.mpr h
  | _ => simp [Typ.parts]

lemma Typ.Composed.forall_rebuild (h : t.Composed) : ∀ u ∈ t.subTypes, u.rebuild = some u := by
  induction t using Typ.induction with
  | _ t ih =>
  rw [Typ.forall_mem_subTypes]
  exact ⟨h.rebuild_eq, fun p hp => ih p hp (h.parts p hp)⟩

/-- The parameters of a function type, if it is one, can be passed. -/
def Typ.LvalueParameters (t : Typ) : Prop :=
  ∀ ps, t.parameters = some ps → ∀ p ∈ ps, p.typ.isLvalue = true

/-! ### Renamed types -/

section Renamed

variable {f : String → String}

/-- A renamed type is built again too, where the names in it stay distinct. -/
lemma Typ.rebuild_rename (h : t.rebuild = some t) (hf : Set.InjOn f {n | n ∈ t.names}) :
    (t.rename f).rebuild = some (t.rename f) := by
  cases t with
  | cBitField t w =>
    simp only [Typ.rename_cBitField, Typ.rebuild, Typ.asBitfield, bind_eq_some, guard_eq_some,
      exists_const, Option.pure_def, Typ.isInteger_rename, Typ.width_rename, and_true] at h ⊢
    exact h
  | signedbv w | unsignedbv w => exact h
  | struct tag cs | union tag cs =>
    have hcs : Set.InjOn f {n | n ∈ cs.map DatatypeComponent.name} :=
      hf.mono fun n hn => List.mem_cons_of_mem _ hn
    have hunique : (cs.map DatatypeComponent.name).Nodup := by
      simpa [Typ.rebuild, Typ.structType, Typ.unionType, Typ.componentsAreUnique] using h
    have hnames : (cs.map (·.rename f)).map DatatypeComponent.name =
        (cs.map DatatypeComponent.name).map f := by
      simp
    have hrenamed : Typ.componentsAreUnique (cs.map (·.rename f)) = true := by
      rw [Typ.componentsAreUnique, hnames, decide_eq_true_eq]
      exact (List.nodup_map_iff_inj_on hunique).mpr fun x hx y hy => hcs hx hy
    simp [Typ.rebuild, Typ.structType, Typ.unionType, hrenamed]
  | vector t n => simp_all [Typ.rebuild, Typ.mkVector]
  | _ => simp [Typ.rebuild, Typ.arrayOf, Typ.flexibleArrayOf, Typ.infiniteArrayOf, Typ.toPointer]

lemma Parameter.rebuild_rename {p : Parameter} (h : p.typ.isLvalue = true) :
    (p.rename f).rebuild = some (p.rename f) := by
  obtain ⟨t, i, b⟩ := p
  refine asParameter_eq_some.mpr ⟨?_, rfl⟩
  rw [Typ.isLvalue_rename]
  exact h

variable [Ranked String] [DebugTyp] {κ : Type} {E : Effect κ String}
  {name : String → StateT κ Option String} {st' : SymbolTable}

/-- A type that is built again is renamed when the names in it are, and stay distinct. -/
lemma yields_transformType (hbuild : ∀ u ∈ t.subTypes, u.rebuild = some u)
    (hparams : ∀ u ∈ t.subTypes, u.LvalueParameters) (hf : Set.InjOn f {n | n ∈ t.allNames})
    (hname : ∀ n, E.Yields (name n) (f n) [n]) :
    E.Yields ((Traversal.naming name st').transformType t) (t.rename f) t.allNames := by
  have hyields : E.Yields ((Traversal.naming name st').transformType t) (t.rename f)
      (t.allNames.flatMap fun n => [n]) := by
    refine yields_typ t fun u hu => ⟨fun n _ => hname n, ?_, fun ps hps p hp => ?_⟩
    · exact .of_option (Typ.rebuild_rename (hbuild u hu) (hf.mono (t.names_subset_allNames u hu)))
    · exact .of_option (Parameter.rebuild_rename (hparams u hu ps hps p hp))
  rwa [List.flatMap_singleton'] at hyields

end Renamed

/-! ### Nodes that are built again -/

namespace Pass

variable [Ranked String] [DebugTyp] {κ : Type} {P : Pass} {E : Effect κ String}
  {name : String → StateT κ Option String} {st' : SymbolTable}

omit [Ranked String] [DebugTyp] in
@[simp] lemma constructible_value (v : ExprValue) (t : Typ) :
    (P.value v t).constructible = v.constructible := by
  cases v with
  | selfOp op e => cases op <;> rfl
  | _ => rfl

/-- A mapped expression that is typed is built by its constructor. -/
lemma yields_rebuild {v : ExprValue} {t : Typ} (hv : (P.value v t).HasType st' (P.typ t))
    (hc : v.constructible = true) :
    E.Yields ((Traversal.naming name st').expr (P.value v t) (if v.usesTyp then P.typ t else t))
      (Expr.new (P.value v t) (P.typ t)) [] := by
  refine .of_option (ExprValue.rebuild_of_hasType hv (by simpa using hc) fun h => ?_)
  rw [usesTyp_value] at h
  rw [if_pos h]

/-- A mapped statement whose sides agree is built by its constructor. -/
lemma exists_yields_rebuild {b : StmtBody} (h : (P.body b).Agrees) :
    ∃ l, E.Yields ((Traversal.naming name st').stmt (P.body b)) (.mk (P.body b) l) [] := by
  obtain ⟨l, hbuild⟩ := StmtBody.rebuild_of_agrees h
  exact ⟨l, .of_option hbuild⟩

end Pass

end Rmc

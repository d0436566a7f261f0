import Rmc.Goto.Traversal

/-!
# Renaming types

A type is renamed by a traversal that does nothing but rename. The kind of a type does not depend
on names, nor does its size when the table is renamed too, and types are equal after renaming when
they are equal before. The converse holds where the renaming can be undone.
-/

namespace Rmc

open Effect

/-- The traversal that renames. -/
def renamer (f : String → String) : TypeTraversal Id where
  name := f
  typ t := t
  parameter p := p

def Typ.rename (f : String → String) (t : Typ) : Typ := (renamer f).transformType t

def Parameter.rename (f : String → String) : Parameter → Parameter
  | .mk typ identifier baseName => .mk (typ.rename f) (identifier.map f) (baseName.map f)

def DatatypeComponent.rename (f : String → String) : DatatypeComponent → DatatypeComponent
  | .field name typ => .field (f name) (typ.rename f)
  | .padding name bits => .padding (f name) bits

variable {t : Typ}

section Equations

variable (f : String → String)

lemma renamer_transformTypeParameter (p : Parameter) :
    (renamer f).transformTypeParameter p = p.rename f := by
  obtain ⟨t, i, b⟩ := p
  cases i <;> cases b <;> rfl

lemma renamer_transformDatatypeComponent (c : DatatypeComponent) :
    (renamer f).transformDatatypeComponent c = c.rename f := by
  cases c <;> rfl

lemma renamer_transformTypeParameters (ps : List Parameter) :
    (renamer f).transformTypeParameters ps = ps.map (·.rename f) := by
  induction ps with
  | nil => rfl
  | cons p ps ih =>
    have hcons : (renamer f).transformTypeParameters (p :: ps) =
      (renamer f).transformTypeParameter p :: (renamer f).transformTypeParameters ps := rfl
    rw [hcons, ih, renamer_transformTypeParameter, List.map_cons]

lemma renamer_transformDatatypeComponents (cs : List DatatypeComponent) :
    (renamer f).transformDatatypeComponents cs = cs.map (·.rename f) := by
  induction cs with
  | nil => rfl
  | cons c cs ih =>
    have hcons : (renamer f).transformDatatypeComponents (c :: cs) =
      (renamer f).transformDatatypeComponent c :: (renamer f).transformDatatypeComponents cs := rfl
    rw [hcons, ih, renamer_transformDatatypeComponent, List.map_cons]

namespace Typ

@[simp] lemma rename_array (t : Typ) (n : ℕ) : (array t n).rename f = .array (t.rename f) n := rfl

@[simp] lemma rename_bool : bool.rename f = .bool := rfl

@[simp] lemma rename_cBitField (t : Typ) (w : ℕ) :
    (cBitField t w).rename f = .cBitField (t.rename f) w := rfl

@[simp] lemma rename_cInteger (k : CIntType) : (cInteger k).rename f = .cInteger k := rfl

@[simp] lemma rename_code (ps : List Parameter) (r : Typ) :
    (code ps r).rename f = .code (ps.map (·.rename f)) (r.rename f) := by
  rw [← renamer_transformTypeParameters]
  rfl

@[simp] lemma rename_constructor : constructor.rename f = .constructor := rfl

@[simp] lemma rename_double : double.rename f = .double := rfl

@[simp] lemma rename_empty : empty.rename f = .empty := rfl

@[simp] lemma rename_flexibleArray (t : Typ) :
    (flexibleArray t).rename f = .flexibleArray (t.rename f) := rfl

@[simp] lemma rename_float : float.rename f = .float := rfl

@[simp] lemma rename_incompleteStruct (tag : String) :
    (incompleteStruct tag).rename f = .incompleteStruct (f tag) := rfl

@[simp] lemma rename_incompleteUnion (tag : String) :
    (incompleteUnion tag).rename f = .incompleteUnion (f tag) := rfl

@[simp] lemma rename_infiniteArray (t : Typ) :
    (infiniteArray t).rename f = .infiniteArray (t.rename f) := rfl

@[simp] lemma rename_pointer (t : Typ) : (pointer t).rename f = .pointer (t.rename f) := rfl

@[simp] lemma rename_signedbv (w : ℕ) : (signedbv w).rename f = .signedbv w := rfl

@[simp] lemma rename_struct (tag : String) (cs : List DatatypeComponent) :
    (struct tag cs).rename f = .struct (f tag) (cs.map (·.rename f)) := by
  rw [← renamer_transformDatatypeComponents]
  rfl

@[simp] lemma rename_structTag (tag : String) : (structTag tag).rename f = .structTag (f tag) := rfl

@[simp] lemma rename_union (tag : String) (cs : List DatatypeComponent) :
    (union tag cs).rename f = .union (f tag) (cs.map (·.rename f)) := by
  rw [← renamer_transformDatatypeComponents]
  rfl

@[simp] lemma rename_unionTag (tag : String) : (unionTag tag).rename f = .unionTag (f tag) := rfl

@[simp] lemma rename_unsignedbv (w : ℕ) : (unsignedbv w).rename f = .unsignedbv w := rfl

@[simp] lemma rename_variadicCode (ps : List Parameter) (r : Typ) :
    (variadicCode ps r).rename f = .variadicCode (ps.map (·.rename f)) (r.rename f) := by
  rw [← renamer_transformTypeParameters]
  rfl

@[simp] lemma rename_vector (t : Typ) (n : ℕ) :
    (vector t n).rename f = .vector (t.rename f) n := rfl

end Typ

section

variable (c : DatatypeComponent)

@[simp] lemma DatatypeComponent.name_rename : (c.rename f).name = f c.name := by
  cases c <;> rfl

@[simp] lemma DatatypeComponent.isPadding_rename : (c.rename f).isPadding = c.isPadding := by
  cases c <;> rfl

@[simp] lemma DatatypeComponent.typ_rename : (c.rename f).typ = c.typ.map (·.rename f) := by
  cases c with
  | field name t => rfl
  | padding name bits =>
    by_cases h : 0 < bits
    · simp [DatatypeComponent.rename, DatatypeComponent.typ, h]
    · simp [DatatypeComponent.rename, DatatypeComponent.typ, h]

@[simp] lemma DatatypeComponent.fieldTyp_rename :
    (c.rename f).fieldTyp = c.fieldTyp.map (·.rename f) := by
  cases c <;> rfl

end

@[simp] lemma Parameter.typ_rename (p : Parameter) : (p.rename f).typ = p.typ.rename f := by
  cases p
  rfl

/-! ### Kinds of types -/

namespace Typ

section

variable (t)

@[simp] lemma isInteger_rename : (t.rename f).isInteger = t.isInteger := by
  cases t <;> simp [isInteger]

@[simp] lemma isFloatingPoint_rename : (t.rename f).isFloatingPoint = t.isFloatingPoint := by
  cases t <;> simp [isFloatingPoint]

@[simp] lemma isNumeric_rename : (t.rename f).isNumeric = t.isNumeric := by
  simp [isNumeric]

@[simp] lemma isPointer_rename : (t.rename f).isPointer = t.isPointer := by
  cases t <;> simp [isPointer]

@[simp] lemma isVector_rename : (t.rename f).isVector = t.isVector := by
  cases t <;> simp [isVector]

@[simp] lemma isArrayLike_rename : (t.rename f).isArrayLike = t.isArrayLike := by
  cases t <;> simp [isArrayLike]

@[simp] lemma isBool_rename : (t.rename f).isBool = t.isBool := by
  cases t <;> simp [isBool]

@[simp] lemma isCBool_rename : (t.rename f).isCBool = t.isCBool := by
  cases t <;> simp [isCBool]

@[simp] lemma isLvalue_rename : (t.rename f).isLvalue = t.isLvalue := by
  cases t <;> simp [isLvalue]

@[simp] lemma isStructTag_rename : (t.rename f).isStructTag = t.isStructTag := by
  cases t <;> simp [isStructTag]

@[simp] lemma isUnionTag_rename : (t.rename f).isUnionTag = t.isUnionTag := by
  cases t <;> simp [isUnionTag]

@[simp] lemma width_rename : (t.rename f).width = t.width := by
  cases t <;> simp [width]

@[simp] lemma baseType_rename : (t.rename f).baseType = t.baseType.map (·.rename f) := by
  cases t <;> simp [baseType]

@[simp] lemma components_rename :
    (t.rename f).components = t.components.map (·.map (·.rename f)) := by
  cases t <;> simp [components]

end

lemma rename_eq_bool : t.rename f = .bool ↔ t = .bool := by
  cases t <;> simp

end Typ

end Equations

/-! ### Names in a type -/

def Parameter.names (p : Parameter) : List String :=
  p.identifier.toList ++ p.baseName.toList

/-- The names in a type itself, but for those in the types it is made of. -/
def Typ.names : Typ → List String
  | .code ps _ => ps.flatMap Parameter.names
  | .incompleteStruct tag => [tag]
  | .incompleteUnion tag => [tag]
  | .struct tag cs => tag :: cs.map DatatypeComponent.name
  | .structTag tag => [tag]
  | .union tag cs => tag :: cs.map DatatypeComponent.name
  | .unionTag tag => [tag]
  | .variadicCode ps _ => ps.flatMap Parameter.names
  | _ => []

variable {n : String}

lemma Typ.mem_names_of_components {cs : List DatatypeComponent} (hcs : t.components = some cs)
    (hn : n ∈ cs.map DatatypeComponent.name) :
    n ∈ t.names := by
  cases t with
  | struct tag cs' | union tag cs' =>
    cases hcs
    exact List.mem_cons_of_mem _ hn
  | _ => cases hcs

mutual

/-- All names in a type, in the order in which a traversal comes to them. -/
def Typ.allNames : Typ → List String
  | .array t _ | .cBitField t _ | .vector t _ => t.allNames
  | .flexibleArray t | .infiniteArray t | .pointer t => t.allNames
  | .code ps r | .variadicCode ps r => allNamesOfParameters ps ++ r.allNames
  | .struct tag cs | .union tag cs => allNamesOfComponents cs ++ [tag]
  | .incompleteStruct tag | .incompleteUnion tag | .structTag tag | .unionTag tag => [tag]
  | _ => []

def Parameter.allNames : Parameter → List String
  | .mk t identifier baseName => t.allNames ++ (identifier.toList ++ baseName.toList)

def DatatypeComponent.allNames : DatatypeComponent → List String
  | .field name t => name :: t.allNames
  | .padding name _ => [name]

def allNamesOfParameters : List Parameter → List String
  | [] => []
  | p :: ps => p.allNames ++ allNamesOfParameters ps

def allNamesOfComponents : List DatatypeComponent → List String
  | [] => []
  | c :: cs => c.allNames ++ allNamesOfComponents cs

end

@[simp] lemma allNamesOfParameters_eq (ps : List Parameter) :
    allNamesOfParameters ps = ps.flatMap Parameter.allNames := by
  induction ps with
  | nil => rfl
  | cons p ps ih => rw [allNamesOfParameters, ih, List.flatMap_cons]

@[simp] lemma allNamesOfComponents_eq (cs : List DatatypeComponent) :
    allNamesOfComponents cs = cs.flatMap DatatypeComponent.allNames := by
  induction cs with
  | nil => rfl
  | cons c cs ih => rw [allNamesOfComponents, ih, List.flatMap_cons]

/-- A name in a type is one of the type itself, or in one of its parts. -/
lemma Typ.mem_allNames : n ∈ t.allNames ↔ n ∈ t.names ∨ ∃ u ∈ t.parts, n ∈ u.allNames := by
  have hparameter : ∀ p : Parameter, n ∈ p.allNames ↔ n ∈ p.typ.allNames ∨ n ∈ p.names := by
    rintro ⟨t, i, b⟩
    simp [Parameter.allNames, Parameter.names, Parameter.identifier, Parameter.baseName]
  have hcomponent : ∀ c : DatatypeComponent,
      n ∈ c.allNames ↔ c.name = n ∨ ∃ u, c.fieldTyp = some u ∧ n ∈ u.allNames := by
    intro c
    cases c <;> simp [DatatypeComponent.allNames, DatatypeComponent.fieldTyp, eq_comm]
  cases t <;> simp [Typ.allNames, Typ.names, Typ.parts, hparameter, hcomponent]
  all_goals grind

lemma Typ.names_subset_allNames (t : Typ) :
    ∀ u ∈ t.subTypes, ∀ n ∈ u.names, n ∈ t.allNames := by
  induction t using Typ.induction with
  | _ t ih =>
  rw [Typ.forall_mem_subTypes]
  exact ⟨fun n hn => Typ.mem_allNames.mpr (.inl hn),
    fun p hp u hu n hn => Typ.mem_allNames.mpr (.inr ⟨p, hp, ih p hp u hu n hn⟩)⟩

section Traverse

variable {σ : Type} {ε : Type*} (E : Effect σ ε) (m : TypeTraversal (StateT σ Option))
  (f : String → String) (ev : String → List ε)

/-- At this type, the traversal renames. -/
structure TypeFits (t : Typ) : Prop where
  names : ∀ n ∈ t.names, E.Yields (m.name n) (f n) (ev n)
  node : E.Yields (m.typ (t.rename f)) (t.rename f) []
  parameters : ∀ ps, t.parameters = some ps → ∀ p ∈ ps,
    E.Yields (m.parameter (p.rename f)) (p.rename f) []

variable {E m f ev}

lemma yields_name? {o : Option String} (h : ∀ n ∈ o.toList, E.Yields (m.name n) (f n) (ev n)) :
    E.Yields (m.transformName? o) (o.map f) (o.toList.flatMap ev) := by
  cases o with
  | none => exact .pure
  | some n =>
    rw [Option.toList_some, List.flatMap_singleton]
    exact (h n (by simp)).map

mutual

/-- Where a traversal renames at every type, it yields the renamed type. -/
lemma yields_typ (t : Typ) (h : ∀ u ∈ t.subTypes, TypeFits E m f ev u) :
    E.Yields (m.transformType t) (t.rename f) (t.allNames.flatMap ev) := by
  have hself := h t t.self_mem_subTypes
  cases t with
  | array t n | cBitField t n | vector t n =>
    exact (yields_typ t (List.forall_mem_cons.mp h).2).bind_nil hself.node
  | flexibleArray t | infiniteArray t | pointer t =>
    exact (yields_typ t (List.forall_mem_cons.mp h).2).bind_nil hself.node
  | code ps r | variadicCode ps r =>
    obtain ⟨hps, hr⟩ := List.forall_mem_append.mp (List.forall_mem_cons.mp h).2
    have hnames : ∀ p ∈ ps, ∀ n ∈ p.names, E.Yields (m.name n) (f n) (ev n) :=
      fun p hp n hn => hself.names n (List.mem_flatMap.mpr ⟨p, hp, hn⟩)
    have hparams := yields_parameters ps hnames (hself.parameters ps rfl) hps
    have hnode := hself.node
    simp only [Typ.rename_code, Typ.rename_variadicCode, Typ.allNames,
      List.flatMap_append] at hnode ⊢
    exact hparams.bind ((yields_typ r hr).bind_nil hnode)
  | struct tag cs | union tag cs =>
    have hnames : ∀ c ∈ cs, E.Yields (m.name c.name) (f c.name) (ev c.name) :=
      fun c hc => hself.names _ (List.mem_cons_of_mem _ (List.mem_map_of_mem hc))
    have htag := hself.names tag List.mem_cons_self
    have hnode := hself.node
    simp only [Typ.rename_struct, Typ.rename_union, Typ.allNames, List.flatMap_append,
      List.flatMap_singleton] at hnode ⊢
    exact (yields_components cs hnames (List.forall_mem_cons.mp h).2).bind (htag.bind_nil hnode)
  | incompleteStruct tag | incompleteUnion tag | structTag tag | unionTag tag =>
    rw [Typ.allNames, List.flatMap_singleton]
    exact (hself.names tag List.mem_cons_self).bind_nil hself.node
  | _ => exact hself.node
termination_by structural t

lemma yields_parameter (p : Parameter) (hnames : ∀ n ∈ p.names, E.Yields (m.name n) (f n) (ev n))
    (hnode : E.Yields (m.parameter (p.rename f)) (p.rename f) [])
    (h : ∀ u ∈ p.subTypes, TypeFits E m f ev u) :
    E.Yields (m.transformTypeParameter p) (p.rename f) (p.allNames.flatMap ev) := by
  obtain ⟨t, identifier, baseName⟩ := p
  obtain ⟨hi, hb⟩ := List.forall_mem_append.mp hnames
  rw [Parameter.allNames, List.flatMap_append, List.flatMap_append]
  exact (yields_typ t h).bind ((yields_name? hi).bind ((yields_name? hb).bind_nil hnode))
termination_by structural p

lemma yields_component (c : DatatypeComponent)
    (hname : E.Yields (m.name c.name) (f c.name) (ev c.name))
    (h : ∀ u ∈ c.subTypes, TypeFits E m f ev u) :
    E.Yields (m.transformDatatypeComponent c) (c.rename f) (c.allNames.flatMap ev) := by
  cases c with
  | field name t =>
    rw [DatatypeComponent.allNames, List.flatMap_cons]
    exact hname.bind (yields_typ t h).map
  | padding name bits =>
    rw [DatatypeComponent.allNames, List.flatMap_singleton]
    exact hname.map
termination_by structural c

lemma yields_parameters (ps : List Parameter)
    (hnames : ∀ p ∈ ps, ∀ n ∈ p.names, E.Yields (m.name n) (f n) (ev n))
    (hnode : ∀ p ∈ ps, E.Yields (m.parameter (p.rename f)) (p.rename f) [])
    (h : ∀ u ∈ subTypesOfParameters ps, TypeFits E m f ev u) :
    E.Yields (m.transformTypeParameters ps) (ps.map (·.rename f))
      ((allNamesOfParameters ps).flatMap ev) := by
  cases ps with
  | nil => exact .pure
  | cons p ps =>
    obtain ⟨hname, hnames⟩ := List.forall_mem_cons.mp hnames
    obtain ⟨hp, hnode⟩ := List.forall_mem_cons.mp hnode
    obtain ⟨hsub, hsubs⟩ := List.forall_mem_append.mp h
    rw [allNamesOfParameters, List.flatMap_append]
    exact (yields_parameter p hname hp hsub).bind (yields_parameters ps hnames hnode hsubs).map
termination_by structural ps

lemma yields_components (cs : List DatatypeComponent)
    (hnames : ∀ c ∈ cs, E.Yields (m.name c.name) (f c.name) (ev c.name))
    (h : ∀ u ∈ subTypesOfComponents cs, TypeFits E m f ev u) :
    E.Yields (m.transformDatatypeComponents cs) (cs.map (·.rename f))
      ((allNamesOfComponents cs).flatMap ev) := by
  cases cs with
  | nil => exact .pure
  | cons c cs =>
    obtain ⟨hname, hnames⟩ := List.forall_mem_cons.mp hnames
    obtain ⟨hsub, hsubs⟩ := List.forall_mem_append.mp h
    rw [allNamesOfComponents, List.flatMap_append]
    exact (yields_component c hname hsub).bind (yields_components cs hnames hsubs).map
termination_by structural cs

end

end Traverse

/-! ### Equality of renamed types -/

section Equality

variable {f : String → String}

lemma Typ.erase_rename (t : Typ) : (t.rename f).erase = t.erase.rename f := by
  induction t using Typ.induction with
  | _ t ih =>
  cases t with
  | code ps r | variadicCode ps r =>
    have hps : ∀ p ∈ ps, (p.rename f).erase = p.erase.rename f := by
      rintro ⟨t, i, b⟩ hp
      simp [Parameter.erase, Parameter.rename, ih t (by simpa [Typ.parts] using .inl ⟨_, hp, rfl⟩)]
    simpa [Typ.erase, ih r (by simp [Typ.parts])] using hps
  | struct tag cs | union tag cs =>
    have hcs : ∀ c ∈ cs, (c.rename f).erase = c.erase.rename f := by
      rintro (⟨name, t⟩ | ⟨name, bits⟩) hc
      · simp [DatatypeComponent.erase, DatatypeComponent.rename,
          ih t (List.mem_filterMap.mpr ⟨_, hc, rfl⟩)]
      · rfl
    simpa [Typ.erase] using hcs
  | _ => simp_all [Typ.erase, Typ.parts]

variable {t' : Typ}

lemma Typ.beq_rename (h : (t == t') = true) : (t.rename f == t'.rename f) = true := by
  rw [Typ.beq_iff_erase] at h ⊢
  rw [Typ.erase_rename, Typ.erase_rename, h]

/-- A property of the names that are written in a type. -/
def Typ.NamesIn (N : String → Prop) (t : Typ) : Prop := ∀ u ∈ t.subTypes, ∀ n ∈ u.names, N n

/-- A renaming that keeps all names in a type keeps the type. -/
lemma Typ.rename_eq_self (t : Typ) (h : t.NamesIn fun n => f n = n) : t.rename f = t := by
  induction t using Typ.induction with
  | _ t ih =>
  obtain ⟨hself, hparts⟩ := Typ.forall_mem_subTypes.mp h
  replace ih := fun u hu => ih u hu (hparts u hu)
  cases t with
  | code ps r | variadicCode ps r =>
    have hps : ∀ p ∈ ps, p.rename f = p := by
      rintro ⟨t, i, b⟩ hp
      have hnames : ∀ n ∈ (Parameter.mk t i b).names, f n = n :=
        fun n hn => hself n (List.mem_flatMap.mpr ⟨_, hp, hn⟩)
      have ht := ih t (by simpa [Typ.parts] using .inl ⟨_, hp, rfl⟩)
      cases i <;> cases b <;>
        simp_all [Parameter.rename, Parameter.names, Parameter.identifier, Parameter.baseName]
    simp [ih r (by simp [Typ.parts]), List.map_congr_left (g := id) hps]
  | struct tag cs | union tag cs =>
    have hcs : ∀ c ∈ cs, c.rename f = c := by
      intro c hc
      have hname := hself _ (List.mem_cons_of_mem _ (List.mem_map_of_mem hc))
      cases c with
      | field name t =>
        have ht := ih t (List.mem_filterMap.mpr ⟨_, hc, rfl⟩)
        simp_all [DatatypeComponent.rename]
      | padding name bits => simp_all [DatatypeComponent.rename]
    simp [hself tag List.mem_cons_self, List.map_congr_left (g := id) hcs]
  | incompleteStruct tag | incompleteUnion tag | structTag tag | unionTag tag =>
    simp [hself tag List.mem_cons_self]
  | _ => simp_all [Typ.parts]

lemma Typ.rename_id (t : Typ) : t.rename id = t := t.rename_eq_self fun _ _ _ _ => rfl

variable (f) (g : String → String)

lemma Typ.rename_rename (t : Typ) : (t.rename f).rename g = t.rename (g ∘ f) := by
  induction t using Typ.induction with
  | _ t ih =>
  cases t with
  | code ps r | variadicCode ps r =>
    have hps : ∀ p ∈ ps, (p.rename f).rename g = p.rename (g ∘ f) := by
      rintro ⟨t, i, b⟩ hp
      simp [Parameter.rename, ih t (by simpa [Typ.parts] using .inl ⟨_, hp, rfl⟩)]
    simpa [ih r (by simp [Typ.parts])] using hps
  | struct tag cs | union tag cs =>
    have hcs : ∀ c ∈ cs, (c.rename f).rename g = c.rename (g ∘ f) := by
      rintro (⟨name, t⟩ | ⟨name, bits⟩) hc
      · simp [DatatypeComponent.rename, ih t (List.mem_filterMap.mpr ⟨_, hc, rfl⟩)]
      · rfl
    simpa using hcs
  | _ => simp_all [Typ.parts]

variable {f}

/-- Types that become equal were equal, where the names in them stay distinct. -/
lemma Typ.beq_of_rename {N : String → Prop} (hf : Set.InjOn f {n | N n}) (ht : t.NamesIn N)
    (ht' : t'.NamesIn N) (h : (t.rename f == t'.rename f) = true) :
    (t == t') = true := by
  -- the inverse of the renaming on these names undoes it on both types
  obtain ⟨g, hg⟩ : ∃ g : String → String, ∀ n, N n → g (f n) = n :=
    ⟨Function.invFunOn f {n | N n}, fun n hn => hf.leftInvOn_invFunOn hn⟩
  have hself : ∀ u : Typ, u.NamesIn N → (u.rename f).rename g = u := by
    intro u hu
    rw [Typ.rename_rename]
    exact u.rename_eq_self fun v hv n hn => hg n (hu v hv n hn)
  have hback := Typ.beq_rename (f := g) h
  rwa [hself t ht, hself t' ht'] at hback

end Equality

/-! ### Sizes of renamed types -/

section Sizes

variable {f : String → String} {T : String → Prop} {mm : MachineModel}
  {tags tags' : String → Option ℕ}

/-- A renamed type has its size when renamed tags have theirs. -/
lemma Typ.sizeofWith_rename (htags : ∀ tag n, T tag → tags tag = some n → tags' (f tag) = some n)
    (t : Typ) {n : ℕ} (hT : t.TagsIn T) (ht : t.sizeofWith mm tags = some n) :
    (t.rename f).sizeofWith mm tags' = some n := by
  induction t using Typ.induction generalizing n with
  | _ t ih =>
  replace ih := fun u hu {n} => @ih u hu n (hT.of_mem_parts hu)
  cases t with
  | array t size | vector t size =>
    simp only [Typ.rename_array, Typ.rename_vector, Typ.sizeofWith, bind_eq_some] at ht ⊢
    obtain ⟨m, hm, hn⟩ := ht
    exact ⟨m, ih t (by simp [Typ.parts]) hm, hn⟩
  | struct tag cs | union tag cs =>
    have hcs : ∀ c ∈ cs, ∀ m, c.sizeofWith mm tags = some m →
        (c.rename f).sizeofWith mm tags' = some m := by
      rintro (⟨name, t⟩ | ⟨name, bits⟩) hc m hm
      · exact ih t (List.mem_filterMap.mpr ⟨_, hc, rfl⟩) hm
      · exact hm
    simp only [Typ.rename_struct, Typ.rename_union, Typ.sizeofWith] at ht ⊢
    first
    | exact sizeofSum_map hcs ht
    | exact sizeofMax_map hcs ht
  | structTag tag => exact htags tag n (hT tag (.inl (Typ.self_mem_subTypes _))) ht
  | unionTag tag => exact htags tag n (hT tag (.inr (Typ.self_mem_subTypes _))) ht
  | _ => simp_all [Typ.sizeofWith]

end Sizes

end Rmc

import Rmc.Goto.Expr

/-!
# Initializers of structs

There are four constructors for the initializer of a struct: from a map of its fields, from the
values of its fields in order, from the values of all components with the padding, and from a map
of some of its fields. They agree with each other and with the map of fields that is read back,
where every padding has a type. The last one does not look at what is left of the map it is given,
so that a name which is not a field gets lost.
-/

namespace Rmc

open OrdMap

variable [Ranked String] {name : String} {c : DatatypeComponent} {v : Expr}

/-! ### Assignments to the fields -/

/-- A value of the right type for each field that is not padding, and for no other name. -/
structure Assigns (fields : List DatatypeComponent) (m : OrdMap String Expr) : Prop where
  mem : ∀ name, (∃ v, m.get? name = some v) ↔ ∃ t, .field name t ∈ fields
  typ : ∀ name t v, .field name t ∈ fields → m.get? name = some v → (t == v.typ) = true

/-- The value stands for a component: the one of the map for a field, any one of its type for
padding. -/
def StandsFor (m : OrdMap String Expr) : DatatypeComponent → Expr → Prop
  | .field name _, v => m.get? name = some v
  | .padding _ bits, v => (Typ.unsignedbv bits == v.typ) = true

/-- The values of the map in the order of the fields. -/
def inOrder (m : OrdMap String Expr) (fields : List DatatypeComponent) : List Expr :=
  (fields.filter fun x => !x.isPadding).filterMap fun c => m.get? c.name

/-- The lists agree at every field that is not padding. -/
def SameUpToPadding (fields : List DatatypeComponent) (values values' : List Expr) : Prop :=
  values.length = values'.length ∧
    ∀ (i : ℕ) (c : DatatypeComponent), fields[i]? = some c → c.isPadding = false →
      values[i]? = values'[i]?

/-- The initializer of a struct with these values. -/
def structInit (typ : Typ) (values : List Expr) : Expr := .new (.struct values) typ

/-- The constructors that take a value for every field build the same expression up to the padding,
and the fields of that expression are the map it was made from. -/
def InitializersAgree (st : SymbolTable) (typ : Typ) (fields : List DatatypeComponent)
    (m : OrdMap String Expr) : Prop :=
  ∃ values, Expr.structExpr typ m st = some (structInit typ values) ∧
    Expr.structExprFromValues typ (inOrder m fields) st = some (structInit typ values) ∧
    (structInit typ values).structFieldExprs st = some m ∧
    ∀ padded, List.Forall₂ (StandsFor m) fields padded →
      Expr.structExprFromPaddedValues typ padded st = some (structInit typ padded) ∧
        SameUpToPadding fields values padded ∧
        (structInit typ padded).structFieldExprs st = some m

/-- The constructor that takes values for some of the fields puts every one of them at its own
field. -/
def PutsGiven (st : SymbolTable) (typ : Typ) (fields : List DatatypeComponent)
    (given : OrdMap String Expr) : Prop :=
  ∃ values, Expr.structExprWithNondetFields typ given st = some (structInit typ values) ∧
    ∀ name v, given.get? name = some v →
      ∃ (i : ℕ) (t : Typ), fields[i]? = some (.field name t) ∧ values[i]? = some v

/-! ### The lists of values -/

/-- The value of a component by the map, a nondeterministic one for padding. -/
def componentValue (m : OrdMap String Expr) (c : DatatypeComponent) : Option Expr :=
  if c.isPadding then c.typ.map Typ.nondet else m.get? c.name

@[simp] lemma componentValue_field (m : OrdMap String Expr) (name : String) (t : Typ) :
    componentValue m (.field name t) = m.get? name := rfl

@[simp] lemma componentValue_padding (m : OrdMap String Expr) (name : String) (bits : ℕ) :
    componentValue m (.padding name bits) =
      (DatatypeComponent.typ (.padding name bits)).map Typ.nondet := rfl

/-- The value of a component by the map, a nondeterministic one where the map has none. -/
def givenValue (m : OrdMap String Expr) (c : DatatypeComponent) : Option Expr :=
  ((m.get? c.name).map some).getD (c.typ.map Typ.nondet)

section Lists

variable {fields : List DatatypeComponent} {m : OrdMap String Expr} {values : List Expr}

/-- Taking a field out of the map does not change what is there for the others. -/
lemma get?_erase_of_notMem (h : name ∉ fields.map DatatypeComponent.name) (hc : c ∈ fields) :
    (m.erase name).get? c.name = m.get? c.name := by
  refine OrdMap.get?_erase_of_ne ?_
  rintro rfl
  exact h (List.mem_map_of_mem hc)

/-- What is taken out of the map, field by field, is what stands in it. -/
lemma takeComponents_eq_some_iff (hnames : (fields.map DatatypeComponent.name).Nodup) :
    Expr.takeComponents fields m = some values ↔
      List.Forall₂ (fun c v => componentValue m c = some v) fields values := by
  induction fields generalizing m values with
  | nil => simp [Expr.takeComponents, eq_comm]
  | cons c fields ih =>
    rw [List.map_cons, List.nodup_cons] at hnames
    rw [List.forall₂_cons_left_iff]
    cases c with
    | padding name bits =>
      simp only [Expr.takeComponents, DatatypeComponent.isPadding_padding, if_true, bind_eq_some,
        pure_eq_some, ih hnames.2, componentValue_padding, Option.map_eq_some_iff]
      constructor
      · rintro ⟨t, ht, rest, hrest, rfl⟩
        exact ⟨_, rest, ⟨t, ht, rfl⟩, hrest, rfl⟩
      · rintro ⟨_, rest, ⟨t, ht, rfl⟩, hrest, rfl⟩
        exact ⟨t, ht, rest, hrest, rfl⟩
    | field name t =>
      have hcongr : ∀ rest, List.Forall₂ (fun c v => componentValue (m.erase name) c = some v)
          fields rest ↔ List.Forall₂ (fun c v => componentValue m c = some v) fields rest := by
        intro rest
        refine Checked.forall₂_congr_of_mem fun c hc v => ?_
        have hget : (m.erase name).get? c.name = m.get? c.name := get?_erase_of_notMem hnames.1 hc
        rw [componentValue, componentValue, hget]
      simp only [Expr.takeComponents, DatatypeComponent.isPadding_field, Bool.false_eq_true,
        if_false, bind_eq_some, pure_eq_some, ih hnames.2, DatatypeComponent.name_field, hcongr,
        componentValue_field]
      constructor
      · rintro ⟨v, hv, rest, hrest, rfl⟩
        exact ⟨v, rest, hv, hrest, rfl⟩
      · rintro ⟨v, rest, hv, hrest, rfl⟩
        exact ⟨v, hv, rest, hrest, rfl⟩

lemma takeOrNondet_eq_some_iff (hnames : (fields.map DatatypeComponent.name).Nodup) :
    Expr.takeOrNondet fields m = some values ↔
      List.Forall₂ (fun c v => givenValue m c = some v) fields values := by
  induction fields generalizing m values with
  | nil => simp [Expr.takeOrNondet, eq_comm]
  | cons c fields ih =>
    rw [List.map_cons, List.nodup_cons] at hnames
    rw [List.forall₂_cons_left_iff]
    cases hget : m.get? c.name with
    | none =>
      simp only [Expr.takeOrNondet, hget, bind_eq_some, pure_eq_some, ih hnames.2, givenValue,
        Option.map_none, Option.getD_none, Option.map_eq_some_iff]
      constructor
      · rintro ⟨t, ht, rest, hrest, rfl⟩
        exact ⟨_, rest, ⟨t, ht, rfl⟩, hrest, rfl⟩
      · rintro ⟨_, rest, ⟨t, ht, rfl⟩, hrest, rfl⟩
        exact ⟨t, ht, rest, hrest, rfl⟩
    | some v =>
      have hcongr : ∀ rest, List.Forall₂ (fun d v => givenValue (m.erase c.name) d = some v)
          fields rest ↔ List.Forall₂ (fun d v => givenValue m d = some v) fields rest := by
        intro rest
        refine Checked.forall₂_congr_of_mem fun d hd v => ?_
        rw [givenValue, givenValue, get?_erase_of_notMem hnames.1 hd]
      have hvalue : givenValue m c = some v := by simp [givenValue, hget]
      simp only [Expr.takeOrNondet, hget, bind_eq_some, pure_eq_some, Option.some.injEq,
        ih hnames.2, hcongr, hvalue]
      constructor
      · rintro ⟨rest, hrest, rfl⟩
        exact ⟨v, rest, rfl, hrest, rfl⟩
      · rintro ⟨_, rest, rfl, hrest, rfl⟩
        exact ⟨rest, hrest, rfl⟩

/-- The values in order are put back to where they came from. -/
lemma padValues_inOrder_eq_some_iff
    (hvalues : ∀ name t, .field name t ∈ fields → ∃ v, m.get? name = some v) :
    Expr.padValues fields (inOrder m fields) = some values ↔
      List.Forall₂ (fun c v => componentValue m c = some v) fields values := by
  induction fields generalizing values with
  | nil => simp [Expr.padValues, eq_comm]
  | cons c fields ih =>
    have hrest : ∀ rest, Expr.padValues fields (inOrder m fields) = some rest ↔
        List.Forall₂ (fun c v => componentValue m c = some v) fields rest :=
      fun rest => ih fun name t hmem => hvalues name t (List.mem_cons_of_mem _ hmem)
    rw [List.forall₂_cons_left_iff]
    cases c with
    | padding name bits =>
      have horder : inOrder m (.padding name bits :: fields) = inOrder m fields := by
        simp [inOrder]
      simp only [horder, Expr.padValues, DatatypeComponent.isPadding_padding, if_true, bind_eq_some,
        pure_eq_some, hrest, componentValue_padding, Option.map_eq_some_iff]
      constructor
      · rintro ⟨t, ht, rest, hrest, rfl⟩
        exact ⟨_, rest, ⟨t, ht, rfl⟩, hrest, rfl⟩
      · rintro ⟨_, rest, ⟨t, ht, rfl⟩, hrest, rfl⟩
        exact ⟨t, ht, rest, hrest, rfl⟩
    | field name t =>
      obtain ⟨v, hv⟩ := hvalues name t List.mem_cons_self
      have horder : inOrder m (.field name t :: fields) = v :: inOrder m fields := by
        simp [inOrder, hv]
      simp only [horder, Expr.padValues, DatatypeComponent.isPadding_field, Bool.false_eq_true,
        if_false, bind_eq_some, pure_eq_some, Option.some.injEq, hrest, componentValue_field, hv]
      constructor
      · rintro ⟨rest, hrest, rfl⟩
        exact ⟨v, rest, rfl, hrest, rfl⟩
      · rintro ⟨_, rest, rfl, hrest, rfl⟩
        exact ⟨rest, hrest, rfl⟩

omit [Ranked String] in
lemma valuesMatchFields_iff (hlength : fields.length = values.length) :
    Expr.valuesMatchFields fields values = true ↔
      List.Forall₂ (fun c v => c.typ.any (· == v.typ) = true) fields values := by
  rw [List.forall₂_iff_zip, and_iff_right hlength, Expr.valuesMatchFields, List.all_eq_true]
  constructor
  · intro h c v hmem
    exact h (c, v) hmem
  · rintro h ⟨c, v⟩ hmem
    exact h hmem

omit [Ranked String] in
/-- Every component has a type where no padding is empty. -/
lemma isSome_typ_iff : (∀ c ∈ fields, c.typ.isSome = true) ↔
    ∀ name, DatatypeComponent.padding name 0 ∉ fields := by
  constructor
  · intro h name hmem
    simpa [DatatypeComponent.typ] using h _ hmem
  · intro h c hc
    cases c with
    | field name t => rfl
    | padding name bits =>
      have hpos : 0 < bits := by
        rcases Nat.eq_zero_or_pos bits with rfl | hpos
        · exact absurd hc (h name)
        · exact hpos
      simp [DatatypeComponent.typ, hpos]

/-- Values can only be found where every component has a type. -/
lemma isSome_typ_of_forall₂
    (h : List.Forall₂ (fun c v => componentValue m c = some v) fields values) :
    ∀ c ∈ fields, c.typ.isSome = true := by
  induction h with
  | nil => simp
  | @cons c v fields values hv _ ih =>
    rw [List.forall_mem_cons]
    refine ⟨?_, ih⟩
    cases c with
    | field name t => rfl
    | padding name bits =>
      rw [componentValue_padding, Option.map_eq_some_iff] at hv
      obtain ⟨t, ht, -⟩ := hv
      simp [ht]

/-- Where every component has a type and every field a value, there is a list of values. -/
lemma exists_componentValues (hpad : ∀ c ∈ fields, c.typ.isSome = true)
    (hvalues : ∀ name t, .field name t ∈ fields → ∃ v, m.get? name = some v) :
    ∃ values, List.Forall₂ (fun c v => componentValue m c = some v) fields values := by
  apply Checked.exists_forall₂
  intro c hc
  cases c with
  | field name t => exact hvalues name t hc
  | padding name bits =>
    obtain ⟨t, ht⟩ := Option.isSome_iff_exists.mp (hpad _ hc)
    exact ⟨t.nondet, by rw [componentValue_padding, ht]; rfl⟩

/-- The values that the map gives stand for the components. -/
lemma standsFor_of_componentValue (h : componentValue m c = some v) : StandsFor m c v := by
  cases c with
  | field name t => exact h
  | padding name bits =>
    rw [componentValue_padding, Option.map_eq_some_iff] at h
    obtain ⟨t, ht, rfl⟩ := h
    simp only [DatatypeComponent.typ, Option.ite_none_right_eq_some, Option.some.injEq] at ht
    rw [StandsFor, ← ht.2]
    exact Typ.beq_self _

/-- Values that stand for the components have their types. -/
lemma valuesMatchFields_of_standsFor (hm : Assigns fields m)
    (hpad : ∀ c ∈ fields, c.typ.isSome = true) (h : List.Forall₂ (StandsFor m) fields values) :
    fields.length = values.length ∧ Expr.valuesMatchFields fields values = true := by
  have hlength := h.length_eq
  refine ⟨hlength, (valuesMatchFields_iff hlength).mpr ?_⟩
  rw [List.forall₂_iff_zip] at h ⊢
  refine ⟨hlength, fun {c v} hmem => ?_⟩
  have hc : c ∈ fields := (List.of_mem_zip hmem).1
  have hv := h.2 hmem
  cases c with
  | field name t => exact hm.typ name t v hc hv
  | padding name bits =>
    have hpos : 0 < bits := by
      by_contra hzero
      simpa [DatatypeComponent.typ, hzero] using hpad _ hc
    rw [StandsFor] at hv
    simpa [DatatypeComponent.typ, hpos] using hv

/-- Two lists of values that stand for the components differ only in the padding. -/
lemma sameUpToPadding_of_standsFor {values' : List Expr}
    (h : List.Forall₂ (StandsFor m) fields values)
    (h' : List.Forall₂ (StandsFor m) fields values') : SameUpToPadding fields values values' := by
  refine ⟨h.length_eq.symm.trans h'.length_eq, ?_⟩
  induction h generalizing values' with
  | nil => simp
  | @cons d v _ _ hv _ ih =>
    cases h' with
    | cons hv' hrest' =>
      intro i c hc hfield
      cases i with
      | zero =>
        simp only [List.getElem?_cons_zero, Option.some.injEq] at hc ⊢
        subst hc
        cases d with
        | field name t => exact Option.some.inj (hv.symm.trans hv')
        | padding name bits => simp at hfield
      | succ i => exact ih hrest' i c hc hfield

open Classical in
/-- The fields of an initializer are collected in a map. -/
lemma get?_foldl_fields (hnames : (fields.map DatatypeComponent.name).Nodup)
    (h : List.Forall₂ (StandsFor m) fields values) (acc : OrdMap String Expr) (name : String) :
    ((fields.zip values).foldl (fun exprs (x : DatatypeComponent × Expr) =>
      if x.1.isPadding then exprs else exprs.insert x.1.name x.2) acc).get? name =
      if ∃ t, .field name t ∈ fields then m.get? name else acc.get? name := by
  induction h generalizing acc with
  | nil => simp
  | @cons c v fields values hv _ ih =>
    rw [List.map_cons, List.nodup_cons] at hnames
    rw [List.zip_cons_cons, List.foldl_cons, ih hnames.2]
    cases c with
    | padding name' bits => simp
    | field name' t =>
      by_cases hname : name = name'
      · subst hname
        have hnot : ¬ ∃ t, DatatypeComponent.field name t ∈ fields := by
          rintro ⟨t', ht'⟩
          exact hnames.1 (List.mem_map.mpr ⟨_, ht', rfl⟩)
        have hmem : ∃ t', DatatypeComponent.field name t' ∈ .field name t :: fields :=
          ⟨t, List.mem_cons_self⟩
        simp only [hnot, hmem, if_false, if_true, DatatypeComponent.isPadding_field,
          Bool.false_eq_true, DatatypeComponent.name_field, OrdMap.get?_insert_self]
        exact hv.symm
      · have hfield : (∃ t', DatatypeComponent.field name t' ∈ .field name' t :: fields) ↔
            ∃ t', DatatypeComponent.field name t' ∈ fields := by
          simp [hname]
        simp only [hfield, DatatypeComponent.isPadding_field, Bool.false_eq_true, if_false,
          DatatypeComponent.name_field, OrdMap.get?_insert_of_ne acc hname]

end Lists

/-! ### The constructors -/

section Constructors

variable {st : SymbolTable} {typ : Typ} {fields : List DatatypeComponent} {m : OrdMap String Expr}
  {values : List Expr}

/-- What is read back from an initializer is the map it stands for. -/
lemma structFieldExprs_eq (htag : typ.isStructTag = true)
    (hfields : st.lookupFieldsInType typ = some fields)
    (hnames : (fields.map DatatypeComponent.name).Nodup) (hm : Assigns fields m)
    (h : List.Forall₂ (StandsFor m) fields values) :
    (structInit typ values).structFieldExprs st = some m := by
  classical
  have hread : (structInit typ values).structFieldExprs st =
      some ((fields.zip values).foldl (fun exprs (x : DatatypeComponent × Expr) =>
        if x.1.isPadding then exprs else exprs.insert x.1.name x.2) OrdMap.empty) := by
    simp [Expr.structFieldExprs, structInit, htag, hfields, h.length_eq]
  rw [hread]
  congr 1
  ext name v
  rw [get?_foldl_fields hnames h]
  split_ifs with hfield
  · rfl
  · have hnone : m.get? name = none := by
      by_contra hsome
      exact hfield ((hm.mem name).mp (Option.ne_none_iff_exists'.mp hsome))
    rw [hnone, OrdMap.get?_empty]

lemma Assigns.length_eq (hm : Assigns fields m)
    (hnames : (fields.map DatatypeComponent.name).Nodup) :
    (fields.filter fun x => !x.isPadding).length = m.entries.length := by
  have hnodup : ((fields.filter fun x => !x.isPadding).map DatatypeComponent.name).Nodup :=
    hnames.sublist (List.filter_sublist.map _)
  have hperm : List.Perm ((fields.filter fun x => !x.isPadding).map DatatypeComponent.name)
      (m.entries.map Prod.fst) := by
    rw [List.perm_ext_iff_of_nodup hnodup m.ascending.nodup_keys]
    intro name
    rw [OrdMap.mem_map_fst_entries, hm.mem name, List.mem_map]
    constructor
    · rintro ⟨c, hc, rfl⟩
      rw [List.mem_filter] at hc
      cases c with
      | field name t => exact ⟨t, hc.1⟩
      | padding name bits => simp at hc
    · rintro ⟨t, ht⟩
      exact ⟨_, List.mem_filter.mpr ⟨ht, rfl⟩, rfl⟩
  simpa using hperm.length_eq

/-- An initializer can be made from values of the types of the fields in order. -/
lemma exists_structExprFromValues (htag : typ.isStructTag = true)
    (hfields : st.lookupFieldsInType typ = some fields)
    (hpad : ∀ c ∈ fields, c.typ.isSome = true)
    (h : List.Forall₂ (fun c v => c.typ.any (· == v.typ) = true)
      (fields.filter fun x => !x.isPadding) values) :
    ∃ values', Expr.padValues fields values = some values' ∧
      Expr.structExprFromValues typ values st = some (structInit typ values') := by
  have hmatch := (valuesMatchFields_iff h.length_eq).mpr h
  obtain ⟨values', hvalues', hlength', hmatch'⟩ := Expr.exists_padValues hpad h.length_eq hmatch
  refine ⟨values', hvalues', ?_⟩
  simp [Expr.structExprFromValues, htag, hfields, h.length_eq, hmatch, hvalues',
    Expr.structExprWithExplicitPadding, hlength', hmatch', structInit]

lemma Assigns.forall₂_inOrder (hm : Assigns fields m) :
    List.Forall₂ (fun c v => c.typ.any (· == v.typ) = true)
      (fields.filter fun x => !x.isPadding) (inOrder m fields) := by
  unfold inOrder
  have hvalue : ∀ c ∈ fields.filter fun x => !x.isPadding, ∃ v, m.get? c.name = some v ∧
      c.typ.any (· == v.typ) = true := by
    intro c hc
    rw [List.mem_filter] at hc
    cases c with
    | field name t =>
      obtain ⟨v, hv⟩ := (hm.mem name).mpr ⟨t, hc.1⟩
      exact ⟨v, hv, hm.typ name t v hc.1 hv⟩
    | padding name bits => simp at hc
  generalize fields.filter (fun x => !x.isPadding) = l at hvalue
  induction l with
  | nil => exact .nil
  | cons c l ih =>
    rw [List.forall_mem_cons] at hvalue
    obtain ⟨⟨v, hv, htyp⟩, hrest⟩ := hvalue
    rw [List.filterMap_cons, hv]
    exact .cons htyp (ih hrest)

/-- The constructors agree exactly where no padding is empty. -/
lemma initializersAgree_iff (htag : typ.isStructTag = true)
    (hfields : st.lookupFieldsInType typ = some fields)
    (hnames : (fields.map DatatypeComponent.name).Nodup) (hm : Assigns fields m) :
    InitializersAgree st typ fields m ↔ ∀ name, DatatypeComponent.padding name 0 ∉ fields := by
  rw [← isSome_typ_iff]
  constructor
  · rintro ⟨values, hstruct, -⟩
    obtain ⟨-, fields', values', hfields', htake, -⟩ :=
      Expr.exists_structExprWithExplicitPadding_of_structExpr hstruct
    obtain rfl := Option.some.inj (hfields'.symm.trans hfields)
    exact isSome_typ_of_forall₂ ((takeComponents_eq_some_iff hnames).mp htake)
  · intro hpad
    have hvalues : ∀ name t, .field name t ∈ fields → ∃ v, m.get? name = some v :=
      fun name t ht => (hm.mem name).mpr ⟨t, ht⟩
    obtain ⟨values, hall⟩ := exists_componentValues hpad hvalues
    have hstands : List.Forall₂ (StandsFor m) fields values :=
      hall.imp fun _ _ => standsFor_of_componentValue
    refine ⟨values, ?_, ?_, structFieldExprs_eq htag hfields hnames hm hstands, ?_⟩
    · obtain ⟨values', hstruct, -⟩ := Expr.exists_structExpr htag hfields hnames hpad
        (hm.length_eq hnames) fun name t ht => by
          obtain ⟨v, hv⟩ := hvalues name t ht
          exact ⟨v, hv, hm.typ name t v ht hv⟩
      obtain ⟨-, fields', values'', hfields', htake, hexplicit⟩ :=
        Expr.exists_structExprWithExplicitPadding_of_structExpr hstruct
      obtain rfl := Option.some.inj (hfields'.symm.trans hfields)
      rw [(takeComponents_eq_some_iff hnames).mpr hall, Option.some.injEq] at htake
      obtain ⟨-, heq⟩ := Expr.structExprWithExplicitPadding_eq_some.mp hexplicit
      rw [hstruct, ← heq, ← htake, structInit]
    · obtain ⟨values', hpadded, hfrom⟩ :=
        exists_structExprFromValues htag hfields hpad hm.forall₂_inOrder
      rw [(padValues_inOrder_eq_some_iff hvalues).mpr hall, Option.some.injEq] at hpadded
      rw [hfrom, hpadded]
    · intro padded hpadded
      refine ⟨?_, sameUpToPadding_of_standsFor hstands hpadded,
        structFieldExprs_eq htag hfields hnames hm hpadded⟩
      rw [Expr.structExprFromPaddedValues_eq_some]
      exact ⟨htag, fields, hfields, valuesMatchFields_of_standsFor hm hpad hpadded, rfl⟩

omit [Ranked String] in
lemma getElem?_of_findIdx?_name (hnames : (fields.map DatatypeComponent.name).Nodup)
    (hc : c ∈ fields) {i : ℕ} (hi : (fields.findIdx? fun x => x.name == c.name) = some i) :
    fields[i]? = some c := by
  obtain ⟨hlt, hname, -⟩ := List.findIdx?_eq_some_iff_getElem.mp hi
  obtain ⟨j, hj, rfl⟩ := List.mem_iff_getElem.mp hc
  have hij : i = j := by
    have hlt' : i < (fields.map DatatypeComponent.name).length := by simpa using hlt
    have hj' : j < (fields.map DatatypeComponent.name).length := by simpa using hj
    apply (@List.Nodup.getElem_inj_iff _ _ hnames i hlt' j hj').mp
    simpa using hname
  subst hij
  exact List.getElem?_eq_getElem hlt

/-- What is given for some of the fields stands at those, exactly where all the names are fields and
no padding is empty. -/
lemma putsGiven_iff (htag : typ.isStructTag = true)
    (hfields : st.lookupFieldsInType typ = some fields)
    (hnames : (fields.map DatatypeComponent.name).Nodup) {given : OrdMap String Expr}
    (htyp : ∀ name t v, .field name t ∈ fields → given.get? name = some v → (t == v.typ) = true)
    (hpad : ∀ name, DatatypeComponent.padding name 0 ∉ fields) :
    PutsGiven st typ fields given ↔
      ∀ name v, given.get? name = some v → ∃ t, .field name t ∈ fields := by
  constructor
  · rintro ⟨values, -, hput⟩ name v hv
    obtain ⟨i, t, hfield, -⟩ := hput name v hv
    exact ⟨t, List.mem_of_getElem? hfield⟩
  · intro hgiven
    have hpad' := isSome_typ_iff.mpr hpad
    have hnames' : ((fields.filter fun x => !x.isPadding).map DatatypeComponent.name).Nodup :=
      hnames.sublist (List.filter_sublist.map _)
    -- a value of its type for each field, given or not
    have hvalue : ∀ c ∈ fields.filter fun x => !x.isPadding, ∃ v, givenValue given c = some v ∧
        c.typ.any (· == v.typ) = true := by
      intro c hc
      rw [List.mem_filter] at hc
      cases c with
      | padding name bits => simp at hc
      | field name t =>
        cases hget : given.get? name with
        | none => exact ⟨t.nondet, by simp [givenValue, hget], Typ.beq_self t⟩
        | some v => exact ⟨v, by simp [givenValue, hget], htyp name t v hc.1 hget⟩
    obtain ⟨values, hvalues⟩ := Checked.exists_forall₂ hvalue
    have htake := (takeOrNondet_eq_some_iff hnames').mpr (hvalues.imp fun _ _ h => h.1)
    obtain ⟨values', hpadded, hfrom⟩ :=
      exists_structExprFromValues htag hfields hpad' (hvalues.imp fun _ _ h => h.2)
    refine ⟨values', by simp [Expr.structExprWithNondetFields, htag, hfields, htake, hfrom], ?_⟩
    intro name v hv
    obtain ⟨t, ht⟩ := hgiven name v hv
    have hmem : .field name t ∈ fields.filter fun x => !x.isPadding :=
      List.mem_filter.mpr ⟨ht, rfl⟩
    obtain ⟨k, hk⟩ := List.mem_iff_getElem?.mp hmem
    have hvk : values[k]? = some v := by
      obtain ⟨v', hv', hgiven', -⟩ := Checked.exists_getElem?_of_forall₂ hvalues hk
      simp only [givenValue, DatatypeComponent.name_field, hv, Option.map_some, Option.getD_some,
        Option.some.injEq] at hgiven'
      rw [hv', hgiven']
    obtain ⟨i, hi, hvi⟩ := Expr.getElem?_padValues hpadded hnames hk hvk
    exact ⟨i, t, getElem?_of_findIdx?_name hnames ht hi, hvi⟩

/-- For every struct type with distinct names of its components, every assignment `m` to its fields
and every map `given` of well typed values: the constructors agree and the fields read back are `m`,
and everything that is given stands at its own field, exactly where no padding is empty and only
names of fields are given. -/
theorem structInit_exact_iff (htag : typ.isStructTag = true)
    (hfields : st.lookupFieldsInType typ = some fields)
    (hnames : (fields.map DatatypeComponent.name).Nodup) (hm : Assigns fields m)
    {given : OrdMap String Expr}
    (htyp : ∀ name t v, .field name t ∈ fields → given.get? name = some v → (t == v.typ) = true) :
    (InitializersAgree st typ fields m ∧ PutsGiven st typ fields given) ↔
      (∀ name, DatatypeComponent.padding name 0 ∉ fields) ∧
        ∀ name v, given.get? name = some v → ∃ t, .field name t ∈ fields := by
  rw [initializersAgree_iff htag hfields hnames hm]
  refine and_congr_right fun hpad => ?_
  exact putsGiven_iff htag hfields hnames htyp hpad

end Constructors

/-! ### A byte and a word -/

section Examples

/-- A byte, the padding behind it and a word of two bytes. -/
def byteAndWord : List DatatypeComponent :=
  [.field "x" (.unsignedbv 8), .padding "$pad1" 8, .field "y" (.unsignedbv 16)]

def byteAndWordSymbol : Symbol :=
  { name := "tag-S", location := .none, typ := .struct "S" byteAndWord, value := .none,
    baseName := some "S", prettyName := none, isType := true }

/-- The table with that struct. -/
def byteAndWordTable : SymbolTable :=
  (SymbolTable.empty (machineModelFromSession none "x86_64" false 64)).set byteAndWordSymbol

lemma lookupFieldsInType_byteAndWord :
    byteAndWordTable.lookupFieldsInType (.structTag "tag-S") = some byteAndWord := by
  have hlookup : byteAndWordTable.lookup "tag-S" = some byteAndWordSymbol :=
    SymbolTable.lookup_set_self _ byteAndWordSymbol
  rw [SymbolTable.lookupFieldsInType_eq]
  simp [Typ.typeName, SymbolTable.lookupComponents, hlookup, byteAndWordSymbol, Typ.components]

/-- The constant of that many bits. -/
def constantOf (i : ℤ) (width : ℕ) : Expr := .new (.intConstant i) (.unsignedbv width)

/-- One for the byte and two for the word. -/
def oneAndTwo : OrdMap String Expr :=
  (OrdMap.empty.insert "x" (constantOf 1 8)).insert "y" (constantOf 2 16)

lemma get?_oneAndTwo :
    oneAndTwo.get? name = some v ↔
    name = "x" ∧ v = constantOf 1 8 ∨ name = "y" ∧ v = constantOf 2 16 := by
  rw [oneAndTwo, OrdMap.get?_insert, OrdMap.get?_insert]
  by_cases hy : name = "y"
  · simp [hy, eq_comm]
  · by_cases hx : name = "x" <;> simp [hx, hy, eq_comm]

omit [Ranked String] in
lemma field_mem_byteAndWord {t : Typ} :
    .field name t ∈ byteAndWord ↔
    name = "x" ∧ t = .unsignedbv 8 ∨ name = "y" ∧ t = .unsignedbv 16 := by
  simp [byteAndWord]

lemma assigns_oneAndTwo : Assigns byteAndWord oneAndTwo where
  mem name := by
    simp only [get?_oneAndTwo, field_mem_byteAndWord]
    constructor
    · rintro ⟨v, ⟨rfl, -⟩ | ⟨rfl, -⟩⟩ <;> simp
    · rintro ⟨t, ⟨rfl, -⟩ | ⟨rfl, -⟩⟩ <;> simp
  typ name t v ht hv := by
    rw [field_mem_byteAndWord] at ht
    rw [get?_oneAndTwo] at hv
    rcases ht with ⟨rfl, rfl⟩ | ⟨rfl, rfl⟩ <;> rcases hv with ⟨h, rfl⟩ | ⟨h, rfl⟩ <;>
      simp_all <;> rfl

omit [Ranked String] in
/-- The constructors agree on a byte and a word with padding between them. -/
theorem structInit_exact_oneAndTwo :
    let _ : Ranked String := rankedString
    InitializersAgree byteAndWordTable (.structTag "tag-S") byteAndWord oneAndTwo ∧
      PutsGiven byteAndWordTable (.structTag "tag-S") byteAndWord oneAndTwo := by
  intro _
  have hnames : (byteAndWord.map DatatypeComponent.name).Nodup := by decide
  refine (structInit_exact_iff rfl lookupFieldsInType_byteAndWord hnames assigns_oneAndTwo
    assigns_oneAndTwo.typ).mpr ⟨by simp [byteAndWord], ?_⟩
  intro name v hv
  exact (assigns_oneAndTwo.mem name).mp ⟨v, hv⟩

/-- A name that is not a field, as after a misspelling. -/
def misspelled : OrdMap String Expr := OrdMap.empty.insert "z" (constantOf 2 16)

omit [Ranked String] in
/-- What is given for the name `z` is left out without a word: all the values of the initializer are
nondeterministic. -/
theorem structExprWithNondetFields_misspelled :
    let _ : Ranked String := rankedString
    misspelled.get? "z" = some (constantOf 2 16) ∧
      (∀ name t v, .field name t ∈ byteAndWord → misspelled.get? name = some v →
        (t == v.typ) = true) ∧
      Expr.structExprWithNondetFields (.structTag "tag-S") misspelled byteAndWordTable =
        some (structInit (.structTag "tag-S")
          [Typ.nondet (.unsignedbv 8), Typ.nondet (.unsignedbv 8),
            Typ.nondet (.unsignedbv 16)]) := by
  intro _
  refine ⟨OrdMap.get?_insert_self _ _ _, ?_, rfl⟩
  intro name t v ht hv
  rw [field_mem_byteAndWord] at ht
  rcases ht with ⟨rfl, -⟩ | ⟨rfl, -⟩ <;> simp [misspelled, OrdMap.get?_insert] at hv

end Examples

end Rmc

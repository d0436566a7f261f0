import Mathlib.Data.Set.Finite.List
import Mathlib.Order.WellFoundedSet
import Mathlib.Tactic.NormNum
import Rmc.Goto.Expr

/-!
# Sizes of types are exact

The number of bits of a type is defined here without bounds and without recursion through the
table: `Typ.bits` counts them, given the sizes of the types that tags name, and the sizes of tags
are those that agree with the definitions in the table (`SymbolTable.TagBits`). Where tags do not
contain themselves through values there is such an assignment of sizes. `Typ.sizeofInBits` computes
it, for types whose parts have a size that is small enough, unless one of the parts has padding of
no bits: the type of such padding cannot be made.
-/

namespace Rmc

open OrdMap

/-! ### Parts -/

mutual

/-- The types of the parts that a value of a type consists of, the type itself first. What a
pointer points to and the elements of a flexible array are not part of the value. -/
def Typ.valueParts : Typ → List Typ
  | .array t size => .array t size :: t.valueParts
  | .vector t size => .vector t size :: t.valueParts
  | .struct tag cs => .struct tag cs :: valuePartsOfComponents cs
  | .union tag cs => .union tag cs :: valuePartsOfComponents cs
  | t => [t]

def DatatypeComponent.valueParts : DatatypeComponent → List Typ
  | .field _ t => t.valueParts
  | .padding _ _ => []

def valuePartsOfComponents : List DatatypeComponent → List Typ
  | [] => []
  | c :: cs => c.valueParts ++ valuePartsOfComponents cs

end

@[simp] lemma valuePartsOfComponents_eq (cs : List DatatypeComponent) :
    valuePartsOfComponents cs = cs.flatMap DatatypeComponent.valueParts := by
  induction cs with
  | nil => rfl
  | cons c cs ih => rw [valuePartsOfComponents, ih, List.flatMap_cons]

lemma mem_valuePartsOfComponents {cs : List DatatypeComponent} {name : String} {t u : Typ}
    (hc : .field name t ∈ cs) (hu : u ∈ t.valueParts) : u ∈ valuePartsOfComponents cs := by
  rw [valuePartsOfComponents_eq]
  exact List.mem_flatMap.mpr ⟨_, hc, hu⟩

@[simp] lemma Typ.self_mem_valueParts (t : Typ) : t ∈ t.valueParts := by
  cases t <;> simp [Typ.valueParts]

namespace Typ

/-- The type is a tag of that name. -/
def Names (t : Typ) (tag : String) : Prop := t = .structTag tag ∨ t = .unionTag tag

/-- Values of the type contain one of the type that the tag names. -/
def HoldsTag (t : Typ) (tag : String) : Prop := ∃ u ∈ t.valueParts, u.Names tag

/-- Whether the type has a size, given that its parts do. -/
def hasSize : Typ → Bool
  | .bool => false
  | .cBitField _ _ => false
  | .constructor => false
  | .incompleteStruct _ => false
  | .incompleteUnion _ => false
  | .infiniteArray _ => false
  | .variadicCode _ _ => false
  | _ => true

/-- No padding among the components is empty. -/
def PaddingNonempty (t : Typ) : Prop := ∀ cs, t.components = some cs → ∀ name, .padding name 0 ∉ cs

end Typ

/-! ### The mathematical size -/

mutual

/-- The number of bits of a type, given those of the types that tags name. Types without a size
count as empty. -/
def Typ.bits (mm : MachineModel) (tags : String → ℕ) : Typ → ℕ
  | .array t size => t.bits mm tags * size
  | .cInteger k => k.sizeofInBits mm
  | .double => mm.doubleWidth
  | .float => mm.floatWidth
  | .pointer _ => mm.pointerWidth
  | .signedbv w => w
  | .struct _ cs => bitsSum mm tags cs
  | .structTag tag => tags tag
  | .union _ cs => bitsMax mm tags cs
  | .unionTag tag => tags tag
  | .unsignedbv w => w
  | .vector t size => t.bits mm tags * size
  | _ => 0

def DatatypeComponent.bits (mm : MachineModel) (tags : String → ℕ) : DatatypeComponent → ℕ
  | .field _ t => t.bits mm tags
  | .padding _ bits => bits

def bitsSum (mm : MachineModel) (tags : String → ℕ) : List DatatypeComponent → ℕ
  | [] => 0
  | c :: cs => c.bits mm tags + bitsSum mm tags cs

def bitsMax (mm : MachineModel) (tags : String → ℕ) : List DatatypeComponent → ℕ
  | [] => 0
  | c :: cs => max (c.bits mm tags) (bitsMax mm tags cs)

end

section Congr

variable {mm : MachineModel} {tags tags' : String → ℕ}

lemma bitsSum_eq (cs : List DatatypeComponent) :
    bitsSum mm tags cs = (cs.map (·.bits mm tags)).sum := by
  induction cs with
  | nil => rfl
  | cons c cs ih => rw [bitsSum, ih, List.map_cons, List.sum_cons]

lemma bitsMax_eq (cs : List DatatypeComponent) :
    bitsMax mm tags cs = (cs.map (·.bits mm tags)).foldr max 0 := by
  induction cs with
  | nil => rfl
  | cons c cs ih => rw [bitsMax, ih, List.map_cons, List.foldr_cons]

/-- The size depends only on the tags whose types are part of the value. -/
lemma Typ.bits_congr (t : Typ) (h : ∀ u ∈ t.valueParts, ∀ tag, u.Names tag → tags tag = tags' tag) :
    t.bits mm tags = t.bits mm tags' := by
  induction t using Typ.induction with
  | _ t ih =>
  cases t with
  | array t size | vector t size =>
    rw [Typ.bits, Typ.bits, ih t (by simp [Typ.parts]) fun u hu => h u (List.mem_cons_of_mem _ hu)]
  | struct tag cs | union tag cs =>
    have hcs : ∀ c ∈ cs, c.bits mm tags = c.bits mm tags' := by
      rintro (⟨name, t⟩ | ⟨name, bits⟩) hc
      · refine ih t (List.mem_filterMap.mpr ⟨_, hc, rfl⟩) fun u hu => h u ?_
        exact List.mem_cons_of_mem _ (mem_valuePartsOfComponents hc hu)
      · rfl
    simp [Typ.bits, bitsSum_eq, bitsMax_eq, List.map_congr_left hcs]
  | structTag tag => exact h _ (Typ.self_mem_valueParts _) tag (.inl rfl)
  | unionTag tag => exact h _ (Typ.self_mem_valueParts _) tag (.inr rfl)
  | _ => rfl

end Congr

/-! ### Computing the size -/

section Compute

variable {mm : MachineModel} {tags : String → Option ℕ} {sizes : String → ℕ}

/-- The size of an object, in bits, stays below the bound of the compiler. -/
def maxObjectBits : ℕ := 8 * 2 ^ 47

lemma checkedU64_of_lt_maxObjectBits {n : ℕ} (h : n < maxObjectBits) : checkedU64 n = some n :=
  checkedU64_of_lt (h.trans (by norm_num [maxObjectBits]))

/-- What the parts have to be like for the size to be computed. -/
structure Fits (mm : MachineModel) (tags : String → Option ℕ) (sizes : String → ℕ) (u : Typ) :
    Prop where
  hasSize : u.hasSize = true
  small : u.bits mm sizes < maxObjectBits
  padding : u.PaddingNonempty
  tag : ∀ tag, u.Names tag → tags tag = some (sizes tag)

section Components

variable {cs : List DatatypeComponent}

lemma sizeofSum_eq_bits (h : ∀ c ∈ cs, c.sizeofWith mm tags = some (c.bits mm sizes))
    (hsmall : bitsSum mm sizes cs < maxObjectBits) :
    sizeofSum mm tags cs = some (bitsSum mm sizes cs) := by
  induction cs with
  | nil => rfl
  | cons c cs ih =>
    rw [bitsSum] at hsmall
    rw [List.forall_mem_cons] at h
    simp only [sizeofSum, bitsSum, h.1, ih h.2 (by omega), some_bind]
    exact checkedU64_of_lt_maxObjectBits hsmall

lemma sizeofMax_eq_bits (h : ∀ c ∈ cs, c.sizeofWith mm tags = some (c.bits mm sizes)) :
    sizeofMax mm tags cs = some (bitsMax mm sizes cs) := by
  induction cs with
  | nil => rfl
  | cons c cs ih =>
    rw [List.forall_mem_cons] at h
    simp [sizeofMax, bitsMax, h.1, ih h.2]

lemma isSome_sizeofSum (h : (sizeofSum mm tags cs).isSome = true) :
    ∀ c ∈ cs, (c.sizeofWith mm tags).isSome = true := by
  induction cs with
  | nil => simp
  | cons c cs ih =>
    simp only [sizeofSum, bind_eq_some, Option.isSome_iff_exists] at h
    obtain ⟨_, n, hn, m, hm, -⟩ := h
    exact List.forall_mem_cons.mpr ⟨by rw [hn]; rfl, ih (by rw [hm]; rfl)⟩

lemma isSome_sizeofMax (h : (sizeofMax mm tags cs).isSome = true) :
    ∀ c ∈ cs, (c.sizeofWith mm tags).isSome = true := by
  induction cs with
  | nil => simp
  | cons c cs ih =>
    simp only [sizeofMax, bind_eq_some, Option.isSome_iff_exists] at h
    obtain ⟨_, n, hn, m, hm, -⟩ := h
    exact List.forall_mem_cons.mpr ⟨by rw [hn]; rfl, ih (by rw [hm]; rfl)⟩

end Components

lemma Typ.sizeofWith_eq_bits (t : Typ) (h : ∀ u ∈ t.valueParts, Fits mm tags sizes u) :
    t.sizeofWith mm tags = some (t.bits mm sizes) := by
  induction t using Typ.induction with
  | _ t ih =>
  have hself := h t (Typ.self_mem_valueParts t)
  cases t with
  | array t size | vector t size =>
    have hpart := ih t (by simp [Typ.parts]) fun u hu => h u (List.mem_cons_of_mem _ hu)
    have hsmall := hself.small
    rw [Typ.bits] at hsmall
    simp only [Typ.sizeofWith, Typ.bits, hpart, some_bind]
    exact checkedU64_of_lt_maxObjectBits hsmall
  | struct tag cs | union tag cs =>
    have hcs : ∀ c ∈ cs, c.sizeofWith mm tags = some (c.bits mm sizes) := by
      rintro (⟨name, t⟩ | ⟨name, bits⟩) hc
      · refine ih t (List.mem_filterMap.mpr ⟨_, hc, rfl⟩) fun u hu => h u ?_
        exact List.mem_cons_of_mem _ (mem_valuePartsOfComponents hc hu)
      · rcases Nat.eq_zero_or_pos bits with rfl | hpos
        · exact absurd hc (hself.padding cs rfl name)
        · exact if_pos hpos
    first
    | exact sizeofSum_eq_bits hcs hself.small
    | exact sizeofMax_eq_bits hcs
  | structTag tag => exact hself.tag tag (.inl rfl)
  | unionTag tag => exact hself.tag tag (.inr rfl)
  | bool | cBitField | constructor | incompleteStruct | incompleteUnion | infiniteArray
  | variadicCode =>
    exact absurd hself.hasSize (by simp [Typ.hasSize])
  | _ => rfl

lemma Typ.isSome_sizeofWith_components {t : Typ} {cs : List DatatypeComponent}
    (hcs : t.components = some cs) (h : (t.sizeofWith mm tags).isSome = true) :
    ∀ c ∈ cs, (c.sizeofWith mm tags).isSome = true := by
  cases t with
  | struct tag cs' =>
    cases hcs
    exact isSome_sizeofSum h
  | union tag cs' =>
    cases hcs
    exact isSome_sizeofMax h
  | _ => simp [Typ.components] at hcs

lemma Typ.isSome_sizeofWith_of_mem (t : Typ) (h : (t.sizeofWith mm tags).isSome = true) {u : Typ}
    (hu : u ∈ t.valueParts) : (u.sizeofWith mm tags).isSome = true := by
  induction t using Typ.induction with
  | _ t ih =>
  cases t with
  | array t size | vector t size =>
    rcases List.mem_cons.mp hu with rfl | hu
    · exact h
    · simp only [Typ.sizeofWith, bind_eq_some, Option.isSome_iff_exists] at h
      obtain ⟨_, n, hn, -⟩ := h
      exact ih t (by simp [Typ.parts]) (by simp [hn]) hu
  | struct tag cs | union tag cs =>
    rcases List.mem_cons.mp hu with rfl | hu
    · exact h
    · rw [valuePartsOfComponents_eq] at hu
      obtain ⟨c, hc, hu⟩ := List.mem_flatMap.mp hu
      have hsome := Typ.isSome_sizeofWith_components rfl h c hc
      cases c with
      | field name t => exact ih t (List.mem_filterMap.mpr ⟨_, hc, rfl⟩) hsome hu
      | padding name bits => cases hu
  | _ => simp_all [Typ.valueParts]

end Compute

/-! ### Tags in a table -/

variable [Ranked String]

namespace SymbolTable

/-- The type that a tag names has values of the type that another tag names as parts. -/
def Contains (st : SymbolTable) (tag tag' : String) : Prop :=
  ∃ s, st.lookup tag = some s ∧ s.typ.HoldsTag tag'

/-- No tag contains itself through values. -/
def Acyclic (st : SymbolTable) : Prop := ∀ tag, ¬ Relation.TransGen st.Contains tag tag

/-- The sizes of tags are those of the types that they name. -/
def TagBits (st : SymbolTable) (tags : String → ℕ) : Prop :=
  ∀ tag s, st.lookup tag = some s → tags tag = s.typ.bits st.machineModel tags

/-- The parts of a type, those of the types that tags name included. -/
inductive Part (st : SymbolTable) (t : Typ) : Typ → Prop
  | value {u} : u ∈ t.valueParts → Part st t u
  | tag {u tag s v} : Part st t u → u.Names tag → st.lookup tag = some s → v ∈ s.typ.valueParts →
      Part st t v

end SymbolTable

/-- Every part has a size, and every tag among the parts has a type. -/
def Typ.Sized (st : SymbolTable) (t : Typ) : Prop :=
  ∀ u, st.Part t u → u.hasSize = true ∧ ∀ tag, u.Names tag → ∃ s, st.lookup tag = some s

/-! ### The sizes of tags -/

namespace SymbolTable

variable {st : SymbolTable}

/-- In a finite table nothing is contained in itself by an endless descent either. -/
lemma Acyclic.wellFounded (h : st.Acyclic) :
    WellFounded fun tag' tag => st.Contains tag tag' := by
  let keys : Set String := {tag | ∃ s, st.lookup tag = some s}
  have hfinite : keys.Finite := by
    refine (st.symbolTable.entries.map Prod.fst).finite_toSet.subset ?_
    intro tag htag
    exact OrdMap.mem_map_fst_entries.mpr htag
  have horder : IsStrictOrder String fun tag' tag => Relation.TransGen st.Contains tag tag' :=
    { irrefl := h
      trans := fun _ _ _ hab hbc => hbc.trans hab }
  -- a tag that is not in the table contains nothing
  have hleaf : ∀ tag, tag ∉ keys → Acc (fun tag' tag => st.Contains tag tag') tag := by
    intro tag htag
    refine Acc.intro tag ?_
    rintro tag' ⟨s, hs, -⟩
    exact absurd ⟨s, hs⟩ htag
  refine ⟨fun tag => ?_⟩
  by_cases htag : tag ∈ keys
  · have hkeys : keys.WellFoundedOn fun tag' tag => Relation.TransGen st.Contains tag tag' :=
      hfinite.wellFoundedOn
    refine hkeys.induction htag ?_
    intro tag _ ih
    refine Acc.intro tag fun tag' hcontains => ?_
    by_cases htag' : tag' ∈ keys
    · exact ih tag' htag' (Relation.TransGen.single hcontains)
    · exact hleaf tag' htag'
  · exact hleaf tag htag

/-- There are sizes of the tags that agree with the definitions. -/
lemma Acyclic.exists_tagBits (h : st.Acyclic) : ∃ tags, st.TagBits tags := by
  classical
  let size : (tag : String) → ((tag' : String) → st.Contains tag tag' → ℕ) → ℕ := fun tag ih =>
    ((st.lookup tag).map fun s => s.typ.bits st.machineModel fun tag' =>
      if hcontains : st.Contains tag tag' then ih tag' hcontains else 0).getD 0
  refine ⟨h.wellFounded.fix size, fun tag s hs => ?_⟩
  rw [WellFounded.fix_eq]
  simp only [size, hs, Option.map_some, Option.getD_some]
  refine Typ.bits_congr s.typ fun u hu tag' htag' => ?_
  exact dif_pos ⟨s, hs, u, hu, htag'⟩

end SymbolTable

/-! ### Exactness -/

section Exact

variable {st : SymbolTable} {tags : String → ℕ} {t t' : Typ}

/-- Every part is smaller than the bound of the compiler. -/
def Typ.Small (st : SymbolTable) (tags : String → ℕ) (t : Typ) : Prop :=
  ∀ u, st.Part t u → u.bits st.machineModel tags < maxObjectBits

/-- No part has padding of no bits. -/
def Typ.Padded (st : SymbolTable) (t : Typ) : Prop := ∀ u, st.Part t u → u.PaddingNonempty

/-- The computed size is the number of bits, and that of the machine where there is one. -/
def Typ.SizeExact (st : SymbolTable) (tags : String → ℕ) (t : Typ) : Prop :=
  t.sizeofInBits st = some (t.bits st.machineModel tags) ∧
    ∀ w, t.nativeWidth st.machineModel = some w → w = t.bits st.machineModel tags

/-- The size of a type that has a width on the machine is that width. -/
lemma Typ.sizeofInBits_of_nativeWidth {w : ℕ} (h : t.nativeWidth st.machineModel = some w) :
    t.sizeofInBits st = some w := by
  cases t with
  | cInteger k => cases k <;> exact h
  | pointer t => exact h
  | signedbv w' => exact h
  | unsignedbv w' => exact h
  | _ => simp [Typ.nativeWidth] at h

/-- The size that is computed for a tag among the parts. -/
lemma sizeofTag_eq_of_part (hacyclic : st.Acyclic) (htags : st.TagBits tags) (hsized : t.Sized st)
    (hsmall : t.Small st tags) (hpadded : t.Padded st) (tag : String) :
    ∀ u, st.Part t u → u.Names tag → st.sizeofTag tag = some (tags tag) := by
  -- from the contained tags to the containing ones
  induction tag using hacyclic.wellFounded.induction with
  | h tag ih =>
    intro u hu hnames
    obtain ⟨s, hs⟩ := (hsized u hu).2 tag hnames
    rw [SymbolTable.sizeofTag_eq, hs, htags tag s hs]
    refine Typ.sizeofWith_eq_bits s.typ fun v hv => ?_
    have hpart : st.Part t v := .tag hu hnames hs hv
    refine ⟨(hsized v hpart).1, hsmall v hpart, hpadded v hpart, fun tag' htag' => ?_⟩
    exact ih tag' ⟨s, hs, v, hv, htag'⟩ v hpart htag'

lemma Typ.sizeofInBits_eq_bits (hacyclic : st.Acyclic) (htags : st.TagBits tags)
    (hsized : t.Sized st) (hsmall : t.Small st tags) (hpadded : t.Padded st) :
    t.sizeofInBits st = some (t.bits st.machineModel tags) := by
  refine Typ.sizeofWith_eq_bits t fun u hu => ?_
  have hpart : st.Part t u := .value hu
  exact ⟨(hsized u hpart).1, hsmall u hpart, hpadded u hpart, fun tag hnames =>
    sizeofTag_eq_of_part hacyclic htags hsized hsmall hpadded tag u hpart hnames⟩

lemma SymbolTable.Part.isSome_sizeofInBits {u : Typ} (hu : st.Part t u)
    (h : (t.sizeofInBits st).isSome = true) : (u.sizeofInBits st).isSome = true := by
  induction hu with
  | value hu => exact Typ.isSome_sizeofWith_of_mem t h hu
  | @tag u tag s v _ hnames hs hv ih =>
    have htag : u.sizeofInBits st = s.typ.sizeofInBits st := by
      have heq := SymbolTable.sizeofTag_eq st tag
      rw [hs] at heq
      rcases hnames with rfl | rfl <;> exact heq
    rw [htag] at ih
    exact Typ.isSome_sizeofWith_of_mem s.typ ih hv

lemma Typ.padded_of_isSome (h : (t.sizeofInBits st).isSome = true) : t.Padded st := by
  intro u hu cs hcs name hmem
  have hsome := Typ.isSome_sizeofWith_components hcs (hu.isSome_sizeofInBits h) _ hmem
  simp [DatatypeComponent.sizeofWith] at hsome

lemma Typ.sizeExact_iff (hacyclic : st.Acyclic) (htags : st.TagBits tags) (hsized : t.Sized st)
    (hsmall : t.Small st tags) : t.SizeExact st tags ↔ t.Padded st := by
  constructor
  · intro hexact
    apply Typ.padded_of_isSome
    simp [hexact.1]
  · intro hpadded
    have hsize := Typ.sizeofInBits_eq_bits hacyclic htags hsized hsmall hpadded
    refine ⟨hsize, fun w hw => ?_⟩
    rw [Typ.sizeofInBits_of_nativeWidth hw, Option.some.injEq] at hsize
    exact hsize

/-- In every table in which tags do not contain themselves, tags have sizes that agree with their
definitions. For any such sizes and all types whose parts have sizes below the bound of the
compiler, the computed sizes are the numbers of bits, and a transmutation is accepted for types of
as many bits, exactly where no part has padding of no bits. -/
theorem sizeofInBits_exact_iff (hacyclic : st.Acyclic) :
    (∃ tags, st.TagBits tags) ∧ ∀ tags, st.TagBits tags → ∀ t t' : Typ,
      t.Sized st → t'.Sized st → t.Small st tags → t'.Small st tags →
      ((t.SizeExact st tags ∧ t'.SizeExact st tags ∧
        ∀ e : Expr, e.typ = t → ((e.transmuteTo t' st).isSome = true ↔
          t.bits st.machineModel tags = t'.bits st.machineModel tags)) ↔
        t.Padded st ∧ t'.Padded st) := by
  refine ⟨hacyclic.exists_tagBits, fun tags htags t t' ht ht' hsmall hsmall' => ?_⟩
  have hiff := Typ.sizeExact_iff hacyclic htags ht hsmall
  have hiff' := Typ.sizeExact_iff hacyclic htags ht' hsmall'
  constructor
  · rintro ⟨hexact, hexact', -⟩
    exact ⟨hiff.mp hexact, hiff'.mp hexact'⟩
  · rintro ⟨hpadded, hpadded'⟩
    have hexact := hiff.mpr hpadded
    have hexact' := hiff'.mpr hpadded'
    refine ⟨hexact, hexact', ?_⟩
    rintro e rfl
    rw [Option.isSome_iff_exists]
    simp only [Expr.transmuteTo_eq_some, hexact.1, hexact'.1, Option.some.injEq]
    constructor
    · rintro ⟨_, n, hn, hn', -⟩
      exact hn.trans hn'.symm
    · intro heq
      exact ⟨_, _, rfl, heq.symm, rfl⟩

end Exact

/-! ### A linked list and an empty padding -/

section Examples

/-- A node of a linked list: a byte, the padding behind it and a pointer to the next node. -/
def nodeTyp : Typ :=
  .struct "Node" [.field "x" (.unsignedbv 8), .padding "$pad1" 56,
    .field "next" (.pointer (.structTag "tag-Node"))]

def nodeSymbol : Symbol :=
  { name := "tag-Node", location := .none, typ := nodeTyp, value := .none,
    baseName := some "Node", prettyName := none, isType := true }

/-- The table with the type of the nodes. -/
def nodeTable : SymbolTable :=
  (SymbolTable.empty (machineModelFromSession none "x86_64" false 64)).set nodeSymbol

lemma lookup_nodeTable {tag : String} {s : Symbol} :
    nodeTable.lookup tag = some s ↔ tag = "tag-Node" ∧ s = nodeSymbol := by
  rw [nodeTable, SymbolTable.lookup_set]
  by_cases htag : tag = "tag-Node"
  · simp [htag, nodeSymbol, eq_comm]
  · simp [htag, nodeSymbol]

omit [Ranked String] in
lemma mem_valueParts_nodeTyp {u : Typ} : u ∈ nodeTyp.valueParts ↔
    u = nodeTyp ∨ u = .unsignedbv 8 ∨ u = .pointer (.structTag "tag-Node") := by
  simp [nodeTyp, Typ.valueParts, DatatypeComponent.valueParts]

omit [Ranked String] in
lemma not_holdsTag_nodeTyp (tag : String) : ¬ nodeTyp.HoldsTag tag := by
  rintro ⟨u, hu, hnames⟩
  rcases mem_valueParts_nodeTyp.mp hu with rfl | rfl | rfl <;> simp [Typ.Names, nodeTyp] at hnames

/-- The pointer to the next node is no part of the node. -/
lemma acyclic_nodeTable : nodeTable.Acyclic := by
  have hcontains : ∀ tag tag', ¬ nodeTable.Contains tag tag' := by
    rintro tag tag' ⟨s, hs, hholds⟩
    obtain ⟨-, rfl⟩ := lookup_nodeTable.mp hs
    exact not_holdsTag_nodeTyp tag' hholds
  intro tag hloop
  obtain ⟨tag', hstep, -⟩ := Relation.TransGen.head'_iff.mp hloop
  exact hcontains tag tag' hstep

/-- An array of nodes has no other parts than the tag and those of the node. -/
lemma part_nodes {u : Typ} (h : nodeTable.Part (.array (.structTag "tag-Node") 3) u) :
    u = .array (.structTag "tag-Node") 3 ∨ u = .structTag "tag-Node" ∨ u ∈ nodeTyp.valueParts := by
  induction h with
  | value hu =>
    simp only [Typ.valueParts, List.mem_cons, List.not_mem_nil, or_false] at hu
    rcases hu with rfl | rfl
    · exact .inl rfl
    · exact .inr (.inl rfl)
  | tag _ _ hs hv _ =>
    obtain ⟨-, rfl⟩ := lookup_nodeTable.mp hs
    exact .inr (.inr hv)

lemma sized_nodes : (Typ.array (.structTag "tag-Node") 3).Sized nodeTable := by
  intro u hu
  have hnode : ∃ s, nodeTable.lookup "tag-Node" = some s :=
    ⟨nodeSymbol, lookup_nodeTable.mpr ⟨rfl, rfl⟩⟩
  rcases part_nodes hu with rfl | rfl | hu
  · exact ⟨rfl, by simp [Typ.Names]⟩
  · refine ⟨rfl, fun tag hnames => ?_⟩
    simp only [Typ.Names, Typ.structTag.injEq, reduceCtorEq, or_false] at hnames
    exact hnames ▸ hnode
  · rcases mem_valueParts_nodeTyp.mp hu with rfl | rfl | rfl <;>
      exact ⟨rfl, by simp [Typ.Names, nodeTyp]⟩

lemma tagBits_nodeTable {tags : String → ℕ} (h : nodeTable.TagBits tags) :
    tags "tag-Node" = 128 := by
  rw [h "tag-Node" nodeSymbol (lookup_nodeTable.mpr ⟨rfl, rfl⟩)]
  rfl

lemma small_nodes {tags : String → ℕ} (h : nodeTable.TagBits tags) :
    (Typ.array (.structTag "tag-Node") 3).Small nodeTable tags := by
  intro u hu
  have hnode := tagBits_nodeTable h
  rcases part_nodes hu with rfl | rfl | hu
  · simp [Typ.bits, hnode, maxObjectBits]
  · simp [Typ.bits, hnode, maxObjectBits]
  · have hmm : nodeTable.machineModel.pointerWidth = 64 := rfl
    rcases mem_valueParts_nodeTyp.mp hu with rfl | rfl | rfl <;>
      simp [nodeTyp, Typ.bits, bitsSum, DatatypeComponent.bits, hmm, maxObjectBits]

lemma padded_nodes : (Typ.array (.structTag "tag-Node") 3).Padded nodeTable := by
  intro u hu cs hcs
  rcases part_nodes hu with rfl | rfl | hu
  · simp [Typ.components] at hcs
  · simp [Typ.components] at hcs
  · rcases mem_valueParts_nodeTyp.mp hu with rfl | rfl | rfl <;>
      simp only [nodeTyp, Typ.components, reduceCtorEq, Option.some.injEq] at hcs
    subst hcs
    simp

omit [Ranked String] in
theorem sizeofInBits_nodes :
    let _ : Ranked String := rankedString
    let t := Typ.array (.structTag "tag-Node") 3
    nodeTable.Acyclic ∧ t.Sized nodeTable ∧ ∃ tags, nodeTable.TagBits tags ∧
      t.Small nodeTable tags ∧ t.Padded nodeTable ∧ t.SizeExact nodeTable tags ∧
      t.bits nodeTable.machineModel tags = 384 := by
  intro _ t
  obtain ⟨⟨tags, htags⟩, hiff⟩ := sizeofInBits_exact_iff acyclic_nodeTable
  have hsmall : t.Small nodeTable tags := small_nodes htags
  have hexact := (hiff tags htags t t sized_nodes sized_nodes hsmall hsmall).mpr
    ⟨padded_nodes, padded_nodes⟩
  refine ⟨acyclic_nodeTable, sized_nodes, tags, htags, hsmall, padded_nodes, hexact.1, ?_⟩
  simp [t, Typ.bits, tagBits_nodeTable htags]

/-- A byte and padding of no bits. -/
def emptilyPadded : Typ := .struct "S" [.field "x" (.unsignedbv 8), .padding "$pad1" 0]

omit [Ranked String] in
/-- The byte with padding of no bits has eight bits, but its size cannot be computed, so that it
cannot be transmuted to itself. -/
theorem sizeofInBits_emptilyPadded :
    let _ : Ranked String := rankedString
    let st := SymbolTable.empty (machineModelFromSession none "x86_64" false 64)
    st.Acyclic ∧ emptilyPadded.Sized st ∧ (∀ tags, st.TagBits tags) ∧
      (∀ tags, emptilyPadded.Small st tags ∧ emptilyPadded.bits st.machineModel tags = 8) ∧
      emptilyPadded.sizeofInBits st = none ∧
      ∀ e : Expr, e.typ = emptilyPadded → e.transmuteTo emptilyPadded st = none := by
  intro _ st
  have hpart : ∀ u, st.Part emptilyPadded u → u = emptilyPadded ∨ u = .unsignedbv 8 := by
    intro u hu
    induction hu with
    | value hu => simpa [emptilyPadded, Typ.valueParts, DatatypeComponent.valueParts] using hu
    | tag _ _ hs _ _ => simp [st] at hs
  have hnone : emptilyPadded.sizeofInBits st = none := rfl
  refine ⟨?_, ?_, ?_, ?_, hnone, ?_⟩
  · intro tag hloop
    obtain ⟨tag', ⟨s, hs, -⟩, -⟩ := Relation.TransGen.head'_iff.mp hloop
    simp [st] at hs
  · intro u hu
    rcases hpart u hu with rfl | rfl <;> exact ⟨rfl, by simp [Typ.Names, emptilyPadded]⟩
  · intro tags tag s hs
    simp [st] at hs
  · intro tags
    refine ⟨fun u hu => ?_, rfl⟩
    rcases hpart u hu with rfl | rfl <;>
      simp [emptilyPadded, Typ.bits, bitsSum, DatatypeComponent.bits, maxObjectBits]
  · rintro e htyp
    simp [Expr.transmuteTo, htyp, hnone]

end Examples

end Rmc

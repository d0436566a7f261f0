import Rmc.Codegen.Aggregate
import Rmc.Codegen.Discriminant

/-!
# Enum types

The struct of an enum (`codegen_enum`). With a direct tag it is the tag `case`, padding up to the
least offset of a field in any variant, and the union `cases` with one struct per variant. Each
variant's struct is padded to the variant's own alignment; nothing pads the enum to the largest
alignment of its variants, so the struct can be smaller than the enum.
-/

namespace Rmc.Codegen

open OrdMap RoundUp

/-! ### Definitions -/

/-- A variant in the source code: its name, and its fields in the order of the source. -/
structure VariantDef (Ty : Type) where
  name : String
  fields : List (String × Ty)

/-- What is read of the layout of an enum: its own layout, its tag, the layouts of its variants and
its size in bits. -/
structure TypeLayout where
  layout : Layout
  variants : Variants
  variantLayouts : List Layout
  size : ℕ

/-- The size of a scalar in bits. -/
def Primitive.size (mm : MachineModel) : Primitive → ℕ
  | .int k _ => k.bits
  | .f32 => 32
  | .f64 => 64
  | .pointer => mm.pointerWidth

/-- The offset of the leftmost field, which is not necessarily the first one of the source. -/
def leftmostOffset (lo : Layout) : Option (Option ℕ) :=
  if lo.fields.count = 0 then some none
  else do
    let order ← lo.fields.indexByIncreasingOffset
    return some (← lo.fields.offset (← order[0]?))

/-- The offsets of the leftmost fields of the variants that have fields. -/
def leftmostOffsets : List Layout → Option (List ℕ)
  | [] => some []
  | lo :: los => do return (← leftmostOffset lo).toList ++ (← leftmostOffsets los)

def variantMinOffset (variants : List Layout) : Option (Option ℕ) := do
  return (← leftmostOffsets variants).min?

variable [Ranked String]

section Translation

variable {Ty : Type} (codegenTy : Ty → Gen Typ) (sizeInBits : Ty → ℕ)

def codegenVariantStructFields (variant : VariantDef Ty) (layout : Layout) (initialOffset : ℕ) :
    Gen (List DatatypeComponent) :=
  codegenStructFields codegenTy sizeInBits variant.fields layout initialOffset

def codegenEnumCaseStruct (name : String) (case : VariantDef Ty) (variant : Layout)
    (initialOffset : ℕ) : Gen Typ :=
  ensureStruct (name ++ "::" ++ case.name) none fun _ =>
    codegenVariantStructFields codegenTy sizeInBits case variant initialOffset

/-- The components of the union of cases. A variant without a layout is an index out of bounds. -/
def codegenEnumCases (name : String) (initialOffset : ℕ) :
    List (VariantDef Ty) → List Layout → Gen (List DatatypeComponent)
  | [], _, st => some ([], st)
  | _ :: _, [], _ => none
  | case :: cases, variant :: variants, st => do
    let (t, st) ← codegenEnumCaseStruct codegenTy sizeInBits name case variant initialOffset st
    let (cs, st) ← codegenEnumCases name initialOffset cases variants st
    return (.field case.name t :: cs, st)

def codegenEnumCasesUnion (name : String) (cases : List (VariantDef Ty)) (layouts : List Layout)
    (initialOffset : ℕ) : Gen Typ :=
  ensureUnion (name ++ "-union") none fun name =>
    codegenEnumCases codegenTy sizeInBits name initialOffset cases layouts

/-- The components of the struct of an enum with a direct tag. -/
def codegenDirectEnum (name : String) (tag : Primitive) (cases : List (VariantDef Ty))
    (variants : List Layout) : Gen (List DatatypeComponent) := fun st => do
  let int := codegenPrimTyp tag
  let discrOffset := tag.size st.machineModel
  let initialOffset := (← variantMinOffset variants).getD discrOffset
  let padding ← codegenStructPadding discrOffset initialOffset 0
  let (union, st) ←
    codegenEnumCasesUnion codegenTy sizeInBits name cases variants initialOffset st
  return (.field "case" int :: padding.toList ++ [.field "cases" union], st)

/-- The struct of an enum; `name` is its mangled name. -/
def codegenEnum (name prettyName : String) (sourceVariants : List (VariantDef Ty))
    (layout : TypeLayout) : Gen Typ :=
  ensureStruct name (some prettyName) fun name st =>
    match layout.variants with
    | .single index =>
      match sourceVariants[index]? with
      | none => some ([], st)
      | some variant =>
        codegenVariantStructFields codegenTy sizeInBits variant layout.layout 0 st
    | .multiple tag .direct =>
      codegenDirectEnum codegenTy sizeInBits name tag sourceVariants layout.variantLayouts st
    | .multiple _ (.niche datafulVariant _ _ _) => do
      let variant ← sourceVariants[datafulVariant]?
      let variantLayout ← layout.variantLayouts[datafulVariant]?
      codegenVariantStructFields codegenTy sizeInBits variant variantLayout 0 st

end Translation

/-! ### Layouts of directly tagged enums -/

variable {o tagBits : ℕ} {lo : Layout} {los : List Layout}

section Layouts

variable {Ty : Type} (sizeInBits : Ty → ℕ)

/-- The offsets of the fields in the order of the source. -/
def Layout.offsets (lo : Layout) : List ℕ :=
  match lo.fields with
  | .arbitrary offsets _ => offsets
  | _ => []

/-- The end of a variant that starts at `start`, rounded up to its alignment. -/
def caseSize (start : ℕ) (variant : VariantDef Ty) (lo : Layout) : ℕ :=
  roundUp (extent sizeInBits start variant.fields lo.offsets) lo.align

/-- The largest of the variants that start at `start`. -/
def largestCase (start : ℕ) (variants : List (VariantDef Ty)) (los : List Layout) : ℕ :=
  (List.zipWith (caseSize sizeInBits start) variants los).foldr max 0

def maxAlign (los : List Layout) : ℕ := (los.map Layout.align).foldr max 1

/-- The least offset of a field of any variant, or the end of the tag. -/
def leastOffset (tagBits : ℕ) (los : List Layout) : ℕ :=
  (los.flatMap Layout.offsets).min?.getD tagBits

/-- A variant of a directly tagged enum: its fields are arranged after the tag. -/
structure CaseWellFormed (tagBits : ℕ) (variant : VariantDef Ty) (lo : Layout) : Prop where
  arranged : ∃ memoryIndex, lo.fields = .arbitrary lo.offsets memoryIndex ∧
    Arranged sizeInBits variant.fields lo.offsets memoryIndex
  tag_le : ∀ o ∈ lo.offsets, tagBits ≤ o
  align_pow : ∃ e, lo.align = 2 ^ e

/-- The layout of an enum with a direct tag at offset 0. The compiler refuses types of 2 ^ 47 bytes
and more, so the size in bits is far below 2 ^ 63. -/
structure DirectWellFormed (variants : List (VariantDef Ty)) (layout : TypeLayout) (k : Integer)
    (signed : Bool) : Prop where
  variants_eq : layout.variants = .multiple (.int k signed) .direct
  nonempty : variants ≠ []
  cases : List.Forall₂ (CaseWellFormed sizeInBits k.bits) variants layout.variantLayouts
  unique : (variants.map VariantDef.name).Nodup
  size_eq : layout.size = roundUp (largestCase sizeInBits k.bits variants layout.variantLayouts)
    (maxAlign layout.variantLayouts)
  size_lt : layout.size < 2 ^ 63

variable {sizeInBits}

section

omit [Ranked String]

lemma le_maxAlign (hlo : lo ∈ los) : lo.align ≤ maxAlign los :=
  (foldr_max_le_iff.mp le_rfl).2 _ (List.mem_map_of_mem hlo)

lemma exists_maxAlign_eq (h : ∀ lo ∈ los, ∃ e, lo.align = 2 ^ e) : ∃ e, maxAlign los = 2 ^ e := by
  induction los with
  | nil => exact ⟨0, rfl⟩
  | cons lo los ih =>
    rw [List.forall_mem_cons] at h
    obtain ⟨e, he⟩ := h.1
    obtain ⟨e', he'⟩ := ih h.2
    have hcons : maxAlign (lo :: los) = max lo.align (maxAlign los) := rfl
    rcases max_choice lo.align (maxAlign los) with hmax | hmax
    · exact ⟨e, by rw [hcons, hmax, he]⟩
    · exact ⟨e', by rw [hcons, hmax, he']⟩

lemma align_dvd_maxAlign (h : ∀ lo ∈ los, ∃ e, lo.align = 2 ^ e) (hlo : lo ∈ los) :
    lo.align ∣ maxAlign los := by
  obtain ⟨e, he⟩ := h lo hlo
  obtain ⟨e', he'⟩ := exists_maxAlign_eq h
  have hle := le_maxAlign hlo
  rw [he, he'] at hle ⊢
  exact pow_dvd_pow 2 ((Nat.pow_le_pow_iff_right (by decide)).mp hle)

variable {start : ℕ}

lemma largestCase_le_iff {x : ℕ} {variants : List (VariantDef Ty)} :
    largestCase sizeInBits start variants los ≤ x ↔
      ∀ p ∈ variants.zip los, caseSize sizeInBits start p.1 p.2 ≤ x := by
  rw [largestCase, foldr_max_le_iff, ← List.map_uncurry_zip_eq_zipWith, List.forall_mem_map]
  simp [Function.uncurry]

lemma caseSize_le_largestCase {variants : List (VariantDef Ty)} {p : VariantDef Ty × Layout}
    (hp : p ∈ variants.zip los) :
    caseSize sizeInBits start p.1 p.2 ≤ largestCase sizeInBits start variants los :=
  largestCase_le_iff.mp le_rfl p hp

lemma leastOffset_le (tagBits : ℕ) (hlo : lo ∈ los) (ho : o ∈ lo.offsets) :
    leastOffset tagBits los ≤ o := by
  have hmem : o ∈ los.flatMap Layout.offsets := List.mem_flatMap.mpr ⟨lo, hlo, ho⟩
  rw [leastOffset]
  cases hmin : (los.flatMap Layout.offsets).min? with
  | none => simp [List.min?_eq_none_iff.mp hmin] at hmem
  | some m => exact (List.min?_eq_some_iff.mp hmin).2 o hmem

/-- The least offset is one of the offsets, unless there is none. -/
lemma leastOffset_eq (tagBits : ℕ) (los : List Layout) :
    leastOffset tagBits los = tagBits ∨ ∃ lo ∈ los, leastOffset tagBits los ∈ lo.offsets := by
  rw [leastOffset]
  cases hmin : (los.flatMap Layout.offsets).min? with
  | none => exact .inl rfl
  | some m => exact .inr (List.mem_flatMap.mp (List.min?_eq_some_iff.mp hmin).1)

lemma exists_mem_zip_right {α β : Type} {as : List α} {bs : List β}
    (hlength : as.length = bs.length) {b : β} (hb : b ∈ bs) : ∃ a, (a, b) ∈ as.zip bs := by
  obtain ⟨i, hi⟩ := List.mem_iff_getElem?.mp hb
  have hlt : i < as.length := hlength ▸ (List.getElem?_eq_some_iff.mp hi).1
  exact ⟨as[i], List.mem_of_getElem?
    (List.getElem?_zip_eq_some.mpr ⟨List.getElem?_eq_getElem hlt, hi⟩)⟩

end

namespace CaseWellFormed

variable {variant : VariantDef Ty}

omit [Ranked String] in
lemma align_pos (h : CaseWellFormed sizeInBits tagBits variant lo) : 0 < lo.align := by
  obtain ⟨e, he⟩ := h.align_pow
  rw [he]
  exact Nat.two_pow_pos e

omit [Ranked String] in
lemma extent_le_caseSize (h : CaseWellFormed sizeInBits tagBits variant lo) (start : ℕ) :
    extent sizeInBits start variant.fields lo.offsets ≤ caseSize sizeInBits start variant lo :=
  le_roundUp _ h.align_pos

end CaseWellFormed

namespace DirectWellFormed

variable {variants : List (VariantDef Ty)} {layout : TypeLayout} {k : Integer} {signed : Bool}

section

omit [Ranked String]

section

variable (h : DirectWellFormed sizeInBits variants layout k signed)

include h

lemma of_mem {p : VariantDef Ty × Layout} (hp : p ∈ variants.zip layout.variantLayouts) :
    CaseWellFormed sizeInBits k.bits p.1 p.2 :=
  List.forall₂_zip h.cases hp

lemma align_pow : ∀ lo ∈ layout.variantLayouts, ∃ e, lo.align = 2 ^ e := by
  intro lo hlo
  obtain ⟨variant, hp⟩ := exists_mem_zip_right h.cases.length_eq hlo
  exact (h.of_mem hp).align_pow

lemma maxAlign_pos : 0 < maxAlign layout.variantLayouts := by
  obtain ⟨e, he⟩ := exists_maxAlign_eq h.align_pow
  rw [he]
  exact Nat.two_pow_pos e

lemma maxAlign_dvd_size : maxAlign layout.variantLayouts ∣ layout.size := by
  rw [h.size_eq]
  exact dvd_roundUp _ h.maxAlign_pos

lemma caseSize_le_size {p : VariantDef Ty × Layout} (hp : p ∈ variants.zip layout.variantLayouts) :
    caseSize sizeInBits k.bits p.1 p.2 ≤ layout.size := by
  rw [h.size_eq]
  exact (caseSize_le_largestCase hp).trans (le_roundUp _ h.maxAlign_pos)

lemma tag_le_leastOffset : k.bits ≤ leastOffset k.bits layout.variantLayouts := by
  rcases leastOffset_eq k.bits layout.variantLayouts with heq | ⟨lo, hlo, hmem⟩
  · exact heq.ge
  · obtain ⟨variant, hp⟩ := exists_mem_zip_right h.cases.length_eq hlo
    exact (h.of_mem hp).tag_le _ hmem

/-- The fields of a variant end within the enum. -/
lemma extent_le_size {p : VariantDef Ty × Layout} (hp : p ∈ variants.zip layout.variantLayouts) :
    extent sizeInBits k.bits p.1.fields p.2.offsets ≤ layout.size :=
  ((h.of_mem hp).extent_le_caseSize k.bits).trans (h.caseSize_le_size hp)

lemma leastOffset_le_size : leastOffset k.bits layout.variantLayouts ≤ layout.size := by
  rcases leastOffset_eq k.bits layout.variantLayouts with heq | ⟨lo, hlo, hmem⟩
  · -- without fields the tag is in each variant
    obtain ⟨variant, variants', rfl⟩ := List.exists_cons_of_ne_nil h.nonempty
    obtain ⟨lo, hlo⟩ : ∃ lo, (variant, lo) ∈ (variant :: variants').zip layout.variantLayouts := by
      cases hlos : layout.variantLayouts with
      | nil => simpa [hlos] using h.cases.length_eq
      | cons lo los => exact ⟨lo, by simp⟩
    rw [heq]
    exact (extent_le_iff.mp (h.extent_le_size hlo)).1
  · obtain ⟨variant, hp⟩ := exists_mem_zip_right h.cases.length_eq hlo
    obtain ⟨memoryIndex, -, harranged⟩ := (h.of_mem hp).arranged
    obtain ⟨fld, hfld⟩ := exists_mem_zip_right harranged.length_eq hmem
    have hle := (extent_le_iff.mp (h.extent_le_size hp)).2 _ hfld
    exact (Nat.le_add_right _ _).trans hle

lemma extent_leastOffset_le_size {p : VariantDef Ty × Layout}
    (hp : p ∈ variants.zip layout.variantLayouts) :
    extent sizeInBits (leastOffset k.bits layout.variantLayouts) p.1.fields p.2.offsets ≤
      layout.size :=
  extent_le_iff.mpr ⟨h.leastOffset_le_size, (extent_le_iff.mp (h.extent_le_size hp)).2⟩

lemma largestCase_le_size :
    largestCase sizeInBits (leastOffset k.bits layout.variantLayouts) variants
      layout.variantLayouts ≤ layout.size := by
  refine largestCase_le_iff.mpr fun p hp => ?_
  have hdvd := align_dvd_maxAlign h.align_pow (List.of_mem_zip hp).2
  exact roundUp_le (h.of_mem hp).align_pos (hdvd.trans h.maxAlign_dvd_size)
    (h.extent_leastOffset_le_size hp)

/-- The struct has the size of the enum exactly when its end is a multiple of the largest
alignment. -/
lemma largestCase_eq_size_iff :
    largestCase sizeInBits (leastOffset k.bits layout.variantLayouts) variants
        layout.variantLayouts = layout.size ↔
      maxAlign layout.variantLayouts ∣ largestCase sizeInBits
        (leastOffset k.bits layout.variantLayouts) variants layout.variantLayouts := by
  constructor
  · intro heq
    rw [heq]
    exact h.maxAlign_dvd_size
  · intro hdvd
    refine h.largestCase_le_size.antisymm ?_
    rw [h.size_eq]
    refine roundUp_le h.maxAlign_pos hdvd (largestCase_le_iff.mpr fun p hp => ?_)
    -- a variant that starts later does not end earlier
    have hextent : extent sizeInBits k.bits p.1.fields p.2.offsets ≤
        extent sizeInBits (leastOffset k.bits layout.variantLayouts) p.1.fields p.2.offsets := by
      have hle := extent_le_iff.mp (le_refl (extent sizeInBits
        (leastOffset k.bits layout.variantLayouts) p.1.fields p.2.offsets))
      exact extent_le_iff.mpr ⟨h.tag_le_leastOffset.trans hle.1, hle.2⟩
    exact (roundUp_mono (h.of_mem hp).align_pos hextent).trans (caseSize_le_largestCase hp)

/-- The offsets of a variant, rounded up, are far from the bounds of a `u64`. -/
lemma extent_add_align_lt {p : VariantDef Ty × Layout}
    (hp : p ∈ variants.zip layout.variantLayouts) :
    extent sizeInBits (leastOffset k.bits layout.variantLayouts) p.1.fields p.2.offsets +
      p.2.align < 2 ^ 64 := by
  have hextent := h.extent_leastOffset_le_size hp
  have hpos : 0 < layout.size := by
    have htag := h.tag_le_leastOffset.trans h.leastOffset_le_size
    have hbits : 0 < k.bits := by cases k <;> decide
    omega
  have halign : p.2.align ≤ layout.size :=
    (le_maxAlign (List.of_mem_zip hp).2).trans (Nat.le_of_dvd hpos h.maxAlign_dvd_size)
  have hsize := h.size_lt
  omega

end

end

end DirectWellFormed

/-! ### The least offset -/

section

omit [Ranked String]

/-- The leftmost field of a variant has the least of its offsets. -/
lemma CaseWellFormed.exists_leftmostOffset {variant : VariantDef Ty}
    (h : CaseWellFormed sizeInBits tagBits variant lo) :
    ∃ r : Option ℕ, leftmostOffset lo = some r ∧ r.toList ⊆ lo.offsets ∧
      ∀ o ∈ lo.offsets, ∃ f ∈ r.toList, f ≤ o := by
  obtain ⟨memoryIndex, hfields, harranged⟩ := h.arranged
  have hcount : lo.fields.count = lo.offsets.length := by
    rw [hfields]
    rfl
  by_cases hnil : lo.offsets = []
  · exact ⟨none, by simp [leftmostOffset, hcount, hnil], by simp, by simp [hnil]⟩
  obtain ⟨order, items, hitems⟩ := harranged.exists_items
  have hmem : ∀ o ∈ lo.offsets, ∃ item ∈ items, item.offset = o := by
    intro o ho
    obtain ⟨fld, hfld⟩ := exists_mem_zip_right harranged.length_eq ho
    exact ⟨⟨o, fld.1, fld.2⟩, (hitems.mem_iff _).mpr hfld, rfl⟩
  obtain ⟨o, ho⟩ := List.exists_mem_of_ne_nil _ hnil
  obtain ⟨item₀, hitem₀, -⟩ := hmem o ho
  have hforall := hitems.forall₂
  cases hforall with
  | nil => simp at hitem₀
  | @cons idx item order items hitem _ =>
    refine ⟨some item.offset, ?_, ?_, ?_⟩
    · have hpos : lo.fields.count ≠ 0 := by simpa [hcount] using hnil
      rw [leftmostOffset, if_neg hpos, hfields, hitems.order_eq]
      simp [FieldsShape.offset, hitem.1]
    · simpa using List.mem_of_getElem? hitem.1
    · intro o' ho'
      obtain ⟨item', hitem', rfl⟩ := hmem o' ho'
      refine ⟨item.offset, by simp, ?_⟩
      rcases List.mem_cons.mp hitem' with rfl | hrest
      · exact le_rfl
      · have := (List.pairwise_cons.mp hitems.pairwise).1 item' hrest
        omega

lemma exists_leftmostOffsets
    (h : ∀ lo ∈ los, ∃ tagBits variant, CaseWellFormed sizeInBits tagBits variant lo) :
    ∃ fs, leftmostOffsets los = some fs ∧ fs ⊆ los.flatMap Layout.offsets ∧
      ∀ o ∈ los.flatMap Layout.offsets, ∃ f ∈ fs, f ≤ o := by
  induction los with
  | nil => exact ⟨[], rfl, by simp, by simp⟩
  | cons lo los ih =>
    rw [List.forall_mem_cons] at h
    obtain ⟨tagBits, variant, hlo⟩ := h.1
    obtain ⟨r, hr, hsub, hleast⟩ := hlo.exists_leftmostOffset
    obtain ⟨fs, hfs, hsubs, hleasts⟩ := ih h.2
    refine ⟨r.toList ++ fs, by simp [leftmostOffsets, hr, hfs], ?_, ?_⟩
    · rw [List.flatMap_cons]
      exact List.append_subset.mpr ⟨List.Subset.trans hsub (List.subset_append_left _ _),
        List.Subset.trans hsubs (List.subset_append_right _ _)⟩
    · intro o ho
      rw [List.flatMap_cons, List.mem_append] at ho
      rcases ho with ho | ho
      · obtain ⟨f, hf, hle⟩ := hleast o ho
        exact ⟨f, List.mem_append_left _ hf, hle⟩
      · obtain ⟨f, hf, hle⟩ := hleasts o ho
        exact ⟨f, List.mem_append_right _ hf, hle⟩

/-- A part of a list that reaches below every element has the minimum of the list. -/
lemma min?_eq_of_subset {fs os : List ℕ} (hsub : fs ⊆ os) (hleast : ∀ o ∈ os, ∃ f ∈ fs, f ≤ o) :
    fs.min? = os.min? := by
  cases hmin : os.min? with
  | none =>
    rw [List.min?_eq_none_iff] at hmin ⊢
    subst hmin
    exact List.subset_nil.mp hsub
  | some m =>
    rw [List.min?_eq_some_iff] at hmin ⊢
    obtain ⟨f, hf, hle⟩ := hleast m hmin.1
    have heq : f = m := hle.antisymm (hmin.2 f (hsub hf))
    exact ⟨heq ▸ hf, fun b hb => hmin.2 b (hsub hb)⟩

lemma DirectWellFormed.variantMinOffset_eq {variants : List (VariantDef Ty)} {layout : TypeLayout}
    {k : Integer} {signed : Bool} (h : DirectWellFormed sizeInBits variants layout k signed) :
    variantMinOffset layout.variantLayouts =
      some (layout.variantLayouts.flatMap Layout.offsets).min? := by
  have hcases : ∀ lo ∈ layout.variantLayouts, ∃ tagBits variant,
      CaseWellFormed sizeInBits tagBits variant lo := by
    intro lo hlo
    obtain ⟨variant, hp⟩ := exists_mem_zip_right h.cases.length_eq hlo
    exact ⟨_, _, h.of_mem hp⟩
  obtain ⟨fs, hfs, hsub, hleast⟩ := exists_leftmostOffsets hcases
  simp [variantMinOffset, hfs, min?_eq_of_subset hsub hleast]

end

end Layouts

/-! ### The cases -/

/-- The name of the struct of a variant. -/
def caseName {Ty : Type} (name : String) (case : VariantDef Ty) : String :=
  name ++ "::" ++ case.name

variable {Ty : Type} {name : String}

section

omit [Ranked String]

lemma length_caseName (name : String) (case : VariantDef Ty) :
    (caseName name case).length = name.length + 2 + case.name.length := by
  rw [caseName, String.length_append, String.length_append]
  rfl

lemma length_append_union (name : String) : (name ++ "-union").length = name.length + 6 := by
  rw [String.length_append]
  rfl

lemma aggrTag_ne_of_length {name' : String} (h : name.length ≠ name'.length) :
    aggrTag name ≠ aggrTag name' := by
  intro heq
  have hlength := congrArg String.length heq
  simp only [aggrTag, String.length_append] at hlength
  omega

end

variable {st' : SymbolTable}

section Cases

variable {codegenTy : Ty → Gen Typ} {sizeInBits : Ty → ℕ} {reserved : String → Prop}
  {st₀ st : SymbolTable} {initialOffset : ℕ} {case : VariantDef Ty}

variable (sizeInBits) in
/-- The struct of a variant is in the table, and holds the variant's fields at their offsets. -/
def CaseEntered (st : SymbolTable) (name : String) (initialOffset : ℕ) (case : VariantDef Ty)
    (lo : Layout) : Prop :=
  ∃ cs fields, st.lookup (aggrTag (caseName name case)) =
      some (Aggr.symbol (caseName name case) none (.struct (caseName name case) cs)) ∧
    Filled st initialOffset cs (caseSize sizeInBits initialOffset case lo) fields ∧
    ∀ q ∈ case.fields.zip lo.offsets, (q.1.1, q.2) ∈ fields

lemma CaseEntered.mono
    (h : CaseEntered sizeInBits st name initialOffset case lo) (hle : SymbolTable.Le st st')
    (hst : ∀ {s}, st.lookup (aggrTag (caseName name case)) = some s →
      st'.lookup (aggrTag (caseName name case)) = some s) :
    CaseEntered sizeInBits st' name initialOffset case lo := by
  obtain ⟨cs, fields, hlookup, hfilled, hfields⟩ := h
  exact ⟨cs, fields, hst hlookup, hfilled.mono hle, hfields⟩

lemma exists_codegenEnumCaseStruct (h : CaseWellFormed sizeInBits tagBits case lo)
    (hst : Keeps st₀ st)
    (hty : ∀ fld ∈ case.fields, TySized codegenTy sizeInBits reserved st₀ fld.2)
    (hname : startsWithTag (caseName name case) = false)
    (hnew : st.lookup (aggrTag (caseName name case)) = none)
    (hinit : ∀ o ∈ lo.offsets, initialOffset ≤ o)
    (hlt : extent sizeInBits initialOffset case.fields lo.offsets + lo.align < 2 ^ 64) :
    ∃ st', codegenEnumCaseStruct codegenTy sizeInBits name case lo initialOffset st =
        some (Typ.mkStructTag (caseName name case), st') ∧ Keeps st st' ∧
      CaseEntered sizeInBits st' name initialOffset case lo ∧
      ∀ {x}, reserved x → x ≠ aggrTag (caseName name case) → st.lookup x = none →
        st'.lookup x = none := by
  obtain ⟨memoryIndex, hlayout, harranged⟩ := h.arranged
  have hst₁ := hst.set (s := Aggr.symbol (caseName name case) none
    (Aggr.struct.incompleteTyp (caseName name case))) (hst.lookup_eq_none hnew)
  obtain ⟨cs, st₂, fields, hgen, hgrows, hfilled, hfields⟩ :=
    harranged.exists_codegenStructFields hst₁ hty hlayout hinit h.align_pos
      ((roundUp_add_mod_le _ _).trans_lt hlt)
  obtain ⟨st', hensure, hkeeps, hle, hlookup, hother⟩ := exists_ensureAggr .struct none
    (fun _ => codegenVariantStructFields codegenTy sizeInBits case lo initialOffset)
    hname hnew hgen hgrows.keeps hfilled.unique
  refine ⟨st', hensure, hkeeps, ⟨cs, fields, hlookup, hfilled.mono hle, hfields⟩, ?_⟩
  intro x hx hne hnone
  rw [hother hne]
  refine hgrows.fresh hx ?_
  rw [SymbolTable.lookup_set_of_ne _ (by simpa using hne)]
  exact hnone

/-- The struct of each variant is entered; the tags of the others stay free until their turn. -/
lemma exists_codegenEnumCases {variants : List (VariantDef Ty)}
    (h : List.Forall₂ (CaseWellFormed sizeInBits tagBits) variants los)
    (hty : ∀ v ∈ variants, ∀ fld ∈ v.fields, TySized codegenTy sizeInBits reserved st₀ fld.2)
    (hname : ∀ v ∈ variants, startsWithTag (caseName name v) = false)
    (hreserved : ∀ v ∈ variants, reserved (aggrTag (caseName name v)))
    (hunique : (variants.map VariantDef.name).Nodup)
    (hinit : ∀ lo ∈ los, ∀ o ∈ lo.offsets, initialOffset ≤ o)
    (hlt : ∀ p ∈ variants.zip los,
      extent sizeInBits initialOffset p.1.fields p.2.offsets + p.2.align < 2 ^ 64)
    (hst : Keeps st₀ st) (hnew : ∀ v ∈ variants, st.lookup (aggrTag (caseName name v)) = none) :
    ∃ st', codegenEnumCases codegenTy sizeInBits name initialOffset variants los st =
        some (variants.map fun v => .field v.name (Typ.mkStructTag (caseName name v)), st') ∧
      Keeps st st' ∧
      ∀ p ∈ variants.zip los, CaseEntered sizeInBits st' name initialOffset p.1 p.2 := by
  induction h generalizing st with
  | nil => exact ⟨st, rfl, .refl st, by simp⟩
  | @cons v lo variants los hcase _ ih =>
    simp only [List.forall_mem_cons, List.zip_cons_cons] at hty hname hreserved hinit hlt hnew
    rw [List.map_cons, List.nodup_cons] at hunique
    obtain ⟨st₁, hgen, hkeeps, hentered, hfresh⟩ := exists_codegenEnumCaseStruct hcase hst hty.1
      hname.1 hnew.1 hinit.1 hlt.1
    -- a later variant has another name, so its tag is still free
    have hnew₁ : ∀ w ∈ variants, st₁.lookup (aggrTag (caseName name w)) = none := by
      intro w hw
      refine hfresh (hreserved.2 w hw) (fun heq => hunique.1 ?_) (hnew.2 w hw)
      have hwv : w.name = v.name := by simpa [aggrTag, caseName] using heq
      exact hwv ▸ List.mem_map_of_mem hw
    obtain ⟨st', hgens, hkeeps', hentereds⟩ := ih hty.2 hname.2 hreserved.2 hunique.2 hinit.2 hlt.2
      (hst.trans hkeeps) hnew₁
    refine ⟨st', by simp [codegenEnumCases, hgen, hgens], hkeeps.trans hkeeps', ?_⟩
    rw [List.zip_cons_cons, List.forall_mem_cons]
    exact ⟨hentered.mono hkeeps'.le hkeeps'.lookup, hentereds⟩

lemma sizeofMax_cases {variants : List (VariantDef Ty)} (hlength : variants.length = los.length)
    (h : ∀ p ∈ variants.zip los, CaseEntered sizeInBits st name initialOffset p.1 p.2) :
    sizeofMax st.machineModel st.sizeofTag
        (variants.map fun v => .field v.name (Typ.mkStructTag (caseName name v))) =
      some (largestCase sizeInBits initialOffset variants los - initialOffset) := by
  induction variants generalizing los with
  | nil => simp [sizeofMax, largestCase]
  | cons v variants ih =>
    cases los with
    | nil => simp at hlength
    | cons lo los =>
      simp only [List.zip_cons_cons, List.forall_mem_cons] at h
      obtain ⟨cs, fields, hlookup, hfilled, -⟩ := h.1
      have hsize : (Typ.mkStructTag (caseName name v)).sizeofWith st.machineModel st.sizeofTag =
          some (caseSize sizeInBits initialOffset v lo - initialOffset) :=
        (sizeofInBits_of_lookup (k := .struct) hlookup).trans hfilled.size
      have hlargest : largestCase sizeInBits initialOffset (v :: variants) (lo :: los) =
          max (caseSize sizeInBits initialOffset v lo)
            (largestCase sizeInBits initialOffset variants los) := rfl
      rw [List.map_cons, sizeofMax, DatatypeComponent.sizeofWith, hsize,
        ih (by simpa using hlength) h.2, hlargest]
      simp only [some_bind, Option.pure_def, Option.some.injEq]
      omega

end Cases

/-! ### The enum -/

/-- The tags that the translation of an enum enters for itself. -/
def IsEnumTag {Ty : Type} (name : String) (variants : List (VariantDef Ty)) (x : String) : Prop :=
  x = aggrTag name ∨ x = aggrTag (name ++ "-union") ∨
    ∃ v ∈ variants, x = aggrTag (caseName (name ++ "-union") v)

/-- The offset of a field of a variant in the struct of an enum. -/
def enumFieldOffset (st : SymbolTable) (t : Typ) (variant field : String) : Option ℕ := do
  let casesOffset ← fieldOffsetInBits st (← st.lookupFieldsInType t) "cases"
  let case ← st.lookupFieldTypeInType (← st.lookupFieldTypeInType t "cases") variant
  let offset ← fieldOffsetInBits st (← st.lookupFieldsInType case) field
  return casesOffset + offset

section Enum

variable {codegenTy : Ty → Gen Typ} {sizeInBits : Ty → ℕ} {st st₀ : SymbolTable}
  {name prettyName : String} {variants : List (VariantDef Ty)} {layout : TypeLayout} {k : Integer}
  {signed : Bool}

section

variable (h : DirectWellFormed sizeInBits variants layout k signed)

include h

lemma exists_codegenEnumCasesUnion
    (hname : startsWithTag (name ++ "-union") = false)
    (hty : ∀ v ∈ variants, ∀ fld ∈ v.fields,
      TySized codegenTy sizeInBits (IsEnumTag name variants) st₀ fld.2)
    (hst : Keeps st₀ st) (hnew : st.lookup (aggrTag (name ++ "-union")) = none)
    (hnews : ∀ v ∈ variants, st.lookup (aggrTag (caseName (name ++ "-union") v)) = none) :
    ∃ st', codegenEnumCasesUnion codegenTy sizeInBits name variants layout.variantLayouts
        (leastOffset k.bits layout.variantLayouts) st =
          some (Typ.mkUnionTag (name ++ "-union"), st') ∧
      Keeps st st' ∧
      st'.lookup (aggrTag (name ++ "-union")) = some (Aggr.symbol (name ++ "-union") none
        (.union (name ++ "-union") (variants.map fun v =>
          .field v.name (Typ.mkStructTag (caseName (name ++ "-union") v))))) ∧
      ∀ p ∈ variants.zip layout.variantLayouts, CaseEntered sizeInBits st' (name ++ "-union")
        (leastOffset k.bits layout.variantLayouts) p.1 p.2 := by
  have hne : ∀ v : VariantDef Ty,
      aggrTag (caseName (name ++ "-union") v) ≠ aggrTag (name ++ "-union") := by
    intro v
    refine aggrTag_ne_of_length ?_
    rw [length_caseName]
    omega
  have hst₁ := hst.set (s := Aggr.symbol (name ++ "-union") none
    (Aggr.union.incompleteTyp (name ++ "-union"))) (hst.lookup_eq_none hnew)
  obtain ⟨st₂, hgen, hkeeps, hentered⟩ := exists_codegenEnumCases h.cases hty
    (fun v _ => by
      rw [caseName, String.append_assoc]
      exact startsWithTag_append_of_false hname (by rw [length_append_union]; omega) _)
    (fun v hv => .inr (.inr ⟨v, hv, rfl⟩)) h.unique
    (fun lo hlo o ho => leastOffset_le k.bits hlo ho)
    (fun p hp => h.extent_add_align_lt hp) hst₁
    (fun v hv => by
      rw [SymbolTable.lookup_set_of_ne _ (by simpa using hne v)]
      exact hnews v hv)
  obtain ⟨st', hensure, hkeeps', hle, hlookup, hother⟩ := exists_ensureAggr .union none
    (fun name => codegenEnumCases codegenTy sizeInBits name
      (leastOffset k.bits layout.variantLayouts) variants layout.variantLayouts)
    hname hnew hgen hkeeps (by simpa [Function.comp_def] using h.unique)
  refine ⟨st', hensure, hkeeps', hlookup, fun p hp => (hentered p hp).mono hle ?_⟩
  intro s hs
  exact (hother (hne p.1)).trans hs

omit [Ranked String] in
lemma DirectWellFormed.leastOffset_le_largestCase (start : ℕ) :
    start ≤ largestCase sizeInBits start variants layout.variantLayouts := by
  obtain ⟨p, hp⟩ : ∃ p, p ∈ variants.zip layout.variantLayouts := by
    refine List.exists_mem_of_ne_nil _ fun hnil => h.nonempty ?_
    have hlength := congrArg List.length hnil
    rw [List.length_zip, ← h.cases.length_eq, min_self, List.length_nil] at hlength
    exact List.length_eq_zero_iff.mp hlength
  have hextent := (h.of_mem hp).extent_le_caseSize start
  exact ((extent_le_iff.mp le_rfl).1.trans hextent).trans (caseSize_le_largestCase hp)

end

/-- What the components of the struct are: they reach to the end of the largest case, and the
cases start at the least offset. -/
structure EnumEntered (st : SymbolTable) (name : String) (sizeInBits : Ty → ℕ)
    (variants : List (VariantDef Ty)) (los : List Layout) (initialOffset : ℕ)
    (cs : List DatatypeComponent) : Prop where
  filled : Filled st 0 cs (largestCase sizeInBits initialOffset variants los)
    [("case", 0), ("cases", initialOffset)]
  cases_mem : .field "cases" (Typ.mkUnionTag (name ++ "-union")) ∈ cs
  union : st.lookup (aggrTag (name ++ "-union")) = some (Aggr.symbol (name ++ "-union") none
    (.union (name ++ "-union") (variants.map fun v =>
      .field v.name (Typ.mkStructTag (caseName (name ++ "-union") v)))))
  cases : ∀ p ∈ variants.zip los, CaseEntered sizeInBits st (name ++ "-union") initialOffset p.1 p.2

variable {cs : List DatatypeComponent}

lemma EnumEntered.mono {initialOffset : ℕ}
    (h : EnumEntered st name sizeInBits variants los initialOffset cs)
    (hle : SymbolTable.Le st st') (hlookup : ∀ {x}, x ≠ aggrTag name → st'.lookup x = st.lookup x) :
    EnumEntered st' name sizeInBits variants los initialOffset cs where
  filled := h.filled.mono hle
  cases_mem := h.cases_mem
  union := by
    rw [hlookup (aggrTag_ne_of_length (by rw [length_append_union]; omega))]
    exact h.union
  cases p hp := (h.cases p hp).mono hle fun hs => by
    rw [hlookup (aggrTag_ne_of_length (by rw [length_caseName, length_append_union]; omega)), hs]

section

variable (h : DirectWellFormed sizeInBits variants layout k signed)

include h

lemma exists_codegenDirectEnum
    (hname : startsWithTag (name ++ "-union") = false)
    (hty : ∀ v ∈ variants, ∀ fld ∈ v.fields,
      TySized codegenTy sizeInBits (IsEnumTag name variants) st₀ fld.2)
    (hst : Keeps st₀ st) (hnew : st.lookup (aggrTag (name ++ "-union")) = none)
    (hnews : ∀ v ∈ variants, st.lookup (aggrTag (caseName (name ++ "-union") v)) = none) :
    ∃ cs st', codegenDirectEnum codegenTy sizeInBits name (.int k signed) variants
        layout.variantLayouts st = some (cs, st') ∧ Keeps st st' ∧
      EnumEntered st' name sizeInBits variants layout.variantLayouts
        (leastOffset k.bits layout.variantLayouts) cs := by
  obtain ⟨st', hgen, hkeeps, hunion, hcases⟩ :=
    exists_codegenEnumCasesUnion h hname hty hst hnew hnews
  have htag := h.tag_le_leastOffset
  have hleast := h.leastOffset_le_largestCase (leastOffset k.bits layout.variantLayouts)
  have hlargest := h.largestCase_le_size
  have hsize := h.size_lt
  have hint : (codegenPrimTyp (.int k signed)).sizeofInBits st' = some k.bits := by
    cases signed <;> rfl
  have hcasesSize : (Typ.mkUnionTag (name ++ "-union")).sizeofInBits st' =
      some (largestCase sizeInBits (leastOffset k.bits layout.variantLayouts) variants
        layout.variantLayouts - leastOffset k.bits layout.variantLayouts) :=
    (sizeofInBits_of_lookup (k := .union) hunion).trans (sizeofMax_cases h.cases.length_eq hcases)
  -- the tag, the padding in front of the cases, and the cases
  have hcase := (Filled.nil st' 0).field hint (by omega) (by simp)
    (not_isPadName_of_head "case" (by decide))
  have hle : 0 + k.bits ≤ leastOffset k.bits layout.variantLayouts := by omega
  obtain ⟨pad, hpad, hpadded⟩ := hcase.padding_of_fresh 0 hle (by omega) (by simp)
    (by simp only [List.nil_append, List.map_singleton, DatatypeComponent.name_field]; decide)
  rw [Nat.add_sub_cancel' hle] at hpadded
  have hfilled := hpadded.field hcasesSize (by omega) (by simp)
    (not_isPadName_of_head "cases" (by decide))
  rw [Nat.add_sub_cancel' hleast] at hfilled
  rw [Nat.zero_add] at hpad
  refine ⟨_, st', ?_, hkeeps, ⟨hfilled, by simp, hunion, hcases⟩⟩
  have hmin : (layout.variantLayouts.flatMap Layout.offsets).min?.getD k.bits =
      leastOffset k.bits layout.variantLayouts := rfl
  simp [codegenDirectEnum, h.variantMinOffset_eq, Primitive.size, hmin, hpad, hgen]

/-- The fields of a variant, found through the union of cases. -/
lemma EnumEntered.enumFieldOffset_eq
    (hentered : EnumEntered st name sizeInBits variants
      layout.variantLayouts (leastOffset k.bits layout.variantLayouts) cs)
    (hlookup : st.lookup (aggrTag name) =
      some (Aggr.symbol name (some prettyName) (.struct name cs)))
    {p : VariantDef Ty × Layout} (hp : p ∈ variants.zip layout.variantLayouts)
    {q : (String × Ty) × ℕ} (hq : q ∈ p.1.fields.zip p.2.offsets) :
    enumFieldOffset st (Typ.mkStructTag name) p.1.name q.1.1 = some q.2 := by
  obtain ⟨caseCs, fields, hcase, hfilled, hfields⟩ := hentered.cases p hp
  have hstruct := lookupFieldsInType_of_lookup (k := .struct) hlookup
  have hunion := lookupFieldsInType_of_lookup (k := .union) hentered.union
  have hcaseStruct := lookupFieldsInType_of_lookup (k := .struct) hcase
  have hcases := SymbolTable.lookupFieldTypeInType_of_mem hstruct hentered.filled.unique
    hentered.cases_mem
  have hvariant : st.lookupFieldTypeInType (Typ.mkUnionTag (name ++ "-union")) p.1.name =
      some (Typ.mkStructTag (caseName (name ++ "-union") p.1)) :=
    SymbolTable.lookupFieldTypeInType_of_mem hunion
      (by simpa [Function.comp_def] using h.unique)
      (List.mem_map.mpr ⟨p.1, (List.of_mem_zip hp).1, rfl⟩)
  have hbase := hentered.filled.placed ("cases", leastOffset k.bits layout.variantLayouts) (by simp)
  have hoffset := hfilled.placed _ (hfields q hq)
  have hle := leastOffset_le k.bits (List.of_mem_zip hp).2 (List.of_mem_zip hq).2
  simp only [Aggr.tag] at hstruct hcaseStruct hcases
  simp only [enumFieldOffset, hstruct, hbase, hcases, hvariant, hcaseStruct, hoffset,
    some_bind, Option.pure_def, Option.some.injEq]
  omega

end

variable {tag : Primitive}

lemma codegenEnum_of_direct (h : layout.variants = .multiple tag .direct) :
    codegenEnum codegenTy sizeInBits name prettyName variants layout =
      ensureStruct name (some prettyName) fun name =>
        codegenDirectEnum codegenTy sizeInBits name tag variants layout.variantLayouts := by
  simp only [codegenEnum, h]

variable (codegenTy sizeInBits prettyName variants) in
/-- A union name that starts like a tag is refused, and with it the enum. -/
lemma codegenEnum_eq_none (h : layout.variants = .multiple tag .direct)
    (hname : startsWithTag (name ++ "-union") = true) (hnew : st.lookup (aggrTag name) = none) :
    codegenEnum codegenTy sizeInBits name prettyName variants layout st = none := by
  have hunion : ∀ initialOffset st', codegenEnumCasesUnion codegenTy sizeInBits name variants
      layout.variantLayouts initialOffset st' = none := by
    intro initialOffset st'
    rw [codegenEnumCasesUnion, ensureUnion, ensureAggr_eq_none hname]
  have hdirect : ∀ st', codegenDirectEnum codegenTy sizeInBits name tag variants
      layout.variantLayouts st' = none := by
    intro st'
    simp [codegenDirectEnum, hunion]
  have hcontains : st.contains (aggrTag name) = false :=
    SymbolTable.contains_eq_false_iff.mpr hnew
  rw [codegenEnum_of_direct h]
  simp [ensureStruct, ensureAggr, hcontains, hdirect]

variable (prettyName) in
/-- The struct of an enum with a direct tag: its end is that of the largest case, and its fields
are at their offsets. -/
lemma exists_codegenEnum (h : DirectWellFormed sizeInBits variants layout k signed)
    (hname : startsWithTag (name ++ "-union") = false)
    (hty : ∀ v ∈ variants, ∀ fld ∈ v.fields,
      TySized codegenTy sizeInBits (IsEnumTag name variants) st fld.2)
    (hnew : ∀ x, IsEnumTag name variants x → st.lookup x = none) :
    ∃ st', codegenEnum codegenTy sizeInBits name prettyName variants layout st =
        some (Typ.mkStructTag name, st') ∧
      (Typ.mkStructTag name).sizeofInBits st' = some (largestCase sizeInBits
        (leastOffset k.bits layout.variantLayouts) variants layout.variantLayouts) ∧
      ∀ p ∈ variants.zip layout.variantLayouts, ∀ q ∈ p.1.fields.zip p.2.offsets,
        enumFieldOffset st' (Typ.mkStructTag name) p.1.name q.1.1 = some q.2 := by
  have hname' : startsWithTag name = false := by
    cases htag : startsWithTag name with
    | false => rfl
    | true => simp [startsWithTag_append_of_true htag] at hname
  have hnone := hnew _ (.inl rfl)
  have hst₁ := (Keeps.refl st).set (s := Aggr.symbol name (some prettyName)
    (Aggr.struct.incompleteTyp name)) hnone
  obtain ⟨cs, st₂, hgen, hkeeps, hentered⟩ := exists_codegenDirectEnum h hname hty hst₁
    (by
      rw [SymbolTable.lookup_set_of_ne _
        (aggrTag_ne_of_length (by rw [length_append_union]; omega))]
      exact hnew _ (.inr (.inl rfl)))
    (fun v hv => by
      rw [SymbolTable.lookup_set_of_ne _
        (aggrTag_ne_of_length (by rw [length_caseName, length_append_union]; omega))]
      exact hnew _ (.inr (.inr ⟨v, hv, rfl⟩)))
  obtain ⟨st', hensure, -, hle, hlookup, hother⟩ := exists_ensureAggr .struct (some prettyName)
    (fun name => codegenDirectEnum codegenTy sizeInBits name (.int k signed) variants
      layout.variantLayouts) hname' hnone hgen hkeeps hentered.filled.unique
  have hentered' := hentered.mono hle hother
  refine ⟨st', ?_, ?_, ?_⟩
  · exact (congrFun (codegenEnum_of_direct h.variants_eq) st).trans hensure
  · exact (sizeofInBits_of_lookup (k := .struct) hlookup).trans hentered'.filled.size
  · exact fun p hp q hq => hentered'.enumFieldOffset_eq h hlookup hp hq

variable (codegenTy sizeInBits st name prettyName variants layout) in
/-- The translation gives the enum a struct of the enum's size, with every field of every variant
at its offset. -/
def FaithfulEnum : Prop :=
  ∃ t st', codegenEnum codegenTy sizeInBits name prettyName variants layout st = some (t, st') ∧
    t.sizeofInBits st' = some layout.size ∧
    ∀ p ∈ variants.zip layout.variantLayouts, ∀ q ∈ p.1.fields.zip p.2.offsets,
      enumFieldOffset st' t p.1.name q.1.1 = some q.2

end Enum

/-! ### Enums of plain types -/

section

omit [Ranked String]

variable {sizeInBits : Ty → ℕ} {fld : String × Ty}

lemma arranged_singleton (h : ¬ IsPadName fld.1) :
    Arranged sizeInBits [fld] [o] [0] where
  length_eq := rfl
  perm := .refl _
  increasing := by
    intro i j m n o o' fld hm hn hlt
    have hm' := List.mem_of_getElem? hm
    have hn' := List.mem_of_getElem? hn
    simp only [List.mem_singleton] at hm' hn'
    omega
  unique := by simp
  notPad := by simpa using h

lemma caseWellFormed_singleton (e : ℕ) (h : ¬ IsPadName fld.1) (hle : tagBits ≤ o) :
    CaseWellFormed sizeInBits tagBits ⟨name, [fld]⟩ ⟨.arbitrary [o] [0], 2 ^ e⟩ where
  arranged := ⟨[0], rfl, arranged_singleton h⟩
  tag_le := by simpa [Layout.offsets] using hle
  align_pow := ⟨e, rfl⟩

end

end Rmc.Codegen

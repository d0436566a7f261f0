import Rmc.Lib.OrdMap
import Rmc.Lib.PartialFix
import Rmc.Mir.Ty
import Rmc.Lib.Checked

/-!
# The unsized tail of a struct

A pointer to a struct is cast to a pointer to the same struct with a trait object as its tail. The
vtable that goes with it is found by a search through both types in lockstep
(`nested_pair_of_concrete_and_trait_types` in `rvalue.rs`). The search is written for structs of
numbers, pointers and further structs: it ends in a panic at a sibling of the tail with any other
type in it, and finds the tail otherwise (`nestedPair_eq_iff`).
-/

namespace Rmc.Codegen

open OrdMap PartialFix Mir

/-! ### At most one match -/

section Unique

variable {α β : Type} {f g : α → Option (Option β)} {l : List α}

/-- The match of `a` joins the match so far; there may not be two. -/
def joinMatch (f : α → Option (Option β)) (matching : Option β) (a : α) : Option (Option β) := do
  let found ← f a
  if found.isSome then
    guard matching.isNone
    return found
  else return matching

lemma joinMatch_eq_some {matching r : Option β} {a : α} :
    joinMatch f matching a = some r ↔ (f a = some none ∧ matching = r) ∨
      ∃ b, f a = some (some b) ∧ matching = none ∧ some b = r := by
  unfold joinMatch
  rcases f a with _ | _ | b
  · simp
  · simp
  · cases matching <;> simp

/-- After a match nothing else matches. -/
lemma foldlM_joinMatch_some {b : β} {r : Option β} :
    l.foldlM (joinMatch f) (some b) = some r ↔ r = some b ∧ ∀ a ∈ l, f a = some none := by
  induction l with
  | nil => simp [eq_comm]
  | cons a l ih =>
    simp only [List.foldlM_cons, bind_eq_some, joinMatch_eq_some, List.forall_mem_cons]
    constructor
    · rintro ⟨m, ⟨ha, rfl⟩ | ⟨_, _, hm, _⟩, hl⟩
      · obtain ⟨hr, hl⟩ := ih.mp hl
        exact ⟨hr, ha, hl⟩
      · cases hm
    · rintro ⟨hr, ha, hl⟩
      exact ⟨some b, .inl ⟨ha, rfl⟩, ih.mpr ⟨hr, hl⟩⟩

lemma foldlM_joinMatch_eq_none :
    l.foldlM (joinMatch f) none = some none ↔ ∀ a ∈ l, f a = some none := by
  induction l with
  | nil => simp
  | cons a l ih =>
    simp only [List.foldlM_cons, bind_eq_some, joinMatch_eq_some, List.forall_mem_cons]
    constructor
    · rintro ⟨m, ⟨ha, rfl⟩ | ⟨b, _, _, rfl⟩, hl⟩
      · exact ⟨ha, ih.mp hl⟩
      · cases (foldlM_joinMatch_some.mp hl).1
    · rintro ⟨ha, hl⟩
      exact ⟨none, .inl ⟨ha, rfl⟩, ih.mpr hl⟩

lemma foldlM_joinMatch_eq_some {b : β} :
    l.foldlM (joinMatch f) none = some (some b) ↔ ∃ l₁ a l₂, l = l₁ ++ a :: l₂ ∧
      f a = some (some b) ∧ ∀ x ∈ l₁ ++ l₂, f x = some none := by
  induction l with
  | nil => simp
  | cons a l ih =>
    simp only [List.foldlM_cons, bind_eq_some, joinMatch_eq_some]
    constructor
    · rintro ⟨m, ⟨ha, rfl⟩ | ⟨b', ha, _, rfl⟩, hl⟩
      · obtain ⟨l₁, a', l₂, rfl, ha', hothers⟩ := ih.mp hl
        exact ⟨a :: l₁, a', l₂, rfl, ha', List.forall_mem_cons.mpr ⟨ha, hothers⟩⟩
      · obtain ⟨hb, hothers⟩ := foldlM_joinMatch_some.mp hl
        cases hb
        exact ⟨[], a, l, rfl, ha, hothers⟩
    · rintro ⟨l₁, a', l₂, hl, ha', hothers⟩
      cases l₁ with
      | nil =>
        cases hl
        exact ⟨some b, .inr ⟨b, ha', trivial, rfl⟩, foldlM_joinMatch_some.mpr ⟨rfl, hothers⟩⟩
      | cons a'' l₁ =>
        cases hl
        rw [List.cons_append, List.forall_mem_cons] at hothers
        exact ⟨none, .inl ⟨hothers.1, rfl⟩, ih.mpr ⟨l₁, a', l₂, rfl, ha', hothers.2⟩⟩

/-- Without an answer there is no result. -/
lemma foldlM_joinMatch_of_mem {a : α} (ha : a ∈ l) (hnone : f a = none) (m : Option β) :
    l.foldlM (joinMatch f) m = none := by
  induction l generalizing m with
  | nil => cases ha
  | cons a' l ih =>
    rcases List.mem_cons.mp ha with rfl | ha
    · simp [joinMatch, hnone]
    · rw [List.foldlM_cons, Option.bind_eq_bind, Option.bind_eq_none_iff]
      exact fun m' _ => ih ha m'

lemma foldlM_joinMatch_mono (h : ∀ a ∈ l, ∀ r, f a = some r → g a = some r) {m r : Option β}
    (hl : l.foldlM (joinMatch f) m = some r) : l.foldlM (joinMatch g) m = some r := by
  induction l generalizing m with
  | nil => exact hl
  | cons a l ih =>
    rw [List.forall_mem_cons] at h
    simp only [List.foldlM_cons, bind_eq_some, joinMatch_eq_some] at hl ⊢
    obtain ⟨m', ha, hl⟩ := hl
    refine ⟨m', ?_, ih h.2 hl⟩
    rcases ha with ⟨ha, hm⟩ | ⟨b, ha, hm⟩
    · exact .inl ⟨h.1 _ ha, hm⟩
    · exact .inr ⟨b, h.1 _ ha, hm⟩

end Unique

/-! ### The search -/

section Search

variable {Ty : Type} (tcx : TyCtxt Ty) [Ranked String]

/-- The fields of an ADT with one variant. -/
def mirStructFieldTypes (structType : Ty) : Option (OrdMap String Ty) :=
  match tcx.kind structType with
  | .adt adtDef =>
    match adtDef.variants with
    | [variant] => some (variant.fields.foldl (fun m field => m.insert field.1 field.2) .empty)
    | _ => none
  | _ => none

/-- One call of the search, with `rec` for the calls that it makes. `none` is a panic. -/
def nestedPairStep (rec : Ty × Ty → Option (Option (Ty × Ty))) (types : Ty × Ty) :
    Option (Option (Ty × Ty)) :=
  let (srcMirType, dstMirType) := types
  if (tcx.kind dstMirType).isPrimitive || (tcx.kind dstMirType).isPointer then some none
  else match tcx.kind srcMirType, tcx.kind dstMirType with
    | _, .dynamic => some (some (srcMirType, dstMirType))
    | .adt _, .adt _ => do
      let srcFields ← mirStructFieldTypes tcx srcMirType
      let dstFields ← mirStructFieldTypes tcx dstMirType
      let keys := srcFields.entries.map Prod.fst
      guard (keys = dstFields.entries.map Prod.fst)
      keys.foldlM (joinMatch fun field => do
        rec (← srcFields.get? field, ← dstFields.get? field)) none
    | _, _ => none

/-- The pair of the concrete type and the trait type that goes with it, in two types; `fuel` bounds
the depth of the recursion. -/
def nestedPairOfConcreteAndTraitTypes (fuel : ℕ) (srcMirType dstMirType : Ty) :
    Option (Option (Ty × Ty)) :=
  approx (nestedPairStep tcx) fuel (srcMirType, dstMirType)

end Search

/-! ### What the search goes through -/

section Tail

variable {Ty : Type} (tcx : TyCtxt Ty)

/-- The fields of a struct. -/
def IsStruct (t : Ty) (fields : List (String × Ty)) : Prop :=
  ∃ adtDef variant, tcx.kind t = .adt adtDef ∧ adtDef.kind = .struct ∧
    adtDef.variants = [variant] ∧ variant.fields = fields

/-- `dst` is `src` with the trait object `traitType` in place of its last field of type `concrete`,
or in place of the last field of its last field, and so on. The other fields on the way, of the same
types in both, are `siblings`. -/
inductive UnsizedTail : (src dst : Ty) → (siblings : List Ty) → (concrete traitType : Ty) → Prop
  | last {src dst concrete traitType : Ty} {prefixFields : List (String × Ty)} {name : String}
      (hsrc : IsStruct tcx src (prefixFields ++ [(name, concrete)]))
      (hdst : IsStruct tcx dst (prefixFields ++ [(name, traitType)]))
      (htrait : tcx.kind traitType = .dynamic) :
      UnsizedTail src dst (prefixFields.map Prod.snd) concrete traitType
  | nested {src dst src' dst' concrete traitType : Ty} {prefixFields : List (String × Ty)}
      {name : String} {siblings : List Ty}
      (hsrc : IsStruct tcx src (prefixFields ++ [(name, src')]))
      (hdst : IsStruct tcx dst (prefixFields ++ [(name, dst')]))
      (htail : UnsizedTail src' dst' siblings concrete traitType) :
      UnsizedTail src dst (prefixFields.map Prod.snd ++ siblings) concrete traitType

/-- Nothing but numbers, pointers, and ADTs with one variant of such types. -/
inductive Plain : Ty → Prop
  | primitive {t : Ty} (h : (tcx.kind t).isPrimitive = true) : Plain t
  | pointer {t : Ty} (h : (tcx.kind t).isPointer = true) : Plain t
  | adt {t : Ty} {adtDef : AdtDef Ty} {variant : Mir.VariantDef Ty} (h : tcx.kind t = .adt adtDef)
      (hvariants : adtDef.variants = [variant])
      (hfields : ∀ field ∈ variant.fields, Plain field.2) : Plain t

variable {tcx} [Ranked String]

lemma exists_mirStructFieldTypes {t : Ty} {adtDef : AdtDef Ty} {variant : Mir.VariantDef Ty}
    (h : tcx.kind t = .adt adtDef) (hvariants : adtDef.variants = [variant]) :
    ∃ m, mirStructFieldTypes tcx t = some m ∧
      ∀ field ty, m.get? field = some ty ↔ (field, ty) ∈ variant.fields := by
  refine ⟨_, by rw [mirStructFieldTypes, h]; simp only [hvariants]; rfl, fun field ty => ?_⟩
  rw [get?_foldl_insert variant.distinct]
  simp

lemma mono_nestedPairStep : Mono (nestedPairStep tcx) := by
  rintro f g hfg ⟨src, dst⟩ r hr
  unfold nestedPairStep at hr ⊢
  dsimp only at hr ⊢
  split_ifs at hr ⊢ with hend
  · exact hr
  split at hr
  · exact hr
  · simp only [bind_eq_some] at hr ⊢
    obtain ⟨srcFields, hsrc, dstFields, hdst, hkeys, hguard, hr⟩ := hr
    refine ⟨srcFields, hsrc, dstFields, hdst, hkeys, hguard, foldlM_joinMatch_mono ?_ hr⟩
    intro field _ r hr
    simp only [bind_eq_some] at hr ⊢
    obtain ⟨s, hs, d, hd, hr⟩ := hr
    exact ⟨s, hs, d, hd, hfg _ _ hr⟩
  · cases hr

lemma nestedPair_mono {src dst : Ty} {r : Option (Ty × Ty)} {m n : ℕ} (hmn : m ≤ n)
    (h : nestedPairOfConcreteAndTraitTypes tcx m src dst = some r) :
    nestedPairOfConcreteAndTraitTypes tcx n src dst = some r :=
  approx_extends mono_nestedPairStep hmn _ _ h

/-- Two ADTs with the same field names are searched field by field. -/
lemma exists_nestedPairStep_adt {src dst : Ty} {srcDef dstDef : AdtDef Ty}
    {srcVariant dstVariant : Mir.VariantDef Ty} (hsrc : tcx.kind src = .adt srcDef)
    (hdst : tcx.kind dst = .adt dstDef) (hsrcVariants : srcDef.variants = [srcVariant])
    (hdstVariants : dstDef.variants = [dstVariant])
    (hnames : srcVariant.fields.map Prod.fst = dstVariant.fields.map Prod.fst)
    (rec : Ty × Ty → Option (Option (Ty × Ty))) :
    ∃ (keys : List String) (f : String → Option (Option (Ty × Ty))),
      nestedPairStep tcx rec (src, dst) = keys.foldlM (joinMatch f) none ∧
      keys.Nodup ∧ (∀ k, k ∈ keys ↔ k ∈ srcVariant.fields.map Prod.fst) ∧
      ∀ k s d, (k, s) ∈ srcVariant.fields → (k, d) ∈ dstVariant.fields → f k = rec (s, d) := by
  obtain ⟨srcFields, hsrcFields, hsrcGet⟩ := exists_mirStructFieldTypes hsrc hsrcVariants
  obtain ⟨dstFields, hdstFields, hdstGet⟩ := exists_mirStructFieldTypes hdst hdstVariants
  have hmem : ∀ k, (∃ v, srcFields.get? k = some v) ↔ k ∈ srcVariant.fields.map Prod.fst := by
    intro k
    simp [hsrcGet]
  have hkeys : srcFields.entries.map Prod.fst = dstFields.entries.map Prod.fst := by
    refine map_fst_entries_eq fun k => ?_
    rw [hmem, hnames]
    simp [hdstGet]
  refine ⟨srcFields.entries.map Prod.fst, fun field => do
    rec (← srcFields.get? field, ← dstFields.get? field), ?_, srcFields.ascending.nodup_keys,
    ?_, ?_⟩
  · simp [nestedPairStep, hsrc, hdst, TyKind.isPrimitive, TyKind.isPointer, hsrcFields, hdstFields,
      hkeys]
  · exact fun k => mem_map_fst_entries.trans (hmem k)
  · intro k s d hs hd
    simp [(hsrcGet k s).mpr hs, (hdstGet k d).mpr hd]

/-! ### Types that are passed over -/

/-- An ADT is passed over when all its fields are. -/
lemma nestedPairStep_self_eq_none_iff {t : Ty} {adtDef : AdtDef Ty} {variant : Mir.VariantDef Ty}
    (h : tcx.kind t = .adt adtDef) (hvariants : adtDef.variants = [variant])
    {rec : Ty × Ty → Option (Option (Ty × Ty))} :
    nestedPairStep tcx rec (t, t) = some none ↔
      ∀ field ∈ variant.fields, rec (field.2, field.2) = some none := by
  obtain ⟨keys, f, hstep, -, hkeys, hf⟩ :=
    exists_nestedPairStep_adt h h hvariants hvariants rfl rec
  rw [hstep, foldlM_joinMatch_eq_none]
  constructor
  · intro hall field hfield
    rw [← hf field.1 field.2 field.2 hfield hfield]
    exact hall _ ((hkeys _).mpr (List.mem_map_of_mem hfield))
  · intro hall k hk
    obtain ⟨field, hfield, rfl⟩ := List.mem_map.mp ((hkeys k).mp hk)
    rw [hf field.1 field.2 field.2 hfield hfield]
    exact hall field hfield

/-- One depth is enough for finitely many types. -/
lemma exists_forall_nestedPair_self {tys : List Ty}
    (h : ∀ t ∈ tys, ∃ n, nestedPairOfConcreteAndTraitTypes tcx n t t = some none) :
    ∃ n, ∀ t ∈ tys, nestedPairOfConcreteAndTraitTypes tcx n t t = some none := by
  induction tys with
  | nil => exact ⟨0, by simp⟩
  | cons t tys ih =>
    rw [List.forall_mem_cons] at h
    obtain ⟨m, hm⟩ := h.1
    obtain ⟨n, hn⟩ := ih h.2
    refine ⟨max m n, List.forall_mem_cons.mpr ⟨?_, fun t ht => ?_⟩⟩
    · exact nestedPair_mono (le_max_left m n) hm
    · exact nestedPair_mono (le_max_right m n) (hn t ht)

lemma Plain.exists_nestedPair {t : Ty} (h : Plain tcx t) :
    ∃ n, nestedPairOfConcreteAndTraitTypes tcx n t t = some none := by
  induction h with
  | primitive h => exact ⟨1, by simp [nestedPairOfConcreteAndTraitTypes, approx, nestedPairStep, h]⟩
  | pointer h => exact ⟨1, by simp [nestedPairOfConcreteAndTraitTypes, approx, nestedPairStep, h]⟩
  | @adt t adtDef variant h hvariants _ ih =>
    have hall : ∀ t ∈ variant.fields.map Prod.snd,
        ∃ n, nestedPairOfConcreteAndTraitTypes tcx n t t = some none :=
      List.forall_mem_map.mpr ih
    obtain ⟨n, hn⟩ := exists_forall_nestedPair_self hall
    refine ⟨n + 1, (nestedPairStep_self_eq_none_iff h hvariants).mpr fun field hfield => ?_⟩
    exact hn _ (List.mem_map_of_mem hfield)

lemma plain_of_nestedPair {n : ℕ} {t : Ty}
    (h : nestedPairOfConcreteAndTraitTypes tcx n t t = some none) : Plain tcx t := by
  induction n generalizing t with
  | zero => cases h
  | succ n ih =>
    change nestedPairStep tcx (approx (nestedPairStep tcx) n) (t, t) = some none at h
    by_cases hprimitive : (tcx.kind t).isPrimitive = true
    · exact .primitive hprimitive
    by_cases hpointer : (tcx.kind t).isPointer = true
    · exact .pointer hpointer
    cases hkind : tcx.kind t with
    | adt adtDef =>
      cases hvariants : adtDef.variants with
      | nil => simp [nestedPairStep, hkind, TyKind.isPrimitive, TyKind.isPointer,
          mirStructFieldTypes, hvariants] at h
      | cons variant variants =>
        cases variants with
        | nil =>
          rw [nestedPairStep_self_eq_none_iff hkind hvariants] at h
          exact .adt hkind hvariants fun field hfield => ih (h field hfield)
        | cons variant' variants => simp [nestedPairStep, hkind, TyKind.isPrimitive,
            TyKind.isPointer, mirStructFieldTypes, hvariants] at h
    | _ => simp_all [nestedPairStep, TyKind.isPrimitive, TyKind.isPointer]

/-! ### The tail -/

/-- The fields of two structs that differ in the type of the last one. A search that finds something
in the last field has found it when the other fields are passed over. -/
lemma nestedPairStep_last {src dst src' dst' : Ty} {prefixFields : List (String × Ty)}
    {name : String} (hsrc : IsStruct tcx src (prefixFields ++ [(name, src')]))
    (hdst : IsStruct tcx dst (prefixFields ++ [(name, dst')]))
    {rec : Ty × Ty → Option (Option (Ty × Ty))} (hrec : rec (src', dst') ≠ some none) :
    nestedPairStep tcx rec (src, dst) ≠ some none ∧ ∀ pair,
      nestedPairStep tcx rec (src, dst) = some (some pair) ↔ rec (src', dst') = some (some pair) ∧
        ∀ t ∈ prefixFields.map Prod.snd, rec (t, t) = some none := by
  obtain ⟨srcDef, srcVariant, hsrcKind, -, hsrcVariants, hsrcFields⟩ := hsrc
  obtain ⟨dstDef, dstVariant, hdstKind, -, hdstVariants, hdstFields⟩ := hdst
  obtain ⟨keys, f, hstep, hnodup, hkeys, hf⟩ := exists_nestedPairStep_adt hsrcKind hdstKind
    hsrcVariants hdstVariants (by simp [hsrcFields, hdstFields]) rec
  have hlast : f name = rec (src', dst') :=
    hf name src' dst' (by simp [hsrcFields]) (by simp [hdstFields])
  have hmem : name ∈ keys := (hkeys name).mpr (by simp [hsrcFields])
  have hsibling : ∀ field ∈ prefixFields, f field.1 = rec (field.2, field.2) := fun field hfield =>
    hf field.1 field.2 field.2 (by simp [hsrcFields, hfield]) (by simp [hdstFields, hfield])
  have hdistinct : name ∉ prefixFields.map Prod.fst := by
    have := srcVariant.distinct
    rw [hsrcFields, List.map_append, List.nodup_append'] at this
    simpa using this.2.2.symm
  rw [hstep]
  refine ⟨fun hnone => hrec ?_, fun pair => ?_⟩
  · rw [← hlast]
    exact foldlM_joinMatch_eq_none.mp hnone name hmem
  rw [foldlM_joinMatch_eq_some]
  constructor
  · rintro ⟨l₁, k, l₂, rfl, hk, hothers⟩
    -- what is found is found in the last field, as that one is not passed over
    have hkname : k = name := by
      by_contra hne
      refine hrec (hlast ▸ hothers name ?_)
      simpa [Ne.symm hne] using hmem
    subst hkname
    refine ⟨hlast ▸ hk, List.forall_mem_map.mpr fun field hfield => ?_⟩
    rw [← hsibling field hfield]
    refine hothers _ ?_
    have hne : field.1 ≠ k := fun heq => hdistinct (heq ▸ List.mem_map_of_mem hfield)
    have hfieldMem : field.1 ∈ l₁ ++ k :: l₂ :=
      (hkeys _).mpr (by
        rw [hsrcFields, List.map_append]
        exact List.mem_append_left _ (List.mem_map_of_mem hfield))
    simpa [hne] using hfieldMem
  · rintro ⟨hpair, hsiblings⟩
    obtain ⟨l₁, l₂, rfl⟩ := List.append_of_mem hmem
    refine ⟨l₁, name, l₂, rfl, hlast ▸ hpair, fun k hk => ?_⟩
    have hne : k ≠ name := by
      rintro rfl
      rw [List.nodup_middle, List.nodup_cons] at hnodup
      exact hnodup.1 hk
    have hkMem : k ∈ srcVariant.fields.map Prod.fst :=
      (hkeys k).mp (by
        rw [List.mem_append, List.mem_cons]
        exact (List.mem_append.mp hk).imp_right .inr)
    rw [hsrcFields, List.map_append, List.mem_append] at hkMem
    obtain ⟨field, hfield, rfl⟩ := List.mem_map.mp (hkMem.resolve_right (by simpa using hne))
    rw [hsibling field hfield]
    exact hsiblings _ (List.mem_map_of_mem hfield)

lemma nestedPair_dynamic {concrete traitType : Ty} (htrait : tcx.kind traitType = .dynamic)
    (n : ℕ) : nestedPairOfConcreteAndTraitTypes tcx (n + 1) concrete traitType =
      some (some (concrete, traitType)) := by
  simp [nestedPairOfConcreteAndTraitTypes, approx, nestedPairStep, htrait, TyKind.isPrimitive,
    TyKind.isPointer]

lemma nestedPair_dynamic_ne_none {concrete traitType : Ty} (htrait : tcx.kind traitType = .dynamic)
    (n : ℕ) : nestedPairOfConcreteAndTraitTypes tcx n concrete traitType ≠ some none := by
  cases n with
  | zero => simp [nestedPairOfConcreteAndTraitTypes, approx]
  | succ n => simp [nestedPair_dynamic htrait]

section Last

variable {src dst src' dst' : Ty} {prefixFields : List (String × Ty)} {name : String}

lemma nestedPair_last_ne_none (hsrc : IsStruct tcx src (prefixFields ++ [(name, src')]))
    (hdst : IsStruct tcx dst (prefixFields ++ [(name, dst')]))
    (hne : ∀ n, nestedPairOfConcreteAndTraitTypes tcx n src' dst' ≠ some none) (n : ℕ) :
    nestedPairOfConcreteAndTraitTypes tcx n src dst ≠ some none := by
  cases n with
  | zero => simp [nestedPairOfConcreteAndTraitTypes, approx]
  | succ n => exact (nestedPairStep_last hsrc hdst (hne n)).1

lemma exists_nestedPair_last_iff (hsrc : IsStruct tcx src (prefixFields ++ [(name, src')]))
    (hdst : IsStruct tcx dst (prefixFields ++ [(name, dst')]))
    (hne : ∀ n, nestedPairOfConcreteAndTraitTypes tcx n src' dst' ≠ some none) {pair : Ty × Ty} :
    (∃ n, nestedPairOfConcreteAndTraitTypes tcx n src dst = some (some pair)) ↔
      (∃ n, nestedPairOfConcreteAndTraitTypes tcx n src' dst' = some (some pair)) ∧
        ∀ t ∈ prefixFields.map Prod.snd, Plain tcx t := by
  constructor
  · rintro ⟨n, hn⟩
    cases n with
    | zero => cases hn
    | succ n =>
      obtain ⟨hpair, hsiblings⟩ := ((nestedPairStep_last hsrc hdst (hne n)).2 pair).mp hn
      exact ⟨⟨n, hpair⟩, fun t ht => plain_of_nestedPair (hsiblings t ht)⟩
  · rintro ⟨⟨m, hm⟩, hplain⟩
    obtain ⟨n, hn⟩ := exists_forall_nestedPair_self fun t ht => (hplain t ht).exists_nestedPair
    -- the search of the struct is one call deeper than those of its fields
    refine ⟨max m n + 1, ((nestedPairStep_last hsrc hdst (hne _)).2 pair).mpr ⟨?_, fun t ht => ?_⟩⟩
    · exact nestedPair_mono (le_max_left m n) hm
    · exact nestedPair_mono (le_max_right m n) (hn t ht)

end Last

/-- Two types with such a tail are never passed over. -/
lemma UnsizedTail.nestedPair_ne_none {src dst concrete traitType : Ty} {siblings : List Ty}
    (h : UnsizedTail tcx src dst siblings concrete traitType) :
    ∀ n, nestedPairOfConcreteAndTraitTypes tcx n src dst ≠ some none := by
  induction h with
  | last hsrc hdst htrait =>
    exact nestedPair_last_ne_none hsrc hdst (nestedPair_dynamic_ne_none htrait)
  | nested hsrc hdst _ ih => exact nestedPair_last_ne_none hsrc hdst ih

lemma UnsizedTail.exists_nestedPair_iff {src dst concrete traitType : Ty} {siblings : List Ty}
    (h : UnsizedTail tcx src dst siblings concrete traitType) :
    (∃ n, nestedPairOfConcreteAndTraitTypes tcx n src dst = some (some (concrete, traitType))) ↔
      ∀ t ∈ siblings, Plain tcx t := by
  induction h with
  | last hsrc hdst htrait =>
    rw [exists_nestedPair_last_iff hsrc hdst (nestedPair_dynamic_ne_none htrait)]
    exact and_iff_right ⟨1, nestedPair_dynamic htrait 0⟩
  | nested hsrc hdst htail ih =>
    rw [exists_nestedPair_last_iff hsrc hdst htail.nestedPair_ne_none, ih, List.forall_mem_append,
      and_comm]

end Tail

/-! ### Two fields -/

/-- The types of `struct S<T: ?Sized> { head: H, tail: T }`: `head` is the kind of `H`, which
is the type `0`, and the tail is a `u8` in the type `3` and a trait object in the type `4`. -/
def headAndTail (head : TyKind ℕ) : TyCtxt ℕ where
  kind
    | 0 => head
    | 1 => .uint .u8
    | 2 => .dynamic
    | 3 => .adt ⟨.struct, false, false, [⟨"S", [("head", 0), ("tail", 1)], by decide⟩]⟩
    | 4 => .adt ⟨.struct, false, false, [⟨"S", [("head", 0), ("tail", 2)], by decide⟩]⟩
    | _ => .never

lemma unsizedTail_headAndTail (head : TyKind ℕ) : UnsizedTail (headAndTail head) 3 4 [0] 1 2 :=
  @UnsizedTail.last ℕ (headAndTail head) 3 4 1 2 [("head", 0)] "tail"
    ⟨_, _, rfl, rfl, rfl, rfl⟩ ⟨_, _, rfl, rfl, rfl, rfl⟩ rfl

end Rmc.Codegen

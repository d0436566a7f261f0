import Rmc.Goto.SymbolTable

/-!
# Sizes of types

`Typ.sizeofInBits` follows tags through the symbol table, so on a type that contains itself it
does not end. `none` stands for that as well as for the panics: a type without a size, a tag that
is not in the table, a size that does not fit a `u64`.
-/

namespace Rmc

open OrdMap PartialFix

/-- The size of a machine dependent integer. -/
def CIntType.sizeofInBits (mm : MachineModel) : CIntType → ℕ
  | .bool => mm.boolWidth
  | .char => mm.charWidth
  | .int => mm.intWidth
  | .sizeT => mm.pointerWidth
  | .sSizeT => mm.pointerWidth

mutual

/-- The size of a type, given the sizes of the types that tags name. -/
def Typ.sizeofWith (mm : MachineModel) (tags : String → Option ℕ) : Typ → Option ℕ
  | .array t size => do checkedU64 ((← t.sizeofWith mm tags) * size)
  | .bool => none
  | .cBitField _ _ => none
  | .cInteger k => some (k.sizeofInBits mm)
  | .code _ _ => some 0
  | .constructor => none
  | .double => some mm.doubleWidth
  | .empty => some 0
  | .flexibleArray _ => some 0
  | .float => some mm.floatWidth
  | .incompleteStruct _ => none
  | .incompleteUnion _ => none
  | .infiniteArray _ => none
  | .pointer _ => some mm.pointerWidth
  | .signedbv w => some w
  | .struct _ cs => sizeofSum mm tags cs
  | .structTag tag => tags tag
  | .union _ cs => sizeofMax mm tags cs
  | .unionTag tag => tags tag
  | .unsignedbv w => some w
  | .variadicCode _ _ => none
  | .vector t size => do checkedU64 ((← t.sizeofWith mm tags) * size)

/-- The size of a component; padding is an integer, so it has at least one bit. -/
def DatatypeComponent.sizeofWith (mm : MachineModel) (tags : String → Option ℕ) :
    DatatypeComponent → Option ℕ
  | .field _ t => t.sizeofWith mm tags
  | .padding _ bits => if 0 < bits then some bits else none

/-- The sum of the sizes of the components of a struct. -/
def sizeofSum (mm : MachineModel) (tags : String → Option ℕ) :
    List DatatypeComponent → Option ℕ
  | [] => some 0
  | c :: cs => do checkedU64 ((← c.sizeofWith mm tags) + (← sizeofSum mm tags cs))

/-- The maximum of the sizes of the components of a union. -/
def sizeofMax (mm : MachineModel) (tags : String → Option ℕ) :
    List DatatypeComponent → Option ℕ
  | [] => some 0
  | c :: cs => do return max (← c.sizeofWith mm tags) (← sizeofMax mm tags cs)

end

/-- The tags in a type. -/
def Typ.TagsIn (T : String → Prop) (t : Typ) : Prop :=
  ∀ tag, .structTag tag ∈ t.subTypes ∨ .unionTag tag ∈ t.subTypes → T tag

variable {t : Typ}

section Mono

variable {T : String → Prop} {mm : MachineModel} {tags tags' : String → Option ℕ}
  {F : DatatypeComponent → DatatypeComponent} {cs : List DatatypeComponent} {n : ℕ}

section

variable (h : ∀ c ∈ cs, ∀ m, c.sizeofWith mm tags = some m → (F c).sizeofWith mm tags' = some m)

include h

lemma sizeofSum_map (hcs : sizeofSum mm tags cs = some n) :
    sizeofSum mm tags' (cs.map F) = some n := by
  induction cs generalizing n with
  | nil => exact hcs
  | cons c cs ih =>
    rw [List.forall_mem_cons] at h
    simp only [List.map_cons, sizeofSum, bind_eq_some] at hcs ⊢
    obtain ⟨m, hm, k, hk, hn⟩ := hcs
    exact ⟨m, h.1 m hm, k, ih h.2 hk, hn⟩

lemma sizeofMax_map (hcs : sizeofMax mm tags cs = some n) :
    sizeofMax mm tags' (cs.map F) = some n := by
  induction cs generalizing n with
  | nil => exact hcs
  | cons c cs ih =>
    rw [List.forall_mem_cons] at h
    simp only [List.map_cons, sizeofMax, bind_eq_some] at hcs ⊢
    obtain ⟨m, hm, k, hk, hn⟩ := hcs
    exact ⟨m, h.1 m hm, k, ih h.2 hk, hn⟩

end

lemma Typ.TagsIn.of_mem_parts {u : Typ} (h : t.TagsIn T) (hu : u ∈ t.parts) : u.TagsIn T := by
  have hsub : u.subTypes ⊆ t.subTypes := by
    intro v hv
    rw [t.subTypes_eq]
    exact List.mem_cons_of_mem _ (List.mem_flatMap.2 ⟨u, hu, hv⟩)
  exact fun tag htag => h tag (htag.imp (@hsub _) (@hsub _))

/-- The size of a type only depends on the sizes of its tags. -/
lemma Typ.sizeofWith_of_tagsIn (htags : ∀ tag n, T tag → tags tag = some n → tags' tag = some n)
    (t : Typ) (hT : t.TagsIn T) (ht : t.sizeofWith mm tags = some n) :
    t.sizeofWith mm tags' = some n := by
  induction t using Typ.induction generalizing n with
  | _ t ih =>
  replace ih := fun u hu {n} => @ih u hu n (hT.of_mem_parts hu)
  cases t with
  | array t size | vector t size =>
    simp only [Typ.sizeofWith, bind_eq_some] at ht ⊢
    obtain ⟨m, hm, hn⟩ := ht
    exact ⟨m, ih t (by simp [Typ.parts]) hm, hn⟩
  | struct tag cs | union tag cs =>
    have hcs : ∀ c ∈ cs, ∀ m, c.sizeofWith mm tags = some m → c.sizeofWith mm tags' = some m := by
      intro c hc m hm
      cases c with
      | field name t => exact ih t (List.mem_filterMap.2 ⟨_, hc, rfl⟩) hm
      | padding name bits => exact hm
    simp only [Typ.sizeofWith] at ht ⊢
    first
    | simpa using sizeofSum_map (F := id) hcs ht
    | simpa using sizeofMax_map (F := id) hcs ht
  | structTag tag => exact htags tag n (hT tag (.inl (Typ.self_mem_subTypes _))) ht
  | unionTag tag => exact htags tag n (hT tag (.inr (Typ.self_mem_subTypes _))) ht
  | _ => exact ht

lemma Typ.sizeofWith_mono (h : Extends tags tags') (t : Typ) (ht : t.sizeofWith mm tags = some n) :
    t.sizeofWith mm tags' = some n :=
  t.sizeofWith_of_tagsIn (T := fun _ => True) (fun tag n _ => h tag n) (fun _ _ => trivial) ht

/-- An incomplete type has no size. -/
lemma Typ.sizeofWith_of_completes {t' : Typ} (h : t'.completes t = true) :
    t.sizeofWith mm tags = none := by
  cases t <;> cases t' <;> simp_all [Typ.completes, Typ.sizeofWith]

end Mono

variable [Ranked String]

/-- One level of following tags through the table. -/
def SymbolTable.sizeofTagStep (st : SymbolTable) (tags : String → Option ℕ) (tag : String) :
    Option ℕ := do
  let s ← st.lookup tag
  s.typ.sizeofWith st.machineModel tags

/-- The sizes of the types that tags name. A chain of tags that ends is no longer than the
table. -/
def SymbolTable.sizeofTag (st : SymbolTable) : String → Option ℕ :=
  approx st.sizeofTagStep st.symbolTable.entries.length

namespace Typ

/-- The size of a type in bits. -/
def sizeofInBits (st : SymbolTable) (t : Typ) : Option ℕ :=
  t.sizeofWith st.machineModel st.sizeofTag

/-- The size of a type in bytes, for a type that has a whole number of them. -/
def sizeof (st : SymbolTable) (t : Typ) : Option ℕ := do
  let bits ← t.sizeofInBits st
  guard (st.machineModel.charWidth ≠ 0)
  guard (bits % st.machineModel.charWidth = 0)
  return bits / st.machineModel.charWidth

end Typ

/-! ### Growth -/

namespace SymbolTable

lemma sizeofTagStep_mono (st : SymbolTable) : Mono st.sizeofTagStep := by
  intro tags tags' h tag n ht
  simp only [sizeofTagStep, bind_eq_some] at ht ⊢
  obtain ⟨s, hs, hn⟩ := ht
  exact ⟨s, hs, Typ.sizeofWith_mono h s.typ hn⟩

/-- Following tags any number of levels gives no more sizes than `sizeofTag` does. -/
lemma approx_sizeofTagStep_extends (st : SymbolTable) (n : ℕ) :
    Extends (approx st.sizeofTagStep n) st.sizeofTag := by
  have hkeys : ∀ f k v, st.sizeofTagStep f k = some v →
      k ∈ st.symbolTable.entries.map Prod.fst := by
    intro f k v h
    simp only [sizeofTagStep, bind_eq_some] at h
    obtain ⟨s, hs, -⟩ := h
    exact List.mem_map.2 ⟨(k, s), OrdMap.mem_entries_iff.2 hs, rfl⟩
  have := approx_extends_approx_length st.sizeofTagStep_mono hkeys n
  rwa [List.length_map] at this

lemma sizeofTag_eq (st : SymbolTable) (tag : String) :
    st.sizeofTag tag = (st.lookup tag).bind fun s => s.typ.sizeofInBits st := by
  have hstep : approx st.sizeofTagStep (st.symbolTable.entries.length + 1) = st.sizeofTag :=
    (st.approx_sizeofTagStep_extends _).antisymm (approx_succ_extends st.sizeofTagStep_mono _)
  exact (congrFun hstep tag).symm

variable {st st' : SymbolTable}

lemma Le.sizeofTag (h : Le st st') : Extends st.sizeofTag st'.sizeofTag := by
  refine (approx_extends_approx st'.sizeofTagStep_mono (fun tags tag n ht => ?_) _).trans
    (st'.approx_sizeofTagStep_extends _)
  simp only [sizeofTagStep, bind_eq_some] at ht ⊢
  obtain ⟨s, hs, hn⟩ := ht
  obtain ⟨s', hs', ht'⟩ := h.lookup hs
  refine ⟨s', hs', ?_⟩
  rcases ht' with ht' | ht'
  · rw [ht', h.machineModel, hn]
  · rw [Typ.sizeofWith_of_completes ht'] at hn
    cases hn

/-- The size of a type does not change when the table grows. -/
lemma Le.sizeofInBits (h : Le st st') {n : ℕ} (ht : t.sizeofInBits st = some n) :
    t.sizeofInBits st' = some n := by
  rw [Typ.sizeofInBits, h.machineModel]
  exact Typ.sizeofWith_mono h.sizeofTag t ht

end SymbolTable

end Rmc

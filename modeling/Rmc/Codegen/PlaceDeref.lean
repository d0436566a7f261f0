import Rmc.Codegen.PlaceDenotes

/-!
# Following pointers

The translation of a `Deref` makes the place that the pointer leads to exactly when the projection
is regular (`deref_iff`). Before that: the structs of fat pointers and boxes as the translation of
types has put them into the symbol table, and what the checks of their shapes say about them.
-/

namespace Rmc.Codegen

open OrdMap Mir TwosComplement ByteMemory

variable [Ranked String] {Ty : Type} {st : SymbolTable} {o : ℕ}

/-! ### Structs in the table -/

namespace StructEntered

variable {t t' : Typ} {cs : List DatatypeComponent} {name : String}

section

variable (h : StructEntered st t cs)

include h

lemma lookupComponentsInType : st.lookupComponentsInType t = some cs := by
  obtain ⟨tag, s, name, rfl, hs, htyp⟩ := h
  simp [SymbolTable.lookupComponentsInType, SymbolTable.lookupComponents, Typ.typeName, hs, htyp,
    Typ.components]

lemma lookupFieldsInType : st.lookupFieldsInType t = some cs :=
  h.lookupComponentsInType

lemma isStructLike : t.isStructLike = true := by
  obtain ⟨tag, s, name, rfl, -⟩ := h
  rfl

lemma lookupFieldTypeInType (field : String) :
    st.lookupFieldTypeInType t field =
      (cs.find? fun c => c.name == field).bind DatatypeComponent.fieldTyp := by
  obtain ⟨tag, s, name, rfl, hs, htyp⟩ := h
  simp [SymbolTable.lookupFieldTypeInType, SymbolTable.lookupFieldType,
    SymbolTable.lookupComponents, Typ.typeName, hs, htyp, Typ.components]

variable {bits : ℕ}

lemma fieldOffset_eq (hbits : fieldOffsetInBits st cs name = some bits) (hbyte : bits % 8 = 0) :
    fieldOffset st t name = some (bits / 8) := by
  have hfields := h.lookupFieldsInType
  obtain ⟨tag, s, name, rfl, -⟩ := h
  simp [fieldOffset, hfields, Typ.isUnionTag, hbits, hbyte]

/-- A field of a struct, by its place among the components. -/
lemma hasField (hfind : (cs.find? fun c => c.name == name) = some (.field name t'))
    (hbits : fieldOffsetInBits st cs name = some bits) (hbyte : bits % 8 = 0) :
    HasField st t name t' (bits / 8) := by
  refine ⟨?_, ?_, h.fieldOffset_eq hbits hbyte⟩
  · obtain ⟨tag, s, name, rfl, -⟩ := h
    exact .inl rfl
  · rw [h.lookupFieldTypeInType, hfind]
    rfl

lemma hasField_of_mem (hnames : (cs.map DatatypeComponent.name).Nodup)
    (hmem : .field name t' ∈ cs) (ho : fieldOffset st t name = some o) :
    HasField st t name t' o := by
  refine ⟨?_, SymbolTable.lookupFieldTypeInType_of_mem h.lookupFieldsInType hnames hmem, ho⟩
  obtain ⟨tag, s, name, rfl, -⟩ := h
  exact .inl rfl

lemma resolveTag_eq : ∃ name, resolveTag st t = some (.struct name cs) := by
  obtain ⟨tag, s, name, rfl, hs, htyp⟩ := h
  exact ⟨name, by simp [resolveTag, hs, htyp]⟩

end

end StructEntered

variable {t : Typ} {cs : List DatatypeComponent}

lemma StructEntered.fieldIndex_eq (h : StructEntered st t cs)
    (hnames : (cs.map DatatypeComponent.name).Nodup) {i : ℕ} {c : DatatypeComponent}
    (hi : cs[i]? = some c) :
    st.fieldIndex t c.name = some i := by
  obtain ⟨hlt, rfl⟩ := List.getElem?_eq_some_iff.mp hi
  simp only [SymbolTable.fieldIndex, h.lookupFieldsInType, some_bind]
  rw [List.findIdx?_eq_some_iff_getElem]
  refine ⟨hlt, by simp, ?_⟩
  intro j hj heq
  have hname : cs[j].name = cs[i].name := by simpa using heq
  have hji : j = i := by
    have hilt : i < (cs.map DatatypeComponent.name).length := by simpa using hlt
    have hjlt : j < (cs.map DatatypeComponent.name).length := hj.trans hilt
    refine hnames.getElem_inj_iff.mp (?_ : (cs.map DatatypeComponent.name)[j] =
      (cs.map DatatypeComponent.name)[i])
    simpa using hname
  omega

/-- A struct from the values of its fields. Its fields have these values. -/
lemma StructEntered.exists_structExpr
    (h : StructEntered st t cs) (hnames : (cs.map DatatypeComponent.name).Nodup)
    (hpad : ∀ c ∈ cs, c.typ.isSome = true) {components : OrdMap String Expr}
    (hlen : (cs.filter fun x => !x.isPadding).length = components.entries.length)
    (hvalues : ∀ name t', .field name t' ∈ cs →
      ∃ v, components.get? name = some v ∧ (t' == v.typ) = true) :
    ∃ r, Expr.structExpr t components st = some r ∧ r.typ = t ∧
      ∀ name t' v, .field name t' ∈ cs → components.get? name = some v →
        ∃ e, r.member name st = some e ∧ e.typ = t' ∧ ∀ σ, e.eval st σ = v.eval st σ := by
  have htag : t.isStructTag = true := by
    obtain ⟨tag, s, name, rfl, -⟩ := h
    rfl
  obtain ⟨values, hstruct, hmem⟩ :=
    Expr.exists_structExpr htag h.lookupFieldsInType hnames hpad hlen hvalues
  refine ⟨_, hstruct, rfl, ?_⟩
  intro name t' v hfield hv
  obtain ⟨i, hi⟩ := List.mem_iff_getElem?.mp (hmem name t' v hfield hv)
  obtain ⟨hi, hvi⟩ := List.getElem?_zip_eq_some.mp hi
  have hlookup := SymbolTable.lookupFieldTypeInType_of_mem h.lookupFieldsInType hnames hfield
  refine ⟨_, Expr.member_eq_some.mpr ⟨.inl htag, t', hlookup, rfl⟩, rfl, ?_⟩
  intro σ
  have hindex : st.fieldIndex t name = some i := h.fieldIndex_eq hnames hi
  rw [Expr.eval_member_struct hindex, hvi, Option.bind_some]

lemma StructEntered.exists_structExpr_pair {a b : Typ} {x y : String} (hne : x ≠ y)
    (h : StructEntered st t [.field x a, .field y b]) {u w : Expr} (hu : u.typ = a)
    (hw : w.typ = b) :
    ∃ r, Expr.structExpr t ((OrdMap.empty.insert x u).insert y w) st = some r ∧ r.typ = t ∧
      (∃ e, r.member x st = some e ∧ e.typ = a ∧ ∀ σ, e.eval st σ = u.eval st σ) ∧
      ∃ e, r.member y st = some e ∧ e.typ = b ∧ ∀ σ, e.eval st σ = w.eval st σ := by
  have hx : ((OrdMap.empty.insert x u).insert y w).get? x = some u := by
    rw [OrdMap.get?_insert_of_ne _ hne, OrdMap.get?_insert_self]
  have hy : ((OrdMap.empty.insert x u).insert y w).get? y = some w := OrdMap.get?_insert_self _ _ _
  have hlen : ((OrdMap.empty.insert x u).insert y w).entries.length = 2 := by
    rw [OrdMap.length_entries_insert
      (by rw [OrdMap.get?_insert_of_ne _ hne.symm, OrdMap.get?_empty]),
      OrdMap.length_entries_insert (OrdMap.get?_empty x)]
    rfl
  obtain ⟨r, hr, hrtyp, hmembers⟩ := h.exists_structExpr (by simp [hne])
    (by simp [DatatypeComponent.typ]) (by rw [hlen]; simp) (by
      intro name t' hfield
      rcases List.mem_pair.mp hfield with heq | heq
      · cases heq
        exact ⟨u, hx, by rw [hu]; exact Typ.beq_self _⟩
      · cases heq
        exact ⟨w, hy, by rw [hw]; exact Typ.beq_self _⟩)
  exact ⟨r, hr, hrtyp, hmembers x a u (by simp) hx, hmembers y b w (by simp) hy⟩

omit [Ranked String] in
lemma of_forM_eq_some {α : Type} {f : α → Option Unit} {l : List α} (h : l.forM f = some ()) {a : α}
    (ha : a ∈ l) : f a = some () := by
  induction l with
  | nil => simp at ha
  | cons b l ih =>
    have h' : (f b).bind (fun _ => l.forM f) = some () := h
    obtain ⟨_, hb, hl⟩ := bind_eq_some.mp h'
    rcases List.mem_cons.mp ha with rfl | ha
    · exact hb
    · exact ih hl ha

lemma assertIsEmptyStruct_eq_some : assertIsEmptyStruct st t = some () ↔ EmptyStruct st t := by
  simp only [assertIsEmptyStruct, EmptyStruct, bind_eq_some, guard_eq_some, exists_const,
    List.length_eq_zero_iff]
  constructor
  · rintro ⟨hlike, cs, hcs, rfl⟩
    exact ⟨hlike, hcs⟩
  · rintro ⟨hlike, hcs⟩
    exact ⟨hlike, [], hcs, rfl⟩

namespace PlaceCtx

variable {ctx : PlaceCtx Ty} {σ : State} {p : Ty}

/-! ### Fat pointers -/

namespace Entered

variable (h : ctx.Entered)

include h

/-- The struct of a fat pointer is that of a slice or that of a trait object. -/
lemma fatPtr_kinds (ht : ctx.fatPtrTyp p = some t) :
    isRustSliceFatPtr ctx.symbolTable t = some (useSliceFatPointer ctx.toTyQueries p) ∧
      isRustTraitFatPtr ctx.symbolTable t = some (!useSliceFatPointer ctx.toTyQueries p) := by
  cases hslice : useSliceFatPointer ctx.toTyQueries p with
  | true =>
    obtain ⟨e, -, hentered⟩ := h.slicePtr ht hslice
    obtain ⟨name, hname⟩ := hentered.resolveTag_eq
    simp [isRustSliceFatPtr, isRustTraitFatPtr, hname, isFatPtrStruct, hasComponent, List.anyM,
      Typ.isPointer, Typ.isInteger, Typ.sizeT]
  | false =>
    obtain ⟨v, hentered⟩ := h.vtablePtr ht hslice
    obtain ⟨name, hname⟩ := hentered.resolveTag_eq
    simp [isRustSliceFatPtr, isRustTraitFatPtr, hname, isFatPtrStruct, hasComponent, List.anyM,
      Typ.isPointer, Typ.voidPointer]

/-- The struct of a fat pointer passes the checks of its shape. -/
lemma isRustFatPtr_eq (ht : ctx.fatPtrTyp p = some t) :
    isRustFatPtr ctx.symbolTable t = some true := by
  obtain ⟨hslice, htrait⟩ := h.fatPtr_kinds ht
  cases hkind : useSliceFatPointer ctx.toTyQueries p <;> simp [isRustFatPtr, hslice, htrait, hkind]

lemma assertIsFatPtr_eq {e : Expr} (ht : ctx.fatPtrTyp p = some e.typ) :
    ctx.assertIsFatPtr (some e) = some () := by
  obtain ⟨hslice, htrait⟩ := h.fatPtr_kinds ht
  cases hkind : useSliceFatPointer ctx.toTyQueries p <;>
    simp [assertIsFatPtr, hslice, htrait, hkind]

lemma exists_hasField_data (ht : ctx.fatPtrTyp p = some t) : ∃ e,
    HasField ctx.symbolTable t "data" (.pointer e) 0 ∧
      if useSliceFatPointer ctx.toTyQueries p then ctx.dataTyp p = some e else e = .empty := by
  by_cases hslice : useSliceFatPointer ctx.toTyQueries p = true
  · obtain ⟨e, he, hentered⟩ := h.slicePtr ht hslice
    have hbits : fieldOffsetInBits ctx.symbolTable
        [.field "data" (.pointer e), .field "len" .sizeT] "data" = some 0 := by
      simp [fieldOffsetInBits]
    exact ⟨e, hentered.hasField (by simp) hbits rfl, by simpa [hslice] using he⟩
  · obtain ⟨v, hentered⟩ := h.vtablePtr ht (by simpa using hslice)
    have hbits : fieldOffsetInBits ctx.symbolTable
        [.field "data" .voidPointer, .field "vtable" (.pointer v)] "data" = some 0 := by
      simp [fieldOffsetInBits]
    exact ⟨.empty, hentered.hasField (by simp [Typ.voidPointer]) hbits rfl, by simp [hslice]⟩

section

variable (hwidth : ctx.symbolTable.machineModel.pointerWidth % 8 = 0)

include hwidth

lemma hasField_len (ht : ctx.fatPtrTyp p = some t)
    (hslice : useSliceFatPointer ctx.toTyQueries p = true) :
    HasField ctx.symbolTable t "len" .sizeT (ctx.symbolTable.machineModel.pointerWidth / 8) := by
  obtain ⟨e, -, hentered⟩ := h.slicePtr ht hslice
  exact hentered.hasField (by simp)
    (by simp [fieldOffsetInBits, DatatypeComponent.sizeofWith, Typ.sizeofWith]) hwidth

lemma exists_hasField_vtable (ht : ctx.fatPtrTyp p = some t)
    (hvtable : useSliceFatPointer ctx.toTyQueries p = false) :
    ∃ v, HasField ctx.symbolTable t "vtable" (.pointer v)
      (ctx.symbolTable.machineModel.pointerWidth / 8) := by
  obtain ⟨v, hentered⟩ := h.vtablePtr ht hvtable
  exact ⟨v, hentered.hasField (by simp) (by
    simp [fieldOffsetInBits, DatatypeComponent.sizeofWith, Typ.sizeofWith, Typ.voidPointer]) hwidth⟩

end

end Entered

variable {fatPtr : Option (ℕ × Ty)} {fatTy : Option Ty} {fat : Option Expr}

/-- The checks of a projected place leave the translation of its type as the only thing that can
fail. -/
lemma projectedPlace_type_eq (h : ctx.Entered) (hfat : ctx.DenotesFatPtr σ fat fatTy fatPtr)
    (e : Expr) (ty : Ty) :
    ctx.projectedPlace e (.type ty) fat fatTy =
      (ctx.codegenTy ty).map fun _ => ⟨e, .type ty, fat, fatTy⟩ := by
  cases fatPtr with
  | none =>
    obtain ⟨rfl, rfl⟩ := hfat
    cases hty : ctx.codegenTy ty <;> simp [projectedPlace, checkFatPtrTyp, hty]
  | some fatPtr =>
    obtain ⟨f, ft, rfl, rfl, hft, hptr, -⟩ := hfat
    cases hty : ctx.codegenTy ty <;>
      simp [projectedPlace, checkFatPtrTyp, hty, h.isRustFatPtr_eq hptr, hft]

lemma projectedPlace_variant_eq (h : ctx.Entered) (hfat : ctx.DenotesFatPtr σ fat fatTy fatPtr)
    (e : Expr) (v : Mir.VariantDef Ty) :
    ctx.projectedPlace e (.variant v) fat fatTy = some ⟨e, .variant v, fat, fatTy⟩ := by
  cases fatPtr with
  | none =>
    obtain ⟨rfl, rfl⟩ := hfat
    simp [projectedPlace, checkFatPtrTyp]
  | some fatPtr =>
    obtain ⟨f, ft, rfl, rfl, hft, hptr, -⟩ := hfat
    simp [projectedPlace, checkFatPtrTyp, h.isRustFatPtr_eq hptr, hft]

/-! ### Boxes -/

namespace BoxEntered

variable {b : Ty} {boxTyp uniqueTyp allocTyp markerTyp pointerTyp : Typ}
  {boxFields uniqueFields : List DatatypeComponent}
  (h : ctx.BoxEntered b boxTyp uniqueTyp allocTyp markerTyp pointerTyp boxFields uniqueFields)

include h

lemma perm_of_length (hlength : boxFields.length = 2) :
    boxFields.Perm [.field "0" uniqueTyp, .field "1" allocTyp] := by
  have hself : boxFields.filter (fun c => !c.isPadding) = boxFields := by
    refine List.filter_sublist.eq_of_length ?_
    rw [h.perm_box.length_eq, hlength]
    rfl
  exact hself ▸ h.perm_box

/-- A box passes the checks of its shape when its allocator is empty and there is no padding. -/
lemma assertIsRustBoxLike_eq_some_iff
    (hpointer : pointerTyp.isPointer = true ∨ isRustFatPtr ctx.symbolTable pointerTyp = some true) :
    assertIsRustBoxLike ctx.symbolTable boxTyp = some () ↔
      EmptyStruct ctx.symbolTable allocTyp ∧ boxFields.length = 2 := by
  have hunique : assertIsRustUniquePointerLike ctx.symbolTable uniqueTyp = some () := by
    simp only [assertIsRustUniquePointerLike, bind_eq_some, guard_eq_some, exists_const]
    refine ⟨h.unique.isStructLike, uniqueFields, h.unique.lookupComponentsInType,
      h.perm_unique.length_eq, Expr.forM_eq_some fun c hc => ?_⟩
    rw [h.perm_unique.mem_iff] at hc
    rcases List.mem_pair.mp hc with rfl | rfl
    · simpa [assertIsRustPhantomDataLike] using assertIsEmptyStruct_eq_some.mpr h.marker
    · rcases hpointer with hpointer | hpointer <;> simp [hpointer]
  simp only [assertIsRustBoxLike, bind_eq_some, guard_eq_some, exists_const]
  constructor
  · rintro ⟨-, cs, hcs, hlength, hall⟩
    rw [h.box.lookupComponentsInType, Option.some.injEq] at hcs
    subst hcs
    have halloc := of_forM_eq_some hall
      (List.mem_of_mem_filter
        (h.perm_box.mem_iff.mpr (List.mem_cons_of_mem _ (List.mem_singleton_self _))))
    exact ⟨assertIsEmptyStruct_eq_some.mp (by simpa [assertIsRustGlobalAllocLike] using halloc),
      hlength⟩
  · rintro ⟨hempty, hlength⟩
    have hperm := h.perm_of_length hlength
    refine ⟨h.box.isStructLike, boxFields, h.box.lookupComponentsInType, hperm.length_eq,
      Expr.forM_eq_some fun c hc => ?_⟩
    rw [hperm.mem_iff] at hc
    rcases List.mem_pair.mp hc with rfl | rfl
    · simpa using hunique
    · simpa [assertIsRustGlobalAllocLike] using assertIsEmptyStruct_eq_some.mpr hempty

lemma hasField_unique (hlength : boxFields.length = 2)
    (ho : fieldOffset ctx.symbolTable boxTyp "0" = some o) :
    HasField ctx.symbolTable boxTyp "0" uniqueTyp o := by
  have hperm := h.perm_of_length hlength
  exact h.box.hasField_of_mem (((hperm.map DatatypeComponent.name).nodup_iff).mpr (by simp))
    (hperm.mem_iff.mpr (by simp)) ho

lemma hasField_pointer (ho : fieldOffset ctx.symbolTable uniqueTyp "pointer" = some o) :
    HasField ctx.symbolTable uniqueTyp "pointer" pointerTyp o :=
  h.unique.hasField_of_mem (((h.perm_unique.map DatatypeComponent.name).nodup_iff).mpr (by simp))
    (h.perm_unique.mem_iff.mpr (by simp)) ho

end BoxEntered

/-! ### Pointers -/

lemma codegenTyRef_eq_some
    (h : codegenTyRef ctx.toTyQueries ctx.depth ctx.codegenTy p = some t) :
    (useThinPointer ctx.toTyQueries p = true ∧ isDst (ctx.kind p) = false ∧
      ∃ t', ctx.codegenTy p = some t' ∧ t = .pointer t') ∨
    (useThinPointer ctx.toTyQueries p = false ∧ ctx.fatPtrTyp p = some t) := by
  unfold codegenTyRef at h
  by_cases hthin : useThinPointer ctx.toTyQueries p = true
  · simp only [hthin, Bool.not_true, Bool.false_eq_true, if_false] at h
    refine .inl ⟨hthin, ?_⟩
    split at h <;> simp only [bind_eq_some, pure_eq_some, reduceCtorEq] at h
    next hkind =>
      obtain ⟨t', ht', rfl⟩ := h
      refine ⟨?_, t', ht', rfl⟩
      cases hk : ctx.kind p <;> first | rfl | simp_all
  · simp only [hthin, Bool.not_false, if_true] at h
    exact .inr ⟨by simpa using hthin, h⟩

lemma codegenTy_eq_codegenTyRef {ty : Ty} (hkind : ctx.kind ty = .ref p ∨ ctx.kind ty = .rawPtr p) :
    ctx.codegenTy ty = codegenTyRef ctx.toTyQueries ctx.depth ctx.codegenTy p := by
  have heq := ctx.translation.codegenTy_eq ty
  rcases hkind with hkind | hkind <;>
  · simp only [codegenTyInner, hkind] at heq
    exact heq

lemma isPointer_or_isRustFatPtr (h : ctx.Entered)
    (ht : codegenTyRef ctx.toTyQueries ctx.depth ctx.codegenTy p = some t) :
    t.isPointer = true ∨ isRustFatPtr ctx.symbolTable t = some true := by
  rcases codegenTyRef_eq_some ht with ⟨-, -, t', -, rfl⟩ | ⟨-, hfat⟩
  · exact .inl rfl
  · exact .inr (h.isRustFatPtr_eq hfat)

section Deref

variable {ty : Ty} {e e' : Expr} {loc : ℕ} {before : ProjectedPlace Ty}

/-- What is followed is a box, or a reference or raw pointer. -/
lemma pointee_cases (hp : ctx.pointee ty = some p) :
    (ctx.isBox ty = true ∧ p = ctx.boxedTy ty ∧ ctx.isRefOfUnsized ty = false ∧
      isDst (ctx.kind ty) = false) ∨
    (ctx.isBox ty = false ∧ (ctx.kind ty = .ref p ∨ ctx.kind ty = .rawPtr p) ∧
      ctx.isRefOfUnsized ty = ctx.isUnsized p ∧ isDst (ctx.kind ty) = false) := by
  unfold LayoutQueries.pointee at hp
  cases hkind : ctx.kind ty <;> simp only [hkind, Option.some.injEq, reduceCtorEq] at hp
  case adt adtDef =>
    split at hp
    · next hbox =>
      cases hp
      exact .inl ⟨by simp [LayoutQueries.isBox, hkind, hbox], rfl,
        by simp [isRefOfUnsized, hkind], rfl⟩
    · cases hp
  case rawPtr | ref =>
    cases hp
    exact .inr ⟨by simp [LayoutQueries.isBox, hkind], by simp, by simp [isRefOfUnsized, hkind], rfl⟩

lemma isBoxOfUnsized_or_isRefOfUnsized (hp : ctx.pointee ty = some p) :
    (ctx.isBoxOfUnsized ty || ctx.isRefOfUnsized ty) = ctx.isUnsized p := by
  rcases pointee_cases hp with ⟨hbox, rfl, href, -⟩ | ⟨hbox, -, href, -⟩ <;>
    simp [isBoxOfUnsized, hbox, href]

lemma plainBox_of_innerGotoExpr (h : ctx.Entered) (he : ctx.codegenTy ty = some e.typ)
    {e' : Expr} (he' : ctx.innerGotoExpr ty e = some e') (hbox : ctx.isBox ty = true) :
    ctx.PlainBox ty := by
  obtain ⟨uniqueTyp, allocTyp, markerTyp, pointerTyp, boxFields, uniqueFields, hentered⟩ :=
    h.box he hbox
  simp only [innerGotoExpr, hbox, if_true, derefBox, bind_eq_some] at he'
  obtain ⟨_, hassert, -⟩ := he'
  have hpointer := isPointer_or_isRustFatPtr h
    ((codegenTy_eq_codegenTyRef (.inr hentered.kind_mkPtr)).symm.trans hentered.pointer)
  obtain ⟨hempty, hlength⟩ := (hentered.assertIsRustBoxLike_eq_some_iff hpointer).mp hassert
  exact ⟨⟨allocTyp, hentered.alloc, hempty⟩, _, boxFields, he, hentered.box.lookupComponentsInType,
    hlength⟩

/-- The pointer that is followed has the type of pointers to the pointee, and is where the compiler
has it. -/
lemma exists_innerGotoExpr (h : ctx.Entered) (hp : ctx.pointee ty = some p)
    (he : ctx.codegenTy ty = some e.typ) (haddr : e.addr ctx.symbolTable σ = some loc)
    (hbox : ctx.isBox ty = true → ctx.PlainBox ty) :
    ∃ e', ctx.innerGotoExpr ty e = some e' ∧
      codegenTyRef ctx.toTyQueries ctx.depth ctx.codegenTy p = some e'.typ ∧
      e'.addr ctx.symbolTable σ = some (ctx.pointerAt (ctx.frame σ) ty loc) ∧
      ∃ fatTy, ctx.codegenTy fatTy = some e'.typ ∧
        fatTy = if ctx.isBox ty then ctx.mkPtr p else ty := by
  rcases pointee_cases hp with ⟨hisBox, rfl, -⟩ | ⟨hisBox, hkind, -⟩
  · obtain ⟨uniqueTyp, allocTyp, markerTyp, pointerTyp, boxFields, uniqueFields, hentered⟩ :=
      h.box he hisBox
    obtain ⟨⟨a, ha, hempty⟩, _, components, ht', hcomponents, hlength⟩ := hbox hisBox
    cases hentered.alloc.symm.trans ha
    cases he.symm.trans ht'
    cases hentered.box.lookupComponentsInType.symm.trans hcomponents
    have hpointerTyp := (codegenTy_eq_codegenTyRef (.inr hentered.kind_mkPtr)).symm.trans
      hentered.pointer
    have hassert := (hentered.assertIsRustBoxLike_eq_some_iff
      (isPointer_or_isRustFatPtr h hpointerTyp)).mpr ⟨hempty, hlength⟩
    obtain ⟨o, o', ho, ho', hplaced⟩ := hentered.placed hempty hlength
    have hfield : HasField ctx.symbolTable e.typ "0" uniqueTyp o :=
      hentered.hasField_unique hlength ho
    obtain ⟨unique, hunique, hutyp, huaddr⟩ := hfield.exists_member
    have hfield' : HasField ctx.symbolTable unique.typ "pointer" pointerTyp o' := by
      rw [hutyp]
      exact hentered.hasField_pointer ho'
    obtain ⟨e', he', htyp', haddr'⟩ := hfield'.exists_member
    refine ⟨e', ?_, by rw [htyp', hpointerTyp], ?_, ctx.mkPtr (ctx.boxedTy ty),
      by rw [htyp', hentered.pointer], by simp [hisBox]⟩
    · simp [innerGotoExpr, hisBox, derefBox, hassert, hunique, he']
    · rw [haddr' σ _ (huaddr σ _ haddr), LayoutQueries.pointerAt, if_pos hisBox, Frame.shift]
      have hmod : ((loc + o) % ctx.addresses + o') ≡ loc + ctx.boxPointerOffset ty
          [MOD ctx.addresses] := by
        have := (Nat.mod_modEq (loc + o) ctx.addresses).add_right o'
        rw [Nat.add_assoc] at this
        exact this.trans (hplaced.add_left loc)
      exact congrArg some hmod
  · refine ⟨e, by simp [innerGotoExpr, hisBox], ?_, ?_, ty, he, by simp [hisBox]⟩
    · rw [← codegenTy_eq_codegenTyRef hkind, he]
    · rw [haddr, LayoutQueries.pointerAt, if_neg (by simp [hisBox])]

/-- A pointer to a type with a size leaves the fat pointer that was followed before. -/
lemma codegenDeref_of_sized (h : ctx.Entered) (htv : before.mirTypOrVariant = .type ty)
    (hp : ctx.pointee ty = some p) (hsized : ctx.isUnsized p = false)
    (hfat : ctx.DenotesFatPtr σ before.fatPtrGotoExpr before.fatPtrMirTyp fatPtr)
    (hinner : ctx.innerGotoExpr ty before.gotoExpr = some e') :
    ctx.codegenDeref before = (ctx.derefExpr p e').bind fun expr =>
      ctx.projectedPlace expr (.type p) before.fatPtrGotoExpr before.fatPtrMirTyp := by
  have hor := isBoxOfUnsized_or_isRefOfUnsized hp
  rw [hsized, Bool.or_eq_false_iff] at hor
  have hassert : ctx.assertIsFatPtr before.fatPtrGotoExpr = some () := by
    cases fatPtr with
    | none => simp [assertIsFatPtr, hfat.1]
    | some fatPtr =>
      obtain ⟨f, ft, hf, -, -, hptr, -⟩ := hfat
      exact hf ▸ h.assertIsFatPtr_eq hptr
  simp [codegenDeref, ProjectedPlace.mirTyp, htv, TypeOrVariant.expectType, hinner, hp, hor,
    derefFatPtrMirTyp, derefFatPtrGotoExpr, hassert]

/-- A pointer to a type without a size is the fat pointer that is kept, and there must not be one
already. -/
lemma codegenDeref_of_unsized (htv : before.mirTypOrVariant = .type ty)
    (hp : ctx.pointee ty = some p) (hunsized : ctx.isUnsized p = true)
    (hinner : ctx.innerGotoExpr ty before.gotoExpr = some e') :
    ctx.codegenDeref before = (do
      guard before.fatPtrMirTyp.isNone
      guard before.fatPtrGotoExpr.isNone
      ctx.assertIsFatPtr (some e')
      let expr ← ctx.derefExpr p e'
      ctx.projectedPlace expr (.type p) (some e')
        (some (if ctx.isBox ty then ctx.mkPtr p else ty))) := by
  rcases pointee_cases hp with ⟨hbox, rfl, href, -⟩ | ⟨hbox, -, href, -⟩
  · have hboxOf : ctx.isBoxOfUnsized ty = true := by simp [isBoxOfUnsized, hbox, hunsized]
    simp [codegenDeref, ProjectedPlace.mirTyp, htv, TypeOrVariant.expectType, hinner, hp,
      derefFatPtrMirTyp, derefFatPtrGotoExpr, hboxOf, hbox, Option.bind_assoc]
  · have hboxOf : ctx.isBoxOfUnsized ty = false := by simp [isBoxOfUnsized, hbox]
    simp [codegenDeref, ProjectedPlace.mirTyp, htv, TypeOrVariant.expectType, hinner, hp,
      derefFatPtrMirTyp, derefFatPtrGotoExpr, hboxOf, hbox, href, hunsized, Option.bind_assoc]

lemma innerGotoExpr_of_codegenDeref {p' : ProjectedPlace Ty}
    (htv : before.mirTypOrVariant = .type ty) (h : ctx.codegenDeref before = some p') :
    ∃ e', ctx.innerGotoExpr ty before.gotoExpr = some e' := by
  simp only [codegenDeref, ProjectedPlace.mirTyp, htv, TypeOrVariant.expectType,
    some_bind, bind_eq_some] at h
  obtain ⟨e', he', -⟩ := h
  exact ⟨e', he'⟩

lemma assertIsFatPtr_pointer (he : e'.typ = .pointer t) : ctx.assertIsFatPtr (some e') = none := by
  simp [assertIsFatPtr, isRustTraitFatPtr, isRustSliceFatPtr, he, resolveTag, isFatPtrStruct]

section

variable (hv : ctx.Valid σ)

include hv

lemma eval_pointer (he : e.typ = .pointer t) (haddr : e.addr ctx.symbolTable σ = some loc) :
    e.eval ctx.symbolTable σ = some ((ctx.frame σ).loadPtr loc) := by
  rw [Expr.eval_of_addr haddr, he, State.loadTyp, Typ.bytes_pointer hv.width]
  rfl

lemma exists_derefExpr_of_sized (hsized : ctx.isUnsized p = false)
    (hptr : codegenTyRef ctx.toTyQueries ctx.depth ctx.codegenTy p = some e.typ)
    (haddr : e.addr ctx.symbolTable σ = some loc) :
    ∃ r, ctx.derefExpr p e = some r ∧ isDst (ctx.kind p) = false ∧
      ctx.codegenTy p = some r.typ ∧
      r.addr ctx.symbolTable σ = some ((ctx.frame σ).loadPtr loc) := by
  rcases codegenTyRef_eq_some hptr with ⟨-, hdst, t, ht, htyp⟩ | ⟨hthin, -⟩
  · obtain ⟨r, hr, hrtyp, hraddr⟩ := Expr.exists_dereference ctx.symbolTable htyp
    refine ⟨r, ?_, hdst, by rw [hrtyp, ht], by rw [hraddr, eval_pointer hv htyp haddr]⟩
    cases hkind : ctx.kind p <;> simp_all [derefExpr, isDst]
  · simp [useThinPointer, hsized] at hthin

lemma exists_member_data (hptr : ctx.fatPtrTyp p = some e.typ)
    (haddr : e.addr ctx.symbolTable σ = some loc) (hloc : loc < ctx.addresses) :
    ∃ r d, e.member "data" ctx.symbolTable = some r ∧ r.typ = .pointer d ∧
      (if useSliceFatPointer ctx.toTyQueries p then ctx.dataTyp p = some d else d = .empty) ∧
      r.eval ctx.symbolTable σ = some ((ctx.frame σ).loadPtr loc) := by
  obtain ⟨d, hfield, hd⟩ := hv.entered.exists_hasField_data hptr
  obtain ⟨r, hr, hrtyp, hraddr⟩ := hfield.exists_member
  refine ⟨r, d, hr, hrtyp, hd, eval_pointer hv hrtyp ?_⟩
  rw [hraddr σ loc haddr]
  exact congrArg some (Nat.mod_eq_of_lt hloc)

/-- A pointer to a slice, a `str` or a trait object leads to its data pointer. -/
lemma exists_derefExpr_of_isDst (hdst : isDst (ctx.kind p) = true)
    (hptr : ctx.fatPtrTyp p = some e.typ) (haddr : e.addr ctx.symbolTable σ = some loc)
    (hloc : loc < ctx.addresses) :
    ∃ r d, ctx.derefExpr p e = some r ∧ ctx.dataTyp p = some d ∧ r.typ = .pointer d ∧
      r.eval ctx.symbolTable σ = some ((ctx.frame σ).loadPtr loc) := by
  obtain ⟨r, d, hr, hrtyp, hd, heval⟩ := exists_member_data hv hptr haddr hloc
  refine ⟨r, d, ?_, ?_, hrtyp, heval⟩
  · cases hkind : ctx.kind p <;> simp_all [derefExpr, isDst]
  · cases hkind : ctx.kind p with
    | slice element => simpa [useSliceFatPointer, (hv.lawful.slice hkind).2] using hd
    | str => simpa [useSliceFatPointer, (hv.lawful.str hkind).2] using hd
    | dynamic =>
      have hd' : d = .empty := by
        simpa [useSliceFatPointer, (hv.lawful.dynamic hkind).2] using hd
      simp [dataTyp, hkind, hd']
    | _ => simp [hkind, isDst] at hdst

end

/-- A type without a size is translated when the pointers to it are. -/
lemma exists_codegenTy_of_isDst (hdst : isDst (ctx.kind p) = true) {d : Typ}
    (hd : ctx.dataTyp p = some d) (hptr : ctx.fatPtrTyp p = some t) :
    ∃ t', ctx.codegenTy p = some t' := by
  simp only [codegenTy, ctx.translation.codegenTy_eq p, codegenTyInner]
  cases hkind : ctx.kind p with
  | slice element =>
    have helement : ctx.translation.codegenTy element = some d := by
      simpa [dataTyp, hkind, codegenTy] using hd
    exact ⟨_, by simp only [helement]; rfl⟩
  | str => exact ⟨_, rfl⟩
  | dynamic => exact ⟨t, hptr⟩
  | _ => simp [hkind, isDst] at hdst

lemma exists_derefExpr_of_adt (hv : ctx.Valid σ) (hunsized : ctx.isUnsized p = true)
    {adtDef : AdtDef Ty} (hkind : ctx.kind p = .adt adtDef) (hsimd : adtDef.simd = false)
    (hptr : ctx.fatPtrTyp p = some e.typ) (haddr : e.addr ctx.symbolTable σ = some loc)
    (hloc : loc < ctx.addresses) :
    ∃ r, ctx.derefExpr p e = some r ∧ ctx.codegenTy p = some r.typ ∧
      r.addr ctx.symbolTable σ = some ((ctx.frame σ).loadPtr loc) := by
  obtain ⟨data, d, hdata, hdtyp, hd, heval⟩ := exists_member_data hv hptr haddr hloc
  obtain ⟨t, ht, hne⟩ : ∃ t, ctx.codegenTy p = some t ∧ (Typ.empty == t) = false := by
    rw [codegenTy, ctx.translation.codegenTy_eq, codegenTyInner, hkind]
    simp only [hsimd, Bool.false_eq_true, if_false]
    cases adtDef.kind <;> exact ⟨_, rfl, rfl⟩
  have hcast : (d == t) = true → d = t := by
    intro hbeq
    split_ifs at hd
    · rw [dataTyp, hkind, ht] at hd
      exact (Option.some.inj hd).symm
    · rw [hd, hne] at hbeq
      cases hbeq
  obtain ⟨c, hc, hctyp, hceval⟩ := exists_castTo_pointer ctx.symbolTable t hdtyp hcast
  obtain ⟨q, hq, hqp⟩ := hceval σ _ heval
  obtain ⟨r, hr, hrtyp, hraddr⟩ := Expr.exists_dereference ctx.symbolTable hctyp
  have hlt : (ctx.frame σ).loadPtr loc < ctx.addresses := Frame.loadPtr_lt hv.width loc
  refine ⟨r, ?_, by rw [hrtyp, ht], ?_⟩
  · simp [derefExpr, hkind, hunsized, hdata, ht, Typ.toPointer, hc, hr]
  · rw [hraddr, hq]
    rcases hqp with rfl | rfl
    · rfl
    · exact congrArg some (Nat.mod_eq_of_lt hlt)

lemma fatPtrTyp_tuple {elements : List Ty} (hkind : ctx.kind p = .tuple elements) :
    ctx.fatPtrTyp p = none := by
  have hpair : nestedPairOfConcreteAndTraitTypes ctx.toTyCtxt ctx.depth p p = none := by
    cases hdepth : ctx.depth with
    | zero => rfl
    | succ n =>
      simp [nestedPairOfConcreteAndTraitTypes, PartialFix.approx, nestedPairStep, hkind,
        TyKind.isPrimitive, TyKind.isPointer]
  simp [fatPtrTyp, codegenFatPtr, hkind, hpair]

lemma exists_derefExpr_of_unsized (hv : ctx.Valid σ) (hunsized : ctx.isUnsized p = true)
    (hptr : ctx.fatPtrTyp p = some e.typ) (haddr : e.addr ctx.symbolTable σ = some loc)
    (hloc : loc < ctx.addresses) (fat : Option (ℕ × Ty)) :
    ∃ r t', ctx.derefExpr p e = some r ∧ ctx.codegenTy p = some t' ∧
      ctx.DenotesExpr σ r (.type p) ⟨.type p, (ctx.frame σ).loadPtr loc, true, fat⟩ := by
  rcases hv.lawful.kind_of_isUnsized hunsized with hdst | hkind | ⟨adtDef, hkind, hsimd⟩ |
    ⟨elements, hkind⟩
  · obtain ⟨r, d, hr, hd, hrtyp, heval⟩ := exists_derefExpr_of_isDst hv hdst hptr haddr hloc
    obtain ⟨t', ht'⟩ := exists_codegenTy_of_isDst hdst hd hptr
    exact ⟨r, t', hr, ht', by simp [DenotesExpr, hdst, hd, hrtyp, heval]⟩
  · simp [fatPtrTyp, codegenFatPtr, useThinPointer, hv.lawful.foreign hkind] at hptr
  · obtain ⟨r, hr, hrtyp, hraddr⟩ :=
      exists_derefExpr_of_adt hv hunsized hkind hsimd hptr haddr hloc
    exact ⟨r, r.typ, hr, hrtyp, by simp [DenotesExpr, hkind, isDst, hrtyp, hraddr]⟩
  · simp [fatPtrTyp_tuple hkind] at hptr

/-- A pointer is followed when it is the only fat pointer on the way or not a fat pointer, has the
metadata that the size of the pointee needs, and does not carry an allocator. -/
lemma deref_iff (hv : ctx.Valid σ) {b : Bool} {fat : Option (ℕ × Ty)}
    (hden : ctx.Denotes σ before ⟨.type ty, loc, b, fat⟩)
    (hloc : loc < ctx.addresses) (hp : ctx.pointee ty = some p) :
    (∃ p', ctx.codegenDeref before = some p' ∧ ctx.Denotes σ p'
      ⟨.type p, (ctx.frame σ).loadPtr (ctx.pointerAt (ctx.frame σ) ty loc), true,
        if ctx.isUnsized p then some (ctx.pointerAt (ctx.frame σ) ty loc, p) else fat⟩) ↔
      ctx.Regular σ ⟨.type ty, loc, b, fat⟩ .deref := by
  obtain ⟨hexpr, hfat⟩ := hden
  have hdst : isDst (ctx.kind ty) = false := by
    rcases pointee_cases hp with ⟨-, -, -, hdst⟩ | ⟨-, -, -, hdst⟩ <;> exact hdst
  obtain ⟨htv, he, haddr⟩ : before.mirTypOrVariant = .type ty ∧
      ctx.codegenTy ty = some before.gotoExpr.typ ∧
      before.gotoExpr.addr ctx.symbolTable σ = some loc := by
    simpa [DenotesExpr, hdst] using hexpr
  have hat : ctx.pointerAt (ctx.frame σ) ty loc < ctx.addresses := by
    unfold LayoutQueries.pointerAt
    split_ifs
    · exact Frame.shift_lt _ _ _
    · exact hloc
  constructor
  · rintro ⟨p', hp', -⟩
    obtain ⟨e', hinner⟩ := innerGotoExpr_of_codegenDeref htv hp'
    have hbox := plainBox_of_innerGotoExpr hv.entered he hinner
    refine .deref rfl hp ?_ hbox
    intro hunsized
    obtain ⟨e'', hinner', hptr, -⟩ := exists_innerGotoExpr hv.entered hp he haddr hbox
    obtain rfl : e'' = e' := Option.some.inj (hinner'.symm.trans hinner)
    rw [codegenDeref_of_unsized htv hp hunsized hinner] at hp'
    simp only [bind_eq_some, guard_eq_some, exists_const] at hp'
    obtain ⟨-, hnone, _, hassert, -⟩ := hp'
    refine ⟨?_, ?_⟩
    · cases fat with
      | none => rfl
      | some fat =>
        obtain ⟨f, -, hf, -⟩ := hfat
        simp [hf] at hnone
    · intro hunit
      rcases codegenTyRef_eq_some hptr with ⟨-, -, t, -, htyp⟩ | ⟨hthin, -⟩
      · rw [assertIsFatPtr_pointer htyp] at hassert
        cases hassert
      · simp [useThinPointer, hunit] at hthin
  · rintro (⟨ht, hp', hfatPtr, hbox⟩ : ctx.Regular σ _ _)
    cases ht
    obtain rfl := Option.some.inj (hp.symm.trans hp')
    obtain ⟨e', hinner, hptr, haddr', fatTy, hfatTy, rfl⟩ :=
      exists_innerGotoExpr hv.entered hp he haddr hbox
    by_cases hunsized : ctx.isUnsized p = true
    · obtain ⟨rfl, hunit⟩ := hfatPtr hunsized
      have hfatPtrTyp : ctx.fatPtrTyp p = some e'.typ := by
        rcases codegenTyRef_eq_some hptr with ⟨hthin, -⟩ | ⟨-, hfatPtrTyp⟩
        · simp [useThinPointer, hunsized, hunit] at hthin
        · exact hfatPtrTyp
      obtain ⟨r, t', hr, ht', hrexpr⟩ :=
        exists_derefExpr_of_unsized hv hunsized hfatPtrTyp haddr' hat
          (some (ctx.pointerAt (ctx.frame σ) ty loc, p))
      have hfat' : ctx.DenotesFatPtr σ (some e') (some (if ctx.isBox ty then ctx.mkPtr p else ty))
          (some (ctx.pointerAt (ctx.frame σ) ty loc, p)) :=
        ⟨e', _, rfl, rfl, hfatTy, hfatPtrTyp, haddr'⟩
      refine ⟨⟨r, .type p, some e', some (if ctx.isBox ty then ctx.mkPtr p else ty)⟩, ?_, ?_, ?_⟩
      · rw [codegenDeref_of_unsized htv hp hunsized hinner, hfat.1, hfat.2,
          hv.entered.assertIsFatPtr_eq hfatPtrTyp, hr]
        simp [projectedPlace_type_eq hv.entered hfat', ht']
      · simpa only [hunsized, if_true] using hrexpr
      · simpa only [hunsized, if_true] using hfat'
    · have hsized : ctx.isUnsized p = false := by simpa using hunsized
      obtain ⟨r, hr, hdst', hrtyp, hraddr⟩ := exists_derefExpr_of_sized hv hsized hptr haddr'
      refine ⟨⟨r, .type p, before.fatPtrGotoExpr, before.fatPtrMirTyp⟩, ?_, ?_, ?_⟩
      · rw [codegenDeref_of_sized hv.entered htv hp hsized hfat hinner, hr, Option.bind_some,
          projectedPlace_type_eq hv.entered hfat, hrtyp, Option.map_some]
      · simp [DenotesExpr, hdst', hrtyp, hraddr]
      · simpa [hsized] using hfat

end Deref

end PlaceCtx

end Rmc.Codegen

import Rmc.Codegen.PlaceDeref

/-!
# Places and their translation

`codegen_place` follows a sequence of projections exactly when each of them is regular at the place
that it is applied to (`codegenPlace_follows_iff`). Each kind of projection has a lemma that says
so for one step; the sequence is an induction on them.
-/

namespace Rmc.Codegen

open OrdMap Mir TwosComplement ByteMemory

namespace PlaceCtx

variable [Ranked String] {Ty : Type} {ctx : PlaceCtx Ty} {σ : State} {before : ProjectedPlace Ty}
  {e r : Expr} {ty t : Ty} {loc n : ℕ} {fatPtr : Option (ℕ × Ty)} {fatTy : Option Ty}
  {fat : Option Expr} {b : Bool}

/-- The translation finds the place of a type when its expression has the translated type and is
where the place is. -/
lemma exists_projectedPlace_iff (h : ctx.Entered) (hfat : ctx.DenotesFatPtr σ fat fatTy fatPtr)
    (x : Option Expr) :
    (∃ p', (x.bind fun expr => ctx.projectedPlace expr (.type ty) fat fatTy) = some p' ∧
      ctx.Denotes σ p' ⟨.type ty, loc, false, fatPtr⟩) ↔
    ∃ r, x = some r ∧ ctx.codegenTy ty = some r.typ ∧ r.addr ctx.symbolTable σ = some loc := by
  constructor
  · rintro ⟨p', hp', hexpr, -⟩
    obtain ⟨r, rfl, hr⟩ := Option.bind_eq_some_iff.mp hp'
    rw [projectedPlace_type_eq h hfat, Option.map_eq_some_iff] at hr
    obtain ⟨_, -, rfl⟩ := hr
    obtain ⟨hty, haddr⟩ : ctx.codegenTy ty = some r.typ ∧
        r.addr ctx.symbolTable σ = some loc := by
      simpa [DenotesExpr] using hexpr
    exact ⟨r, rfl, hty, haddr⟩
  · rintro ⟨r, rfl, hty, haddr⟩
    refine ⟨⟨r, .type ty, fat, fatTy⟩, ?_, ?_, hfat⟩
    · rw [Option.bind_some, projectedPlace_type_eq h hfat, hty, Option.map_some]
    · simp [DenotesExpr, hty, haddr]

/-- The expression for a place that is not known by a data pointer. -/
lemma Denotes.lvalue (h : ctx.Denotes σ before ⟨.type t, loc, b, fatPtr⟩)
    (hdst : isDst (ctx.kind t) = false) :
    before.mirTypOrVariant = .type t ∧ ctx.codegenTy t = some before.gotoExpr.typ ∧
      before.gotoExpr.addr ctx.symbolTable σ = some loc := by
  simpa [DenotesExpr, hdst] using h.expr

/-! ### Fields -/

section Fields

/-- A field is found where the struct in the table has it. -/
lemma member_iff (haddr : e.addr ctx.symbolTable σ = some loc) (name : String) (offset : ℕ) :
    (∃ r, e.member name ctx.symbolTable = some r ∧ ctx.codegenTy ty = some r.typ ∧
      r.addr ctx.symbolTable σ = some ((ctx.frame σ).shift loc offset)) ↔
    ctx.FieldPlaced e.typ name ty offset := by
  constructor
  · rintro ⟨r, hr, hty, hraddr⟩
    obtain ⟨htag, t', hlookup, rfl⟩ := Expr.member_eq_some.mp hr
    obtain ⟨a, o, ha, ho, heq⟩ := Expr.addr_of_member hr hraddr
    obtain rfl := Option.some.inj (ha.symm.trans haddr)
    exact ⟨t', o, hty, ⟨htag, hlookup, ho⟩, Nat.ModEq.add_left_cancel' a heq.symm⟩
  · rintro ⟨t', o, hty, hfield, ho⟩
    obtain ⟨r, hr, rfl, hraddr⟩ := hfield.exists_member
    refine ⟨r, hr, hty, ?_⟩
    rw [hraddr σ loc haddr]
    exact congrArg some (ho.add_left loc)

/-- A lane of a vector is found where the elements before it end. -/
lemma lane_iff {lane : Typ} {f : ℕ} (htyp : e.typ = .vector lane n)
    (haddr : e.addr ctx.symbolTable σ = some loc) (offset : ℕ) :
    (∃ r, (do e.indexArray (← Expr.intConstant f .sizeT)) = some r ∧
      ctx.codegenTy ty = some r.typ ∧
      r.addr ctx.symbolTable σ = some ((ctx.frame σ).shift loc offset)) ↔
    ∃ size, ctx.codegenTy ty = some lane ∧ lane.bytes ctx.symbolTable = some size ∧
      f * size ≡ offset [MOD ctx.addresses] := by
  obtain ⟨c, hc, hctyp, hceval⟩ :=
    Expr.exists_intConstant (isIntegral_sizeT ctx.symbolTable) (f : ℤ)
  obtain ⟨r, hr, hrtyp, hraddr⟩ := Expr.exists_indexArray (e := e) (i := c)
    (show e.typ.baseType = some lane by rw [htyp]; rfl) (by rw [htyp]; rfl)
    (hctyp ▸ isIntegral_sizeT ctx.symbolTable)
  have haddr' := hraddr σ loc _ haddr (hceval σ)
  rw [pattern_natCast] at haddr'
  simp only [hc, Option.bind_eq_bind, Option.bind_some, hr, Option.some.injEq, exists_eq_left',
    hrtyp, haddr', Option.map_eq_some_iff]
  have hmod (size : ℕ) : (loc + f % ctx.addresses * size) % ctx.addresses =
      (loc + f * size) % ctx.addresses :=
    ((Nat.mod_modEq f ctx.addresses).mul_right size).add_left loc
  constructor
  · rintro ⟨hty, size, hsize, heq⟩
    exact ⟨size, hty, hsize, Nat.ModEq.add_left_cancel' loc ((hmod size).symm.trans heq)⟩
  · rintro ⟨size, hty, hsize, heq⟩
    exact ⟨hty, size, hsize, (hmod size).trans (heq.add_left loc)⟩

/-- What is not supported is not in memory. -/
lemma addr_codegenUnimplemented {operationName url : String} {t : Typ} {l : Location}
    (h : codegenUnimplemented operationName t l url = some r) :
    r.addr ctx.symbolTable σ = none := by
  simp only [codegenUnimplemented, bind_eq_some, pure_eq_some] at h
  obtain ⟨_, -, _, -, block, hblock, rfl⟩ := h
  obtain ⟨_, _, -, -, rfl⟩ := Expr.statementExpression_eq_some.mp hblock
  rfl

variable {s : Located Ty} {f : ℕ}

/-- The regular fields, by the kind of the type. -/
lemma regular_field_iff {t' : Typ} (hs : s.ty = .type t) (ht' : ctx.codegenTy t = some t') :
    ctx.Regular σ s (.field f ty) ↔ match ctx.kind t with
      | .tuple _ | .closure _ =>
        ctx.FieldPlaced t' (toString f) ty (ctx.offsetIn (ctx.frame σ) s f ty)
      | .adt adtDef =>
        if adtDef.simd then ∃ lane n size, t' = .vector lane n ∧ ctx.codegenTy ty = some lane ∧
          lane.bytes ctx.symbolTable = some size ∧
          f * size ≡ ctx.offsetIn (ctx.frame σ) s f ty [MOD ctx.addresses]
        else ∃ v name ty', adtDef.variants[0]? = some v ∧ v.fields[f]? = some (name, ty') ∧
          ctx.FieldPlaced t' name ty (ctx.offsetIn (ctx.frame σ) s f ty)
      | _ => False := by
  constructor
  · intro h
    cases h with
    | tupleField ht hkind ht'' hf | closureField ht hkind ht'' hf =>
      cases hs.symm.trans ht
      cases ht'.symm.trans ht''
      simpa only [hkind] using hf
    | adtField ht hkind hsimd hv hname ht'' hf =>
      cases hs.symm.trans ht
      cases ht'.symm.trans ht''
      simp only [hkind, hsimd, Bool.false_eq_true, if_false]
      exact ⟨_, _, _, hv, hname, hf⟩
    | lane ht hkind hsimd ht'' hlane hsize hf =>
      cases hs.symm.trans ht
      cases ht'.symm.trans ht''
      simp only [hkind, hsimd, if_true]
      exact ⟨_, _, _, rfl, hlane, hsize, hf⟩
    | variantField ht => cases hs.symm.trans ht
  · intro h
    cases hkind : ctx.kind t <;> simp only [hkind] at h
    case tuple => exact .tupleField hs hkind ht' h
    case closure => exact .closureField hs hkind ht' h
    case adt adtDef =>
      split_ifs at h with hsimd
      · obtain ⟨lane, n, size, rfl, hlane, hsize, hf⟩ := h
        exact .lane hs hkind hsimd ht' hlane hsize hf
      · obtain ⟨v, name, ty', hv, hname, hf⟩ := h
        exact .adtField hs hkind (by simpa using hsimd) hv hname ht' hf

/-- A field of a place of a type, by the kind of the type. -/
lemma codegenField_type_iff (hf : FieldTy ctx.toLayoutQueries (.type t) f ty)
    (he : ctx.codegenTy t = some e.typ) (haddr : e.addr ctx.symbolTable σ = some s.loc)
    (hs : s.ty = .type t) :
    (∃ r, ctx.codegenField e (.type t) f = some r ∧ ctx.codegenTy ty = some r.typ ∧
      r.addr ctx.symbolTable σ =
        some ((ctx.frame σ).shift s.loc (ctx.offsetIn (ctx.frame σ) s f ty))) ↔
    ctx.Regular σ s (.field f ty) := by
  rw [regular_field_iff hs he]
  cases hf with
  | tuple hkind _ | closure hkind _ =>
    simp only [codegenField, hkind]
    exact member_iff haddr _ _
  | @adt _ _ adtDef v name _ hkind henum hv hf =>
    by_cases hsimd : adtDef.simd = true
    · obtain ⟨lane, n, hvector⟩ : ∃ lane n, e.typ = .vector lane n := by
        have heq := ctx.translation.codegenTy_eq t
        rw [show ctx.translation.codegenTy t = some e.typ from he] at heq
        simp only [codegenTyInner, hkind, hsimd, if_true, Option.bind_eq_bind] at heq
        obtain ⟨⟨element, n⟩, -, heq⟩ := Option.bind_eq_some_iff.mp heq.symm
        obtain ⟨lane, -, heq⟩ := Option.bind_eq_some_iff.mp heq
        simp only [Typ.mkVector, Option.ite_none_right_eq_some, Option.some.injEq] at heq
        exact ⟨lane, n, heq.2.symm⟩
      simp only [codegenField, hkind, hsimd, if_true]
      rw [lane_iff hvector haddr]
      constructor
      · rintro ⟨size, hlane, hsize, hoffset⟩
        exact ⟨lane, n, size, hvector, hlane, hsize, hoffset⟩
      · rintro ⟨lane', n', size, hvector', hlane, hsize, hoffset⟩
        cases hvector.symm.trans hvector'
        exact ⟨size, hlane, hsize, hoffset⟩
    · simp only [codegenField, hkind, hsimd, Bool.false_eq_true, if_false, hv, hf,
        Option.bind_eq_bind, Option.bind_some]
      rw [member_iff haddr]
      constructor
      · intro hplaced
        exact ⟨v, name, ty, rfl, hf, hplaced⟩
      · rintro ⟨v', name', ty', hv', hf', hplaced⟩
        cases hv'
        cases hf.symm.trans hf'
        exact hplaced
  | generator hkind _ =>
    simp only [codegenField, hkind, iff_false]
    rintro ⟨r, hr, -, hraddr⟩
    rw [addr_codegenUnimplemented hr] at hraddr
    cases hraddr

/-- A field of a variant is where the place of the variant says. -/
lemma exists_codegenField_variant {idx : ℕ}
    (h : ctx.Denotes σ before ⟨.variant t idx, loc, b, fatPtr⟩)
    (hf : FieldTy ctx.toLayoutQueries (.variant t idx) f ty) :
    ∃ r, ctx.codegenField before.gotoExpr before.mirTypOrVariant f = some r ∧
      ctx.codegenTy ty = some r.typ ∧ r.addr ctx.symbolTable σ =
        some ((ctx.frame σ).shift loc (ctx.fieldOffset (.variant t idx) f)) := by
  obtain ⟨adtDef, v, a, hkind, hv, htv, haddr, hfields⟩ := h.expr
  cases hf with
  | variant hkind' hv' hname =>
    cases hkind.symm.trans hkind'
    cases hv.symm.trans hv'
    obtain ⟨t', o, ht', hfield, ho⟩ := hfields f _ _ hname
    obtain ⟨r, hr, rfl, hraddr⟩ := hfield.exists_member
    refine ⟨r, by simp [codegenField, htv, hname, hr], ht', ?_⟩
    rw [hraddr σ a haddr]
    exact congrArg some ho
  | generatorVariant hkind' => cases hkind.symm.trans hkind'

lemma field_iff (h : ctx.Entered) (hden : ctx.Denotes σ before s)
    (hf : FieldTy ctx.toLayoutQueries s.ty f ty) :
    (∃ p', ctx.codegenProjection before (.field f ty) = some p' ∧ ctx.Denotes σ p'
      ⟨.type ty, (ctx.frame σ).shift s.loc (ctx.offsetIn (ctx.frame σ) s f ty), false,
        s.fatPtr⟩) ↔ ctx.Regular σ s (.field f ty) := by
  rw [codegenProjection, Option.bind_eq_bind, exists_projectedPlace_iff h hden.fatPtr]
  obtain ⟨⟨t⟩ | ⟨t, idx⟩, loc, b, fatPtr⟩ := s
  · have hdst : isDst (ctx.kind t) = false := by cases hf <;> simp_all [isDst]
    obtain ⟨htv, he, haddr⟩ := hden.lvalue hdst
    rw [htv]
    exact codegenField_type_iff hf he haddr rfl
  · simp only [LayoutQueries.offsetIn]
    exact iff_of_true (exists_codegenField_variant hden hf) (.variantField rfl)

end Fields

/-! ### Elements -/

variable {l p : ℕ}

section Elements

variable {element pointee : Ty} {i : Expr} {m len offset minLength : ℕ} {signed : Bool}

/-- An element is found when its distance from the start is the same in both layouts. -/
lemma elementPlaced_iff (htyp : ctx.codegenTy element = some r.typ)
    (haddr : r.addr ctx.symbolTable σ =
      (r.typ.bytes ctx.symbolTable).map fun size => (loc + n * size) % ctx.addresses)
    (hn : n ≡ m [MOD ctx.addresses]) :
    (ctx.codegenTy element = some r.typ ∧
      r.addr ctx.symbolTable σ = some ((ctx.frame σ).shift loc (m * ctx.size element))) ↔
    ctx.ElementPlaced element m := by
  have hmod (size : ℕ) : (loc + n * size) % ctx.addresses = (loc + m * size) % ctx.addresses :=
    (hn.mul_right size).add_left loc
  rw [haddr]
  constructor
  · rintro ⟨-, h⟩
    obtain ⟨size, hsize, heq⟩ := Option.map_eq_some_iff.mp h
    exact ⟨r.typ, size, htyp, hsize, Nat.ModEq.add_left_cancel' loc ((hmod size).symm.trans heq)⟩
  · rintro ⟨t, size, ht, hsize, heq⟩
    cases htyp.symm.trans ht
    refine ⟨htyp, ?_⟩
    rw [hsize, Option.map_some, hmod]
    exact congrArg some (heq.add_left loc)

/-- The element of an array, at an index that has the type of sizes. -/
lemma codegenIdxArray_iff (hv : ctx.Valid σ) (hkind : ctx.kind t = .array element len)
    (he : ctx.codegenTy t = some e.typ) (haddr : e.addr ctx.symbolTable σ = some loc)
    (hloc : loc < ctx.addresses)
    (hi : i.typ.IsIntegral ctx.symbolTable.machineModel signed
      ctx.symbolTable.machineModel.pointerWidth)
    (hn : i.eval ctx.symbolTable σ = some n) (hm : n ≡ m [MOD ctx.addresses]) :
    (∃ r, codegenIdxArray ctx.symbolTable e i = some r ∧ ctx.codegenTy element = some r.typ ∧
      r.addr ctx.symbolTable σ = some ((ctx.frame σ).shift loc (m * ctx.size element))) ↔
    ctx.kind element ≠ .tuple [] ∧ ctx.ElementPlaced element m := by
  by_cases hunit : ctx.kind element = .tuple []
  · -- the struct of an array of units has no component
    have hstruct := hv.entered.arrayOfUnits he hkind hunit
    have hmember : e.member "0" ctx.symbolTable = none := by
      rw [Option.eq_none_iff_forall_ne_some]
      intro r hr
      obtain ⟨-, t', hlookup, -⟩ := Expr.member_eq_some.mp hr
      simp [hstruct.lookupFieldTypeInType] at hlookup
    simp [codegenIdxArray, hmember, hunit]
  · obtain ⟨t', ht', hstruct⟩ := hv.entered.array he hkind hunit
    have hbits : fieldOffsetInBits ctx.symbolTable [.field "0" (.array t' len)] "0" = some 0 := by
      simp [fieldOffsetInBits]
    have hfield : HasField ctx.symbolTable e.typ "0" (.array t' len) 0 :=
      hstruct.hasField (by simp) hbits rfl
    obtain ⟨array, harray, hatyp, haaddr⟩ := hfield.exists_member
    have haaddr' : array.addr ctx.symbolTable σ = some loc := by
      rw [haaddr σ loc haddr]
      exact congrArg some (Nat.mod_eq_of_lt hloc)
    obtain ⟨r, hr, hrtyp, hraddr⟩ := Expr.exists_indexArray (e := array) (i := i)
      (show array.typ.baseType = some t' by rw [hatyp]; rfl) (by rw [hatyp]; rfl) hi
    rw [← elementPlaced_iff (by rw [hrtyp, ht'])
      (by rw [hrtyp]; exact hraddr σ loc n haaddr' hn) hm]
    simp [codegenIdxArray, harray, hr, hunit]

/-- A slice behind a pointer is known by the pointer to its elements, and is an array else. -/
lemma Denotes.slice (hkind : ctx.kind t = .slice element)
    (h : ctx.Denotes σ before ⟨.type t, loc, b, fatPtr⟩) :
    before.mirTypOrVariant = .type t ∧ ∃ d, ctx.codegenTy element = some d ∧
      if b then before.gotoExpr.typ = .pointer d ∧
        before.gotoExpr.eval ctx.symbolTable σ = some loc
      else before.gotoExpr.typ = .flexibleArray d ∧
        before.gotoExpr.addr ctx.symbolTable σ = some loc := by
  have hexpr := h.expr
  cases b with
  | true =>
    obtain ⟨htv, ⟨d, hd, htyp⟩, heval⟩ : before.mirTypOrVariant = .type t ∧
        (∃ d, ctx.dataTyp t = some d ∧ before.gotoExpr.typ = .pointer d) ∧
        before.gotoExpr.eval ctx.symbolTable σ = some loc := by
      simpa [DenotesExpr, hkind, isDst] using hexpr
    exact ⟨htv, d, by simpa [dataTyp, hkind] using hd, htyp, heval⟩
  | false =>
    obtain ⟨htv, ht, haddr⟩ : before.mirTypOrVariant = .type t ∧
        ctx.codegenTy t = some before.gotoExpr.typ ∧
        before.gotoExpr.addr ctx.symbolTable σ = some loc := by
      simpa [DenotesExpr] using hexpr
    have heq := ctx.translation.codegenTy_eq t
    rw [show ctx.translation.codegenTy t = some before.gotoExpr.typ from ht] at heq
    simp only [codegenTyInner, hkind, Option.bind_eq_bind] at heq
    obtain ⟨d, hd, heq⟩ := Option.bind_eq_some_iff.mp heq.symm
    exact ⟨htv, d, hd, (Option.some.inj heq).symm, haddr⟩

lemma index_slice_iff (hkind : ctx.kind t = .slice element)
    (h : ctx.Denotes σ before ⟨.type t, loc, b, fatPtr⟩)
    (hi : i.typ.IsIntegral ctx.symbolTable.machineModel signed
      ctx.symbolTable.machineModel.pointerWidth)
    (hn : i.eval ctx.symbolTable σ = some n) :
    (∃ r, before.gotoExpr.index i = some r ∧ ctx.codegenTy element = some r.typ ∧
      r.addr ctx.symbolTable σ = some ((ctx.frame σ).shift loc (n * ctx.size element))) ↔
    ctx.ElementPlaced element n := by
  obtain ⟨-, d, hd, hslice⟩ := h.slice hkind
  obtain ⟨r, hr, hrtyp, hraddr⟩ : ∃ r, before.gotoExpr.index i = some r ∧ r.typ = d ∧
      r.addr ctx.symbolTable σ =
        (d.bytes ctx.symbolTable).map fun size => (loc + n * size) % ctx.addresses := by
    cases b with
    | true =>
      obtain ⟨htyp, heval⟩ : _ ∧ _ := by simpa using hslice
      obtain ⟨r, hr, hrtyp, hraddr⟩ := Expr.exists_index_pointer htyp hi
      exact ⟨r, hr, hrtyp, hraddr σ loc n heval hn⟩
    | false =>
      obtain ⟨htyp, haddr⟩ : _ ∧ _ := by simpa using hslice
      obtain ⟨r, hr, hrtyp, hraddr⟩ := Expr.exists_index_array (e := before.gotoExpr)
        (show before.gotoExpr.typ.baseType = some d by rw [htyp]; rfl) (by rw [htyp]; rfl) hi
      exact ⟨r, hr, hrtyp, hraddr σ loc n haddr hn⟩
  rw [← elementPlaced_iff (by rw [hrtyp, hd]) (by rw [hrtyp]; exact hraddr) (Nat.ModEq.refl n)]
  simp [hr]

/-- The variable of an index has the type of sizes, and its value is the one of the local. -/
lemma exists_codegenLocal_usize (hv : ctx.Valid σ)
    (hkind : ctx.kind (ctx.localTy l) = .uint .usize) :
    ∃ i, ctx.codegenLocal l = some i ∧ i.typ = .sizeT ∧
      i.eval ctx.symbolTable σ = some ((ctx.frame σ).loadPtr ((ctx.frame σ).address l)) := by
  have hty : ctx.codegenTy (ctx.localTy l) = some .sizeT := by
    rw [codegenTy, ctx.translation.codegenTy_eq, codegenTyInner, hkind]
    rfl
  have hplain : ctx.codegenLocalFndef ctx.depth (ctx.localTy l) = some none := by
    obtain ⟨n, hn⟩ := Nat.exists_eq_succ_of_ne_zero hv.depth_pos.ne'
    simp [hn, codegenLocalFndef, hkind]
  refine ⟨Expr.symbolExpression (ctx.codegenVarName l) .sizeT, ?_, rfl, ?_⟩
  · simp [codegenLocal, hplain, hty]
  · rw [Expr.eval_of_addr (a := σ.address (ctx.codegenVarName l))
        (by simp [Expr.symbolExpression, ExprValue.addr])]
    rw [State.loadTyp, show (Expr.symbolExpression (ctx.codegenVarName l) Typ.sizeT).typ = .sizeT
      from rfl, Typ.bytes_sizeT hv.width]
    rfl

lemma index_iff (hv : ctx.Valid σ) (hden : ctx.Denotes σ before ⟨.type t, loc, b, fatPtr⟩)
    (hloc : loc < ctx.addresses) (helement : ctx.element t = some element)
    (hl : ctx.kind (ctx.localTy l) = .uint .usize) :
    (∃ p', ctx.codegenProjection before (.index l) = some p' ∧ ctx.Denotes σ p'
      ⟨.type element, (ctx.frame σ).shift loc
        ((ctx.frame σ).loadPtr ((ctx.frame σ).address l) * ctx.size element), false, fatPtr⟩) ↔
    ctx.Regular σ ⟨.type t, loc, b, fatPtr⟩ (.index l) := by
  obtain ⟨i, hi, hityp, hieval⟩ := exists_codegenLocal_usize hv hl
  have hint : i.typ.IsIntegral ctx.symbolTable.machineModel false
      ctx.symbolTable.machineModel.pointerWidth := hityp ▸ isIntegral_sizeT ctx.symbolTable
  unfold LayoutQueries.element at helement
  split at helement
  next element' len hkind =>
    cases helement
    obtain ⟨htv, he, haddr⟩ := hden.lvalue (by simp [hkind, isDst])
    have hproj : ctx.codegenProjection before (.index l) =
        (codegenIdxArray ctx.symbolTable before.gotoExpr i).bind fun expr =>
          ctx.projectedPlace expr (.type element) before.fatPtrGotoExpr before.fatPtrMirTyp := by
      simp [codegenProjection, codegenIndex, ProjectedPlace.mirTyp, htv, TypeOrVariant.expectType,
        hi, indexExpr, hkind, Option.bind_assoc]
    rw [hproj, exists_projectedPlace_iff hv.entered hden.fatPtr,
      codegenIdxArray_iff hv hkind he haddr hloc hint hieval (Nat.ModEq.refl _)]
    constructor
    · rintro ⟨hunit, hplaced⟩
      exact .indexArray rfl hkind hunit hplaced
    · intro h
      cases h <;> simp_all
  next element' hkind =>
    cases helement
    obtain ⟨htv, -⟩ := hden.slice hkind
    have hproj : ctx.codegenProjection before (.index l) =
        (before.gotoExpr.index i).bind fun expr =>
          ctx.projectedPlace expr (.type element) before.fatPtrGotoExpr before.fatPtrMirTyp := by
      simp [codegenProjection, codegenIndex, ProjectedPlace.mirTyp, htv, TypeOrVariant.expectType,
        hi, indexExpr, hkind, Option.bind_assoc]
    rw [hproj, exists_projectedPlace_iff hv.entered hden.fatPtr,
      index_slice_iff hkind hden hint hieval]
    constructor
    · exact .indexSlice rfl hkind
    · intro h
      cases h <;> simp_all
  next => cases helement

lemma constantIndex_array_iff (hv : ctx.Valid σ)
    (hden : ctx.Denotes σ before ⟨.type t, loc, b, fatPtr⟩) (hloc : loc < ctx.addresses)
    (hkind : ctx.kind t = .array element len) (hmin : minLength ≤ len) (fromEnd : Bool) :
    (∃ p', ctx.codegenProjection before (.constantIndex offset minLength fromEnd) = some p' ∧
      ctx.Denotes σ p' ⟨.type element, (ctx.frame σ).shift loc
        ((if fromEnd then len - offset else offset) * ctx.size element), false, fatPtr⟩) ↔
    ctx.Regular σ ⟨.type t, loc, b, fatPtr⟩ (.constantIndex offset minLength fromEnd) := by
  obtain ⟨htv, he, haddr⟩ := hden.lvalue (by simp [hkind, isDst])
  obtain ⟨i, hi, hityp, hieval⟩ := Expr.exists_intConstant (isIntegral_ssizeT ctx.symbolTable)
    (((if fromEnd then len - offset else offset : ℕ) : ℤ))
  have hproj : ctx.codegenProjection before (.constantIndex offset minLength fromEnd) =
      (codegenIdxArray ctx.symbolTable before.gotoExpr i).bind fun expr =>
        ctx.projectedPlace expr (.type element) before.fatPtrGotoExpr before.fatPtrMirTyp := by
    simp only [codegenProjection, codegenConstantIndex, ProjectedPlace.mirTyp, htv,
      TypeOrVariant.expectType, Option.bind_eq_bind, Option.bind_some, hkind, guard, hmin, if_true,
      Option.pure_def, hi]
  have hieval' := hieval σ
  rw [pattern_natCast] at hieval'
  rw [hproj, exists_projectedPlace_iff hv.entered hden.fatPtr,
    codegenIdxArray_iff hv hkind he haddr hloc (hityp ▸ isIntegral_ssizeT ctx.symbolTable) hieval'
      (Nat.mod_modEq _ _)]
  constructor
  · rintro ⟨hunit, hplaced⟩
    exact .constantIndexArray rfl hkind hunit hplaced
  · intro h
    cases h <;> simp_all

lemma exists_sliceIndex_front (σ : State) (before : ProjectedPlace Ty) (offset : ℕ) :
    ∃ i, ctx.sliceIndex before offset false = some i ∧ i.typ = .sizeT ∧
      i.eval ctx.symbolTable σ = some (offset % ctx.addresses) := by
  obtain ⟨i, hi, hityp, hieval⟩ :=
    Expr.exists_intConstant (isIntegral_sizeT ctx.symbolTable) (offset : ℤ)
  refine ⟨i, by simp [sliceIndex, hi], hityp, ?_⟩
  rw [hieval σ, pattern_natCast]
  rfl

lemma exists_member_len (hv : ctx.Valid σ) (hptr : ctx.fatPtrTyp pointee = some e.typ)
    (hslice : useSliceFatPointer ctx.toTyQueries pointee = true)
    (haddr : e.addr ctx.symbolTable σ = some p) :
    ∃ r, e.member "len" ctx.symbolTable = some r ∧ r.typ = .sizeT ∧
      r.eval ctx.symbolTable σ = some ((ctx.frame σ).metadata p) := by
  obtain ⟨r, hr, hrtyp, hraddr⟩ := (hv.entered.hasField_len hv.width hptr hslice).exists_member
  refine ⟨r, hr, hrtyp, ?_⟩
  rw [Expr.eval_of_addr (hraddr σ p haddr), hrtyp, State.loadTyp, Typ.bytes_sizeT hv.width]
  rfl

/-- The index of a slice pattern from the end, which is not more than the length. -/
lemma exists_sliceIndex_back (hv : ctx.Valid σ)
    (hfat : ctx.DenotesFatPtr σ before.fatPtrGotoExpr before.fatPtrMirTyp (some (p, pointee)))
    (hslice : useSliceFatPointer ctx.toTyQueries pointee = true)
    (hoffset : offset ≤ (ctx.frame σ).metadata p) :
    ∃ i, ctx.sliceIndex before offset true = some i ∧ i.typ = .sizeT ∧
      i.eval ctx.symbolTable σ = some ((ctx.frame σ).metadata p - offset) := by
  obtain ⟨f, -, hf, -, -, hptr, haddr⟩ := hfat
  obtain ⟨length, hlength, hltyp, hleval⟩ := exists_member_len hv hptr hslice haddr
  obtain ⟨c, hc, hctyp, hceval⟩ :=
    Expr.exists_intConstant (isIntegral_sizeT ctx.symbolTable) (offset : ℤ)
  obtain ⟨i, hi, hityp, hieval⟩ := Expr.exists_arithmetic (isIntegral_sizeT ctx.symbolTable) hltyp
    hctyp (.inr (.inl rfl))
  refine ⟨i, by simp [sliceIndex, hc, hf, hlength, Expr.sub, hi], hityp, ?_⟩
  have hlt : (ctx.frame σ).metadata p < ctx.addresses := Frame.loadPtr_lt hv.width _
  have hmod : offset % 2 ^ ctx.symbolTable.machineModel.pointerWidth = offset :=
    Nat.mod_eq_of_lt (hoffset.trans_lt hlt)
  rw [hieval σ _ _ hleval (hceval σ), pattern_natCast, hmod]
  simp only [BinaryOperand.exact, value_false, Option.map_some, Option.some.injEq]
  rw [← Nat.cast_sub hoffset, pattern_natCast]
  exact Nat.mod_eq_of_lt ((Nat.sub_le _ _).trans_lt hlt)

/-- A slice pattern needs the pointer to the elements: there is no arithmetic on an array. -/
lemma codegenConstantIndex_slice (hkind : ctx.kind t = .slice element)
    (hden : ctx.Denotes σ before ⟨.type t, loc, false, fatPtr⟩) (offset minLength : ℕ)
    (fromEnd : Bool) :
    ctx.codegenProjection before (.constantIndex offset minLength fromEnd) = none := by
  obtain ⟨htv, d, -, htyp, -⟩ := hden.slice hkind
  have hplus (i : Expr) : before.gotoExpr.plus i = none := by
    simp [Expr.plus, Expr.binop, Expr.typecheckBinopArgs, htyp, Typ.isPointer, Typ.isNumeric,
      Typ.isInteger, Typ.isFloatingPoint, Typ.isVector]
  simp [codegenProjection, codegenConstantIndex, ProjectedPlace.mirTyp, htv,
    TypeOrVariant.expectType, hkind, hplus]

lemma constantIndex_slice_iff (h : ctx.Entered) (hkind : ctx.kind t = .slice element)
    (hden : ctx.Denotes σ before ⟨.type t, loc, true, fatPtr⟩) {fromEnd : Bool}
    (hi : ctx.sliceIndex before offset fromEnd = some i) (hityp : i.typ = .sizeT)
    (hn : i.eval ctx.symbolTable σ = some n) (hm : n ≡ m [MOD ctx.addresses]) :
    (∃ p', ctx.codegenProjection before (.constantIndex offset minLength fromEnd) = some p' ∧
      ctx.Denotes σ p' ⟨.type element, (ctx.frame σ).shift loc (m * ctx.size element), false,
        fatPtr⟩) ↔ ctx.ElementPlaced element m := by
  obtain ⟨htv, d, hd, htyp, heval⟩ := hden.slice hkind
  obtain ⟨p, r, hp, hr, hrtyp, hraddr⟩ := Expr.exists_plus_dereference htyp
    (hityp ▸ isIntegral_sizeT ctx.symbolTable)
  have hproj : ctx.codegenProjection before (.constantIndex offset minLength fromEnd) =
      (some r).bind fun expr =>
        ctx.projectedPlace expr (.type element) before.fatPtrGotoExpr before.fatPtrMirTyp := by
    simp [codegenProjection, codegenConstantIndex, ProjectedPlace.mirTyp, htv,
      TypeOrVariant.expectType, hkind, hi, hp, hr]
  rw [hproj, exists_projectedPlace_iff h hden.fatPtr,
    ← elementPlaced_iff (by rw [hrtyp, hd]) (by rw [hrtyp]; exact hraddr σ loc n heval hn) hm]
  simp

lemma constantIndex_front_iff (hv : ctx.Valid σ)
    (hden : ctx.Denotes σ before ⟨.type t, loc, b, fatPtr⟩) (hkind : ctx.kind t = .slice element)
    (offset minLength : ℕ) :
    (∃ p', ctx.codegenProjection before (.constantIndex offset minLength false) = some p' ∧
      ctx.Denotes σ p' ⟨.type element, (ctx.frame σ).shift loc (offset * ctx.size element), false,
        fatPtr⟩) ↔
    ctx.Regular σ ⟨.type t, loc, b, fatPtr⟩ (.constantIndex offset minLength false) := by
  have hregular : ctx.Regular σ ⟨.type t, loc, b, fatPtr⟩ (.constantIndex offset minLength false) ↔
      b = true ∧ ctx.ElementPlaced element offset := by
    constructor
    · intro h
      cases h <;> simp_all
    · rintro ⟨hb, hplaced⟩
      exact .constantIndexFront rfl hkind hb hplaced
  rw [hregular]
  cases b with
  | true =>
    obtain ⟨i, hi, hityp, hieval⟩ := ctx.exists_sliceIndex_front σ before offset
    rw [constantIndex_slice_iff hv.entered hkind hden hi hityp hieval (Nat.mod_modEq _ _)]
    simp
  | false => simp [codegenConstantIndex_slice hkind hden]

lemma constantIndex_back_iff (hv : ctx.Valid σ)
    (hden : ctx.Denotes σ before ⟨.type t, loc, b, some (p, pointee)⟩)
    (hok : Located.Ok ctx.toLayoutQueries (ctx.frame σ) ⟨.type t, loc, b, some (p, pointee)⟩)
    (hkind : ctx.kind t = .slice element) (minLength : ℕ)
    (hlen : offset ≤ (ctx.frame σ).metadata p) :
    (∃ p', ctx.codegenProjection before (.constantIndex offset minLength true) = some p' ∧
      ctx.Denotes σ p' ⟨.type element, (ctx.frame σ).shift loc
        (((ctx.frame σ).metadata p - offset) * ctx.size element), false, some (p, pointee)⟩) ↔
    ctx.Regular σ ⟨.type t, loc, b, some (p, pointee)⟩ (.constantIndex offset minLength true) := by
  have hregular : ctx.Regular σ ⟨.type t, loc, b, some (p, pointee)⟩
      (.constantIndex offset minLength true) ↔
        b = true ∧ ctx.ElementPlaced element ((ctx.frame σ).metadata p - offset) := by
    constructor
    · intro h
      cases h <;> simp_all
    · rintro ⟨hb, hplaced⟩
      exact .constantIndexBack rfl hkind hb rfl hplaced
  rw [hregular]
  cases b with
  | true =>
    -- the pointee of the last fat pointer is the slice itself
    obtain ⟨hunsized, hmetadata⟩ := hv.lawful.slice hkind
    obtain ⟨_, hfat⟩ := hok.fatPtr t rfl rfl hunsized
    cases hfat
    obtain ⟨i, hi, hityp, hieval⟩ := exists_sliceIndex_back hv hden.fatPtr
      (by simp [useSliceFatPointer, hmetadata]) hlen
    rw [constantIndex_slice_iff hv.entered hkind hden hi hityp hieval (Nat.ModEq.refl _)]
    simp
  | false => simp [codegenConstantIndex_slice hkind hden]

end Elements

/-! ### Variants -/

section Variants

variable {idx : ℕ} {v : Mir.VariantDef Ty} {adtDef : AdtDef Ty}

/-- The place of a variant is found when its fields are where the compiler has them. -/
lemma exists_variantPlace_iff (h : ctx.Entered) (hfat : ctx.DenotesFatPtr σ fat fatTy fatPtr)
    (hkind : ctx.kind t = .adt adtDef) (hv : adtDef.variants[idx]? = some v) (x : Option Expr) :
    (∃ p', (x.bind fun expr => ctx.projectedPlace expr (.variant v) fat fatTy) = some p' ∧
      ctx.Denotes σ p' ⟨.variant t idx, loc, false, fatPtr⟩) ↔
    ∃ r a, x = some r ∧ r.addr ctx.symbolTable σ = some a ∧
      ∀ f name ty, v.fields[f]? = some (name, ty) →
        ∃ t' o, ctx.codegenTy ty = some t' ∧ HasField ctx.symbolTable r.typ name t' o ∧
          a + o ≡ loc + ctx.fieldOffset (.variant t idx) f [MOD ctx.addresses] := by
  constructor
  · rintro ⟨p', hp', hexpr, -⟩
    obtain ⟨r, rfl, hr⟩ := Option.bind_eq_some_iff.mp hp'
    rw [projectedPlace_variant_eq h hfat, Option.some.injEq] at hr
    subst hr
    obtain ⟨adtDef', v', a, hkind', hv', -, haddr, hfields⟩ := hexpr
    cases hkind.symm.trans hkind'
    cases hv.symm.trans hv'
    exact ⟨r, a, rfl, haddr, hfields⟩
  · rintro ⟨r, a, rfl, haddr, hfields⟩
    refine ⟨⟨r, .variant v, fat, fatTy⟩, ?_, ?_, hfat⟩
    · rw [Option.bind_some, projectedPlace_variant_eq h hfat]
    · exact ⟨adtDef, v, a, hkind, hv, rfl, haddr, hfields⟩

/-- Fields are found from the place of the enum when they are from the start of the enum. -/
lemma variantPlaced_iff {caseTyp : Typ} {start a : ℕ} (ha : a ≡ loc + start [MOD ctx.addresses]) :
    (∀ f name ty, v.fields[f]? = some (name, ty) →
      ∃ t' o, ctx.codegenTy ty = some t' ∧ HasField ctx.symbolTable caseTyp name t' o ∧
        a + o ≡ loc + ctx.fieldOffset (.variant t idx) f [MOD ctx.addresses]) ↔
    ctx.VariantPlaced t idx v caseTyp start := by
  have hiff (o offset : ℕ) : a + o ≡ loc + offset [MOD ctx.addresses] ↔
      start + o ≡ offset [MOD ctx.addresses] := by
    have ho : a + o ≡ loc + (start + o) [MOD ctx.addresses] := by
      rw [← Nat.add_assoc]
      exact ha.add_right o
    constructor
    · intro h
      exact Nat.ModEq.add_left_cancel' loc (ho.symm.trans h)
    · intro h
      exact ho.trans (h.add_left loc)
  simp only [VariantPlaced, hiff]

lemma downcast_iff (h : ctx.Entered) (hden : ctx.Denotes σ before ⟨.type t, loc, b, fatPtr⟩)
    (hkind : ctx.kind t = .adt adtDef) (hv : adtDef.variants[idx]? = some v) :
    (∃ p', ctx.codegenProjection before (.downcast idx) = some p' ∧
      ctx.Denotes σ p' ⟨.variant t idx, loc, false, fatPtr⟩) ↔
    ctx.Regular σ ⟨.type t, loc, b, fatPtr⟩ (.downcast idx) := by
  obtain ⟨htv, he, haddr⟩ := hden.lvalue (by simp [hkind, isDst])
  have hproj : ctx.codegenProjection before (.downcast idx) =
      (ctx.variantExpr t v before.gotoExpr).bind fun expr =>
        ctx.projectedPlace expr (.variant v) before.fatPtrGotoExpr before.fatPtrMirTyp := by
    simp [codegenProjection, codegenDowncast, ProjectedPlace.mirTyp, htv, TypeOrVariant.expectType,
      hkind, hv]
  rw [hproj, exists_variantPlace_iff h hden.fatPtr hkind hv]
  by_cases hdirect : ∃ tag, ctx.variants t = .multiple tag .direct
  · obtain ⟨tag, hdirect⟩ := hdirect
    have hexpr : ctx.variantExpr t v before.gotoExpr =
        (before.gotoExpr.member "cases" ctx.symbolTable).bind fun cases =>
          cases.member v.name ctx.symbolTable := by
      simp [variantExpr, hdirect]
    rw [hexpr]
    constructor
    · rintro ⟨r, a, hr, hraddr, hfields⟩
      obtain ⟨cases, hcases, hcase⟩ := Option.bind_eq_some_iff.mp hr
      obtain ⟨a', o', ha', ho', rfl⟩ := Expr.addr_of_member hcase hraddr
      obtain ⟨a, o, ha, ho, rfl⟩ := Expr.addr_of_member hcases ha'
      cases haddr.symm.trans ha
      obtain ⟨htag, casesTyp, hlookup, rfl⟩ := Expr.member_eq_some.mp hcases
      obtain ⟨htag', caseTyp, hlookup', rfl⟩ := Expr.member_eq_some.mp hcase
      refine .downcastDirect rfl hkind hv he hdirect ⟨htag, hlookup, ho⟩ ⟨htag', hlookup', ho'⟩
        ((variantPlaced_iff ?_).mp hfields)
      rw [← Nat.add_assoc]
      exact (Nat.mod_modEq _ _).trans ((Nat.mod_modEq _ _).add_right o')
    · intro hregular
      cases hregular with
      | downcast ht hkind' hv' ht' hdirect' =>
        cases ht
        exact absurd hdirect (hdirect' tag)
      | @downcastDirect _ _ _ _ _ casesTyp caseTyp _ o o' ht hkind' hv' ht' hdirect' hfield hfield'
          hplaced =>
        cases ht
        cases hkind.symm.trans hkind'
        cases hv.symm.trans hv'
        cases he.symm.trans ht'
        obtain ⟨casesExpr, hcases, rfl, hcaddr⟩ := hfield.exists_member
        obtain ⟨r, hr, rfl, hraddr⟩ := hfield'.exists_member
        refine ⟨r, _, ?_, hraddr σ _ (hcaddr σ loc haddr), (variantPlaced_iff ?_).mpr hplaced⟩
        · rw [hcases, Option.bind_some, hr]
        rw [← Nat.add_assoc]
        exact (Nat.mod_modEq _ _).trans ((Nat.mod_modEq _ _).add_right o')
  · have hexpr : ctx.variantExpr t v before.gotoExpr = some before.gotoExpr := by
      cases hvariants : ctx.variants t with
      | single => simp [variantExpr, hvariants]
      | multiple tag encoding =>
        cases encoding with
        | direct => exact absurd ⟨tag, hvariants⟩ hdirect
        | niche => simp [variantExpr, hvariants]
    rw [hexpr]
    constructor
    · rintro ⟨r, a, hr, hraddr, hfields⟩
      cases hr
      cases haddr.symm.trans hraddr
      exact .downcast rfl hkind hv he (fun tag htag => hdirect ⟨tag, htag⟩)
        ((variantPlaced_iff (Nat.ModEq.refl _)).mp hfields)
    · intro hregular
      cases hregular with
      | downcast ht hkind' hv' ht' _ hplaced =>
        cases ht
        cases hkind.symm.trans hkind'
        cases hv.symm.trans hv'
        cases he.symm.trans ht'
        exact ⟨before.gotoExpr, loc, rfl, haddr, (variantPlaced_iff (Nat.ModEq.refl _)).mpr hplaced⟩
      | downcastDirect ht _ _ _ hdirect' =>
        cases ht
        exact absurd ⟨_, hdirect'⟩ hdirect

/-- There is no translation for the variants of a generator. -/
lemma downcast_generator_iff {upvars : List Ty} {returnTy : Ty}
    (hden : ctx.Denotes σ before ⟨.type t, loc, b, fatPtr⟩)
    (hkind : ctx.kind t = .generator upvars returnTy) (s' : Located Ty) :
    (∃ p', ctx.codegenProjection before (.downcast idx) = some p' ∧ ctx.Denotes σ p' s') ↔
    ctx.Regular σ ⟨.type t, loc, b, fatPtr⟩ (.downcast idx) := by
  obtain ⟨htv, -⟩ := hden.lvalue (by simp [hkind, isDst])
  have hproj : ctx.codegenProjection before (.downcast idx) = none := by
    simp [codegenProjection, codegenDowncast, ProjectedPlace.mirTyp, htv, TypeOrVariant.expectType,
      hkind]
  refine iff_of_false (by simp [hproj]) ?_
  intro hregular
  cases hregular with
  | downcast ht hkind' | downcastDirect ht hkind' =>
    cases ht
    cases hkind.symm.trans hkind'

end Variants

/-! ### Sequences -/

section Sequences

/-- One projection is followed exactly when it is regular. -/
lemma projection_iff (hv : ctx.Valid σ) {s s' : Located Ty} {proj : ProjectionElem Ty}
    (hden : ctx.Denotes σ before s) (hok : s.Ok ctx.toLayoutQueries (ctx.frame σ))
    (hstep : Step ctx.toLayoutQueries (ctx.frame σ) ctx.localTy s proj s') :
    (∃ p', ctx.codegenProjection before proj = some p' ∧ ctx.Denotes σ p' s') ↔
      ctx.Regular σ s proj := by
  cases hstep with
  | deref hp => exact deref_iff hv hden hok.loc_lt hp
  | field hf => exact field_iff hv.entered hden hf
  | index helement hi => exact index_iff hv hden hok.loc_lt helement hi
  | constantIndexArray hkind hmin _ =>
    exact constantIndex_array_iff hv hden hok.loc_lt hkind hmin _
  | constantIndexFront hkind => exact constantIndex_front_iff hv hden hkind _ _
  | constantIndexBack hkind hlen => exact constantIndex_back_iff hv hden hok hkind _ hlen
  | downcast hkind _ hvariant => exact downcast_iff hv.entered hden hkind hvariant
  | downcastGenerator hkind => exact downcast_generator_iff hden hkind _

variable {f : Expr} {projs : List (ProjectionElem Ty)} {proj : ProjectionElem Ty}
  {s s' : Located Ty}

/-- A box that is put together from a pointer is not in memory. -/
lemma addr_boxValue {t : Typ} (h : boxValue ctx.symbolTable f t = some r) :
    r.addr ctx.symbolTable σ = none := by
  simp only [boxValue, Expr.structExprWithNondetFields, bind_eq_some] at h
  obtain ⟨_, -, _, -, _, -, _, -, _, -, _, -, _, -, _, -, _, -, h⟩ := h
  obtain ⟨-, _, _, -, -, h⟩ := Expr.exists_structExprWithExplicitPadding_of_structExprFromValues h
  obtain ⟨-, rfl⟩ := Expr.structExprWithExplicitPadding_eq_some.mp h
  simp [ExprValue.addr]

/-- What stands for a function item, or for a pointer to one, is not the variable of a local. -/
lemma addr_of_codegenLocalFndef (hv : ctx.Valid σ) (l : ℕ)
    (h : ctx.codegenLocalFndef n t = some (some f)) :
    f.addr ctx.symbolTable σ ≠ some (σ.address (ctx.codegenVarName l)) := by
  induction n generalizing t f with
  | zero => cases h
  | succ n ih =>
    unfold codegenLocalFndef at h
    split at h
    next hkind =>
      simp only [codegenFndef, bind_eq_some, pure_eq_some, Option.some.injEq] at h
      obtain ⟨_, ⟨t', -, rfl⟩, rfl⟩ := h
      simp [Expr.symbolExpression, ExprValue.addr, hv.separate]
    next inner hkind =>
      obtain ⟨x, hx, h⟩ := Option.bind_eq_some_iff.mp h
      cases x with
      | none => cases h
      | some g =>
        dsimp only at h
        split_ifs at h
        · simp only [bind_eq_some, pure_eq_some, Option.some.injEq] at h
          obtain ⟨_, hg, rfl⟩ := h
          obtain ⟨-, rfl⟩ := Expr.addressOf_eq_some.mp hg
          simp [ExprValue.addr]
        · cases h
          exact ih hx
    next adtDef hkind =>
      split_ifs at h
      · obtain ⟨boxedTy, -, h⟩ := Option.bind_eq_some_iff.mp h
        obtain ⟨x, hx, h⟩ := Option.bind_eq_some_iff.mp h
        cases x with
        | none => cases h
        | some g =>
          simp only [bind_eq_some, pure_eq_some, Option.some.injEq] at h
          obtain ⟨_, -, _, hbox, rfl⟩ := h
          simp [addr_boxValue hbox]
      · cases h
    next => cases h

/-- A local is known by its variable when its type does not lead to a function item. -/
lemma codegenLocalFndef_eq_none_iff :
    ctx.codegenLocalFndef n t = some none ↔ ctx.EndsPlain n t := by
  induction n generalizing t with
  | zero => simp [codegenLocalFndef, EndsPlain]
  | succ n ih =>
    rw [codegenLocalFndef, EndsPlain]
    cases hkind : ctx.kind t with
    | fnDef sig => simp [Option.bind_eq_some_iff]
    | rawPtr inner =>
      simp only [← ih]
      cases hx : ctx.codegenLocalFndef n inner with
      | none => simp
      | some x =>
        cases x with
        | none => simp
        | some f =>
          by_cases hf : f.canTakeAddressOf = true <;> simp [hf, Option.bind_eq_some_iff]
    | adt adtDef =>
      simp only [← ih]
      split_ifs
      · cases hty : ctx.codegenTy t with
        | none => simp
        | some t' =>
          cases hx : ctx.codegenLocalFndef n (ctx.boxedTy t) with
          | none => simp
          | some x => cases x <;> simp [Option.bind_eq_some_iff]
      · simp
    | _ => simp

lemma initialProjection_iff (hv : ctx.Valid σ) (l : ℕ) :
    (∃ p, ctx.initialProjection l = some p ∧
      ctx.Denotes σ p (.start (ctx.frame σ) ctx.localTy l)) ↔ ctx.RegularLocal l := by
  rw [initialProjection, Option.bind_eq_bind, Located.start,
    exists_projectedPlace_iff hv.entered (show ctx.DenotesFatPtr σ none none none from ⟨rfl, rfl⟩)]
  constructor
  · rintro ⟨r, hr, hty, haddr⟩
    obtain ⟨x, hx, hr⟩ := Option.bind_eq_some_iff.mp hr
    cases x with
    | none => exact ⟨by rw [hty, Option.isSome_some], codegenLocalFndef_eq_none_iff.mp hx⟩
    | some f =>
      cases hr
      exact absurd haddr (addr_of_codegenLocalFndef hv l hx)
  · rintro ⟨hty, hplain⟩
    obtain ⟨t, ht⟩ := Option.isSome_iff_exists.mp hty
    refine ⟨Expr.symbolExpression (ctx.codegenVarName l) t, ?_, ht, ?_⟩
    · simp [codegenLocal, codegenLocalFndef_eq_none_iff.mpr hplain, ht]
    · simp [Expr.symbolExpression, ExprValue.addr, frame]

lemma codegenPlace_append (base : ℕ) (projs projs' : List (ProjectionElem Ty)) :
    ctx.codegenPlace ⟨base, projs ++ projs'⟩ =
      (ctx.codegenPlace ⟨base, projs⟩).bind fun p => projs'.foldlM ctx.codegenProjection p := by
  simp [codegenPlace, List.foldlM_append, Option.bind_assoc]

/-- A place is followed when its local is, and then its projections one after the other. -/
lemma follows_nil_iff (hv : ctx.Valid σ) : ctx.Follows σ ⟨l, []⟩ ↔ ctx.RegularLocal l := by
  rw [← initialProjection_iff hv]
  constructor
  · rintro ⟨s, p, hrun, hp, hden⟩
    cases hrun
    exact ⟨p, by simpa [codegenPlace] using hp, hden⟩
  · rintro ⟨p, hp, hden⟩
    exact ⟨_, p, .nil _, by simpa [codegenPlace] using hp, hden⟩

lemma start_ok (hv : ctx.Valid σ) (l : ℕ) :
    (Located.start (ctx.frame σ) ctx.localTy l).Ok ctx.toLayoutQueries (ctx.frame σ) :=
  ⟨hv.address_lt _, by simp [Located.start]⟩

lemma follows_concat_iff (hv : ctx.Valid σ) (h : ctx.Follows σ ⟨l, projs⟩)
    (hrun : Run ctx.toLayoutQueries (ctx.frame σ) ctx.localTy
      (.start (ctx.frame σ) ctx.localTy l) projs s)
    (hstep : Step ctx.toLayoutQueries (ctx.frame σ) ctx.localTy s proj s') :
    ctx.Follows σ ⟨l, projs ++ [proj]⟩ ↔ ctx.Regular σ s proj := by
  obtain ⟨s₀, p, hrun₀, hp, hden⟩ := h
  cases hrun₀.unique hrun
  rw [← projection_iff hv hden (hrun.ok hv.width (start_ok hv l)) hstep]
  constructor
  · rintro ⟨s'', p', hrun', hp', hden'⟩
    obtain ⟨s₁, hrun₁, hstep'⟩ := run_concat.mp hrun'
    cases hrun₁.unique hrun
    cases hstep'.unique hstep
    refine ⟨p', ?_, hden'⟩
    simpa [codegenPlace_append, hp] using hp'
  · rintro ⟨p', hp', hden'⟩
    refine ⟨s', p', run_concat.mpr ⟨_, hrun, hstep⟩, ?_, hden'⟩
    simpa [codegenPlace_append, hp] using hp'

/-- The translation follows every prefix of a sequence of projections that is possible for the type
of its local exactly when the local and each projection are regular. -/
theorem codegenPlace_follows_iff (hv : ctx.Valid σ) {place : Place Ty} {s : Located Ty}
    (hrun : Run ctx.toLayoutQueries (ctx.frame σ) ctx.localTy
      (.start (ctx.frame σ) ctx.localTy place.base) place.projection s) :
    (∀ n ≤ place.projection.length, ctx.Follows σ ⟨place.base, place.projection.take n⟩) ↔
      ctx.RegularRun σ place := by
  constructor
  · intro hfollows
    refine ⟨(follows_nil_iff hv).mp (by simpa using hfollows 0 (Nat.zero_le _)), ?_⟩
    intro n s₁ proj hprefix hproj
    obtain ⟨hlt, rfl⟩ := List.getElem?_eq_some_iff.mp hproj
    obtain ⟨s₁', s₂, hprefix', hstep⟩ := hrun.exists_step hlt
    cases hprefix'.unique hprefix
    have hnext := hfollows (n + 1) hlt
    rw [List.take_succ_eq_append_getElem hlt] at hnext
    exact (follows_concat_iff hv (hfollows n hlt.le) hprefix hstep).mp hnext
  · rintro ⟨hlocal, hregular⟩ n hn
    induction n with
    | zero => simpa using (follows_nil_iff hv).mpr hlocal
    | succ n ih =>
      obtain ⟨s₁, s₂, hprefix, hstep⟩ := hrun.exists_step hn
      rw [List.take_succ_eq_append_getElem hn]
      exact (follows_concat_iff hv (ih (Nat.le_of_succ_le hn)) hprefix hstep).mpr
        (hregular n s₁ _ hprefix (List.getElem?_eq_getElem hn))

end Sequences

/-! ### A slice of slices -/

section NestedSlices

/-- The types of a slice (`4`) of slices of bytes (`2`), with the references to both (`5`, `3`), and
of its index (`1`). -/
def nestedSlicesQueries : PlaceQueries ℕ where
  kind
    | 0 => .uint .u8
    | 1 => .uint .usize
    | 2 => .slice 0
    | 3 => .ref 2
    | 4 => .slice 3
    | 5 => .ref 4
    | _ => .never
  tyMangledName t := "_" ++ toString t
  isUnsized t := t = 2 ∨ t = 4
  ptrMetadataTy t := if t = 2 ∨ t = 4 then .usize else .unit
  vectorAbi _ := none
  boxedTy t := t
  size
    | 0 => 1
    | 1 => 8
    | 3 | 5 => 16
    | _ => 0
  fieldOffset _ _ := 0
  boxPointerOffset _ := 0
  allocTy t := t
  mkPtr t := t
  mkSlice t := t
  variants _ := .single 0
  fnName _ := "f"

def nestedSlicesTranslation : TyTranslation nestedSlicesQueries.toTyQueries 1 where
  codegenTy :=
    let step := codegenTyInner nestedSlicesQueries.toTyQueries 1
    step (step (step fun _ => none))
  codegenTy_eq ty := by
    match ty with
    | 0 | 1 | 2 | 3 | 4 | 5 => rfl
    | n + 6 => rfl

/-- A struct in a table. -/
def structSymbol (name : String) (cs : List DatatypeComponent) : Symbol where
  name := "tag-" ++ name
  location := .none
  typ := .struct name cs
  value := .none
  baseName := some name
  prettyName := none
  isType := true

/-- A table with the structs of the two references. -/
def nestedSlicesTable : SymbolTable :=
  ((SymbolTable.empty (machineModelFromSession none "x86_64" false 64)).set
    (structSymbol "_2" [.field "data" (.pointer (.unsignedbv 8)), .field "len" .sizeT])).set
    (structSymbol "_4" [.field "data" (.pointer (.structTag "tag-_2")), .field "len" .sizeT])

/-- A function with the slice of slices (`_0`) and an index (`_1`) as its locals. -/
def nestedSlicesCtx : PlaceCtx ℕ where
  toPlaceQueries := nestedSlicesQueries
  depth := 1
  translation := nestedSlicesTranslation
  symbolTable := nestedSlicesTable
  localTy l := if l = 0 then 5 else 1
  codegenVarName l := "x" ++ toString l

/-- All is at the start of an empty memory, except for functions. -/
def nestedSlicesState : State := ⟨fun _ => 0, fun x => if x = "f" then 1 else 0⟩

lemma fatPtrTyp_nestedSlices {t : Typ} (h : nestedSlicesCtx.fatPtrTyp p = some t) :
    (p = 2 ∧ t = .structTag "tag-_2") ∨ (p = 4 ∧ t = .structTag "tag-_4") := by
  match p with
  | 2 => exact .inl ⟨rfl, (Option.some.inj h).symm⟩
  | 4 => exact .inr ⟨rfl, (Option.some.inj h).symm⟩
  | 0 | 1 | 3 | 5 => cases h
  | n + 6 => cases h

lemma kind_nestedSlices (t : ℕ) : nestedSlicesCtx.kind t ∈
    [TyKind.uint .u8, .uint .usize, .slice 0, .ref 2, .slice 3, .ref 4, .never] := by
  match t with
  | 0 | 1 | 2 | 3 | 4 | 5 => simp [nestedSlicesCtx, nestedSlicesQueries]
  | n + 6 => simp [nestedSlicesCtx, nestedSlicesQueries]

lemma entered_nestedSlices : nestedSlicesCtx.Entered where
  slicePtr {p t} h _ := by
    rcases fatPtrTyp_nestedSlices h with ⟨rfl, rfl⟩ | ⟨rfl, rfl⟩
    · refine ⟨.unsignedbv 8, rfl, "tag-_2", structSymbol "_2" _, "_2", rfl, ?_, rfl⟩
      simp [nestedSlicesCtx, nestedSlicesTable, SymbolTable.lookup_set, structSymbol]
    · refine ⟨.structTag "tag-_2", rfl, "tag-_4", structSymbol "_4" _, "_4", rfl, ?_, rfl⟩
      simp [nestedSlicesCtx, nestedSlicesTable, SymbolTable.lookup_set, structSymbol]
  vtablePtr h hslice := by
    rcases fatPtrTyp_nestedSlices h with ⟨rfl, rfl⟩ | ⟨rfl, rfl⟩ <;> cases hslice
  arrayOfUnits {a _ _ _} _ hkind := by simpa [hkind] using kind_nestedSlices a
  array {a _ _ _} _ hkind := by simpa [hkind] using kind_nestedSlices a
  box {b _} _ hbox := by
    match b with
    | 0 | 1 | 2 | 3 | 4 | 5 => cases hbox
    | n + 6 => cases hbox

lemma lawful_nestedSlices : Lawful nestedSlicesCtx.toTyQueries where
  slice {t _} hkind := by
    match t with
    | 2 | 4 => exact ⟨rfl, rfl⟩
    | 0 | 1 | 3 | 5 => cases hkind
    | n + 6 => cases hkind
  str {t} hkind := by simpa [hkind] using kind_nestedSlices t
  dynamic {t} hkind := by simpa [hkind] using kind_nestedSlices t
  foreign {t} hkind := by simpa [hkind] using kind_nestedSlices t
  kind_of_isUnsized {t} h := by
    match t with
    | 2 | 4 => exact .inl rfl
    | 0 | 1 | 3 | 5 => cases h
    | n + 6 => simp [nestedSlicesCtx, nestedSlicesQueries] at h

lemma pointerWidth_nestedSlices : nestedSlicesCtx.symbolTable.machineModel.pointerWidth = 64 := rfl

lemma valid_nestedSlices : nestedSlicesCtx.Valid nestedSlicesState where
  lawful := lawful_nestedSlices
  entered := entered_nestedSlices
  width := by rw [pointerWidth_nestedSlices]
  depth_pos := Nat.one_pos
  address_lt x := by
    have hx : nestedSlicesState.address x ≤ 1 := by
      simp only [nestedSlicesState]
      split_ifs <;> omega
    rw [addresses, pointerWidth_nestedSlices]
    omega
  separate _ l := by
    have hne : "x" ++ toString l ≠ "f" := by
      intro h
      have hfirst := congrArg (fun s : String => s.toList.head?) h
      simp at hfirst
    show (if "f" = "f" then 1 else 0) ≠ if "x" ++ toString l = "f" then 1 else 0
    rw [if_neg hne]
    decide

omit [Ranked String] in
/-- Of two references to slices, one behind the other, the second is not followed. -/
theorem codegenPlace_nestedSlices :
    let _ : Ranked String := rankedString
    ∃ s, Run nestedSlicesCtx.toLayoutQueries (nestedSlicesCtx.frame nestedSlicesState)
        nestedSlicesCtx.localTy
        (.start (nestedSlicesCtx.frame nestedSlicesState) nestedSlicesCtx.localTy 0)
        [.deref, .index 1, .deref] s ∧
      nestedSlicesCtx.Valid nestedSlicesState ∧
      nestedSlicesCtx.codegenPlace ⟨0, [.deref, .index 1, .deref]⟩ = none := by
  intro _
  exact ⟨_, .cons (.deref rfl) (.cons (.index rfl rfl) (.cons (.deref rfl) (.nil _))),
    valid_nestedSlices, rfl⟩

omit [Ranked String] in
theorem codegenPlace_nestedSlices_element :
    let _ : Ranked String := rankedString
    ∀ n ≤ 2, nestedSlicesCtx.Follows nestedSlicesState ⟨0, [.deref, .index 1].take n⟩ := by
  intro _
  let place : Place ℕ := ⟨0, [.deref, .index 1]⟩
  have hrun : Run nestedSlicesCtx.toLayoutQueries (nestedSlicesCtx.frame nestedSlicesState)
      nestedSlicesCtx.localTy
      (.start (nestedSlicesCtx.frame nestedSlicesState) nestedSlicesCtx.localTy place.base)
      place.projection _ := .cons (.deref rfl) (.cons (.index rfl rfl) (.nil _))
  refine (codegenPlace_follows_iff valid_nestedSlices hrun).mpr ⟨⟨rfl, trivial⟩, ?_⟩
  intro n s proj hprefix hproj
  match n with
  | 0 =>
    cases hproj
    cases hprefix
    exact .deref rfl rfl (fun _ => ⟨rfl, by decide⟩) (fun h => by cases h)
  | 1 =>
    cases hproj
    have heq := hprefix.unique (.cons (.deref rfl) (.nil _))
    subst heq
    exact .indexSlice rfl rfl ⟨.structTag "tag-_2", 16, rfl, by decide +kernel, rfl⟩
  | n + 2 => cases hproj

end NestedSlices

end PlaceCtx

end Rmc.Codegen

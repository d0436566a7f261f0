import Rmc.Codegen.Static
import Rmc.Lib.Checked
import Rmc.Lib.Numeral
import Rmc.Lib.Tiling

/-!
# Allocations cut into pieces

`codegen_allocation_data` cuts an allocation at its relocations into runs of bytes and pointers, and
the pieces become the components of a struct. The loop keeps the end of the last pointer; the
pieces made so far end there. So the pieces tile the allocation, the struct has the size of the
allocation, and the value of the struct, whose pieces are made a second time, fits its type.
-/

namespace Rmc.Codegen

open OrdMap Tiling Checked ByteMemory

/-! ### Pieces -/

/-- The pointers of an allocation lie in it and do not overlap. Its number of bits is a `u64`, as
all sizes of the compiler are. -/
structure Allocation.WellFormed (alloc : Allocation) (pointerSize : ℕ) : Prop where
  apart : alloc.relocations.Pairwise fun r r' => r.1 + pointerSize ≤ r'.1
  inside : ∀ r ∈ alloc.relocations, r.1 + pointerSize ≤ alloc.bytes.length
  bits : 8 * alloc.bytes.length < 2 ^ 64

namespace AllocData

def isPointer : AllocData → Bool
  | .bytes _ => false
  | .expr _ => true

/-- The number of bytes of a piece. -/
def size (pointerSize : ℕ) : AllocData → ℕ
  | .bytes bs => bs.length
  | .expr _ => pointerSize

/-- The pointers among the pieces have the type that relocations are given. -/
def PointersTyped (data : List AllocData) : Prop :=
  ∀ e, .expr e ∈ data → e.typ = .pointer (.signedbv 8)

end AllocData

open AllocData

/-- Pieces laid out one behind the other from `o` on are the rest of the allocation from there, with
the pointers at the offsets of the relocations. -/
structure Tiles (alloc : Allocation) (pointerSize o : ℕ) (relocations : List (ℕ × ℕ))
    (data : List AllocData) : Prop where
  total_eq : o + total (size pointerSize) data = alloc.bytes.length
  bytes : ∀ p bs, (p, .bytes bs) ∈ place (size pointerSize) o data →
    (alloc.bytes.drop p).take bs.length = bs
  pointers : ((place (size pointerSize) o data).filter fun p => p.2.isPointer).map Prod.fst =
    relocations.map Prod.fst

variable {allocId offset pointerSize : ℕ} {relocations : List (ℕ × ℕ)} {data : List AllocData}

/-- The bytes before a pointer and the pointer, in front of a tiling from its end on. -/
lemma Tiles.cons {alloc : Allocation} {o : ℕ} {gap : List AllocData} {e : Expr} (hle : o ≤ offset)
    (hinside : offset + pointerSize ≤ alloc.bytes.length)
    (hgap : gapData alloc o offset = some gap)
    (h : Tiles alloc pointerSize (offset + pointerSize) relocations data) :
    Tiles alloc pointerSize o ((offset, allocId) :: relocations) (gap ++ .expr e :: data) := by
  have hexpr : Tiles alloc pointerSize offset ((offset, allocId) :: relocations)
      (.expr e :: data) := by
    refine ⟨?_, ?_, ?_⟩
    · rw [total_cons, ← h.total_eq]
      simp [size, Nat.add_assoc]
    · intro p bs hmem
      rw [place, List.mem_cons] at hmem
      rcases hmem with hmem | hmem
      · cases hmem
      · exact h.bytes p bs hmem
    · rw [place, List.filter_cons_of_pos rfl, List.map_cons, List.map_cons, ← h.pointers]
      rfl
  rw [gapData] at hgap
  by_cases hlt : o < offset
  · have hrange : o ≤ offset ∧ offset ≤ alloc.bytes.length := ⟨hle, by omega⟩
    rw [if_pos hlt] at hgap
    simp only [Allocation.inspect, hrange, and_self, guard_true, Option.pure_def,
      some_bind, Option.some.injEq] at hgap
    subst hgap
    have hlength : ((alloc.bytes.drop o).take (offset - o)).length = offset - o := by
      rw [List.length_take, List.length_drop]
      omega
    have hnext : o + size pointerSize (.bytes ((alloc.bytes.drop o).take (offset - o))) =
        offset := by
      rw [size, hlength]
      omega
    refine ⟨?_, ?_, ?_⟩
    · rw [List.singleton_append, total_cons, ← Nat.add_assoc, hnext, hexpr.total_eq]
    · intro p bs hmem
      rw [List.singleton_append, place, hnext, List.mem_cons] at hmem
      rcases hmem with hmem | hmem
      · cases hmem
        rw [hlength]
      · exact hexpr.bytes p bs hmem
    · rw [List.singleton_append, place, hnext, List.filter_cons_of_neg (by simp [isPointer])]
      exact hexpr.pointers
  · rw [if_neg hlt] at hgap
    cases hgap
    obtain rfl : o = offset := by omega
    exact hexpr

/-- An address as the address of a byte. -/
def bytePointer (base : Expr) : Expr :=
  if base.typ == .pointer (.unsignedbv 8) then base
  else .new (.typecast base) (.pointer (.unsignedbv 8))

/-- The address that many bytes after another one. -/
def offsetPointer (base : Expr) (offset : ℕ) : Expr :=
  .new (.typecast (.new (.binOp .plus (bytePointer base)
    (.new (.intConstant offset) (.unsignedbv 64))) (.pointer (.unsignedbv 8))))
    (.pointer (.signedbv 8))

section Loop

variable [Ranked String] {Ty : Type} {tcx : Tcx Ty}
  {inMemory : Allocation → String → GenOn StaticCtx Unit} {alloc : Allocation}

omit [Ranked String] in
lemma castTo_bytePointer {base : Expr} {t : Typ} (hbase : base.typ = .pointer t) :
    base.castTo (.pointer (.unsignedbv 8)) = some (bytePointer base) ∧
      (bytePointer base).typ = .pointer (.unsignedbv 8) := by
  rw [Expr.castTo_eq_some, bytePointer]
  by_cases heq : (base.typ == .pointer (.unsignedbv 8)) = true
  · have htyp : base.typ.erase = (Typ.pointer (.unsignedbv 8)).erase := Typ.beq_iff_erase.mp heq
    rw [hbase] at htyp
    have ht : t.erase = .unsignedbv 8 := by simpa [Typ.erase] using htyp
    have ht' : t = .unsignedbv 8 := by
      cases t <;> simp_all [Typ.erase]
    rw [if_pos heq]
    exact ⟨⟨by simp [Expr.canCastTo, Expr.canCastFrom, heq], .inl ⟨heq, rfl⟩⟩, by rw [hbase, ht']⟩
  · rw [Bool.not_eq_true] at heq
    rw [if_neg (by simp [heq])]
    refine ⟨⟨?_, .inr (.inr ⟨heq, rfl, rfl⟩)⟩, rfl⟩
    rw [hbase] at heq
    simp [Expr.canCastTo, Expr.canCastFrom, hbase, heq, Typ.isBool, Typ.isCBool, Typ.isInteger,
      Typ.isFloatingPoint, Typ.isPointer]

omit [Ranked String] in
/-- The pointer that many bytes after an address. -/
lemma pointerAt_eq {base : Expr} {t : Typ} (hbase : base.typ = .pointer t) (offset : ℕ) :
    pointerAt base (.pointer (.signedbv 8)) offset = some (offsetPointer base offset) := by
  obtain ⟨hbyte, htyp⟩ := castTo_bytePointer hbase
  have hsum : (bytePointer base).plus (.new (.intConstant offset) (.unsignedbv 64)) =
      some (.new (.binOp .plus (bytePointer base) (.new (.intConstant offset) (.unsignedbv 64)))
        (.pointer (.unsignedbv 8))) := by
    rw [Expr.plus, Expr.binop_eq_some]
    simp [Expr.typecheckBinopArgs, Expr.binopReturnType, htyp, Typ.isPointer, Typ.isInteger]
  have hint : Expr.intConstant (offset : ℤ) (.unsignedbv 64) =
      some (.new (.intConstant offset) (.unsignedbv 64)) := rfl
  simp only [pointerAt, Typ.unsignedInt, Nat.ofNat_pos, if_true, Typ.toPointer, some_bind, hbyte,
    hint, hsum]
  rfl

variable {ctx ctx' : StaticCtx} {nextOffset : ℕ}

/-- A relocation becomes a pointer some bytes after the start of what it points at. -/
lemma codegenAllocPointerWith_eq_some {e : Expr} :
    codegenAllocPointerWith tcx inMemory (.pointer (.signedbv 8)) allocId offset ctx =
      some (e, ctx') ↔
    ∃ base, baseAddr tcx inMemory allocId ctx = some (base, ctx') ∧
      e = offsetPointer base offset := by
  simp only [codegenAllocPointerWith, bind_eq_some, pure_eq_some, Prod.exists, Prod.mk.injEq]
  constructor
  · rintro ⟨base, _, hbase, _, hpointer, rfl, rfl⟩
    obtain ⟨t, ht, -⟩ := baseAddr_eq_some hbase
    rw [pointerAt_eq ht, Option.some.injEq] at hpointer
    exact ⟨base, hbase, hpointer.symm⟩
  · rintro ⟨base, hbase, rfl⟩
    obtain ⟨t, ht, -⟩ := baseAddr_eq_some hbase
    exact ⟨base, ctx', hbase, _, pointerAt_eq ht offset, rfl, rfl⟩

lemma allocationDataFrom_cons_eq_some :
    allocationDataFrom tcx inMemory alloc pointerSize nextOffset ((offset, allocId) :: relocations)
      ctx = some (data, ctx') ↔
    ∃ gap ptrOffset base ctx₁ rest, gapData alloc nextOffset offset = some gap ∧
      pointerOffset tcx alloc pointerSize offset = some ptrOffset ∧
      baseAddr tcx inMemory allocId ctx = some (base, ctx₁) ∧
      allocationDataFrom tcx inMemory alloc pointerSize (offset + pointerSize) relocations ctx₁ =
        some (rest, ctx') ∧
      data = gap ++ .expr (offsetPointer base ptrOffset) :: rest := by
  have hresT : Typ.signedInt 8 = some (.signedbv 8) := rfl
  simp only [allocationDataFrom, hresT, Typ.toPointer, some_bind,
    bind_eq_some, Option.pure_def, Option.some.injEq, Prod.exists, Prod.mk.injEq,
    codegenAllocPointerWith_eq_some]
  constructor
  · rintro ⟨gap, hgap, ptrOffset, hoffset, _, ctx₁, ⟨base, hbase, rfl⟩, rest, _, hrest, rfl, rfl⟩
    exact ⟨gap, ptrOffset, base, ctx₁, rest, hgap, hoffset, hbase, hrest, rfl⟩
  · rintro ⟨gap, ptrOffset, base, ctx₁, rest, hgap, hoffset, hbase, hrest, rfl⟩
    exact ⟨gap, hgap, ptrOffset, hoffset, _, ctx₁, ⟨base, hbase, rfl⟩, rest, ctx', hrest, rfl, rfl⟩

omit [Ranked String] in
lemma not_isPointer_of_mem_gapData {gap : List AllocData}
    (h : gapData alloc nextOffset offset = some gap) :
    ∀ d ∈ gap, d.isPointer = false := by
  rw [gapData] at h
  split at h
  · simp only [bind_eq_some, pure_eq_some] at h
    obtain ⟨bs, -, rfl⟩ := h
    simp [isPointer]
  · cases h
    simp

/-- The loop over the relocations, by induction on them: the pieces from the end of the last pointer
on tile the rest of the allocation. -/
lemma tiles_allocationDataFrom
    (happart : relocations.Pairwise fun r r' => r.1 + pointerSize ≤ r'.1)
    (hinside : ∀ r ∈ relocations, r.1 + pointerSize ≤ alloc.bytes.length)
    (hnext : ∀ r ∈ relocations, nextOffset ≤ r.1) (hle : nextOffset ≤ alloc.bytes.length)
    (h : allocationDataFrom tcx inMemory alloc pointerSize nextOffset relocations ctx =
      some (data, ctx')) :
    Tiles alloc pointerSize nextOffset relocations data ∧ PointersTyped data := by
  induction relocations generalizing nextOffset ctx data with
  | nil =>
    obtain ⟨rfl, -⟩ := allocationDataFrom_nil_eq_some.mp h
    rw [if_pos hle]
    refine ⟨⟨?_, ?_, ?_⟩, ?_⟩
    · simp only [total_cons, size, List.length_drop, total_nil]
      omega
    · intro p bs hmem
      rw [place, place, List.mem_singleton] at hmem
      cases hmem
      rw [List.take_length]
    · simp [place, isPointer]
    · intro e he
      simp at he
  | cons r relocations ih =>
    obtain ⟨offset, allocId⟩ := r
    rw [List.pairwise_cons] at happart
    rw [List.forall_mem_cons] at hinside hnext
    obtain ⟨gap, ptrOffset, base, ctx₁, rest, hgap, -, -, hrest, rfl⟩ :=
      allocationDataFrom_cons_eq_some.mp h
    obtain ⟨htiles, htyped⟩ := ih happart.2 hinside.2 happart.1 hinside.1 hrest
    refine ⟨htiles.cons hnext.1 hinside.1 hgap, ?_⟩
    intro e he
    rw [List.mem_append, List.mem_cons] at he
    rcases he with he | he | he
    · cases not_isPointer_of_mem_gapData hgap _ he
    · cases he
      rfl
    · exact htyped e he

/-- The pieces of an allocation have the same types whenever they are made. -/
lemma map_typ_allocationDataFrom
    {ctx₁ ctx₁' : StaticCtx} {data₁ : List AllocData}
    (h : allocationDataFrom tcx inMemory alloc pointerSize nextOffset relocations ctx =
      some (data, ctx'))
    (h₁ : allocationDataFrom tcx inMemory alloc pointerSize nextOffset relocations ctx₁ =
      some (data₁, ctx₁')) : data.map typ = data₁.map typ := by
  induction relocations generalizing nextOffset ctx ctx₁ data data₁ with
  | nil =>
    rw [(allocationDataFrom_nil_eq_some.mp h).1, (allocationDataFrom_nil_eq_some.mp h₁).1]
  | cons r relocations ih =>
    obtain ⟨gap, _, base, _, rest, hgap, -, -, hrest, rfl⟩ := allocationDataFrom_cons_eq_some.mp h
    obtain ⟨gap', _, base', _, rest', hgap', -, -, hrest', rfl⟩ :=
      allocationDataFrom_cons_eq_some.mp h₁
    cases hgap.symm.trans hgap'
    rw [List.map_append, List.map_append, List.map_cons, List.map_cons, ih hrest hrest']
    rfl

end Loop

/-! ### The struct of an allocation -/

lemma componentsFrom_cons (k : ℕ) (d : AllocData) (data : List AllocData) :
    componentsFrom k (d :: data) = .field (toString k) d.typ :: componentsFrom (k + 1) data := rfl

/-- Only the types of the pieces matter. -/
lemma componentsFrom_congr {data' : List AllocData} (h : data.map typ = data'.map typ) (k : ℕ) :
    componentsFrom k data = componentsFrom k data' := by
  have heq : ∀ data : List AllocData, componentsFrom k data =
      ((data.map typ).zipIdx k).map fun p => .field (toString p.2) p.1 := by
    intro data
    rw [List.zipIdx_map, List.map_map]
    rfl
  rw [heq, heq, h]

section Struct

lemma sizeofWith_typ {mm : MachineModel} {tags : String → Option ℕ} {d : AllocData}
    (hwidth : mm.pointerWidth = 8 * pointerSize)
    (htyped : ∀ e, d = .expr e → e.typ = .pointer (.signedbv 8))
    (hbits : 8 * d.size pointerSize < 2 ^ 64) :
    d.typ.sizeofWith mm tags = some (8 * d.size pointerSize) := by
  cases d with
  | bytes bs => exact checkedU64_of_lt hbits
  | expr e => simp [typ, htyped e rfl, Typ.sizeofWith, hwidth, size]

lemma sizeofSum_componentsFrom {mm : MachineModel} {tags : String → Option ℕ}
    (hwidth : mm.pointerWidth = 8 * pointerSize) (htyped : PointersTyped data) (k : ℕ)
    (hbits : 8 * total (size pointerSize) data < 2 ^ 64) :
    sizeofSum mm tags (componentsFrom k data) = some (8 * total (size pointerSize) data) := by
  induction data generalizing k with
  | nil => rfl
  | cons d data ih =>
    rw [total_cons] at hbits
    have hd : d.typ.sizeofWith mm tags = some (8 * d.size pointerSize) :=
      sizeofWith_typ hwidth (fun e he => htyped e (by simp [he])) (by omega)
    have hrest := ih (fun e he => htyped e (List.mem_cons_of_mem _ he)) (k + 1) (by omega)
    rw [componentsFrom_cons, sizeofSum, DatatypeComponent.sizeofWith, hd, hrest, total_cons]
    simp only [some_bind]
    rw [checkedU64_of_lt (by omega), Nat.mul_add]

lemma fieldOffsetInBits_componentsFrom [Ranked String] {st : SymbolTable}
    (hwidth : st.machineModel.pointerWidth = 8 * pointerSize) (htyped : PointersTyped data)
    (k : ℕ) (hbits : 8 * total (size pointerSize) data < 2 ^ 64) {i : ℕ} (hi : i < data.length) :
    fieldOffsetInBits st (componentsFrom k data) (toString (k + i)) =
      some (8 * start (size pointerSize) data i) := by
  induction data generalizing k i with
  | nil => simp at hi
  | cons d data ih =>
    rw [total_cons] at hbits
    rw [componentsFrom_cons, fieldOffsetInBits]
    cases i with
    | zero => simp [DatatypeComponent.name]
    | succ i =>
      have hne : (DatatypeComponent.field (toString k) d.typ).name ≠ toString (k + (i + 1)) := by
        intro heq
        have hk := Numeral.repr_injective heq
        omega
      have hd : d.typ.sizeofWith st.machineModel st.sizeofTag = some (8 * d.size pointerSize) :=
        sizeofWith_typ hwidth (fun e he => htyped e (by simp [he])) (by omega)
      have hrest := ih (fun e he => htyped e (List.mem_cons_of_mem _ he)) (k + 1) (by omega)
        (by simpa using hi)
      rw [if_neg hne, DatatypeComponent.sizeofWith, hd]
      rw [Nat.add_assoc, Nat.add_comm 1 i] at hrest
      rw [hrest, start_cons_succ, Nat.mul_add]
      rfl

/-- The value of a piece has its type. -/
lemma exists_value (d : AllocData) : ∃ v, d.value = some v ∧ v.typ = d.typ := by
  cases d with
  | bytes bs =>
    have helems : bs.mapM (fun b => Expr.intConstant (b.toNat : ℤ) (.unsignedbv 8)) =
        some (bs.map fun b => .new (.intConstant b.toNat) (.unsignedbv 8)) := by
      rw [mapM_eq_some_iff, List.forall₂_map_right_iff, List.forall₂_same]
      intro b _
      rfl
    have hbyte : Typ.unsignedInt 8 = some (.unsignedbv 8) := rfl
    refine ⟨.new (.array (bs.map fun b => .new (.intConstant b.toNat) (.unsignedbv 8)))
      (.array (.unsignedbv 8) bs.length), ?_, rfl⟩
    simp only [AllocData.value, hbyte, some_bind, helems]
    exact Expr.arrayExpr_eq_some.mpr ⟨.unsignedbv 8, by simp [Typ.arrayOf], by simp, rfl⟩
  | expr e => exact ⟨e, rfl, rfl⟩

lemma exists_mapM_value (data : List AllocData) :
    ∃ values, data.mapM AllocData.value = some values ∧ values.map Expr.typ = data.map typ := by
  induction data with
  | nil => exact ⟨[], rfl, rfl⟩
  | cons d data ih =>
    obtain ⟨v, hv, htyp⟩ := exists_value d
    obtain ⟨values, hvalues, htyps⟩ := ih
    exact ⟨v :: values, by simp [hv, hvalues], by simp [htyp, htyps]⟩

lemma valuesMatchFields_componentsFrom {values : List Expr} (k : ℕ)
    (h : values.map Expr.typ = data.map typ) :
    Expr.valuesMatchFields (componentsFrom k data) values = true := by
  induction data generalizing k values with
  | nil => rfl
  | cons d data ih =>
    cases values with
    | nil => rfl
    | cons v values =>
      rw [List.map_cons, List.map_cons, List.cons.injEq] at h
      have hrest := ih (k + 1) h.2
      rw [Expr.valuesMatchFields] at hrest ⊢
      rw [componentsFrom_cons, List.zip_cons_cons, List.all_cons, hrest, Bool.and_true]
      simp [DatatypeComponent.typ, h.1]

end Struct

/-! ### The whole allocation -/

/-- The pieces are the allocation, byte for byte, with the pointers where the relocations are. -/
structure Partition (alloc : Allocation) (pointerSize : ℕ) (data : List AllocData) : Prop where
  /-- Every byte is in exactly one piece, and the pieces are in order. -/
  covered : ∀ b < alloc.bytes.length, ∃! i, i < data.length ∧
    start (size pointerSize) data i ≤ b ∧ b < start (size pointerSize) data (i + 1)
  bytes : ∀ {i bs}, data[i]? = some (.bytes bs) →
    (alloc.bytes.drop (start (size pointerSize) data i)).take bs.length = bs
  pointers : ((place (size pointerSize) 0 data).filter fun p => p.2.isPointer).map Prod.fst =
    alloc.relocations.map Prod.fst
  total_eq : total (size pointerSize) data = alloc.bytes.length

lemma Tiles.partition {alloc : Allocation} (h : Tiles alloc pointerSize 0 alloc.relocations data) :
    Partition alloc pointerSize data := by
  have htotal : total (size pointerSize) data = alloc.bytes.length := by
    rw [← h.total_eq, Nat.zero_add]
  refine ⟨?_, ?_, h.pointers, htotal⟩
  · intro b hb
    exact existsUnique_index (htotal ▸ hb)
  · intro i bs hi
    refine h.bytes _ bs (List.mem_of_getElem? (i := i) ?_)
    rw [getElem?_place, hi, Nat.zero_add]
    rfl

section InMemory

variable [Ranked String] {Ty : Type} {tcx : Tcx Ty}

section

variable {inMemory : Allocation → String → GenOn StaticCtx Unit} {alloc : Allocation}
  {name : String} {ctx ctx' : StaticCtx} {st st' : SymbolTable}

lemma partition_codegenAllocationData
    (hwidth : ctx.symbolTable.machineModel.pointerWidth = 8 * pointerSize)
    (hwf : alloc.WellFormed pointerSize)
    (h : codegenAllocationData tcx inMemory alloc ctx = some (data, ctx')) :
    Partition alloc pointerSize data ∧ PointersTyped data := by
  rw [codegenAllocationData, hwidth, Nat.mul_div_cancel_left _ (by decide)] at h
  obtain ⟨htiles, htyped⟩ := tiles_allocationDataFrom hwf.apart hwf.inside
    (fun _ _ => Nat.zero_le _) (Nat.zero_le _) h
  exact ⟨htiles.partition, htyped⟩

/-- The struct of an allocation, as it stands in the table. -/
def HasStruct (st : SymbolTable) (name : String) (data : List AllocData) : Prop :=
  st.lookup (aggrTag (name ++ "::struct")) = some (Aggr.symbol (name ++ "::struct") none
    (.struct (name ++ "::struct") (componentsFrom 0 data)))

namespace HasStruct

variable (h : HasStruct st name data)

include h

lemma mono (hkeeps : Keeps st st') : HasStruct st' name data := hkeeps.lookup h

lemma lookupFieldsInType :
    st.lookupFieldsInType (.mkStructTag (name ++ "::struct")) = some (componentsFrom 0 data) :=
  lookupFieldsInType_of_lookup (k := .struct) h

lemma exists_structExpr : ∃ values, data.mapM AllocData.value = some values ∧
    Expr.structExprFromValues (.mkStructTag (name ++ "::struct")) values st =
      some (.new (.struct values) (.mkStructTag (name ++ "::struct"))) := by
  obtain ⟨values, hvalues, htyps⟩ := exists_mapM_value data
  have hlength : (componentsFrom 0 data).length = values.length := by
    have hlen := congrArg List.length htyps
    rw [List.length_map, List.length_map] at hlen
    rw [componentsFrom, List.length_map, List.length_zipIdx, hlen]
  refine ⟨values, hvalues, ?_⟩
  exact (structExprFromValues_eq_some h.lookupFieldsInType (isPadding_componentsFrom 0 data)).mpr
    ⟨rfl, hlength, valuesMatchFields_componentsFrom 0 htyps, rfl⟩

/-- A struct that was made for an allocation fits the pieces that are made later. -/
lemma congr {ctx₀ ctx₀' : StaticCtx} {data' : List AllocData}
    (hmm : ctx.symbolTable.machineModel = ctx₀.symbolTable.machineModel)
    (hdata : codegenAllocationData tcx inMemory alloc ctx₀ = some (data, ctx₀'))
    (hdata' : codegenAllocationData tcx inMemory alloc ctx = some (data', ctx')) :
    HasStruct st name data' := by
  rw [codegenAllocationData] at hdata hdata'
  rw [hmm] at hdata'
  rw [HasStruct, ← componentsFrom_congr (map_typ_allocationDataFrom hdata hdata')]
  exact h

variable (hwidth : st.machineModel.pointerWidth = 8 * pointerSize) (htyped : PointersTyped data)
  (hbits : 8 * total (size pointerSize) data < 2 ^ 64)

include hwidth htyped hbits

/-- The struct has the size of the pieces. -/
lemma sizeofInBits : (Typ.mkStructTag (name ++ "::struct")).sizeofInBits st =
    some (8 * total (size pointerSize) data) := by
  have hsize := sizeofInBits_of_lookup (k := .struct) h
  rw [Aggr.tag] at hsize
  rw [hsize]
  exact sizeofSum_componentsFrom hwidth htyped 0 hbits

/-- A piece is the component with its index. -/
lemma fieldOffset {i : ℕ} (hi : i < data.length) :
    Rmc.fieldOffset st (.mkStructTag (name ++ "::struct")) (toString i) =
      some (start (size pointerSize) data i) := by
  have hoffset := fieldOffsetInBits_componentsFrom hwidth htyped 0 hbits hi
  rw [Nat.zero_add] at hoffset
  have hunion : (Typ.mkStructTag (name ++ "::struct")).isUnionTag = false := rfl
  simp only [Rmc.fieldOffset, h.lookupFieldsInType, hunion, hoffset, some_bind, Bool.false_eq_true,
    if_false, Nat.mul_mod_right, guard_true, Option.pure_def,
    Nat.mul_div_cancel_left _ (by decide : 0 < 8)]

end HasStruct

/-- The struct that was made for an allocation has its pieces as components. -/
lemma hasStruct_of_ensureStruct {ctx₁ : StaticCtx} {allocTyp : Typ}
    (hnew : ctx.symbolTable.lookup (aggrTag (name ++ "::struct")) = none)
    (h : ensureStruct (name ++ "::struct") none
      (fun _ => allocationComponents tcx inMemory alloc) ctx = some (allocTyp, ctx₁)) :
    allocTyp = .mkStructTag (name ++ "::struct") ∧ ∃ data ctx₀ ctx₀',
      ctx₀.symbolTable.machineModel = ctx.symbolTable.machineModel ∧
      codegenAllocationData tcx inMemory alloc ctx₀ = some (data, ctx₀') ∧
      HasStruct ctx₁.symbolTable name data := by
  obtain ⟨rfl, ⟨⟨s, hs⟩, -⟩ | ⟨-, components, ctx₀', hcomponents, rfl⟩⟩ := ensureAggr_eq_some h
  · cases hnew.symm.trans hs
  · simp only [allocationComponents, bind_eq_some, pure_eq_some, Option.some.injEq, Prod.exists,
      Prod.mk.injEq, components_eq] at hcomponents
    obtain ⟨data, _, hdata, _, rfl, rfl, rfl⟩ := hcomponents
    exact ⟨rfl, data, _, _, by rfl, hdata, SymbolTable.lookup_set_self _ _⟩

/-- The initializer can be written when the two sides have one size, and only then. -/
lemma exists_initializerBody_iff [DebugTyp] {var temp val : Expr} {n : ℕ}
    (htemp : temp.isSymbol = true) (hval : val.typ = temp.typ)
    (htempSize : temp.typ.sizeofInBits st = some n) :
    (∃ body, initializerBody var temp val st = some body) ↔ var.typ.sizeofInBits st = some n := by
  refine ⟨fun ⟨body, hbody⟩ => ?_, fun hvarSize => ?_⟩
  · obtain ⟨⟨m, hm, hvarSize⟩, -⟩ := initializerBody_eq_some hbody
    rw [hvarSize, ← hm, htempSize]
  have hdecl : Stmt.decl temp (some val) .none = some (.mk (.decl temp (some val)) .none) := by
    simp [Stmt.decl, htemp, hval]
  have htransmute := Expr.transmuteTo_eq_some.mpr ⟨n, htempSize, hvarSize, rfl⟩
  simp [initializerBody, hdecl, htransmute, Stmt.assign]

end

/-- An allocation in memory is cut into pieces twice, for the type and for the value. The pieces
partition the allocation, the struct is laid out as they are and has the size of the allocation,
the value passes the checks of the struct, and it can be read as the type of the variable exactly
when that type has the size of the allocation. -/
theorem codegenAllocInMemory_partition [DebugTyp] {fuel pointerSize : ℕ} {alloc : Allocation}
    {name : String} {ctx ctx₁ ctx₂ ctx₃ : StaticCtx} {allocTyp : Typ} {var : Expr}
    {data : List AllocData} (htcx : tcx.Spares fun _ => False)
    (hwidth : ctx.symbolTable.machineModel.pointerWidth = 8 * pointerSize)
    (hwf : alloc.WellFormed pointerSize)
    (hnew : ctx.symbolTable.lookup (aggrTag (name ++ "::struct")) = none)
    (hstruct : ensureStruct (name ++ "::struct") none
      (fun _ => allocationComponents tcx (codegenAllocInMemory tcx fuel) alloc) ctx =
        some (allocTyp, ctx₁))
    (hvar : ensureGlobalVar name false allocTyp .none (fun _ ctx => some (none, ctx)) ctx₁ =
      some (var, ctx₂))
    (hdata : codegenAllocationData tcx (codegenAllocInMemory tcx fuel) alloc ctx₂ =
      some (data, ctx₃)) :
    Partition alloc pointerSize data ∧
      allocTyp.sizeofInBits ctx₃.symbolTable = some (8 * alloc.bytes.length) ∧
      (∀ i < data.length, fieldOffset ctx₃.symbolTable allocTyp (toString i) =
        some (start (size pointerSize) data i)) ∧
      ∃ values val, data.mapM AllocData.value = some values ∧
        Expr.structExprFromValues allocTyp values ctx₃.symbolTable = some val ∧
        ∀ {temp ctx₄}, genFunctionLocalVariable 0 (initializerFnName name) allocTyp ctx₃ =
            some (temp, ctx₄) →
          ((∃ body, initializerBody var temp.toExpr val ctx₄.symbolTable = some body) ↔
            var.typ.sizeofInBits ctx₄.symbolTable = some (8 * alloc.bytes.length)) := by
  have hmem : ∀ {alloc name'}, (∀ n ∈ enteredNames name', ¬ False) →
      Spares (fun _ => False) (codegenAllocInMemory tcx fuel alloc name') :=
    fun hnames => spares_codegenAllocInMemory htcx fuel hnames
  have hgrows₁ : Grows _ ctx.symbolTable ctx₁.symbolTable :=
    spares_ensureAggr not_false (spares_allocationComponents htcx hmem alloc) hstruct
  have hgrows₂ : Grows (fun _ => False) ctx₁.symbolTable ctx₂.symbolTable :=
    spares_ensureGlobalVar (by exact not_false) hvar
  have hgrows₃ : Grows _ ctx₂.symbolTable ctx₃.symbolTable :=
    spares_codegenAllocationData htcx hmem alloc hdata
  have hwidth₂ : ctx₂.symbolTable.machineModel.pointerWidth = 8 * pointerSize := by
    rw [hgrows₂.keeps.machineModel, hgrows₁.keeps.machineModel, hwidth]
  have hwidth₃ : ctx₃.symbolTable.machineModel.pointerWidth = 8 * pointerSize := by
    rw [hgrows₃.keeps.machineModel, hwidth₂]
  obtain ⟨hpartition, htyped⟩ := partition_codegenAllocationData hwidth₂ hwf hdata
  have hbits : 8 * total (size pointerSize) data < 2 ^ 64 := by
    rw [hpartition.total_eq]
    exact hwf.bits
  -- the struct was made from pieces of the same types
  obtain ⟨rfl, data₁, ctx₀, _, hmm, hdata₁, hentered⟩ := hasStruct_of_ensureStruct hnew hstruct
  have hmm₂ : ctx₂.symbolTable.machineModel = ctx₀.symbolTable.machineModel := by
    rw [hgrows₂.keeps.machineModel, hgrows₁.keeps.machineModel, hmm]
  have hstruct₃ : HasStruct ctx₃.symbolTable name data :=
    ((hentered.mono hgrows₂.keeps).mono hgrows₃.keeps).congr hmm₂ hdata₁ hdata
  have hsize := hstruct₃.sizeofInBits hwidth₃ htyped hbits
  rw [hpartition.total_eq] at hsize
  refine ⟨hpartition, hsize, fun i hi => hstruct₃.fieldOffset hwidth₃ htyped hbits hi, ?_⟩
  obtain ⟨values, hvalues, hval⟩ := hstruct₃.exists_structExpr
  refine ⟨values, _, hvalues, hval, ?_⟩
  intro temp ctx₄ htemp
  have hgrows₄ : Grows (fun _ => False) ctx₃.symbolTable ctx₄.symbolTable :=
    spares_genFunctionLocalVariable (by exact not_false) htemp
  obtain ⟨rfl, -⟩ := genFunctionLocalVariable_iff.mp htemp
  exact exists_initializerBody_iff rfl rfl (hgrows₄.keeps.le.sizeofInBits hsize)

/-- A crate in which every allocation id stands for the function `f` and every type is translated by
`codegenTy`. -/
def functionTcx (codegenTy : Gen Typ) : Tcx Unit where
  fullCrateName := "crate"
  bigEndian := false
  globalAlloc _ := .function "f"
  debugAllocId _ := "alloc"
  codegenTy _ := codegenTy
  codegenFuncExpr fn st := some (.new (.symbol fn) (.code [] .empty), st)
  depth _ := 0
  depth_lt h := by cases h

/-- A number between two pointers. -/
def twoPointers : Allocation :=
  { bytes := List.replicate 24 0, relocations := [(0, 0), (16, 0)],
    initMask := List.replicate 24 true, align := 8, isMut := false }

lemma spares_functionTcx (t : Typ) (reserved : String → Prop) :
    (functionTcx (codegenPlainTy t)).Spares reserved where
  codegenTy _ ctx t ctx' h := by
    cases h
    exact .refl _
  codegenFuncExpr _ ctx e ctx' h := by
    cases h
    exact .refl _
  static h := by cases h
  memory h := by cases h

end InMemory

/-- The two pointers and the number are read as the bytes that the static `A` was declared with. -/
theorem partition_twoPointers :
    let _ : Ranked String := rankedString
    let _ : DebugTyp := ⟨fun _ => "type"⟩
    ∃ data var temp val st body, Partition twoPointers 8 data ∧ data.length = 4 ∧
      (var.typ == .array (.unsignedbv 8) 24) = true ∧
      initializerBody var temp val st = some body := by
  intro _ _
  let tcx := functionTcx (codegenPlainTy (.unsignedbv 8))
  let ctx₀ : StaticCtx := ⟨(SymbolTable.empty (machineModelFromSession none "x86_64" false 64)).set
    (Symbol.staticVariable "A" "A" (.array (.unsignedbv 8) 24) .none), 0, ∅⟩
  have hrun : ((ensureStruct ("A" ++ "::struct") none
      (fun _ => allocationComponents tcx (codegenAllocInMemory tcx 1) twoPointers)
      ctx₀).bind fun p =>
    (ensureGlobalVar "A" false p.1 .none (fun _ ctx => some (none, ctx)) p.2).bind fun q =>
    (codegenAllocationData tcx (codegenAllocInMemory tcx 1) twoPointers q.2).bind fun r =>
    (genFunctionLocalVariable 0 (initializerFnName "A") p.1 r.2).map fun u =>
      (q.1.typ == .array (.unsignedbv 8) 24, r.1.length, q.1.typ.sizeofInBits u.2.symbolTable)) =
        some (true, 4, some 192) := by
    decide +kernel
  simp only [Option.bind_eq_some_iff, Option.map_eq_some_iff, Prod.exists, Prod.mk.injEq] at hrun
  obtain ⟨_, ctx₁, hstruct, var, ctx₂, hvar, data, ctx₃, hdata, temp, ctx₄, htemp, htyp, hlength,
    hsize⟩ := hrun
  have hwf : twoPointers.WellFormed 8 := ⟨by decide, by decide, by decide⟩
  obtain ⟨hpartition, -, -, _, val, -, -, hiff⟩ :=
    codegenAllocInMemory_partition (spares_functionTcx _ _) rfl hwf rfl hstruct hvar hdata
  obtain ⟨body, hbody⟩ := (hiff htemp).mpr hsize
  exact ⟨data, var, temp.toExpr, val, ctx₄.symbolTable, body, hpartition, hlength, htyp, hbody⟩

/-- `static A: U = U { a: [1, 2, 3] }` for `union U { a: [u8; 3], b: u16 }`: the allocation has four
bytes and the variable, whose type is a union without padding, has three, so the static cannot be
initialized. -/
theorem codegenStatic_paddedUnion :
    let _ : Ranked String := rankedString
    let _ : DebugTyp := ⟨fun _ => "type"⟩
    let tcx := functionTcx
      (codegenUnion codegenPlainTy "U" "U" [("a", .array (.unsignedbv 8) 3), ("b", .unsignedbv 16)])
    let item : StaticItem Unit :=
      ⟨"A", (), .none, false, ⟨[1, 2, 3, 0], [], [true, true, true, false], 2, false⟩⟩
    item.alloc.WellFormed 8 ∧ ∃ ctx, declareStatic tcx item
        ⟨.empty (machineModelFromSession none "x86_64" false 64), 0, ∅⟩ = some ctx ∧
      (∃ s, ctx.symbolTable.lookup "A" = some s ∧
        s.typ.sizeofInBits ctx.symbolTable = some 24) ∧
      codegenStatic tcx item ctx = none := by
  intro _ _ tcx item
  have hrun : (declareStatic tcx item
      ⟨.empty (machineModelFromSession none "x86_64" false 64), 0, ∅⟩).map (fun ctx =>
        ((ctx.symbolTable.lookup "A").map fun s => s.typ.sizeofInBits ctx.symbolTable,
          (codegenStatic tcx item ctx).isNone)) = some (some (some 24), true) := by
    decide +kernel
  obtain ⟨ctx, hctx, heq⟩ := Option.map_eq_some_iff.mp hrun
  obtain ⟨hlookup, hnone⟩ := Prod.mk.inj heq
  exact ⟨⟨by decide, by decide, by decide⟩, ctx, hctx, Option.map_eq_some_iff.mp hlookup,
    Option.isNone_iff_eq_none.mp hnone⟩

end Rmc.Codegen

import Rmc.Goto.Eval
import Rmc.Lib.RoundUp

/-!
# Sizes of dynamically sized types

The size of a slice, of a `str`, and of a struct that ends in one, is known only at run time:
`size_and_align_of_dst` makes an expression for it out of the length in the fat pointer. The size
that the expression has is the one that the compiler would have computed for the type with an array
of that length in place of the tail (`sizeAndAlignOfDst_eq_layoutOf`).

Alignments are powers of two that are numbers of `size_t`, so they depend on the width `w` of
pointers.
-/

namespace Rmc.Codegen.Dst

open OrdMap TwosComplement RoundUp

/-! ### Layouts -/

/-- A power of two below `2 ^ w`. -/
structure Align (w : ℕ) where
  pow2 : ℕ
  le : pow2 ≤ w - 1

namespace Align

variable {w : ℕ}

def bytes (a : Align w) : ℕ := 2 ^ a.pow2

/-- The alignment of a byte. -/
def one : Align w := ⟨0, Nat.zero_le _⟩

lemma pow2_injective : Function.Injective (pow2 : Align w → ℕ) := by
  rintro ⟨a, ha⟩ ⟨b, hb⟩ h
  cases h
  rfl

instance : LinearOrder (Align w) := LinearOrder.lift' pow2 pow2_injective

lemma bytes_pos (a : Align w) : 0 < a.bytes := Nat.two_pow_pos _

lemma bytes_mono {a b : Align w} (h : a ≤ b) : a.bytes ≤ b.bytes :=
  Nat.pow_le_pow_right (by decide) h

lemma bytes_le (a : Align w) : a.bytes ≤ 2 ^ (w - 1) := Nat.pow_le_pow_right (by decide) a.le

end Align

/-- The size and the alignment of a type. -/
structure Layout (w : ℕ) where
  size : ℕ
  align : Align w

/-- The options of a struct that its layout depends on. -/
structure ReprOptions (w : ℕ) where
  align : Option (Align w)
  pack : Option (Align w)

def ReprOptions.packed {w : ℕ} (repr : ReprOptions w) : Bool := repr.pack.isSome

/-- Types, down to the layouts of the ones with a size. Structs have their fields in memory order,
the last one aside; tuples are structs. -/
inductive Ty (w : ℕ) where
  | sized (layout : Layout w)
  | array (element : Layout w) (count : ℕ)
  | dynamic
  | slice (element : Layout w)
  | str
  | adt (repr : ReprOptions w) (fields : List (Layout w)) (last : Ty w)

/-- What the compiler knows about a type: also whether it has a size at all, and where its fields
are. -/
structure TyLayout (w : ℕ) extends Layout w where
  isUnsized : Bool
  offsets : List ℕ

/-- Objects are smaller than this. -/
def objSizeBound : ℕ → Option ℕ
  | 16 => some (2 ^ 15)
  | 32 => some (2 ^ 31)
  | 64 => some (2 ^ 47)
  | _ => none

section

variable {w : ℕ}

/-- A size that an object can have. -/
def checkedSize (w bytes : ℕ) : Option ℕ := do
  let bytes ← checkedU64 bytes
  guard (bytes < (← objSizeBound w))
  return bytes

def checkedAdd (w size offset : ℕ) : Option ℕ := checkedSize w (size + offset)

def checkedMul (w size count : ℕ) : Option ℕ := checkedSize w (size * count)

/-- A packed struct limits the alignment of its fields. -/
def fieldAlign (pack : Option (Align w)) (align : Align w) : Align w :=
  match pack with
  | some pack => min align pack
  | none => align

/-- The offsets so far, the end of the fields, and their alignment. -/
structure Placed (w : ℕ) where
  offsets : List ℕ
  offset : ℕ
  align : Align w

/-- The next field goes to the next offset of its alignment. -/
def placeField (pack : Option (Align w)) (placed : Placed w) (field : Layout w) :
    Option (Placed w) := do
  let align := fieldAlign pack field.align
  let offset := roundUp placed.offset align.bytes
  return {
    offsets := placed.offsets ++ [offset]
    offset := ← checkedAdd w offset field.size
    align := max placed.align align }

/-- The layout of a struct with these fields. -/
def univariant (repr : ReprOptions w) (fields : List (Layout w)) (isUnsized : Bool) :
    Option (TyLayout w) := do
  guard (repr.pack.isNone || repr.align.isNone)
  let placed ← fields.foldlM (placeField repr.pack) ⟨[], 0, .one⟩
  let align := match repr.align with
    | some align => max placed.align align
    | none => placed.align
  return {
    size := roundUp placed.offset align.bytes
    align := align
    isUnsized := isUnsized
    offsets := placed.offsets }

def layoutOf : Ty w → Option (TyLayout w)
  | .sized layout => some { layout with isUnsized := false, offsets := [] }
  | .array element count => do
    return {
      size := ← checkedMul w element.size count
      align := element.align
      isUnsized := false
      offsets := [] }
  | .dynamic | .str => some { size := 0, align := .one, isUnsized := true, offsets := [] }
  | .slice element =>
    some { size := 0, align := element.align, isUnsized := true, offsets := [] }
  | .adt repr fields last => do
    let last ← layoutOf last
    univariant repr (fields ++ [last.toLayout]) last.isUnsized

/-! ### The translation -/

structure SizeAlign where
  size : Expr
  align : Expr

variable [Ranked String] (st : SymbolTable)

def sizedSizeAlign (layout : TyLayout w) : Option SizeAlign := do
  return {
    size := ← Expr.intConstant layout.size .sizeT
    align := ← Expr.intConstant layout.align.bytes .sizeT }

/-- The size of a reference to a trait object. -/
def dynamicSizeAlign (layout : TyLayout w) : Option SizeAlign := do
  return {
    size := ← Expr.intConstant (layout.size * 2 : ℕ) .sizeT
    align := ← Expr.intConstant layout.align.bytes .sizeT }

def sliceSizeAlign (unit : ℕ) (layout : TyLayout w) (arg : Expr) : Option SizeAlign := do
  return {
    size := ← (← Expr.intConstant unit .sizeT).mul (← arg.member "len" st)
    align := ← Expr.intConstant layout.align.bytes .sizeT }

/-- The size of a struct from the one of its last field. -/
def structSizeAlign (layout : TyLayout w) (repr : ReprOptions w) (last : SizeAlign) :
    Option SizeAlign := do
  let sizedSize ← Expr.intConstant (← layout.offsets.getLast?) .sizeT
  let sizedAlign ← Expr.intConstant layout.align.bytes .sizeT
  let size ← sizedSize.plus last.size
  let unsizedAlign := if repr.packed then sizedAlign else last.align
  let align ← (← sizedAlign.ge unsizedAlign).ternary sizedAlign unsizedAlign
  -- padding by `(size + (align - 1)) & -align`
  let one ← Expr.intConstant 1 .sizeT
  let addend ← align.sub one
  let add ← size.plus addend
  let neg ← align.neg
  return { size := ← add.bitand neg, align := align }

/-- The size and the alignment of what a fat pointer points to. -/
def sizeAndAlignOfDst (arg : Expr) (t : Ty w) : Option SizeAlign := do
  let layout ← layoutOf t
  if !layout.isUnsized then sizedSizeAlign layout
  else
    match t with
    | .dynamic => dynamicSizeAlign layout
    | .slice element => sliceSizeAlign st element.size layout arg
    | .str => sliceSizeAlign st 1 layout arg
    | .adt repr _ last => do structSizeAlign layout repr (← sizeAndAlignOfDst arg last)
    | .sized _ | .array _ _ => none

end

/-! ### Numbers of `size_t` -/

variable {size : ℕ}

section

variable [Ranked String] {st : SymbolTable} {σ : State} {e e' : Expr} {x y : ℕ}

/-- The expression is of type `size_t` and has this value. -/
structure IsSize (st : SymbolTable) (σ : State) (e : Expr) (x : ℕ) : Prop where
  typ : e.typ = .sizeT
  eval : e.eval st σ = some x

variable (st) in
lemma isIntegral_sizeT :
    Typ.sizeT.IsIntegral st.machineModel false st.machineModel.pointerWidth :=
  ⟨rfl, rfl, rfl⟩

namespace IsSize

variable (st σ) in
lemma exists_intConstant (x : ℕ) : ∃ c, Expr.intConstant x .sizeT = some c ∧
    IsSize st σ c (x % 2 ^ st.machineModel.pointerWidth) := by
  obtain ⟨c, hc, htyp, heval⟩ := Expr.exists_intConstant (isIntegral_sizeT st) (x : ℤ)
  refine ⟨c, hc, htyp, ?_⟩
  rw [heval σ, pattern_natCast]

variable (σ) in
lemma exists_intConstant_of_lt (hx : x < 2 ^ st.machineModel.pointerWidth) :
    ∃ c, Expr.intConstant x .sizeT = some c ∧ IsSize st σ c x := by
  obtain ⟨c, hc, hsize⟩ := exists_intConstant st σ x
  rw [Nat.mod_eq_of_lt hx] at hsize
  exact ⟨c, hc, hsize⟩

section

variable (h : IsSize st σ e x)

include h

section

variable (h' : IsSize st σ e' y)

include h'

lemma exists_plus (hlt : x + y < 2 ^ st.machineModel.pointerWidth) :
    ∃ r, e.plus e' = some r ∧ IsSize st σ r (x + y) := by
  obtain ⟨r, hr, htyp, heval⟩ :=
    Expr.exists_arithmetic (isIntegral_sizeT st) h.typ h'.typ (.inl rfl)
  refine ⟨r, hr, htyp, ?_⟩
  rw [heval σ x y h.eval h'.eval]
  simp only [BinaryOperand.exact, value_false, Option.map_some, ← Nat.cast_add]
  rw [pattern_natCast_of_lt hlt]

lemma exists_mul :
    ∃ r, e.mul e' = some r ∧ IsSize st σ r (x * y % 2 ^ st.machineModel.pointerWidth) := by
  obtain ⟨r, hr, htyp, heval⟩ :=
    Expr.exists_arithmetic (isIntegral_sizeT st) h.typ h'.typ (.inr (.inr rfl))
  refine ⟨r, hr, htyp, ?_⟩
  rw [heval σ x y h.eval h'.eval]
  simp only [BinaryOperand.exact, value_false, Option.map_some, ← Nat.cast_mul]
  rw [pattern_natCast]

lemma exists_sub (hle : y ≤ x) (hx : x < 2 ^ st.machineModel.pointerWidth) :
    ∃ r, e.sub e' = some r ∧ IsSize st σ r (x - y) := by
  obtain ⟨r, hr, htyp, heval⟩ :=
    Expr.exists_arithmetic (isIntegral_sizeT st) h.typ h'.typ (.inr (.inl rfl))
  refine ⟨r, hr, htyp, ?_⟩
  rw [heval σ x y h.eval h'.eval]
  simp only [BinaryOperand.exact, value_false, Option.map_some, ← Nat.cast_sub hle]
  rw [pattern_natCast_of_lt (by omega)]

/-- The greater of two numbers, the way the translation chooses it. -/
lemma exists_max : ∃ c r, e.ge e' = some c ∧ c.ternary e e' = some r ∧ IsSize st σ r (max x y) := by
  obtain ⟨c, hc, hctyp, hceval⟩ :=
    Expr.exists_compare (isIntegral_sizeT st) h.typ h'.typ (.inr (.inr (.inl rfl)))
  obtain ⟨r, hr, hrtyp, hreval⟩ := Expr.exists_ternary st hctyp h.typ h'.typ
  refine ⟨c, r, hc, hr, hrtyp, ?_⟩
  have hvalue : c.eval st σ = some (decide (y ≤ x)).toNat := by
    rw [hceval σ x y h.eval h'.eval]
    simp [BinaryOperand.compare]
  rw [hreval σ _ hvalue]
  by_cases hle : y ≤ x
  · simp [hle, h.eval]
  · simp [hle, h'.eval, Nat.le_of_not_le hle]

lemma exists_bitand : ∃ r, e.bitand e' = some r ∧ IsSize st σ r (x &&& y) := by
  obtain ⟨r, hr, htyp, heval⟩ :=
    Expr.exists_bitwise (isIntegral_sizeT st) h.typ h'.typ (.inl rfl)
  exact ⟨r, hr, htyp, heval σ x y h.eval h'.eval⟩

end

lemma exists_neg (hpos : 0 < x) (hx : x ≤ 2 ^ st.machineModel.pointerWidth) :
    ∃ r, e.neg = some r ∧ IsSize st σ r (2 ^ st.machineModel.pointerWidth - x) := by
  obtain ⟨r, hr, htyp, heval⟩ := Expr.exists_neg (isIntegral_sizeT st) h.typ
  refine ⟨r, hr, htyp, ?_⟩
  have hpattern : pattern st.machineModel.pointerWidth (-(x : ℤ)) =
      pattern st.machineModel.pointerWidth ((2 ^ st.machineModel.pointerWidth - x : ℕ) : ℤ) := by
    rw [pattern_eq_pattern_iff, Int.modEq_iff_dvd]
    refine ⟨1, ?_⟩
    push_cast [hx]
    ring
  rw [heval σ x h.eval, value_false, hpattern, pattern_natCast_of_lt (by omega)]

end

end IsSize

lemma exists_structSizeAlign {layout : TyLayout st.machineModel.pointerWidth}
    {repr : ReprOptions st.machineModel.pointerWidth} {last : SizeAlign} {offset align : ℕ}
    (hpos : 0 < st.machineModel.pointerWidth) (hoffset : layout.offsets.getLast? = some offset)
    (hsize : IsSize st σ last.size size) (halign : IsSize st σ last.align align)
    (hle : repr.packed = false → align ≤ layout.align.bytes)
    (hlt : offset + size < 2 ^ (st.machineModel.pointerWidth - 1)) :
    ∃ r, structSizeAlign layout repr last = some r ∧
      IsSize st σ r.size (roundUp (offset + size) layout.align.bytes) ∧
      IsSize st σ r.align layout.align.bytes := by
  have hhalf : 2 ^ st.machineModel.pointerWidth = 2 * 2 ^ (st.machineModel.pointerWidth - 1) := by
    rw [← Nat.pow_succ', Nat.succ_eq_add_one, Nat.sub_add_cancel hpos]
  have hbytes := layout.align.bytes_le
  have hbytesPos := layout.align.bytes_pos
  obtain ⟨sizedSize, hsizedSize, hoffsetSize⟩ :=
    IsSize.exists_intConstant_of_lt σ (show offset < 2 ^ st.machineModel.pointerWidth by omega)
  obtain ⟨sizedAlign, hsizedAlign, hbytesSize⟩ :=
    IsSize.exists_intConstant_of_lt σ
      (show layout.align.bytes < 2 ^ st.machineModel.pointerWidth by omega)
  obtain ⟨sum, hsum, hsumSize⟩ := hoffsetSize.exists_plus hsize (by omega)
  -- the alignment of the last field counts only in a struct that is not packed
  obtain ⟨other, hother, hotherSize⟩ : ∃ other,
      IsSize st σ (if repr.packed then sizedAlign else last.align) other ∧
        other ≤ layout.align.bytes := by
    by_cases hpacked : repr.packed = true
    · rw [if_pos hpacked]
      exact ⟨_, hbytesSize, le_rfl⟩
    · rw [if_neg hpacked]
      exact ⟨_, halign, hle (by simpa using hpacked)⟩
  obtain ⟨cond, greater, hcond, hgreater, hgreaterSize⟩ := hbytesSize.exists_max hother
  rw [max_eq_left hotherSize] at hgreaterSize
  obtain ⟨one, hone, honeSize⟩ :=
    IsSize.exists_intConstant_of_lt σ (show 1 < 2 ^ st.machineModel.pointerWidth by omega)
  obtain ⟨addend, haddend, haddendSize⟩ := hgreaterSize.exists_sub honeSize hbytesPos (by omega)
  obtain ⟨add, hadd, haddSize⟩ := hsumSize.exists_plus haddendSize (by omega)
  obtain ⟨neg, hneg, hnegSize⟩ := hgreaterSize.exists_neg hbytesPos (by omega)
  obtain ⟨padded, hpadded, hpaddedSize⟩ := haddSize.exists_bitand hnegSize
  refine ⟨⟨padded, greater⟩, ?_, ?_, hgreaterSize⟩
  · rw [Nat.cast_one] at hone
    simp only [structSizeAlign, hoffset, hsizedSize, hsizedAlign, hsum, hcond, hgreater, hone,
      haddend, hadd, hneg, hpadded, some_bind, Option.pure_def]
  · have hk : layout.align.pow2 ≤ st.machineModel.pointerWidth := by
      have := layout.align.le
      omega
    have hround := roundUp_two_pow hk (n := offset + size) (by
      rw [← Align.bytes]
      omega)
    rw [Align.bytes, hround, ← Align.bytes]
    exact hpaddedSize

end

/-! ### Layouts of structs -/

section

variable {w : ℕ} {l : TyLayout w}

lemma objSizeBound_le {bound : ℕ} (h : objSizeBound w = some bound) :
    0 < w ∧ bound ≤ 2 ^ (w - 1) ∧ bound ≤ 2 ^ 64 := by
  unfold objSizeBound at h
  split at h <;> cases h <;> decide

lemma checkedSize_eq_some {bytes : ℕ} :
    checkedSize w bytes = some size ↔
    size = bytes ∧ ∃ bound, objSizeBound w = some bound ∧ bytes < bound := by
  simp only [checkedSize, bind_eq_some, checkedU64_eq_some, guard_eq_some, exists_const,
    pure_eq_some]
  constructor
  · rintro ⟨_, ⟨-, rfl⟩, bound, hbound, hlt, rfl⟩
    exact ⟨rfl, bound, hbound, hlt⟩
  · rintro ⟨rfl, bound, hbound, hlt⟩
    exact ⟨size, ⟨hlt.trans_le (objSizeBound_le hbound).2.2, rfl⟩, bound, hbound, hlt, rfl⟩

/-- The alignment of a struct whose fields are placed. -/
def structAlign (repr : ReprOptions w) (align : Align w) : Align w :=
  match repr.align with
  | some align' => max align align'
  | none => align

lemma le_structAlign (repr : ReprOptions w) (align : Align w) : align ≤ structAlign repr align := by
  unfold structAlign
  split
  · exact le_max_left _ _
  · exact le_rfl

lemma univariant_concat_eq_some {repr : ReprOptions w} {fields : List (Layout w)}
    {last : Layout w} {isUnsized : Bool} :
    univariant repr (fields ++ [last]) isUnsized = some l ↔
      (repr.pack = none ∨ repr.align = none) ∧
        ∃ placed, fields.foldlM (placeField repr.pack) ⟨[], 0, .one⟩ = some placed ∧
          ∃ offset, offset = roundUp placed.offset (fieldAlign repr.pack last.align).bytes ∧
            (∃ bound, objSizeBound w = some bound ∧ offset + last.size < bound) ∧
            ∃ align, align = structAlign repr (max placed.align (fieldAlign repr.pack last.align)) ∧
              l = { size := roundUp (offset + last.size) align.bytes
                    align := align
                    isUnsized := isUnsized
                    offsets := placed.offsets ++ [offset] } := by
  have hrepr : (repr.pack.isNone || repr.align.isNone) = true ↔
      repr.pack = none ∨ repr.align = none := by simp
  simp only [univariant, List.foldlM_append, List.foldlM_cons, List.foldlM_nil, placeField,
    checkedAdd, bind_eq_some, guard_eq_some, exists_const, pure_eq_some, checkedSize_eq_some, hrepr]
  constructor
  · rintro ⟨hpack, _, ⟨placed, hplaced, _, ⟨_, ⟨rfl, hbound⟩, rfl⟩, rfl⟩, rfl⟩
    exact ⟨hpack, placed, hplaced, _, rfl, hbound, _, rfl, rfl⟩
  · rintro ⟨hpack, placed, hplaced, _, rfl, hbound, _, rfl, rfl⟩
    exact ⟨hpack, _, ⟨placed, hplaced, _, ⟨_, ⟨rfl, hbound⟩, rfl⟩, rfl⟩, rfl⟩

namespace Ty

/-- The type ends in a slice or a `str`. -/
def HasSliceTail : Ty w → Prop
  | slice _ | str => True
  | adt _ _ last => last.HasSliceTail
  | sized _ | array _ _ | dynamic => False

/-- The type with an array of `n` elements in place of the slice or `str` that it ends in. -/
def withLength (n : ℕ) : Ty w → Ty w
  | slice element => array element n
  | str => array ⟨1, .one⟩ n
  | adt repr fields last => adt repr fields (last.withLength n)
  | t => t

end Ty

/-- Without the elements of its tail, a type is aligned the same, has its fields at the same
offsets, and is not larger. -/
lemma exists_layoutOf_of_withLength {n : ℕ} {t : Ty w} (ht : t.HasSliceTail)
    (hl : layoutOf (t.withLength n) = some l) :
    ∃ l', layoutOf t = some l' ∧ l'.isUnsized = true ∧ l'.align = l.align ∧
      l'.offsets = l.offsets ∧ l'.size ≤ l.size := by
  induction t generalizing l with
  | sized | array | dynamic => exact ht.elim
  | slice element =>
    simp only [Ty.withLength, layoutOf, bind_eq_some, pure_eq_some] at hl
    obtain ⟨size, -, rfl⟩ := hl
    exact ⟨_, rfl, rfl, rfl, rfl, Nat.zero_le _⟩
  | str =>
    simp only [Ty.withLength, layoutOf, bind_eq_some, pure_eq_some] at hl
    obtain ⟨size, -, rfl⟩ := hl
    exact ⟨_, rfl, rfl, rfl, rfl, Nat.zero_le _⟩
  | adt repr fields last ih =>
    simp only [Ty.withLength, layoutOf, bind_eq_some] at hl
    obtain ⟨tail, htail, hl⟩ := hl
    obtain ⟨tail', htail', hunsized, halign, -, hsize⟩ := ih ht htail
    obtain ⟨hpack, placed, hplaced, offset, hoffset, ⟨bound, hbound, hlt⟩, align, halign', rfl⟩ :=
      univariant_concat_eq_some.mp hl
    refine ⟨{ size := roundUp (offset + tail'.size) align.bytes
              align := align
              isUnsized := tail'.isUnsized
              offsets := placed.offsets ++ [offset] }, ?_, hunsized, rfl, rfl, ?_⟩
    · simp only [layoutOf, htail', some_bind]
      refine univariant_concat_eq_some.mpr ⟨hpack, placed, hplaced, offset, ?_,
        ⟨bound, hbound, ?_⟩, align, ?_, rfl⟩
      · rw [hoffset, halign]
      · omega
      · rw [halign', halign]
    · exact roundUp_mono align.bytes_pos (Nat.add_le_add_left hsize offset)

end

/-! ### Dynamic sizes -/

section

variable [Ranked String] {st : SymbolTable} {σ : State} {arg : Expr} {n : ℕ}

/-- A fat pointer to a type that ends in a slice or `str` of length `n`. -/
structure SliceArg (st : SymbolTable) (σ : State) (arg : Expr) (n : ℕ) : Prop where
  isStructTag : arg.typ.isStructTag = true
  field : st.lookupFieldTypeInType arg.typ "len" = some .sizeT
  len : (Expr.new (.member arg "len") .sizeT).eval st σ = some n

lemma exists_sliceSizeAlign (harg : SliceArg st σ arg n) {unit : ℕ}
    {layout : TyLayout st.machineModel.pointerWidth}
    (hsize : checkedMul st.machineModel.pointerWidth unit n = some size) :
    ∃ r, sliceSizeAlign st unit layout arg = some r ∧ IsSize st σ r.size size ∧
      IsSize st σ r.align layout.align.bytes := by
  obtain ⟨rfl, bound, hbound, hlt⟩ := checkedSize_eq_some.mp hsize
  obtain ⟨hpos, hle, -⟩ := objSizeBound_le hbound
  have hhalf : 2 ^ (st.machineModel.pointerWidth - 1) < 2 ^ st.machineModel.pointerWidth :=
    Nat.pow_lt_pow_right (by decide) (by omega)
  have hbytes := layout.align.bytes_le
  have hmember : arg.member "len" st = some (.new (.member arg "len") .sizeT) :=
    Expr.member_eq_some.mpr ⟨.inl harg.isStructTag, _, harg.field, rfl⟩
  have hlen : IsSize st σ (.new (.member arg "len") .sizeT) n := ⟨rfl, harg.len⟩
  obtain ⟨c, hc, hcSize⟩ := IsSize.exists_intConstant st σ unit
  obtain ⟨product, hproduct, hproductSize⟩ := hcSize.exists_mul hlen
  obtain ⟨align, halign, halignSize⟩ := IsSize.exists_intConstant_of_lt σ
    (show layout.align.bytes < 2 ^ st.machineModel.pointerWidth by omega)
  refine ⟨⟨product, align⟩, ?_, ?_, halignSize⟩
  · simp only [sliceSizeAlign, hc, hmember, hproduct, halign, some_bind, Option.pure_def]
  · rw [Nat.mod_mul_mod, Nat.mod_eq_of_lt (by omega)] at hproductSize
    exact hproductSize

lemma exists_sizeAndAlignOfDst (harg : SliceArg st σ arg n)
    {t : Ty st.machineModel.pointerWidth} (ht : t.HasSliceTail)
    {l : TyLayout st.machineModel.pointerWidth} (hl : layoutOf (t.withLength n) = some l) :
    ∃ r, sizeAndAlignOfDst st arg t = some r ∧ IsSize st σ r.size l.size ∧
      IsSize st σ r.align l.align.bytes := by
  induction t generalizing l with
  | sized | array | dynamic => exact ht.elim
  | slice element =>
    simp only [Ty.withLength, layoutOf, bind_eq_some, pure_eq_some] at hl
    obtain ⟨size, hsize, rfl⟩ := hl
    obtain ⟨r, hr, hrSize, hrAlign⟩ := exists_sliceSizeAlign harg hsize
    refine ⟨r, ?_, hrSize, hrAlign⟩
    rw [sizeAndAlignOfDst, layoutOf]
    exact hr
  | str =>
    simp only [Ty.withLength, layoutOf, bind_eq_some, pure_eq_some] at hl
    obtain ⟨size, hsize, rfl⟩ := hl
    obtain ⟨r, hr, hrSize, hrAlign⟩ := exists_sliceSizeAlign harg hsize
    refine ⟨r, ?_, hrSize, hrAlign⟩
    rw [sizeAndAlignOfDst, layoutOf]
    exact hr
  | adt repr fields last ih =>
    obtain ⟨l', hl', hunsized, halign, hoffsets, -⟩ := exists_layoutOf_of_withLength ht hl
    simp only [Ty.withLength, layoutOf, bind_eq_some] at hl
    obtain ⟨tail, htail, hl⟩ := hl
    obtain ⟨last', hlast, hlastSize, hlastAlign⟩ := ih ht htail
    obtain ⟨-, placed, -, offset, -, ⟨bound, hbound, hlt⟩, align, halign', rfl⟩ :=
      univariant_concat_eq_some.mp hl
    obtain ⟨hpos, hle, -⟩ := objSizeBound_le hbound
    have hlastLe : repr.packed = false → tail.align.bytes ≤ l'.align.bytes := by
      intro hpacked
      have hnone : repr.pack = none := by simpa [ReprOptions.packed] using hpacked
      rw [halign]
      refine Align.bytes_mono ?_
      rw [halign', hnone]
      exact (le_max_right _ _).trans (le_structAlign repr _)
    obtain ⟨r, hr, hrSize, hrAlign⟩ := exists_structSizeAlign hpos (by rw [hoffsets]; simp)
      hlastSize hlastAlign hlastLe (hlt.trans_le hle)
    refine ⟨r, ?_, ?_, ?_⟩
    · rw [sizeAndAlignOfDst, hl']
      simp [hunsized, hlast, hr]
    · rw [halign] at hrSize
      exact hrSize
    · rw [halign] at hrAlign
      exact hrAlign

/-- The size and the alignment that are computed at run time are the ones of the type with an array
in place of its tail. The size of a struct is the least multiple of its alignment that has room for
the tail behind the other fields. -/
theorem sizeAndAlignOfDst_eq_layoutOf (harg : SliceArg st σ arg n)
    {t : Ty st.machineModel.pointerWidth} (ht : t.HasSliceTail)
    {l : TyLayout st.machineModel.pointerWidth} (hl : layoutOf (t.withLength n) = some l) :
    (∃ r, sizeAndAlignOfDst st arg t = some r ∧ r.size.eval st σ = some l.size ∧
      r.align.eval st σ = some l.align.bytes) ∧
    ∀ repr fields last, t = .adt repr fields last → ∃ offset tail,
      l.offsets.getLast? = some offset ∧ layoutOf (last.withLength n) = some tail ∧
        IsLeast {m | l.align.bytes ∣ m ∧ offset + tail.size ≤ m} l.size := by
  constructor
  · obtain ⟨r, hr, hsize, halign⟩ := exists_sizeAndAlignOfDst harg ht hl
    exact ⟨r, hr, hsize.eval, halign.eval⟩
  · rintro repr fields last rfl
    simp only [Ty.withLength, layoutOf, bind_eq_some] at hl
    obtain ⟨tail, htail, hl⟩ := hl
    obtain ⟨-, placed, -, offset, -, -, align, -, rfl⟩ := univariant_concat_eq_some.mp hl
    exact ⟨offset, tail, by simp, htail, isLeast_roundUp _ align.bytes_pos⟩

/-- The table with a struct for fat pointers to slices. -/
def withSliceRef (st : SymbolTable) : SymbolTable :=
  st.set {
    name := "ref"
    location := .none
    typ := .struct "ref" [.field "data" (.pointer (.unsignedbv 8)), .field "len" .sizeT]
    value := .none
    baseName := none
    prettyName := none
    isType := true }

end

/-- A byte and a struct of a half word and three words, packed: the struct takes 16 bytes. -/
theorem sizeAndAlignOfDst_packed :
    let _ : Ranked String := rankedString
    let st := withSliceRef (.empty (machineModelFromSession none "x86_64" false 64))
    let σ : State := ⟨fun q => if q = 8 then 3 else 0, fun _ => 0⟩
    let inner : Ty 64 := .adt ⟨none, none⟩ [⟨2, ⟨1, by decide⟩⟩] (.slice ⟨4, ⟨2, by decide⟩⟩)
    ∃ r, sizeAndAlignOfDst st (.new (.symbol "arg") (.structTag "ref"))
        (.adt ⟨none, some .one⟩ [⟨1, .one⟩] inner) = some r ∧
      r.size.eval st σ = some 17 ∧ r.align.eval st σ = some 1 := by
  intro _ st σ inner
  have harg : SliceArg st σ (.new (.symbol "arg") (.structTag "ref")) 3 := by
    refine ⟨rfl, ?_, by decide +kernel⟩
    simp [st, withSliceRef, SymbolTable.lookupFieldTypeInType, SymbolTable.lookupFieldType,
      SymbolTable.lookupComponents, Typ.typeName, SymbolTable.lookup_set, Typ.components,
      DatatypeComponent.name, DatatypeComponent.fieldTyp]
  have hl : layoutOf ((Ty.adt ⟨none, some .one⟩ [⟨1, .one⟩] inner).withLength 3) =
      some ⟨⟨17, .one⟩, false, [0, 1]⟩ := rfl
  have htail : (Ty.adt ⟨none, some .one⟩ [⟨1, .one⟩] inner).HasSliceTail := trivial
  exact (sizeAndAlignOfDst_eq_layoutOf harg htail hl).1

end Rmc.Codegen.Dst

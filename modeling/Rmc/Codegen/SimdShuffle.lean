import Rmc.Codegen.Projection
import Rmc.Goto.Bounds

/-!
# Shuffles of vectors

`simd_shuffleN` makes a vector of `N` lanes out of two vectors of `L` lanes each, by an array of
`N` indices into the concatenation of the two. The translation takes `N`, the length of the result,
for the length of the first vector.

`simdShuffle_exact_iff` says for which index arrays that does not matter.
-/

namespace Rmc.Codegen

open OrdMap TwosComplement ByteMemory

/-! ### The translation -/

/-- The longest vectors that the compiler lets through (`MAX_SIMD_LANES`). -/
def maxSimdLanes : ℕ := 2 ^ 15

/-- A decimal numeral of a `u64`, from the left. -/
def parseDigits (n : ℕ) : List Char → Option ℕ
  | [] => some n
  | c :: cs => do
    guard c.isDigit
    parseDigits (← checkedU64 (n * 10 + (c.toNat - '0'.toNat))) cs

/-- The numerals that `str::parse` takes for a `u64`. -/
def parseU64 : List Char → Option ℕ
  | [] => none
  | '+' :: c :: cs => parseDigits 0 (c :: cs)
  | cs => parseDigits 0 cs

/-- The length in the name of the intrinsic. -/
def simdShuffleLen (intrinsic : String) : Option ℕ := do
  parseU64 (← "simd_shuffle".toList.isPrefixOf? intrinsic.toList)

section

variable [Ranked String] (st : SymbolTable)

/-- One lane of the result. -/
def simdShuffleLane (vec1 vec2 indexes : Expr) (n i : ℕ) : Option Expr := do
  let stRep := Typ.ssizeT
  let nRep ← Expr.intConstant n stRep
  let i ← Expr.intConstant i stRep
  let v ← (← codegenIdxArray st indexes i).castTo stRep
  let cond ← v.lt nRep
  let t ← vec1.index v
  let e ← vec2.index (← v.sub nRep)
  cond.ternary t e

def codegenIntrinsicSimdShuffle [DebugTyp] (fargs : List Expr) (place : Expr) (cbmcRetTy : Typ)
    (n : ℕ) : Option Stmt :=
  match fargs with
  | [vec1, vec2, indexes] => do
    let elems ← (List.range n).mapM (simdShuffleLane st vec1 vec2 indexes n)
    codegenExprToPlace false place (← Expr.vectorExpr cbmcRetTy elems)
  | _ => none

/-! ### Shuffles -/

/-- The types of a shuffle of vectors of `len` lanes by `n` indices, on a machine whose addresses
have at least 32 bits: a lane takes whole bytes, the array of indices is wrapped in a struct, and
the operands fit into memory. -/
structure ShuffleTypes (t indexesTyp : Typ) (len n size offset : ℕ) : Prop where
  pointerWidth : 32 ≤ st.machineModel.pointerWidth
  bytes : t.bytes st = some size
  size_pos : 0 < size
  len_le : len ≤ maxSimdLanes
  n_le : n ≤ maxSimdLanes
  isStructTag : indexesTyp.isStructTag = true
  field : st.lookupFieldTypeInType indexesTyp "0" = some (.array (.unsignedbv 32) n)
  fieldOffset : fieldOffset st indexesTyp "0" = some offset
  room : 2 * len * size + offset + 4 * n ≤ 2 ^ st.machineModel.pointerWidth

/-- The array inside of the struct around it. -/
def indexArray (indexes : Expr) (n : ℕ) : Expr :=
  .new (.member indexes "0") (.array (.unsignedbv 32) n)

/-- The operands of a shuffle: two vectors in memory, and the indices. -/
structure ShuffleOperands (σ : State) (t indexesTyp : Typ) (len : ℕ) (idx : List ℕ)
    (vec1 vec2 indexes : Expr) : Prop where
  vec1_typ : vec1.typ = .vector t len
  vec2_typ : vec2.typ = .vector t len
  indexes_typ : indexes.typ = indexesTyp
  entries : ∀ ⦃i v : ℕ⦄, idx[i]? = some v → (indexArray indexes idx.length).element st σ i = some v
  vec1_inBounds : vec1.InBounds st σ
  vec2_inBounds : vec2.InBounds st σ
  indexes_inBounds : indexes.InBounds st σ

/-- The lane of the concatenation of two vectors of `len` lanes. -/
def concatLane (σ : State) (vec1 vec2 : Expr) (len v : ℕ) : Option ℕ :=
  if v < len then vec1.element st σ v else vec2.element st σ (v - len)

/-- The statement assigns a vector whose lanes are the ones of the concatenation that the indices
name, and it does not leave a vector on the way. -/
def Shuffles (σ : State) (stmt : Stmt) (place vec1 vec2 : Expr) (len : ℕ) (idx : List ℕ) : Prop :=
  ∃ elems : List Expr, stmt = .mk (.assign place (.new (.vector elems) place.typ)) .none ∧
    ∀ i v : ℕ, idx[i]? = some v → ∃ e, elems[i]? = some e ∧ e.InBounds st σ ∧
      e.eval st σ = concatLane st σ vec1 vec2 len v

end

/-! ### One lane -/

section

variable [Ranked String] {st : SymbolTable} {σ : State} {t indexesTyp : Typ}
  {len size offset : ℕ} {idx : List ℕ} {vec1 vec2 indexes : Expr}

/-- Numbers up to a few vectors' lengths are the same in `ssize_t`. -/
lemma value_pattern_of_small {i : ℤ} (h : 32 ≤ st.machineModel.pointerWidth) (hlo : -2 ^ 31 ≤ i)
    (hhi : i < 2 ^ 31) :
    value true st.machineModel.pointerWidth (pattern st.machineModel.pointerWidth i) = i := by
  have hpow : (2 : ℤ) ^ 31 ≤ 2 ^ (st.machineModel.pointerWidth - 1) :=
    pow_le_pow_right₀ (by decide) (by omega)
  refine value_pattern (by omega) ?_
  simp only [InRange, if_true]
  omega

/-- The index of a lane, as a number of `ssize_t`. -/
def laneIndex (indexes : Expr) (n i : ℕ) : Expr :=
  .new (.typecast (.new (.index (indexArray indexes n) (.new (.intConstant i) .ssizeT))
    (.unsignedbv 32))) .ssizeT

/-- One lane of the result, written out. -/
def laneExpr (t : Typ) (vec1 vec2 indexes : Expr) (n i : ℕ) : Expr :=
  let v := laneIndex indexes n i
  let nRep := .new (.intConstant n) .ssizeT
  .new (.ite (.new (.binOp .lt v nRep) .bool) (.new (.index vec1 v) t)
    (.new (.index vec2 (.new (.binOp .minus v nRep) .ssizeT)) t)) t

lemma simdShuffleLane_eq (htypes : ShuffleTypes st t indexesTyp len idx.length size offset)
    (h : ShuffleOperands st σ t indexesTyp len idx vec1 vec2 indexes) (i : ℕ) :
    simdShuffleLane st vec1 vec2 indexes idx.length i =
      some (laneExpr t vec1 vec2 indexes idx.length i) := by
  have hmember : indexes.member "0" st = some (indexArray indexes idx.length) := by
    rw [Expr.member_eq_some, h.indexes_typ]
    exact ⟨.inl htypes.isStructTag, _, htypes.field, rfl⟩
  have hindex : ∀ (vec : Expr) (j : Expr), vec.typ = .vector t len → j.typ = .ssizeT →
      vec.index j = some (.new (.index vec j) t) := by
    intro vec j hvec hj
    simp [Expr.index, Expr.indexArray, hvec, hj, Typ.isPointer, Typ.isArrayLike, Typ.baseType,
      Typ.isInteger, Typ.ssizeT]
  have hconst : ∀ k : ℤ, Expr.intConstant k .ssizeT = some (.new (.intConstant k) .ssizeT) :=
    fun _ => rfl
  have hentry : (indexArray indexes idx.length).indexArray (.new (.intConstant i) .ssizeT) =
      some (.new (.index (indexArray indexes idx.length) (.new (.intConstant i) .ssizeT))
        (.unsignedbv 32)) := rfl
  have hcast : Expr.castTo (.new (.index (indexArray indexes idx.length)
      (.new (.intConstant i) .ssizeT)) (.unsignedbv 32)) .ssizeT =
      some (laneIndex indexes idx.length i) := rfl
  have hlt : (laneIndex indexes idx.length i).lt (.new (.intConstant idx.length) .ssizeT) =
      some (.new (.binOp .lt (laneIndex indexes idx.length i)
        (.new (.intConstant idx.length) .ssizeT)) .bool) := rfl
  have hsub : (laneIndex indexes idx.length i).sub (.new (.intConstant idx.length) .ssizeT) =
      some (.new (.binOp .minus (laneIndex indexes idx.length i)
        (.new (.intConstant idx.length) .ssizeT)) .ssizeT) := rfl
  have hvec1 := hindex vec1 (laneIndex indexes idx.length i) h.vec1_typ rfl
  have hvec2 := hindex vec2 (.new (.binOp .minus (laneIndex indexes idx.length i)
    (.new (.intConstant idx.length) .ssizeT)) .ssizeT) h.vec2_typ rfl
  simp only [simdShuffleLane, codegenIdxArray, hconst, hmember, hentry, hcast, hlt, hsub, hvec1,
    hvec2, some_bind]
  simp [Expr.ternary, Expr.castTo, Expr.canCastTo, Expr.canCastFrom, laneExpr]

variable {i v : ℕ}

lemma eval_laneIndex (htypes : ShuffleTypes st t indexesTyp len idx.length size offset)
    (h : ShuffleOperands st σ t indexesTyp len idx vec1 vec2 indexes) (hv : idx[i]? = some v) :
    (laneIndex indexes idx.length i).eval st σ = some (pattern st.machineModel.pointerWidth v) := by
  have hpw := htypes.pointerWidth
  have hi : i < 2 ^ 31 := by
    have hlen := (List.getElem?_eq_some_iff.mp hv).1
    have hn := htypes.n_le
    rw [maxSimdLanes] at hn
    omega
  have hsize : Typ.ssizeT.IsWord st.machineModel true st.machineModel.pointerWidth :=
    ⟨rfl, rfl, rfl, rfl, by omega⟩
  have hentry : (Expr.new (.index (indexArray indexes idx.length) (.new (.intConstant i) .ssizeT))
      (.unsignedbv 32)).eval st σ = some v := by
    rw [Expr.eval_index (i := pattern st.machineModel.pointerWidth i) (j := i) rfl ?_ ?_]
    · exact h.entries hv
    · simp [ExprValue.eval, hsize.patternOf]
    · rw [Expr.typ_new, hsize.valueOf, value_pattern_of_small hpw (by omega) (by omega)]
  have hword : (Typ.unsignedbv 32).IsWord st.machineModel false 32 :=
    ⟨rfl, rfl, rfl, rfl, by decide⟩
  simp [laneIndex, ExprValue.eval, hentry, hword.convert hsize]

lemma valueOf_ssizeT (hpw : 32 ≤ st.machineModel.pointerWidth) {i : ℤ} (hlo : -2 ^ 31 ≤ i)
    (hhi : i < 2 ^ 31) :
    Typ.ssizeT.valueOf st.machineModel (pattern st.machineModel.pointerWidth i) = some i := by
  have hsize : Typ.ssizeT.IsWord st.machineModel true st.machineModel.pointerWidth :=
    ⟨rfl, rfl, rfl, rfl, by omega⟩
  rw [hsize.valueOf, value_pattern_of_small hpw hlo hhi]

section

variable (htypes : ShuffleTypes st t indexesTyp len idx.length size offset)

include htypes

section

variable (h : ShuffleOperands st σ t indexesTyp len idx vec1 vec2 indexes)

include h

/-- The comparison, the difference and the index of a lane have these values. -/
lemma eval_laneParts (hv : idx[i]? = some v) (hlt : v < 2 * len) :
    let pw := st.machineModel.pointerWidth
    let index := laneIndex indexes idx.length i
    let nRep := Expr.new (.intConstant idx.length) .ssizeT
    index.eval st σ = some (pattern pw v) ∧
      (Expr.new (.binOp .lt index nRep) .bool).eval st σ = some (decide (v < idx.length)).toNat ∧
      (Expr.new (.binOp .minus index nRep) .ssizeT).eval st σ =
        some (pattern pw ((v : ℤ) - idx.length)) := by
  intro pw index nRep
  have hpw := htypes.pointerWidth
  have hlen := htypes.len_le
  have hn := htypes.n_le
  rw [maxSimdLanes] at hlen hn
  have hsize : Typ.ssizeT.IsIntegral st.machineModel true st.machineModel.pointerWidth :=
    ⟨rfl, rfl, rfl⟩
  have hindex : index.eval st σ = some (pattern pw v) := eval_laneIndex htypes h hv
  have hnRep : nRep.eval st σ = some (pattern pw idx.length) := by
    simp [nRep, pw, ExprValue.eval, hsize.patternOf]
  have hvValue := value_pattern_of_small hpw (i := (v : ℤ)) (by omega) (by omega)
  have hnValue := value_pattern_of_small hpw (i := (idx.length : ℤ)) (by omega) (by omega)
  have hindexTyp : index.typ = .ssizeT := rfl
  have hnRepTyp : nRep.typ = .ssizeT := rfl
  obtain ⟨r, hr, -, hrEval⟩ := Expr.exists_compare hsize hindexTyp hnRepTyp (.inr (.inl rfl))
  obtain ⟨d, hd, -, hdEval⟩ := Expr.exists_arithmetic hsize hindexTyp hnRepTyp (.inr (.inl rfl))
  cases (show index.binop .lt nRep = some (.new (.binOp .lt index nRep) .bool) from rfl).symm.trans
    hr
  cases (show index.binop .minus nRep = some (.new (.binOp .minus index nRep) .ssizeT)
    from rfl).symm.trans hd
  refine ⟨hindex, ?_, ?_⟩
  · rw [hrEval σ _ _ hindex hnRep, hvValue, hnValue]
    simp [BinaryOperand.compare]
  · rw [hdEval σ _ _ hindex hnRep, hvValue, hnValue]
    rfl

/-- A lane is read from the first vector below the length of the result, else from the second. -/
lemma eval_laneExpr (hv : idx[i]? = some v) (hlt : v < 2 * len) :
    (laneExpr t vec1 vec2 indexes idx.length i).eval st σ =
      concatLane st σ vec1 vec2 idx.length v := by
  obtain ⟨hindex, hcond, hsub⟩ := eval_laneParts htypes h hv hlt
  have hpw := htypes.pointerWidth
  have hlen := htypes.len_le
  have hn := htypes.n_le
  rw [maxSimdLanes] at hlen hn
  rw [concatLane]
  split_ifs with hbelow
  · have hbase : vec1.typ.baseType = some t := by rw [h.vec1_typ]; rfl
    have helem := Expr.eval_index (j := v) hbase hindex (valueOf_ssizeT hpw (by omega) (by omega))
    rw [← helem, laneExpr, Expr.eval_new]
    simp [ExprValue.eval, hcond, hbelow]
  · have hcast : ((v : ℤ) - idx.length) = ((v - idx.length : ℕ) : ℤ) := by omega
    have hvalue : Typ.ssizeT.valueOf st.machineModel
        (pattern st.machineModel.pointerWidth ((v : ℤ) - idx.length)) =
          some ((v - idx.length : ℕ) : ℤ) := by
      rw [hcast]
      exact valueOf_ssizeT hpw (by omega) (by omega)
    have hbase : vec2.typ.baseType = some t := by rw [h.vec2_typ]; rfl
    have helem := Expr.eval_index hbase hsub hvalue
    rw [← helem, laneExpr, Expr.eval_new]
    simp [ExprValue.eval, hcond, hbelow]

/-- The access to the vector is the only one that can be out of bounds. -/
lemma inBounds_laneExpr (hv : idx[i]? = some v) (hlt : v < 2 * len) :
    (laneExpr t vec1 vec2 indexes idx.length i).InBounds st σ ↔
      if v < idx.length then v < len else v - idx.length < len := by
  obtain ⟨hindex, hcond, hsub⟩ := eval_laneParts htypes h hv hlt
  have hpw := htypes.pointerWidth
  have hlen := htypes.len_le
  have hn := htypes.n_le
  rw [maxSimdLanes] at hlen hn
  have hi := (List.getElem?_eq_some_iff.mp hv).1
  have hsize : Typ.ssizeT.IsIntegral st.machineModel true st.machineModel.pointerWidth :=
    ⟨rfl, rfl, rfl⟩
  have hiEval : (Expr.new (.intConstant i) .ssizeT).eval st σ =
      some (pattern st.machineModel.pointerWidth i) := by
    simp [ExprValue.eval, hsize.patternOf]
  have hentry : (laneIndex indexes idx.length i).InBounds st σ := by
    have hindexes := (Expr.indexes_iff (t := .array (.unsignedbv 32) idx.length) rfl hiEval
      (valueOf_ssizeT hpw (by omega) (by omega))).mpr ⟨by omega, by omega⟩
    simp only [laneIndex, indexArray, Expr.inBounds_new, ExprValue.InBounds, true_and]
    exact ⟨h.indexes_inBounds, hindexes⟩
  have hcondIn : (Expr.new (.binOp .lt (laneIndex indexes idx.length i)
      (.new (.intConstant idx.length) .ssizeT)) .bool).InBounds st σ := by
    simp [ExprValue.InBounds, hentry]
  rw [laneExpr, Expr.inBounds_new, ExprValue.InBounds, and_iff_right hcondIn]
  simp only [hcond, Option.some.injEq, forall_eq']
  split_ifs with hbelow
  · have hindexes := Expr.indexes_iff (t := vec1.typ) (n := len) (by rw [h.vec1_typ]; rfl) hindex
      (valueOf_ssizeT hpw (by omega) (by omega))
    simp only [hbelow, decide_true, Bool.toNat_true, ne_eq, one_ne_zero, not_false_eq_true,
      forall_const, IsEmpty.forall_iff, and_true, Expr.inBounds_new, ExprValue.InBounds,
      h.vec1_inBounds, hentry, hindexes, true_and]
    omega
  · have hindexes := Expr.indexes_iff (t := vec2.typ) (n := len) (by rw [h.vec2_typ]; rfl) hsub
      (valueOf_ssizeT hpw (by omega) (by omega))
    simp only [hbelow, decide_false, Bool.toNat_false, ne_eq, not_true_eq_false,
      forall_const, IsEmpty.forall_iff, true_and, Expr.inBounds_new, ExprValue.InBounds,
      h.vec2_inBounds, hentry, hindexes, and_self]
    omega

end

end

/-! ### All lanes -/

variable {place : Expr}

section

variable (htypes : ShuffleTypes st t indexesTyp len idx.length size offset)

include htypes

lemma codegenIntrinsicSimdShuffle_eq [DebugTyp]
    (h : ShuffleOperands st σ t indexesTyp len idx vec1 vec2 indexes)
    (hplace : place.typ = .vector t idx.length) :
    codegenIntrinsicSimdShuffle st [vec1, vec2, indexes] place (.vector t idx.length) idx.length =
      some (.mk (.assign place (.new (.vector ((List.range idx.length).map
        (laneExpr t vec1 vec2 indexes idx.length))) place.typ)) .none) := by
  have hlanes : simdShuffleLane st vec1 vec2 indexes idx.length =
      fun i => pure (laneExpr t vec1 vec2 indexes idx.length i) :=
    funext fun i => simdShuffleLane_eq htypes h i
  have hvector : Expr.vectorExpr (.vector t idx.length)
      ((List.range idx.length).map (laneExpr t vec1 vec2 indexes idx.length)) =
      some (.new (.vector ((List.range idx.length).map (laneExpr t vec1 vec2 indexes idx.length)))
        place.typ) := by
    refine Expr.vectorExpr_eq_some.mpr ⟨t, by simp, ?_, by rw [hplace]⟩
    intro e he
    obtain ⟨i, -, rfl⟩ := List.mem_map.mp he
    exact Typ.beq_self t
  have hmapM : (List.range idx.length).mapM (simdShuffleLane st vec1 vec2 indexes idx.length) =
      some ((List.range idx.length).map (laneExpr t vec1 vec2 indexes idx.length)) := by
    rw [hlanes, List.mapM_pure]
    rfl
  simp [codegenIntrinsicSimdShuffle, hmapM, hvector, codegenExprToPlace, Stmt.assign]

lemma shuffles_iff (h : ShuffleOperands st σ t indexesTyp len idx vec1 vec2 indexes)
    (hlt : ∀ v ∈ idx, v < 2 * len) :
    Shuffles st σ (.mk (.assign place (.new (.vector ((List.range idx.length).map
        (laneExpr t vec1 vec2 indexes idx.length))) place.typ)) .none) place vec1 vec2 len idx ↔
      ∀ v ∈ idx, (if v < idx.length then v < len else v - idx.length < len) ∧
        concatLane st σ vec1 vec2 idx.length v = concatLane st σ vec1 vec2 len v := by
  constructor
  · rintro ⟨elems, hstmt, hlanes⟩ v hv
    obtain ⟨i, hi, rfl⟩ := List.mem_iff_getElem.mp hv
    have hv' := List.getElem?_eq_getElem hi
    obtain ⟨e, he, hin, heval⟩ := hlanes i _ hv'
    cases hstmt
    rw [List.getElem?_map, List.getElem?_range hi] at he
    cases he
    rw [eval_laneExpr htypes h hv' (hlt _ hv)] at heval
    exact ⟨(inBounds_laneExpr htypes h hv' (hlt _ hv)).mp hin, heval⟩
  · intro hlanes
    refine ⟨_, rfl, fun i v hv => ?_⟩
    have hmem := List.mem_of_getElem? hv
    have hi := (List.getElem?_eq_some_iff.mp hv).1
    obtain ⟨hin, heval⟩ := hlanes v hmem
    refine ⟨_, by rw [List.getElem?_map, List.getElem?_range hi]; rfl, ?_, ?_⟩
    · exact (inBounds_laneExpr htypes h hv (hlt v hmem)).mpr hin
    · rw [eval_laneExpr htypes h hv (hlt v hmem), heval]

end

/-! ### Index arrays for which the length of the result does not matter -/

variable {j : ℕ}

lemma element_eq {e : Expr} {p : ℕ} (hbase : e.typ.baseType = some t)
    (hbytes : t.bytes st = some size) (haddr : e.addr st σ = some p)
    (hlt : p + j * size < 2 ^ st.machineModel.pointerWidth) :
    e.element st σ j = some (load st.machineModel.isBigEndian σ.memory (p + j * size) size) := by
  have hpattern : pattern st.machineModel.pointerWidth ((p : ℤ) + j * size) = p + j * size := by
    rw [← Nat.cast_mul, ← Nat.cast_add]
    exact pattern_natCast_of_lt hlt
  simp [Expr.element, hbase, haddr, hbytes, State.loadTyp, hpattern]

/-- The variables of a shuffle in a memory where the second vector follows the first one, the
indices follow both, and one lane of the two vectors is not zero. -/
def markedState (st : SymbolTable) (len size offset : ℕ) (idx : List ℕ) (v : ℕ) : State where
  memory := store st.machineModel.isBigEndian
    (storeAll st.machineModel.isBigEndian (fun _ => 0) (2 * len * size + offset) 4 idx)
    (v * size) size 1
  address x := if x = "vec1" then 0 else if x = "vec2" then len * size else 2 * len * size

lemma load_markedState (hsize : 0 < size) (hj : j < 2 * len) :
    load st.machineModel.isBigEndian (markedState st len size offset idx v).memory (j * size) size =
      if j = v then 1 else 0 := by
  have hzero : load st.machineModel.isBigEndian (storeAll st.machineModel.isBigEndian (fun _ => 0)
      (2 * len * size + offset) 4 idx) (j * size) size = 0 := by
    have hend : j * size + size ≤ 2 * len * size :=
      calc j * size + size = (j + 1) * size := by ring
        _ ≤ 2 * len * size := Nat.mul_le_mul_right _ hj
    refine Eq.trans (load_congr fun q _ hq => ?_) (load_zero _ (j * size) size)
    exact storeAll_of_lt _ _ _ (by omega)
  by_cases hjv : j = v
  · subst hjv
    rw [if_pos rfl, markedState, load_store]
    exact Nat.mod_eq_of_lt (Nat.one_lt_two_pow (by omega))
  · rw [if_neg hjv, markedState, load_store_of_disjoint, hzero]
    rcases Nat.lt_or_gt_of_ne hjv with hlt | hgt
    · left
      calc j * size + size = (j + 1) * size := by ring
        _ ≤ v * size := Nat.mul_le_mul_right _ hlt
    · right
      calc v * size + size = (v + 1) * size := by ring
        _ ≤ j * size := Nat.mul_le_mul_right _ hgt

/-- The variable of a vector, or of the indices. -/
def variableExpr (x : String) (t : Typ) : Expr := .new (.symbol x) t

lemma markedOperands (htypes : ShuffleTypes st t indexesTyp len idx.length size offset)
    (hlt : ∀ v ∈ idx, v < 2 * len) (v : ℕ) (hv : v < 2 * len) :
    ShuffleOperands st (markedState st len size offset idx v) t indexesTyp len idx
      (variableExpr "vec1" (.vector t len)) (variableExpr "vec2" (.vector t len))
      (variableExpr "indexes" indexesTyp) where
  vec1_typ := rfl
  vec2_typ := rfl
  indexes_typ := rfl
  entries := by
    intro i x hx
    have hlen := htypes.len_le
    have hroom := htypes.room
    have hi := (List.getElem?_eq_some_iff.mp hx).1
    have hxlt := hlt x (List.mem_of_getElem? hx)
    rw [maxSimdLanes] at hlen
    have hbytes : (Typ.unsignedbv 32).bytes st = some 4 := rfl
    have haddr : (indexArray (variableExpr "indexes" indexesTyp) idx.length).addr st
        (markedState st len size offset idx v) = some (2 * len * size + offset) := by
      have hlt : 2 * len * size + offset < 2 ^ st.machineModel.pointerWidth := by omega
      simp [indexArray, variableExpr, ExprValue.addr, htypes.fieldOffset, markedState,
        Nat.mod_eq_of_lt hlt]
    rw [element_eq rfl hbytes haddr (by omega)]
    have hend : v * size + size ≤ 2 * len * size :=
      calc v * size + size = (v + 1) * size := by ring
        _ ≤ 2 * len * size := Nat.mul_le_mul_right _ hv
    rw [markedState, load_store_of_disjoint _ _ _ (.inr (by omega)), load_storeAll _ _ hx,
      Nat.mod_eq_of_lt (by omega)]
  vec1_inBounds := by simp [variableExpr, ExprValue.InBounds]
  vec2_inBounds := by simp [variableExpr, ExprValue.InBounds]
  indexes_inBounds := by simp [variableExpr, ExprValue.InBounds]

variable {n : ℕ}

/-- In the marked memory, a lane of the concatenation is marked when it is the one. -/
lemma concatLane_markedState (htypes : ShuffleTypes st t indexesTyp len idx.length size offset)
    (hn : n ≤ j → j - n < len) (hj : j < n → j < len) :
    concatLane st (markedState st len size offset idx v) (variableExpr "vec1" (.vector t len))
      (variableExpr "vec2" (.vector t len)) n j =
        some (if (if j < n then j else len + (j - n)) = v then 1 else 0) := by
  have hroom := htypes.room
  have hlt : ∀ {k : ℕ}, k < 2 * len → k * size < 2 ^ st.machineModel.pointerWidth := by
    intro k hk
    have hmul : k * size < 2 * len * size := Nat.mul_lt_mul_of_pos_right hk htypes.size_pos
    omega
  rw [concatLane]
  by_cases hbelow : j < n
  · have hlen := hj hbelow
    have haddr : (variableExpr "vec1" (.vector t len)).addr st
        (markedState st len size offset idx v) = some 0 := by
      simp [variableExpr, ExprValue.addr, markedState]
    rw [if_pos hbelow, if_pos hbelow, element_eq rfl htypes.bytes haddr (by
      rw [Nat.zero_add]; exact hlt (by omega)), Nat.zero_add,
      load_markedState htypes.size_pos (by omega)]
  · have hlen := hn (by omega)
    have haddr : (variableExpr "vec2" (.vector t len)).addr st
        (markedState st len size offset idx v) = some (len * size) := by
      simp [variableExpr, ExprValue.addr, markedState]
    have hsum : len * size + (j - n) * size = (len + (j - n)) * size := by ring
    rw [if_neg hbelow, if_neg hbelow, element_eq rfl htypes.bytes haddr (by
      rw [hsum]; exact hlt (by omega)), hsum, load_markedState htypes.size_pos (by omega)]

/-- The lanes of a shuffle are the ones of the concatenation, whatever the operands hold, exactly
for the index arrays whose entries are below the lengths of the result and of the operands, unless
the two lengths are the same. -/
theorem simdShuffle_exact_iff [DebugTyp] {name : String}
    (hname : simdShuffleLen name = some idx.length)
    (htypes : ShuffleTypes st t indexesTyp len idx.length size offset)
    (hlt : ∀ v ∈ idx, v < 2 * len) :
    (∀ σ place vec1 vec2 indexes, place.typ = .vector t idx.length →
      ShuffleOperands st σ t indexesTyp len idx vec1 vec2 indexes →
        ∃ n stmt, simdShuffleLen name = some n ∧
          codegenIntrinsicSimdShuffle st [vec1, vec2, indexes] place (.vector t idx.length) n =
            some stmt ∧ Shuffles st σ stmt place vec1 vec2 len idx) ↔
      ∀ v ∈ idx, idx.length = len ∨ v < idx.length ∧ v < len := by
  constructor
  · intro h v hv
    have hvlt := hlt v hv
    have hoperands := markedOperands htypes hlt v hvlt
    obtain ⟨n, stmt, hn, hstmt, hshuffles⟩ := h _ (variableExpr "place" (.vector t idx.length))
      _ _ _ rfl hoperands
    cases hname.symm.trans hn
    cases (codegenIntrinsicSimdShuffle_eq htypes hoperands rfl).symm.trans hstmt
    obtain ⟨hin, heq⟩ := (shuffles_iff htypes hoperands hlt).mp hshuffles v hv
    by_cases hbelow : v < idx.length
    · rw [if_pos hbelow] at hin
      exact .inr ⟨hbelow, hin⟩
    · -- The lane that is read is marked only when it is the right one.
      rw [if_neg hbelow] at hin
      left
      rw [concatLane_markedState htypes (fun _ => hin) (fun h => absurd h hbelow),
        concatLane_markedState htypes (fun _ => by omega) id, if_neg hbelow] at heq
      have hself : (if v < len then v else len + (v - len)) = v := by
        split <;> omega
      rw [hself, if_pos rfl] at heq
      split_ifs at heq with hsame
      · omega
      · simp at heq
  · intro hcond σ place vec1 vec2 indexes hplace hoperands
    refine ⟨idx.length, _, hname, codegenIntrinsicSimdShuffle_eq htypes hoperands hplace,
      (shuffles_iff htypes hoperands hlt).mpr fun v hv => ?_⟩
    have hvlt := hlt v hv
    rcases hcond v hv with hsame | ⟨hbelow, hlen⟩
    · rw [hsame]
      refine ⟨?_, rfl⟩
      split <;> omega
    · rw [if_pos hbelow, concatLane, concatLane, if_pos hbelow, if_pos hlen]
      exact ⟨hlen, rfl⟩

/-- The table with a struct around an array of indices. -/
def withIndexArray (st : SymbolTable) (n : ℕ) : SymbolTable :=
  st.set {
    name := "indexes"
    location := .none
    typ := .struct "indexes" [.field "0" (.array (.unsignedbv 32) n)]
    value := .none
    baseName := none
    prettyName := none
    isType := true }

lemma shuffleTypes_withIndexArray (hpw : 32 ≤ st.machineModel.pointerWidth)
    (hlen : len ≤ maxSimdLanes) (hn : n ≤ maxSimdLanes) :
    ShuffleTypes (withIndexArray st n) (.unsignedbv 8) (.structTag "indexes") len n 1 0 where
  pointerWidth := hpw
  bytes := rfl
  size_pos := one_pos
  len_le := hlen
  n_le := hn
  isStructTag := rfl
  field := by
    simp [SymbolTable.lookupFieldTypeInType, SymbolTable.lookupFieldType,
      SymbolTable.lookupComponents, Typ.typeName, withIndexArray, SymbolTable.lookup_set,
      Typ.components, DatatypeComponent.name, DatatypeComponent.fieldTyp]
  fieldOffset := by
    simp [fieldOffset, fieldOffsetInBits, SymbolTable.lookupFieldsInType, Typ.typeName,
      withIndexArray, SymbolTable.lookup_set, Typ.components, DatatypeComponent.name,
      Typ.isUnionTag]
  room := by
    have hpow : 2 ^ 32 ≤ 2 ^ st.machineModel.pointerWidth := Nat.pow_le_pow_right (by decide) hpw
    rw [maxSimdLanes] at hlen hn
    show 2 * len * 1 + 0 + 4 * n ≤ 2 ^ st.machineModel.pointerWidth
    omega

end

/-- Interleaving two vectors of four bytes is exact: the result has four bytes as well. -/
theorem simdShuffle_exact_iff_four :
    let _ : Ranked String := rankedString
    let _ : DebugTyp := ⟨fun _ => "type"⟩
    let st := withIndexArray (.empty (machineModelFromSession none "x86_64" false 64)) 4
    ∀ σ place vec1 vec2 indexes, place.typ = .vector (.unsignedbv 8) 4 →
      ShuffleOperands st σ (.unsignedbv 8) (.structTag "indexes") 4 [0, 4, 1, 5] vec1 vec2
        indexes →
        ∃ n stmt, simdShuffleLen "simd_shuffle4" = some n ∧
          codegenIntrinsicSimdShuffle st [vec1, vec2, indexes] place (.vector (.unsignedbv 8) 4) n =
            some stmt ∧ Shuffles st σ stmt place vec1 vec2 4 [0, 4, 1, 5] := by
  intro _ _ st
  have hlt : ∀ v ∈ [0, 4, 1, 5], v < 2 * 4 := by decide
  exact (simdShuffle_exact_iff rfl
    (shuffleTypes_withIndexArray (by decide) (by decide) (by decide)) hlt).mpr (by decide)

/-- The lanes 2 and 0 of two vectors of four bytes: lane 2 is taken from the second vector. -/
theorem not_shuffles_four_two :
    let _ : Ranked String := rankedString
    let _ : DebugTyp := ⟨fun _ => "type"⟩
    let st := withIndexArray (.empty (machineModelFromSession none "x86_64" false 64)) 2
    let σ := markedState st 4 1 0 [2, 0] 2
    let place := variableExpr "place" (.vector (.unsignedbv 8) 2)
    let vec1 := variableExpr "vec1" (.vector (.unsignedbv 8) 4)
    let vec2 := variableExpr "vec2" (.vector (.unsignedbv 8) 4)
    let indexes := variableExpr "indexes" (.structTag "indexes")
    ShuffleOperands st σ (.unsignedbv 8) (.structTag "indexes") 4 [2, 0] vec1 vec2 indexes ∧
      ∃ stmt, simdShuffleLen "simd_shuffle2" = some 2 ∧
        codegenIntrinsicSimdShuffle st [vec1, vec2, indexes] place (.vector (.unsignedbv 8) 2) 2 =
          some stmt ∧ ¬ Shuffles st σ stmt place vec1 vec2 4 [2, 0] := by
  intro _ _ st σ place vec1 vec2 indexes
  have htypes : ShuffleTypes st (.unsignedbv 8) (.structTag "indexes") 4 [2, 0].length 1 0 :=
    shuffleTypes_withIndexArray (by decide) (by decide) (by decide)
  have hlt : ∀ v ∈ [2, 0], v < 2 * 4 := by decide
  have hoperands := markedOperands htypes hlt 2 (by decide)
  refine ⟨hoperands, _, rfl, codegenIntrinsicSimdShuffle_eq htypes hoperands rfl, ?_⟩
  intro hshuffles
  obtain ⟨-, heq⟩ := (shuffles_iff htypes hoperands hlt).mp hshuffles 2 (by decide)
  rw [concatLane_markedState htypes (by decide) (by decide),
    concatLane_markedState htypes (by decide) (by decide)] at heq
  exact absurd heq (by decide)

end Rmc.Codegen

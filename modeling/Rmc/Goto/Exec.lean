import Rmc.Goto.Eval

/-!
# Runs of statements

A statement takes a state to another one, or to several: a nondeterministic expression has any
value of its type, and so have the parts of a struct initializer that are nondeterministic, which
its padding is. Runs extend the assignments of `Stmt.exec` by declarations, branches, and blocks
that are atomic. A statement that jumps, calls or loops has no run here.
-/

namespace Rmc

open OrdMap TwosComplement ByteMemory

section

variable [Ranked String] (st : SymbolTable) (σ : State)

namespace Expr

/-- A part of an initializer, with its number of bits. -/
def Part (e : Expr) (part : ℕ × ℕ) : Prop :=
  e.typ.sizeofInBits st = some part.1 ∧
    (e.eval st σ = some part.2 ∨ e.value = .nondet ∧ part.2 < 2 ^ part.1)

/-- A value that an expression can have. -/
def Yields (e : Expr) (n : ℕ) : Prop :=
  e.eval st σ = some n ∨
    (∃ w, e.value = .nondet ∧ e.typ.sizeofInBits st = some w ∧ n < 2 ^ w) ∨
    ∃ values parts, e.value = .struct values ∧ List.Forall₂ (Part st σ) values parts ∧
      n = (concat st.machineModel.isBigEndian parts).2

end Expr

/-- The state with a number in `k` bytes at an address. -/
def State.put (p k n : ℕ) : State :=
  { σ with memory := store st.machineModel.isBigEndian σ.memory p k n }

/-- The assignment of an expression to another one. -/
def State.Assigns (lhs rhs : Expr) (σ' : State) : Prop :=
  ∃ p n, lhs.addr st σ = some p ∧ rhs.Yields st σ n ∧ σ.storeTyp st lhs.typ p n = some σ'

end

section

variable [Ranked String] (st : SymbolTable)

mutual

/-- The statement can take the first state to the second. -/
def Stmt.Runs (σ σ' : State) : Stmt → Prop
  | .mk body _ => body.Runs σ σ'

def StmtBody.Runs (σ σ' : State) : StmtBody → Prop
  | .assign lhs rhs | .decl lhs (some rhs) => σ.Assigns st lhs rhs σ'
  | .decl lhs none => σ.Assigns st lhs lhs.typ.nondet σ'
  | .expression e => (∃ n, e.Yields st σ n) ∧ σ' = σ
  | .ifthenelse i t (some e) => ∃ x, i.eval st σ = some x ∧
    (x ≠ 0 → t.Runs σ σ') ∧ (x = 0 → e.Runs σ σ')
  | .ifthenelse i t none => ∃ x, i.eval st σ = some x ∧ (x ≠ 0 → t.Runs σ σ') ∧ (x = 0 → σ' = σ)
  | .block stmts | .atomicBlock stmts => RunsAll σ σ' stmts
  | .skip => σ' = σ
  | _ => False

def RunsAll (σ σ' : State) : List Stmt → Prop
  | [] => σ' = σ
  | s :: ss => ∃ σ₁, s.Runs σ σ₁ ∧ RunsAll σ₁ σ' ss

end

end

section

variable [Ranked String] {st : SymbolTable} {σ σ' : State}

/-! ### Values -/

namespace Expr

variable {e : Expr} {n m : ℕ}

@[simp] lemma eval_withLocation (e : Expr) (loc : Location) :
    (e.withLocation loc).eval st σ = e.eval st σ := by
  cases e
  simp [withLocation, eval]

/-- The parts of an initializer all of whose parts have a value. -/
lemma forall₂_part_iff {values : List Expr} {parts : List (ℕ × ℕ)}
    (h : evalParts st σ values = some parts) {parts' : List (ℕ × ℕ)} :
    List.Forall₂ (Part st σ) values parts' ↔ parts' = parts := by
  induction values generalizing parts parts' with
  | nil =>
    cases h
    simp
  | cons e values ih =>
    simp only [evalParts, bind_eq_some, pure_eq_some] at h
    obtain ⟨x, hx, w, hw, rest, hrest, rfl⟩ := h
    have hnondet : e.value ≠ .nondet := by
      intro hvalue
      obtain ⟨v, t, l⟩ := e
      cases hvalue
      simp [eval, ExprValue.eval] at hx
    have hpart : ∀ part, Part st σ e part ↔ part = (w, x) := by
      rintro ⟨w', x'⟩
      simp [Part, hw, hx, hnondet, eq_comm]
    rw [List.forall₂_cons_left_iff]
    constructor
    · rintro ⟨part, parts', hp, hrest', rfl⟩
      rw [(hpart part).mp hp, (ih hrest).mp hrest']
    · rintro rfl
      exact ⟨_, _, (hpart _).mpr rfl, (ih hrest).mpr rfl, rfl⟩

/-- An expression that has a value has no other. -/
lemma yields_iff (h : e.eval st σ = some n) : e.Yields st σ m ↔ m = n := by
  constructor
  · rintro (heval | ⟨w, hvalue, -, -⟩ | ⟨values, parts, hvalue, hparts, rfl⟩)
    · exact Option.some.inj (heval.symm.trans h)
    · obtain ⟨v, t, l⟩ := e
      cases hvalue
      simp [eval, ExprValue.eval] at h
    · obtain ⟨v, t, l⟩ := e
      cases hvalue
      simp only [eval, ExprValue.eval, bind_eq_some, pure_eq_some] at h
      obtain ⟨parts', hparts', rfl⟩ := h
      rw [(forall₂_part_iff hparts').mp hparts]
  · rintro rfl
    exact .inl h

/-- A struct initializer has the concatenation of its parts for its value. -/
lemma yields_struct_iff {values : List Expr} {t : Typ} {loc : Location} :
    (mk (.struct values) t loc).Yields st σ n ↔ ∃ parts, List.Forall₂ (Part st σ) values parts ∧
      n = (concat st.machineModel.isBigEndian parts).2 := by
  constructor
  · rintro (heval | ⟨w, hvalue, -, -⟩ | ⟨values', parts, hvalue, hparts, rfl⟩)
    · simp only [eval, ExprValue.eval, bind_eq_some, pure_eq_some] at heval
      obtain ⟨parts, hparts, rfl⟩ := heval
      exact ⟨parts, (forall₂_part_iff hparts).mpr rfl, rfl⟩
    · cases hvalue
    · cases hvalue
      exact ⟨parts, hparts, rfl⟩
  · rintro ⟨parts, hparts, rfl⟩
    exact .inr (.inr ⟨values, parts, rfl, hparts, rfl⟩)

end Expr

/-! ### Assignments -/

namespace State

variable {lhs rhs : Expr} {t : Typ} {p k n : ℕ}

@[simp] lemma address_put : (σ.put st p k n).address = σ.address := rfl

lemma storeTyp_eq (hk : t.bytes st = some k) : σ.storeTyp st t p n = some (σ.put st p k n) := by
  simp [storeTyp, hk, put]

lemma loadTyp_eq (hk : t.bytes st = some k) :
    σ.loadTyp st t p = some (load st.machineModel.isBigEndian σ.memory p k) := by
  simp [loadTyp, hk]

lemma put_load : σ.put st p k (load st.machineModel.isBigEndian σ.memory p k) = σ := by
  rw [put, store_load]

lemma load_put (hn : n < 2 ^ (8 * k)) :
    load st.machineModel.isBigEndian (σ.put st p k n).memory p k = n := by
  rw [put, load_store, Nat.mod_eq_of_lt hn]

lemma load_put_of_disjoint {q k' : ℕ} (h : q + k' ≤ p ∨ p + k ≤ q) :
    load st.machineModel.isBigEndian (σ.put st p k n).memory q k' =
      load st.machineModel.isBigEndian σ.memory q k' := by
  rw [put, load_store_of_disjoint _ _ _ h]

lemma assigns_iff (haddr : lhs.addr st σ = some p) (hk : lhs.typ.bytes st = some k) :
    σ.Assigns st lhs rhs σ' ↔ ∃ n, rhs.Yields st σ n ∧ σ' = σ.put st p k n := by
  simp only [Assigns, haddr, Option.some.injEq, storeTyp_eq hk]
  constructor
  · rintro ⟨_, n, rfl, hn, rfl⟩
    exact ⟨n, hn, rfl⟩
  · rintro ⟨n, hn, rfl⟩
    exact ⟨p, n, rfl, hn, rfl⟩

lemma assigns_iff_of_eval (haddr : lhs.addr st σ = some p) (hk : lhs.typ.bytes st = some k)
    (hn : rhs.eval st σ = some n) : σ.Assigns st lhs rhs σ' ↔ σ' = σ.put st p k n := by
  rw [assigns_iff haddr hk]
  simp [Expr.yields_iff hn]

end State

/-! ### Struct initializers -/

/-- The number of bits of all parts. -/
def partsWidth (parts : List (ℕ × ℕ)) : ℕ := (parts.map Prod.fst).sum

section

omit [Ranked String]

@[simp] lemma partsWidth_nil : partsWidth [] = 0 := rfl

@[simp] lemma partsWidth_cons (part : ℕ × ℕ) (parts : List (ℕ × ℕ)) :
    partsWidth (part :: parts) = part.1 + partsWidth parts := by
  simp [partsWidth]

@[simp] lemma partsWidth_append (parts parts' : List (ℕ × ℕ)) :
    partsWidth (parts ++ parts') = partsWidth parts + partsWidth parts' := by
  simp [partsWidth]

@[simp] lemma fst_concat (bigEndian : Bool) (parts : List (ℕ × ℕ)) :
    (concat bigEndian parts).1 = partsWidth parts := by
  induction parts with
  | nil => rfl
  | cons part parts ih => simp [concat, ih]

lemma snd_concat_cons (bigEndian : Bool) (w x : ℕ) (parts : List (ℕ × ℕ)) :
    (concat bigEndian ((w, x) :: parts)).2 =
      if bigEndian then x * 2 ^ partsWidth parts + (concat bigEndian parts).2
      else x + 2 ^ w * (concat bigEndian parts).2 := by
  simp only [concat, fst_concat]

/-- Parts that fit are together a number that fits. -/
lemma snd_concat_lt (bigEndian : Bool) {parts : List (ℕ × ℕ)}
    (h : ∀ part ∈ parts, part.2 < 2 ^ part.1) :
    (concat bigEndian parts).2 < 2 ^ partsWidth parts := by
  induction parts with
  | nil => simp [concat]
  | cons part parts ih =>
    obtain ⟨w, x⟩ := part
    have hx : x < 2 ^ w := h (w, x) List.mem_cons_self
    have hrest := ih fun part hpart => h part (List.mem_cons_of_mem _ hpart)
    rw [snd_concat_cons, partsWidth_cons, Nat.pow_add]
    cases bigEndian with
    | false =>
      calc x + 2 ^ w * (concat false parts).2 < 2 ^ w * ((concat false parts).2 + 1) := by
            rw [Nat.mul_add, Nat.mul_one, Nat.add_comm]
            exact Nat.add_lt_add_left hx _
        _ ≤ 2 ^ w * 2 ^ partsWidth parts := Nat.mul_le_mul_left _ hrest
    | true =>
      calc x * 2 ^ partsWidth parts + (concat true parts).2 < (x + 1) * 2 ^ partsWidth parts := by
            rw [Nat.add_mul, Nat.one_mul]
            exact Nat.add_lt_add_left hrest _
        _ ≤ 2 ^ w * 2 ^ partsWidth parts := Nat.mul_le_mul_right _ hx

/-- A part is found at the bits that it takes. -/
lemma snd_concat_part (bigEndian : Bool) {before after : List (ℕ × ℕ)} {w x : ℕ}
    (h : ∀ part ∈ before ++ (w, x) :: after, part.2 < 2 ^ part.1) :
    (concat bigEndian (before ++ (w, x) :: after)).2 /
      2 ^ (if bigEndian then partsWidth after else partsWidth before) % 2 ^ w = x := by
  induction before with
  | nil =>
    have hx : x < 2 ^ w := h (w, x) List.mem_cons_self
    have hafter := snd_concat_lt bigEndian fun part hpart => h part (List.mem_cons_of_mem _ hpart)
    rw [List.nil_append, snd_concat_cons]
    cases bigEndian with
    | false => simp [Nat.mod_eq_of_lt hx]
    | true =>
      rw [if_pos rfl, if_pos rfl, Nat.mul_comm, Nat.mul_add_div (Nat.two_pow_pos _),
        Nat.div_eq_of_lt hafter, Nat.add_zero, Nat.mod_eq_of_lt hx]
  | cons part before ih =>
    obtain ⟨w', x'⟩ := part
    have hx' : x' < 2 ^ w' := h (w', x') List.mem_cons_self
    have hrest := ih fun part hpart => h part (List.mem_cons_of_mem _ hpart)
    rw [List.cons_append, snd_concat_cons]
    cases bigEndian with
    | false =>
      simp only [Bool.false_eq_true, if_false, partsWidth_cons] at hrest ⊢
      rw [Nat.pow_add, ← Nat.div_div_eq_div_mul, Nat.add_mul_div_left _ _ (Nat.two_pow_pos w'),
        Nat.div_eq_of_lt hx', Nat.zero_add, hrest]
    | true =>
      -- the part in front is a multiple of what the part has room for
      simp only [if_true] at hrest ⊢
      have hsplit : x' * 2 ^ partsWidth (before ++ (w, x) :: after) =
          2 ^ partsWidth after * (2 ^ w * (x' * 2 ^ partsWidth before)) := by
        rw [partsWidth_append, partsWidth_cons, Nat.pow_add, Nat.pow_add]
        ring
      rw [hsplit, Nat.mul_add_div (Nat.two_pow_pos _), Nat.mul_add_mod, hrest]

end

/-- The values have the types of the components. -/
def HaveTypes (fields : List DatatypeComponent) (values : List Expr) : Prop :=
  List.Forall₂ (fun c v => c.typ = some v.typ) fields values

lemma sizeofWith_of_typ {c : DatatypeComponent} {t : Typ} (h : c.typ = some t) :
    c.sizeofWith st.machineModel st.sizeofTag = t.sizeofInBits st := by
  cases c with
  | field name t' =>
    cases h
    rfl
  | padding name bits =>
    simp only [DatatypeComponent.typ] at h
    split at h
    · next hbits =>
      cases h
      simp [DatatypeComponent.sizeofWith, hbits, Typ.sizeofInBits, Typ.sizeofWith]
    · cases h

omit [Ranked String] in
lemma haveTypes_padValues {fields : List DatatypeComponent} {values values' : List Expr}
    (h : Expr.padValues fields values = some values')
    (htypes : HaveTypes (fields.filter fun c => !c.isPadding) values) :
    HaveTypes fields values' := by
  induction fields generalizing values values' with
  | nil =>
    cases h
    exact .nil
  | cons c fields ih =>
    cases c with
    | padding name bits =>
      simp only [Expr.padValues, DatatypeComponent.isPadding_padding, if_true, bind_eq_some,
        pure_eq_some] at h
      obtain ⟨t, ht, rest, hrest, rfl⟩ := h
      exact .cons ht (ih hrest htypes)
    | field name t =>
      cases htypes with
      | cons hv hvs =>
        simp only [Expr.padValues, DatatypeComponent.isPadding_field, Bool.false_eq_true, if_false,
          bind_eq_some, pure_eq_some] at h
        obtain ⟨rest, hrest, rfl⟩ := h
        exact .cons hv (ih hrest hvs)

section

variable {fields : List DatatypeComponent} {values : List Expr} {parts : List (ℕ × ℕ)}

/-- The parts take the bits of the struct. -/
lemma partsWidth_eq (htypes : HaveTypes fields values)
    (hparts : List.Forall₂ (Expr.Part st σ) values parts) {total : ℕ}
    (hsum : sizeofSum st.machineModel st.sizeofTag fields = some total) :
    partsWidth parts = total := by
  induction htypes generalizing parts total with
  | nil =>
    cases hparts
    cases hsum
    rfl
  | cons hc htypes ih =>
    cases hparts with
    | cons hpart hparts =>
      simp only [sizeofSum, bind_eq_some, checkedU64_eq_some] at hsum
      obtain ⟨w, hw, rest, hrest, -, rfl⟩ := hsum
      rw [sizeofWith_of_typ hc, hpart.1] at hw
      cases hw
      rw [partsWidth_cons, ih hparts hrest]

/-- The part of a component comes after the bits up to its offset. -/
lemma exists_part (htypes : HaveTypes fields values)
    (hparts : List.Forall₂ (Expr.Part st σ) values parts) {field : String} {bits i : ℕ} {v : Expr}
    (hbits : fieldOffsetInBits st fields field = some bits)
    (hi : (fields.findIdx? fun c => c.name == field) = some i) (hv : values[i]? = some v) :
    ∃ before part after, parts = before ++ part :: after ∧ partsWidth before = bits ∧
      v.Part st σ part := by
  induction htypes generalizing parts bits i with
  | nil => cases hbits
  | @cons c v' fields values hc htypes ih =>
    cases hparts with
    | @cons _ part _ parts hpart hparts =>
      rw [fieldOffsetInBits] at hbits
      rw [List.findIdx?_cons] at hi
      by_cases hname : c.name = field
      · simp only [hname, if_true, beq_self_eq_true, Option.some.injEq] at hbits hi
        subst hbits hi
        cases hv
        exact ⟨[], part, parts, rfl, rfl, hpart⟩
      · simp only [hname, if_false, beq_eq_false_iff_ne.mpr hname, Bool.false_eq_true, bind_eq_some,
          pure_eq_some, Option.map_eq_some_iff] at hbits hi
        obtain ⟨w, hw, rest, hrest, rfl⟩ := hbits
        obtain ⟨j, hj, rfl⟩ := hi
        obtain ⟨before, part', after, rfl, hbefore, hpart'⟩ := ih hparts hrest hj hv
        rw [sizeofWith_of_typ hc, hpart.1] at hw
        cases hw
        exact ⟨part :: before, part', after, rfl, by simp [hbefore], hpart'⟩

/-- An initializer has parts when the struct has a size. -/
lemma exists_parts (htypes : HaveTypes fields values)
    (hvalues : ∀ v ∈ values, v.value = .nondet ∨ ∃ x, v.eval st σ = some x) {total : ℕ}
    (hsum : sizeofSum st.machineModel st.sizeofTag fields = some total) :
    ∃ parts, List.Forall₂ (Expr.Part st σ) values parts := by
  induction htypes generalizing total with
  | nil => exact ⟨[], .nil⟩
  | @cons c v fields values hc htypes ih =>
    simp only [sizeofSum, bind_eq_some] at hsum
    obtain ⟨w, hw, rest, hrest, -⟩ := hsum
    rw [sizeofWith_of_typ hc] at hw
    obtain ⟨parts, hparts⟩ := ih (fun v hv => hvalues v (List.mem_cons_of_mem _ hv)) hrest
    rcases hvalues v List.mem_cons_self with hnondet | ⟨x, hx⟩
    · exact ⟨(w, 0) :: parts, .cons ⟨hw, .inr ⟨hnondet, Nat.two_pow_pos w⟩⟩ hparts⟩
    · exact ⟨(w, x) :: parts, .cons ⟨hw, .inl hx⟩ hparts⟩

/-- The value of a component is found at its offset once the struct has been put somewhere. -/
lemma load_put_component {t : Typ} (ht : t.isUnionTag = false)
    (hfields : st.lookupFieldsInType t = some fields) (htypes : HaveTypes fields values)
    (hparts : List.Forall₂ (Expr.Part st σ) values parts)
    (hsmall : ∀ part ∈ parts, part.2 < 2 ^ part.1) {size : ℕ}
    (hsum : sizeofSum st.machineModel st.sizeofTag fields = some (8 * size))
    {field : String} {offset i k n : ℕ} {v : Expr}
    (hoffset : fieldOffset st t field = some offset)
    (hi : (fields.findIdx? fun c => c.name == field) = some i) (hv : values[i]? = some v)
    (hk : v.typ.bytes st = some k) (hn : v.eval st σ = some n) (σ' : State) (d : ℕ) :
    load st.machineModel.isBigEndian
      (σ'.put st d size (concat st.machineModel.isBigEndian parts).2).memory (d + offset) k =
        n := by
  simp only [fieldOffset, hfields, ht, Bool.false_eq_true, if_false, some_bind, bind_eq_some,
    guard_eq_some, exists_const, Option.pure_def, Option.some.injEq] at hoffset
  obtain ⟨bits, hbits, hbits8, rfl⟩ := hoffset
  simp only [Typ.bytes, bind_eq_some, guard_eq_some, exists_const,
    Option.pure_def, Option.some.injEq] at hk
  obtain ⟨w, hw, hw8, rfl⟩ := hk
  obtain ⟨before, ⟨w', x⟩, after, rfl, hbefore, hpart⟩ := exists_part htypes hparts hbits hi hv
  obtain rfl : w = w' := Option.some.inj (hw.symm.trans hpart.1)
  have hx : x = n := by
    rcases hpart.2 with hx | ⟨hnondet, -⟩
    · exact Option.some.inj (hx.symm.trans hn)
    · obtain ⟨value, typ, loc⟩ := v
      cases hnondet
      simp [Expr.eval, ExprValue.eval] at hn
  have hwidth := partsWidth_eq htypes hparts hsum
  simp only [partsWidth_append, partsWidth_cons] at hwidth
  -- the bytes before and after those of the component
  have hsize : size = bits / 8 + (w / 8 + partsWidth after / 8) := by omega
  have hcut : 8 * (if st.machineModel.isBigEndian then partsWidth after / 8 else bits / 8) =
      if st.machineModel.isBigEndian then partsWidth after else partsWidth before := by
    split <;> omega
  rw [State.put, hsize, load_store_part, hcut, show 8 * (w / 8) = w by omega,
    snd_concat_part _ hsmall, hx]

end

omit [Ranked String] in
/-- Apart from the padding, the values of an initializer are the given ones. -/
lemma mem_padValues {fields : List DatatypeComponent} {values values' : List Expr}
    (h : Expr.padValues fields values = some values') {v : Expr} (hv : v ∈ values') :
    v.value = .nondet ∨ v ∈ values := by
  induction fields generalizing values values' with
  | nil =>
    cases h
    cases hv
  | cons c fields ih =>
    cases c with
    | padding name bits =>
      simp only [Expr.padValues, DatatypeComponent.isPadding_padding, if_true, bind_eq_some,
        pure_eq_some] at h
      obtain ⟨t, -, rest, hrest, rfl⟩ := h
      rcases List.mem_cons.mp hv with rfl | hv
      · exact .inl rfl
      · exact ih hrest hv
    | field name t =>
      cases values with
      | nil => simp [Expr.padValues] at h
      | cons value values =>
        simp only [Expr.padValues, DatatypeComponent.isPadding_field, Bool.false_eq_true, if_false,
          bind_eq_some, pure_eq_some] at h
        obtain ⟨rest, hrest, rfl⟩ := h
        rcases List.mem_cons.mp hv with rfl | hv
        · exact .inr List.mem_cons_self
        · exact (ih hrest hv).imp_right (List.mem_cons_of_mem _)

end

end Rmc

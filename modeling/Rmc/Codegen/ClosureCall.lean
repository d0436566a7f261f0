import Rmc.Codegen.MirTy
import Rmc.Goto.Stmt
import Rmc.Lib.Numeral

/-!
# Calls of closures

A function with the calling convention of closures takes its environment and a tuple with the
arguments. The translation passes the elements of the tuple one by one: `codegen_funcall`
(`statement.rs`) takes them out of the tuple, `fn_typ` (`typ.rs`) declares a parameter for each, and
where the body expects the tuple, `codegen_function_prelude` (`function.rs`) puts them together
again. The three are written apart from each other. They agree unless an element is a function item,
which only `fn_typ` leaves out (`ClosureCall.agrees_iff`).
-/

namespace Rmc.Codegen

open OrdMap Mir Checked

/-! ### The caller -/

/-- An operand of a call with its type, and the expression that it is translated to. -/
structure Operand (Ty : Type) where
  ty : Ty
  expr : Expr

section Caller

variable [Ranked String] {Ty : Type} (q : TyQueries Ty) (codegenTy : Ty → Option Typ)
  (st : SymbolTable)

/-- The arguments of a call. -/
def codegenFargs (args : List (Operand Ty)) : Option (List Expr) :=
  (args.filter fun o => !ignoreVarTy q.toTyCtxt o.ty).mapM fun o =>
    match q.kind o.ty with
    | .bool => o.expr.castTo .cBool
    | _ => some o.expr

/-- The last argument is a tuple; its elements are passed instead of it. -/
def codegenUntupleClosureArgs (fargs : List Expr) (lastMirArg : Option (Operand Ty)) :
    Option (List Expr) :=
  match fargs.getLast? with
  | none => some fargs
  | some tupe => do
    match q.kind (← lastMirArg).ty with
    | .tuple tupledArgs =>
      let _ ← tupledArgs.mapM codegenTy
      let members ← (List.range tupledArgs.length).mapM fun i => tupe.member (toString i) st
      return fargs.dropLast ++ members
    | _ => none

/-- The arguments that a call of a function with this signature passes. -/
def codegenFuncallArgs (sig : FnSig Ty) (args : List (Operand Ty)) : Option (List Expr) := do
  let fargs ← codegenFargs q args
  if sig.abi = .rustCall then codegenUntupleClosureArgs q codegenTy st fargs args.getLast?
  else some fargs

end Caller

/-! ### The signature -/

/-- What the translation reads of the function: its name, the names that debug information has for
its locals, the local that is spread, and whether it is a shim for a vtable. -/
structure FnInfo where
  name : String
  debugInfo : ℕ → Option String
  spreadArg : Option ℕ
  isVtableShim : Bool

namespace FnInfo

variable (fn : FnInfo)

def codegenVarBaseName (l : ℕ) : String :=
  match fn.debugInfo l with
  | none => "var_" ++ toString l
  | some name => name

def codegenVarName (l : ℕ) : String :=
  match fn.debugInfo l with
  | some name => fn.name ++ "::1::var_" ++ toString l ++ "::" ++ name
  | none => fn.name ++ "::1::var_" ++ toString l

/-- The name and the base name of a parameter that is spread from a tuple. -/
def codegenSpreadArgName (l : ℕ) : String × String :=
  (fn.name ++ "::1::" ++ ("spread_" ++ toString l), "spread_" ++ toString l)

/-- The name of the parameter for a local; those from the spread local on have their own. -/
def paramName (lc : ℕ) : String :=
  match fn.spreadArg with
  | some spread => if spread ≤ lc then (fn.codegenSpreadArgName lc).1 else fn.codegenVarName lc
  | none => fn.codegenVarName lc

end FnInfo

section Signature

variable {Ty : Type} (q : TyQueries Ty) (codegenTy : Ty → Option Typ)

/-- The signature with the elements of the last input, which is a tuple, in its place. -/
def sigWithClosureUntupled (sig : FnSig Ty) : Option (FnSig Ty) :=
  match sig.inputs.getLast? with
  | none => some sig
  | some tupe =>
    match q.kind tupe with
    | .tuple args => do
      let prevArgs := sig.inputs.dropLast
      guard (prevArgs.length = 1)
      let env ← prevArgs.head?
      return { sig with inputs := env :: args }
    | _ => none

/-- The parameter for the input with this index. -/
def fnTypParam (fn : FnInfo) (input : Ty × ℕ) : Option Parameter := do
  let ident := fn.paramName (input.2 + 1)
  (← codegenTy input.1).asParameter (some ident) (some ident)

/-- A shim for a vtable takes a pointer to its first parameter. -/
def shimParams : List Parameter → Option (List Parameter)
  | [] => some []
  | .mk typ identifier _ :: params => do
    return (← typ.toPointer.asParameter identifier identifier) :: params

/-- The type that a function with this signature is declared with. -/
def fnTyp (fn : FnInfo) (sig : FnSig Ty) : Option Typ := do
  let params ← (sig.inputs.zipIdx.filter fun input => !ignoreVarTy q.toTyCtxt input.1).mapM
    (fnTypParam codegenTy fn)
  let params ← if fn.isVtableShim then shimParams params else some params
  if sig.cVariadic then return .variadicCode params (← codegenTy sig.output)
  else return .code params (← codegenTy sig.output)

end Signature

/-! ### The callee -/

section Callee

variable [Ranked String] {Ty : Type} (q : TyQueries Ty) (codegenTy : Ty → Option Typ)

/-- The parameter for an element of the tuple is entered into the table, and goes to the field of
the tuple that has the index of the element. -/
def marshallArg (fn : FnInfo) (startingIdx : ℕ) (loc : Location)
    (acc : OrdMap String Expr × SymbolTable) (arg : Ty × ℕ) :
    Option (OrdMap String Expr × SymbolTable) := do
  let (name, baseName) := fn.codegenSpreadArgName (arg.2 + startingIdx)
  let sym := Symbol.mkVariable name baseName (← codegenTy arg.1) loc
  let st ← acc.2.insert sym
  return (acc.1.insert (toString arg.2) sym.toExpr, st)

/-- What the body of a function starts with: the tuple is put together out of the parameters. The
signature is the one before the tuple is spread, `spreadTy` is the type of the local. -/
def codegenFunctionPrelude (fn : FnInfo) (sig : FnSig Ty) (spreadTy : Ty) (loc : Location)
    (st : SymbolTable) : Option (List Stmt × SymbolTable) :=
  match fn.spreadArg with
  | none => some ([], st)
  | some spreadArg => do
    let tupTyp ← codegenTy spreadTy
    match q.kind (← sig.inputs.getLast?) with
    | .tuple args =>
      let (fields, st) ←
        args.zipIdx.foldlM (marshallArg codegenTy fn sig.inputs.length loc) (.empty, st)
      let value := (← Expr.structExpr tupTyp fields st).withLocation loc
      let sym := Symbol.mkVariable (fn.codegenVarName spreadArg) (fn.codegenVarBaseName spreadArg)
        tupTyp loc
      let st ← st.insert sym
      return ([← Stmt.decl sym.toExpr (some value) loc], st)
    | _ => none

end Callee

/-! ### Agreement -/

/-- The table has the struct of a tuple: a field for each element, and padding. -/
structure TupleEntered [Ranked String] (st : SymbolTable) (tupTyp : Typ) (elements : List Typ)
    (components : List DatatypeComponent) : Prop where
  lookup : st.lookupFieldsInType tupTyp = some components
  names : (components.map DatatypeComponent.name).Nodup
  padding : ∀ c ∈ components, c.typ.isSome = true
  fields : (components.filter fun c => !c.isPadding).Perm
    (elements.zipIdx.map fun p => .field (toString p.2) p.1)

/-- A call of a function with an environment and a tuple of arguments. All types have translations,
the table has the struct of the tuple, and the operands are expressions of the translated types. -/
structure ClosureCall [Ranked String] {Ty : Type} {q : TyQueries Ty} {depth : ℕ}
    (tr : TyTranslation q depth) (st : SymbolTable) where
  env : Ty
  tuple : Ty
  elements : List Ty
  output : Ty
  cVariadic : Bool
  envTyp : Typ
  tupTyp : Typ
  elementTyps : List Typ
  outTyp : Typ
  components : List DatatypeComponent
  envExpr : Expr
  tupleExpr : Expr
  kind_tuple : q.kind tuple = .tuple elements
  codegenTy_env : tr.codegenTy env = some envTyp
  codegenTy_tuple : tr.codegenTy tuple = some tupTyp
  codegenTy_elements : List.Forall₂ (fun t typ => tr.codegenTy t = some typ) elements elementTyps
  codegenTy_output : tr.codegenTy output = some outTyp
  entered : TupleEntered st tupTyp elementTyps components
  typ_envExpr : envExpr.typ = envTyp
  typ_tupleExpr : tupleExpr.typ = tupTyp

namespace ClosureCall

variable [Ranked String] {Ty : Type} {q : TyQueries Ty} {depth : ℕ} {tr : TyTranslation q depth}
  {st : SymbolTable} (c : ClosureCall tr st) (fn : FnInfo) {t : Typ}

def sig : FnSig Ty := ⟨[c.env, c.tuple], c.output, c.cVariadic, .rustCall⟩

def args : List (Operand Ty) := [⟨c.env, c.envExpr⟩, ⟨c.tuple, c.tupleExpr⟩]

/-- The caller passes as many arguments as the callee has parameters, and of the same types. -/
def CallAgrees : Prop :=
  ∃ fargs sig typ params typ' params',
    codegenFuncallArgs q tr.codegenTy st c.sig c.args = some fargs ∧
    sigWithClosureUntupled q c.sig = some sig ∧
    fnTyp q tr.codegenTy fn sig = some typ ∧ typ.parameters = some params ∧
    codegenFunctionSig q tr.codegenTy sig = some typ' ∧ typ'.parameters = some params' ∧
    params.map Parameter.typ = fargs.map Expr.typ ∧
    params'.map Parameter.typ = fargs.map Expr.typ

/-- The parameters behind the one for the environment. -/
def spreadParams (params : List Parameter) : List Parameter :=
  if ignoreVarTy q.toTyCtxt c.env then params else params.drop 1

/-- The prelude declares the tuple with an initializer that takes the field with index `i` from the
parameter with index `i` of those that are spread. -/
def PreludeAgrees (loc : Location) : Prop :=
  ∃ sig typ params lhs values st', sigWithClosureUntupled q c.sig = some sig ∧
    fnTyp q tr.codegenTy fn sig = some typ ∧ typ.parameters = some params ∧
    codegenFunctionPrelude q tr.codegenTy fn c.sig c.tuple loc st =
      some ([.mk (.decl lhs (some (.mk (.struct values) c.tupTyp loc))) loc], st') ∧
    (c.spreadParams params).length = c.elements.length ∧
    ∀ (i : ℕ) (p : Parameter), (c.spreadParams params)[i]? = some p →
      ∃ name, p.identifier = some name ∧
      (.field (toString i) p.typ, .symbolExpression name p.typ) ∈ c.components.zip values

/-- The types of the arguments: of the environment, if it is passed, and of the elements. -/
def argTyps : List Typ :=
  (if ignoreVarTy q.toTyCtxt c.env then [] else [c.envTyp]) ++ c.elementTyps

/-! #### The arguments -/

lemma length_elementTyps : c.elementTyps.length = c.elements.length :=
  c.codegenTy_elements.length_eq.symm

lemma isStructTag_tupTyp : c.tupTyp.isStructTag = true := by
  have h := c.codegenTy_tuple
  rw [tr.codegenTy_eq, codegenTyInner, c.kind_tuple] at h
  cases hc : c.elements <;> rw [hc] at h <;> rw [← Option.some.inj h] <;> rfl

variable {i : ℕ}

lemma mem_components (h : c.elementTyps[i]? = some t) : .field (toString i) t ∈ c.components := by
  have hmem : DatatypeComponent.field (toString i) t ∈
      c.components.filter fun c => !c.isPadding := by
    rw [c.entered.fields.mem_iff, List.mem_map]
    exact ⟨(t, i), List.mem_zipIdx_iff_getElem?.mpr h, rfl⟩
  exact List.mem_of_mem_filter hmem

lemma exists_of_mem_components {name : String} (h : .field name t ∈ c.components) :
    ∃ i : ℕ, name = toString i ∧ c.elementTyps[i]? = some t := by
  have hmem : DatatypeComponent.field name t ∈ c.components.filter fun c => !c.isPadding :=
    List.mem_filter.mpr ⟨h, rfl⟩
  rw [c.entered.fields.mem_iff, List.mem_map] at hmem
  obtain ⟨⟨t', i⟩, hi, heq⟩ := hmem
  cases heq
  exact ⟨i, rfl, List.mem_zipIdx_iff_getElem?.mp hi⟩

/-- The elements are taken out of the tuple. -/
lemma mapM_member :
    (List.range c.elements.length).mapM (fun i => c.tupleExpr.member (toString i) st) =
      some (c.elementTyps.zipIdx.map fun p => .new (.member c.tupleExpr (toString p.2)) p.1) := by
  have hrange : List.range c.elements.length = c.elementTyps.zipIdx.map Prod.snd := by
    rw [List.zipIdx_map_snd, c.length_elementTyps, List.range_eq_range']
  rw [hrange, mapM_eq_some_iff, List.forall₂_map_left_iff, List.forall₂_map_right_iff,
    List.forall₂_same]
  rintro ⟨t, i⟩ hi
  refine Expr.member_eq_some.mpr ⟨.inl (c.typ_tupleExpr ▸ c.isStructTag_tupTyp), t, ?_, rfl⟩
  rw [c.typ_tupleExpr]
  exact SymbolTable.lookupFieldTypeInType_of_mem c.entered.lookup c.entered.names
    (c.mem_components (List.mem_zipIdx_iff_getElem?.mp hi))

/-- The tuple is the last argument before it is taken apart. -/
lemma exists_codegenFargs : ∃ es, codegenFargs q c.args = some (es ++ [c.tupleExpr]) ∧
    es.map Expr.typ = if ignoreVarTy q.toTyCtxt c.env then [] else [c.envTyp] := by
  have htuple : ignoreVarTy q.toTyCtxt c.tuple = false := by simp [ignoreVarTy, c.kind_tuple]
  cases hignore : ignoreVarTy q.toTyCtxt c.env with
  | true => exact ⟨[], by simp [codegenFargs, args, hignore, htuple, c.kind_tuple], rfl⟩
  | false =>
    refine ⟨[c.envExpr], ?_, by simp [c.typ_envExpr]⟩
    cases hkind : q.kind c.env with
    | bool =>
      -- the cast does nothing, as a boolean is translated to the type of the cast
      have henv := c.codegenTy_env
      rw [tr.codegenTy_eq, codegenTyInner, hkind, Option.some.injEq, ← c.typ_envExpr] at henv
      have hcast : c.envExpr.castTo .cBool = some c.envExpr := by
        simp [Expr.castTo, Expr.canCastTo, Expr.canCastFrom, ← henv]
      simp [codegenFargs, args, hignore, htuple, c.kind_tuple, hkind, hcast]
    | _ => simp [codegenFargs, args, hignore, htuple, c.kind_tuple, hkind]

/-- The caller passes the environment, unless it is a function item, and all the elements. -/
lemma exists_codegenFuncallArgs : ∃ fargs,
    codegenFuncallArgs q tr.codegenTy st c.sig c.args = some fargs ∧
      fargs.map Expr.typ = c.argTyps := by
  obtain ⟨es, hes, htyps⟩ := c.exists_codegenFargs
  have helements := mapM_eq_some_iff.mpr c.codegenTy_elements
  refine ⟨es ++ c.elementTyps.zipIdx.map fun p => .new (.member c.tupleExpr (toString p.2)) p.1,
    ?_, ?_⟩
  · have hlast : c.args.getLast? = some ⟨c.tuple, c.tupleExpr⟩ := rfl
    simp only [codegenFuncallArgs, hes, sig, some_bind, if_true,
      codegenUntupleClosureArgs, List.getLast?_concat, hlast, c.kind_tuple, helements,
      c.mapM_member, List.dropLast_concat, Option.pure_def]
  · rw [List.map_append, htyps, argTyps, List.map_map]
    exact congrArg _ (List.zipIdx_map_fst 0 c.elementTyps)

/-! #### The parameters -/

/-- The signature that the parameters are declared for. -/
def untupledSig : FnSig Ty := ⟨c.env :: c.elements, c.output, c.cVariadic, .rustCall⟩

lemma sigWithClosureUntupled_sig : sigWithClosureUntupled q c.sig = some c.untupledSig := by
  simp [sigWithClosureUntupled, sig, c.kind_tuple, untupledSig]

/-- Everything that is passed to the function can be a parameter, and no element is left out. -/
def Passable : Prop :=
  (ignoreVarTy q.toTyCtxt c.env = true ∨ isPassable (q.kind c.env) = true) ∧
    ∀ t ∈ c.elements, isPassable (q.kind t) = true

variable {t : Ty} {typ : Typ}

lemma isLvalue_eq (h : tr.codegenTy t = some typ) : typ.isLvalue = isPassable (q.kind t) :=
  isLvalue_of_codegenTyInner ((tr.codegenTy_eq t).symm.trans h)

omit [Ranked String] in
lemma ignoreVarTy_of_isPassable (h : isPassable (q.kind t) = true) :
    ignoreVarTy q.toTyCtxt t = false := by
  unfold ignoreVarTy
  cases hkind : q.kind t <;> simp_all [isPassable]

/-- The inputs of the function, and the types that they are translated to. -/
lemma forall₂_inputs : List.Forall₂ (fun t typ => tr.codegenTy t = some typ)
    (c.env :: c.elements) (c.envTyp :: c.elementTyps) :=
  .cons c.codegenTy_env c.codegenTy_elements

lemma fnTypParam_eq_some (h : tr.codegenTy t = some typ) {p : Parameter} :
    fnTypParam tr.codegenTy fn (t, i) = some p ↔ isPassable (q.kind t) = true ∧
      .mk typ (some (fn.paramName (i + 1))) (some (fn.paramName (i + 1))) = p := by
  simp [fnTypParam, h, Typ.asParameter, isLvalue_eq h]

variable {params : List Parameter}

lemma fnTyp_eq_some (hshim : fn.isVtableShim = false) :
    (∃ typ, fnTyp q tr.codegenTy fn c.untupledSig = some typ ∧ typ.parameters = some params) ↔
      (((c.env :: c.elements).zipIdx.filter fun input => !ignoreVarTy q.toTyCtxt input.1).mapM
        (fnTypParam tr.codegenTy fn)) = some params := by
  simp only [fnTyp, untupledSig, hshim, Bool.false_eq_true, if_false, some_bind, c.codegenTy_output,
    bind_eq_some, Option.pure_def]
  constructor
  · rintro ⟨typ, ⟨params', hmap, htyp⟩, hparams⟩
    split_ifs at htyp <;> cases htyp <;> cases hparams <;> exact hmap
  · intro hmap
    cases c.cVariadic
    · exact ⟨.code params c.outTyp, ⟨params, hmap, rfl⟩, rfl⟩
    · exact ⟨.variadicCode params c.outTyp, ⟨params, hmap, rfl⟩, rfl⟩

variable {α β : Type} {l : List α} {l' : List β} {R : α → β → Prop}

omit [Ranked String] in
lemma exists_of_mem_forall₂ (h : List.Forall₂ R l l') {a : α} (ha : a ∈ l) : ∃ b ∈ l', R a b := by
  induction h with
  | nil => cases ha
  | cons hab _ ih =>
    rcases List.mem_cons.mp ha with rfl | ha
    · exact ⟨_, List.mem_cons_self, hab⟩
    · obtain ⟨b, hb, hR⟩ := ih ha
      exact ⟨b, List.mem_cons_of_mem _ hb, hR⟩

omit [Ranked String] in
lemma forall₂_zipIdx (h : List.Forall₂ R l l') (n : ℕ) :
    List.Forall₂ (fun a b => R a.1 b.1 ∧ a.2 = b.2) (l.zipIdx n) (l'.zipIdx n) := by
  induction h generalizing n with
  | nil => exact .nil
  | cons hab _ ih => exact .cons ⟨hab, rfl⟩ (ih (n + 1))

/-- A declared type has no parameters that are not passable, and as many as are not left out. -/
lemma passable_of_fnTyp (hshim : fn.isVtableShim = false)
    (h : fnTyp q tr.codegenTy fn c.untupledSig = some typ)
    (hparams : typ.parameters = some params) (hlen : params.length = c.argTyps.length) :
    c.Passable := by
  have hmap := mapM_eq_some_iff.mp ((c.fnTyp_eq_some fn hshim).mp ⟨typ, h, hparams⟩)
  -- as many inputs are kept as there are arguments
  have hcount : ((c.env :: c.elements).filter fun t => !ignoreVarTy q.toTyCtxt t).length =
      c.argTyps.length := by
    rw [← hlen, ← hmap.length_eq]
    have hzip := List.zipIdx_map_fst 0 (c.env :: c.elements)
    conv_lhs => rw [← hzip, List.filter_map, List.length_map]
    rfl
  have hkept : ∀ t ∈ c.elements, ignoreVarTy q.toTyCtxt t = false := by
    have hfilter : (c.elements.filter fun t => !ignoreVarTy q.toTyCtxt t).length =
        c.elements.length := by
      rw [argTyps, List.filter_cons] at hcount
      cases hignore : ignoreVarTy q.toTyCtxt c.env <;>
        simpa [hignore, c.length_elementTyps] using hcount
    simpa using List.length_filter_eq_length_iff.mp hfilter
  have hpassable : ∀ t ∈ c.env :: c.elements, ignoreVarTy q.toTyCtxt t = false →
      isPassable (q.kind t) = true := by
    intro t ht hignore
    obtain ⟨i, hi⟩ := List.mem_iff_getElem?.mp ht
    have hmem : (t, i) ∈ (c.env :: c.elements).zipIdx.filter fun input =>
        !ignoreVarTy q.toTyCtxt input.1 :=
      List.mem_filter.mpr ⟨List.mem_zipIdx_iff_getElem?.mpr hi, by simp [hignore]⟩
    obtain ⟨p, -, hp⟩ := exists_of_mem_forall₂ hmap hmem
    obtain ⟨typ, -, htyp⟩ := exists_of_mem_forall₂ c.forall₂_inputs ht
    exact ((fnTypParam_eq_some fn htyp).mp hp).1
  refine ⟨?_, fun t ht => hpassable t (List.mem_cons_of_mem _ ht) (hkept t ht)⟩
  cases hignore : ignoreVarTy q.toTyCtxt c.env with
  | true => exact .inl rfl
  | false => exact .inr (hpassable c.env List.mem_cons_self hignore)

/-- The parameters of a function whose inputs are all passable. -/
def declaredParams : List Parameter :=
  (if ignoreVarTy q.toTyCtxt c.env then []
    else [.mk c.envTyp (some (fn.paramName 1)) (some (fn.paramName 1))]) ++
  (c.elementTyps.zipIdx 1).map fun p =>
    .mk p.1 (some (fn.paramName (p.2 + 1))) (some (fn.paramName (p.2 + 1)))

lemma map_typ_declaredParams : (c.declaredParams fn).map Parameter.typ = c.argTyps := by
  have hfst := List.zipIdx_map_fst 1 c.elementTyps
  rw [declaredParams, argTyps, List.map_append, List.map_map]
  refine congrArg₂ _ ?_ hfst
  split <;> rfl

lemma exists_fnTyp (hshim : fn.isVtableShim = false) (h : c.Passable) :
    ∃ typ, fnTyp q tr.codegenTy fn c.untupledSig = some typ ∧
      typ.parameters = some (c.declaredParams fn) := by
  rw [fnTyp_eq_some c fn hshim, mapM_eq_some_iff, List.zipIdx_cons, List.filter_cons,
    declaredParams]
  -- no element is left out
  have hkept : (c.elements.zipIdx 1).filter (fun input => !ignoreVarTy q.toTyCtxt input.1) =
      c.elements.zipIdx 1 := by
    refine List.filter_eq_self.mpr fun input hinput => ?_
    have hmem : input.1 ∈ c.elements := by
      rw [← List.zipIdx_map_fst 1 c.elements]
      exact List.mem_map_of_mem hinput
    simp [ignoreVarTy_of_isPassable (h.2 _ hmem)]
  have helements : List.Forall₂ (fun input p => fnTypParam tr.codegenTy fn input = some p)
      (c.elements.zipIdx 1) ((c.elementTyps.zipIdx 1).map fun p =>
        .mk p.1 (some (fn.paramName (p.2 + 1))) (some (fn.paramName (p.2 + 1)))) := by
    rw [List.forall₂_map_right_iff]
    have hboth := (List.forall₂_and_left _ _).mpr ⟨h.2, c.codegenTy_elements⟩
    refine (forall₂_zipIdx hboth 1).imp ?_
    rintro ⟨t, i⟩ ⟨typ, _⟩ ⟨⟨hpassable, htyp⟩, rfl⟩
    exact (fnTypParam_eq_some fn htyp).mpr ⟨hpassable, rfl⟩
  rw [hkept]
  cases hignore : ignoreVarTy q.toTyCtxt c.env with
  | true => exact helements
  | false =>
    have henv := h.1.resolve_left (by simp [hignore])
    exact .cons ((fnTypParam_eq_some fn c.codegenTy_env).mpr ⟨henv, rfl⟩) helements

lemma isLvalue_of_mem_argTyps (h : c.Passable) {t : Typ} (ht : t ∈ c.argTyps) :
    t.isLvalue = true := by
  rw [argTyps, List.mem_append] at ht
  rcases ht with ht | ht
  · cases hignore : ignoreVarTy q.toTyCtxt c.env with
    | true => simp [hignore] at ht
    | false =>
      simp only [hignore, Bool.false_eq_true, if_false, List.mem_singleton] at ht
      rw [ht, isLvalue_eq c.codegenTy_env]
      exact h.1.resolve_left (by simp [hignore])
  · obtain ⟨ty, hty, htyp⟩ := exists_of_mem_forall₂ c.codegenTy_elements.flip ht
    rw [isLvalue_eq htyp]
    exact h.2 ty hty

lemma exists_codegenFunctionSig (h : c.Passable) :
    ∃ typ params, codegenFunctionSig q tr.codegenTy c.untupledSig = some typ ∧
      typ.parameters = some params ∧ params.map Parameter.typ = c.argTyps := by
  have hkept : c.elements.filter (fun t => !ignoreVarTy q.toTyCtxt t) = c.elements :=
    List.filter_eq_self.mpr fun t ht => by simp [ignoreVarTy_of_isPassable (h.2 t ht)]
  have htyps : ((c.env :: c.elements).filter fun t => !ignoreVarTy q.toTyCtxt t).mapM tr.codegenTy =
      some c.argTyps := by
    rw [mapM_eq_some_iff, List.filter_cons, hkept, argTyps]
    cases hignore : ignoreVarTy q.toTyCtxt c.env with
    | true => simpa using c.codegenTy_elements
    | false => simpa using ⟨c.codegenTy_env, c.codegenTy_elements⟩
  have hparams : c.argTyps.mapM (fun t => t.asParameter none none) =
      some (c.argTyps.map fun t => .mk t none none) := by
    rw [mapM_eq_some_iff, List.forall₂_map_right_iff, List.forall₂_same]
    exact fun t ht => by simp [Typ.asParameter, c.isLvalue_of_mem_argTyps h ht]
  cases hvariadic : c.cVariadic with
  | true =>
    refine ⟨.variadicCodeWithUnnamedParameters c.argTyps c.outTyp, _, ?_, rfl, ?_⟩
    · simp [codegenFunctionSig, untupledSig, htyps, hvariadic, c.codegenTy_output]
    · simp [Function.comp_def]
  | false =>
    refine ⟨.code (c.argTyps.map fun t => .mk t none none) c.outTyp, _, ?_, rfl, ?_⟩
    · simp [codegenFunctionSig, untupledSig, htyps, hvariadic, c.codegenTy_output,
        Typ.codeWithUnnamedParameters, hparams]
    · simp [Function.comp_def]

end ClosureCall

/-! #### The prelude -/

section Prelude

variable [Ranked String] {Ty : Type} {codegenTy : Ty → Option Typ} {fn : FnInfo}

omit [Ranked String] in
lemma codegenSpreadArgName_inj {l l' : ℕ}
    (h : (fn.codegenSpreadArgName l).1 = (fn.codegenSpreadArgName l').1) : l = l' := by
  have hrepr : l.repr = l'.repr := by simpa [FnInfo.codegenSpreadArgName] using h
  exact Numeral.repr_injective hrepr

omit [Ranked String] in
lemma codegenVarName_ne_codegenSpreadArgName (l l' : ℕ) :
    fn.codegenVarName l ≠ (fn.codegenSpreadArgName l').1 := by
  -- the names differ in the letter after the scope
  obtain ⟨rest, hrest⟩ : ∃ rest, fn.codegenVarName l = fn.name ++ "::1::" ++ ("var_" ++ rest) := by
    unfold FnInfo.codegenVarName
    split
    · next name _ =>
      refine ⟨toString l ++ "::" ++ name, String.toList_injective ?_⟩
      simp [String.toList_append]
    · refine ⟨toString l, String.toList_injective ?_⟩
      simp [String.toList_append]
  rw [hrest, FnInfo.codegenSpreadArgName]
  intro h
  have hlist := congrArg String.toList h
  simp [String.toList_append] at hlist

/-- The symbols of the parameters are entered, and the fields are taken from them. -/
lemma exists_foldlM_marshallArg {tys : List Ty} {typs : List Typ} {s : ℕ} (loc : Location)
    (h : List.Forall₂ (fun t typ => codegenTy t = some typ) tys typs) {n : ℕ}
    {m : OrdMap String Expr} {st : SymbolTable} (hm : ∀ j ≥ n, m.get? (toString j) = none)
    (hst : ∀ j ≥ n, st.lookup (fn.codegenSpreadArgName (j + s)).1 = none) :
    ∃ m' st', (tys.zipIdx n).foldlM (marshallArg codegenTy fn s loc) (m, st) = some (m', st') ∧
      st.Le st' ∧ m'.entries.length = m.entries.length + tys.length ∧
      (∀ k < n, m'.get? (toString k) = m.get? (toString k)) ∧
      (∀ i t, typs[i]? = some t → m'.get? (toString (n + i)) =
        some (.symbolExpression (fn.codegenSpreadArgName (n + i + s)).1 t)) ∧
      ∀ name, (∀ l, name ≠ (fn.codegenSpreadArgName l).1) → st'.lookup name = st.lookup name := by
  induction h generalizing n m st with
  | nil => exact ⟨m, st, rfl, .refl st, by simp, by simp, by simp, fun _ _ => rfl⟩
  | @cons t typ tys typs htyp _ ih =>
    let sym := Symbol.mkVariable (fn.codegenSpreadArgName (n + s)).1
      (fn.codegenSpreadArgName (n + s)).2 typ loc
    have hnew : st.lookup sym.name = none := hst n le_rfl
    have hinsert : st.insert sym = some (st.set sym) := SymbolTable.insert_eq_some.mpr ⟨hnew, rfl⟩
    have hstep : marshallArg codegenTy fn s loc (m, st) (t, n) =
        some (m.insert (toString n) sym.toExpr, st.set sym) := by
      simp only [marshallArg, htyp, some_bind, sym] at hinsert ⊢
      rw [hinsert]
      rfl
    have hne : ∀ j ≥ n + 1, (toString j : String) ≠ toString n := by
      intro j hj heq
      have := Numeral.repr_injective heq
      omega
    have hm' : ∀ j ≥ n + 1, (m.insert (toString n) sym.toExpr).get? (toString j) = none := by
      intro j hj
      rw [get?_insert_of_ne _ (hne j hj)]
      exact hm j (by omega)
    have hst' : ∀ j ≥ n + 1, (st.set sym).lookup (fn.codegenSpreadArgName (j + s)).1 = none := by
      intro j hj
      rw [SymbolTable.lookup_set_of_ne]
      · exact hst j (by omega)
      · intro heq
        have := codegenSpreadArgName_inj heq
        omega
    obtain ⟨m', st', hfold, hle, hlen, hbefore, hafter, hother⟩ := ih hm' hst'
    refine ⟨m', st', ?_, (SymbolTable.le_insert hinsert).trans hle, ?_, ?_, ?_, ?_⟩
    · rw [List.zipIdx_cons, List.foldlM_cons, hstep]
      exact hfold
    · rw [hlen, length_entries_insert (hm n le_rfl), List.length_cons]
      omega
    · intro k hk
      rw [hbefore k (by omega), get?_insert_of_ne]
      intro heq
      have := Numeral.repr_injective heq
      omega
    · intro i u hi
      cases i with
      | zero =>
        rw [Nat.add_zero, hbefore n (by omega), get?_insert_self]
        cases hi
        rfl
      | succ i =>
        have := hafter i u hi
        rwa [show n + 1 + i = n + (i + 1) by omega] at this
    · intro name hname
      rw [hother name hname, SymbolTable.lookup_set_of_ne]
      exact hname (n + s)

end Prelude

namespace ClosureCall

variable [Ranked String] {Ty : Type} {q : TyQueries Ty} {depth : ℕ} {tr : TyTranslation q depth}
  {st : SymbolTable} (c : ClosureCall tr st) {fn : FnInfo}

/-- The names of the function's parameters and of the tuple are not in use yet. -/
structure Fresh (st : SymbolTable) (fn : FnInfo) : Prop where
  spread : ∀ l, st.lookup (fn.codegenSpreadArgName l).1 = none
  tuple : st.lookup (fn.codegenVarName 2) = none

/-- The parameters that are spread have the names of the locals from the tuple on. -/
lemma spreadParams_declaredParams (hspread : fn.spreadArg = some 2) :
    c.spreadParams (c.declaredParams fn) = (c.elementTyps.zipIdx 1).map fun p =>
      .mk p.1 (some (fn.codegenSpreadArgName (p.2 + 1)).1)
        (some (fn.codegenSpreadArgName (p.2 + 1)).1) := by
  have hname : ∀ p ∈ c.elementTyps.zipIdx 1,
      fn.paramName (p.2 + 1) = (fn.codegenSpreadArgName (p.2 + 1)).1 := by
    rintro ⟨t, i⟩ hp
    have hle : 1 ≤ i := (List.mem_zipIdx hp).1
    rw [FnInfo.paramName, hspread]
    exact if_pos (by simpa using hle)
  rw [spreadParams, declaredParams]
  cases hignore : ignoreVarTy q.toTyCtxt c.env <;>
    simpa [hignore] using fun t i hp => hname (t, i) hp

/-- The tuple is put together out of the parameters that are spread. -/
lemma exists_codegenFunctionPrelude (hspread : fn.spreadArg = some 2) (hfresh : Fresh st fn)
    (loc : Location) : ∃ lhs values st',
    codegenFunctionPrelude q tr.codegenTy fn c.sig c.tuple loc st =
      some ([.mk (.decl lhs (some (.mk (.struct values) c.tupTyp loc))) loc], st') ∧
    ∀ (i : ℕ) (t : Typ), c.elementTyps[i]? = some t → (.field (toString i) t,
      .symbolExpression (fn.codegenSpreadArgName (i + 2)).1 t) ∈ c.components.zip values := by
  obtain ⟨m, st₁, hfold, hle, hlen, -, hget, hother⟩ := exists_foldlM_marshallArg loc
    c.codegenTy_elements (m := .empty) (s := 2) (n := 0) (fun _ _ => rfl)
    fun j _ => hfresh.spread (j + 2)
  have hget' : ∀ (i : ℕ) (t : Typ), c.elementTyps[i]? = some t → m.get? (toString i) =
      some (.symbolExpression (fn.codegenSpreadArgName (i + 2)).1 t) := by
    intro i t hi
    simpa only [Nat.zero_add] using hget i t hi
  have hfields : (c.components.filter fun x => !x.isPadding).length = m.entries.length := by
    rw [c.entered.fields.length_eq, hlen]
    simp [empty, c.length_elementTyps]
  obtain ⟨values, hstruct, hmem⟩ := Expr.exists_structExpr c.isStructTag_tupTyp
    (hle.lookupFieldsInType c.entered.lookup) c.entered.names c.entered.padding hfields (by
      intro name t hfield
      obtain ⟨i, rfl, hi⟩ := c.exists_of_mem_components hfield
      exact ⟨_, hget' i t hi, Typ.beq_iff_erase.mpr rfl⟩)
  let sym := Symbol.mkVariable (fn.codegenVarName 2) (fn.codegenVarBaseName 2) c.tupTyp loc
  have hinsert : st₁.insert sym = some (st₁.set sym) := by
    have hname := hother _ fun l => codegenVarName_ne_codegenSpreadArgName 2 l
    exact SymbolTable.insert_eq_some.mpr ⟨hname.trans hfresh.tuple, rfl⟩
  have hdecl : Stmt.decl sym.toExpr (some (.mk (.struct values) c.tupTyp loc)) loc =
      some (.mk (.decl sym.toExpr (some (.mk (.struct values) c.tupTyp loc))) loc) := by
    have hself : (c.tupTyp == c.tupTyp) = true := Typ.beq_iff_erase.mpr rfl
    simp [Stmt.decl, Symbol.toExpr, Expr.isSymbol, sym, Symbol.mkVariable, hself]
  refine ⟨sym.toExpr, values, st₁.set sym, ?_, fun i t hi => hmem _ _ _ (c.mem_components hi)
    (hget' i t hi)⟩
  have hlast : c.sig.inputs.getLast? = some c.tuple := rfl
  have hlength : c.sig.inputs.length = 2 := rfl
  simp only [codegenFunctionPrelude, hspread, c.codegenTy_tuple, hlast, c.kind_tuple, hlength,
    hfold, hstruct, some_bind]
  rw [hinsert, some_bind]
  exact congrArg (Option.bind · _) hdecl

lemma preludeAgrees (hshim : fn.isVtableShim = false) (hspread : fn.spreadArg = some 2)
    (hfresh : Fresh st fn) (h : c.Passable) (loc : Location) : c.PreludeAgrees fn loc := by
  obtain ⟨typ, htyp, hparams⟩ := c.exists_fnTyp fn hshim h
  obtain ⟨lhs, values, st', hprelude, hfields⟩ :=
    c.exists_codegenFunctionPrelude hspread hfresh loc
  refine ⟨c.untupledSig, typ, _, lhs, values, st', c.sigWithClosureUntupled_sig, htyp, hparams,
    hprelude, ?_, ?_⟩
  · simp [c.spreadParams_declaredParams hspread, c.length_elementTyps]
  · intro i p hp
    rw [c.spreadParams_declaredParams hspread, List.getElem?_map, Option.map_eq_some_iff] at hp
    obtain ⟨⟨t, k⟩, hk, rfl⟩ := hp
    rw [List.getElem?_zipIdx, Option.map_eq_some_iff] at hk
    obtain ⟨t', ht', heq⟩ := hk
    cases heq
    refine ⟨_, rfl, ?_⟩
    have := hfields i t ht'
    rwa [show i + 2 = 1 + i + 1 by omega] at this

/-- The caller, the declared type and the prelude agree on the arguments of a closure just when
everything that is passed can be a parameter. -/
theorem agrees_iff (hshim : fn.isVtableShim = false) (hfresh : Fresh st fn) (loc : Location) :
    c.CallAgrees fn ∧ (fn.spreadArg = some 2 → c.PreludeAgrees fn loc) ↔
      (ignoreVarTy q.toTyCtxt c.env = true ∨ isPassable (q.kind c.env) = true) ∧
        ∀ t ∈ c.elements, isPassable (q.kind t) = true := by
  obtain ⟨fargs, hfargs, hfargsTyps⟩ := c.exists_codegenFuncallArgs
  constructor
  · rintro ⟨⟨fargs', sig, typ, params, -, -, hfargs', hsig, htyp, hparams, -, -, htyps, -⟩, -⟩
    rw [hfargs, Option.some.injEq] at hfargs'
    rw [c.sigWithClosureUntupled_sig, Option.some.injEq] at hsig
    subst hfargs' hsig
    refine c.passable_of_fnTyp fn hshim htyp hparams ?_
    rw [← hfargsTyps, ← htyps, List.length_map]
  · intro h
    obtain ⟨typ, htyp, hparams⟩ := c.exists_fnTyp fn hshim h
    obtain ⟨typ', params', htyp', hparams', htyps'⟩ := c.exists_codegenFunctionSig h
    refine ⟨⟨fargs, c.untupledSig, typ, _, typ', params', hfargs, c.sigWithClosureUntupled_sig,
      htyp, hparams, htyp', hparams', ?_, htyps'.trans hfargsTyps.symm⟩,
      fun hspread => c.preludeAgrees hshim hspread hfresh h loc⟩
    rw [hfargsTyps, c.map_typ_declaredParams]

end ClosureCall

/-! ### A function item among the arguments -/

/-- The types of a call of a closure (`1`) without captures, which returns nothing (`0`). The tuple
(`4`) holds a `u32` (`3`), and a function item (`2`) in front of it if `item` says so. -/
def itemQueries (item : Bool) : TyQueries ℕ where
  kind
    | 0 => .tuple []
    | 1 => .closure []
    | 2 => .fnDef ⟨[], 0, false, .other⟩
    | 3 => .uint .u32
    | 4 => .tuple (if item then [2, 3] else [3])
    | _ => .never
  tyMangledName t := "_" ++ toString t
  isUnsized _ := false
  ptrMetadataTy _ := .unit
  vectorAbi _ := none

def itemTranslation [Ranked String] (item : Bool) : TyTranslation (itemQueries item) 0 where
  codegenTy := codegenTyInner (itemQueries item) 0 fun _ => some (.mkStructTag "Unit")
  codegenTy_eq ty := by
    match ty with
    | 0 | 1 | 2 | 3 => rfl
    | 4 => cases item <;> rfl
    | n + 5 => rfl

def itemElementTyps (item : Bool) : List Typ :=
  if item then [.code [] (.mkStructTag "Unit"), .unsignedbv 32] else [.unsignedbv 32]

def itemComponents (item : Bool) : List DatatypeComponent :=
  (itemElementTyps item).zipIdx.map fun p => .field (toString p.2) p.1

/-- A table with the struct of the tuple. -/
def itemTable [Ranked String] (item : Bool) : SymbolTable :=
  (SymbolTable.empty (machineModelFromSession none "x86_64" false 64)).set
    { name := "tag-_4", location := .none, typ := .struct "_4" (itemComponents item),
      value := .none, baseName := some "_4", prettyName := none, isType := true }

lemma tupleEntered_item [Ranked String] (item : Bool) : TupleEntered (itemTable item)
    (.mkStructTag "_4") (itemElementTyps item) (itemComponents item) where
  lookup := by
    simp [itemTable, SymbolTable.lookupFieldsInType, Typ.typeName, Typ.mkStructTag, aggrTag,
      SymbolTable.lookup_set, Typ.components]
  names := by cases item <;> decide
  padding := by cases item <;> decide
  fields := by cases item <;> exact .refl _

def itemCall [Ranked String] (item : Bool) :
    ClosureCall (itemTranslation item) (itemTable item) where
  env := 1
  tuple := 4
  elements := if item then [2, 3] else [3]
  output := 0
  cVariadic := false
  envTyp := .mkStructTag "_1"
  tupTyp := .mkStructTag "_4"
  elementTyps := itemElementTyps item
  outTyp := .mkStructTag "Unit"
  components := itemComponents item
  envExpr := .symbolExpression "closure" (.mkStructTag "_1")
  tupleExpr := .symbolExpression "arguments" (.mkStructTag "_4")
  kind_tuple := rfl
  codegenTy_env := rfl
  codegenTy_tuple := by cases item <;> rfl
  codegenTy_elements := by
    cases item
    · exact .cons rfl .nil
    · exact .cons rfl (.cons rfl .nil)
  codegenTy_output := rfl
  entered := tupleEntered_item item
  typ_envExpr := rfl
  typ_tupleExpr := rfl

/-- The function that is called: its second local is the tuple. -/
def itemFn : FnInfo := ⟨"f", fun _ => none, some 2, false⟩

lemma fresh_item [Ranked String] (item : Bool) : ClosureCall.Fresh (itemTable item) itemFn where
  spread l := by
    rw [itemTable, SymbolTable.lookup_set_of_ne]
    · rfl
    · intro h
      have hlist := congrArg String.toList h
      simp [itemFn, FnInfo.codegenSpreadArgName, String.toList_append] at hlist
  tuple := by
    rw [itemTable, SymbolTable.lookup_set_of_ne]
    · rfl
    · show itemFn.codegenVarName 2 ≠ "tag-_4"
      decide

theorem itemCall_agrees :
    let _ : Ranked String := rankedString
    (itemCall false).CallAgrees itemFn ∧
      (itemFn.spreadArg = some 2 → (itemCall false).PreludeAgrees itemFn .none) := by
  intro _
  refine ((itemCall false).agrees_iff rfl (fresh_item false) .none).mpr ⟨.inr rfl, ?_⟩
  exact fun t ht => by rw [List.mem_singleton.mp ht]; rfl

/-- The function item is passed, but there is no parameter for it: the call has three arguments for
two parameters, which is refused. -/
theorem itemCall_passes_more :
    let _ : Ranked String := rankedString
    let q := itemQueries true
    let codegenTy := (itemTranslation true).codegenTy
    let c := itemCall true
    ∃ fargs sig typ params,
      codegenFuncallArgs q codegenTy (itemTable true) c.sig c.args = some fargs ∧
      sigWithClosureUntupled q c.sig = some sig ∧ fnTyp q codegenTy itemFn sig = some typ ∧
      typ.parameters = some params ∧ fargs.length = 3 ∧ params.length = 2 ∧
      (Expr.symbolExpression "f" typ).call fargs = none :=
  ⟨_, _, _, _, rfl, rfl, rfl, rfl, rfl, rfl, rfl⟩

end Rmc.Codegen

import Rmc.Codegen.Vtable
import Rmc.Lib.Numeral

/-!
# Virtual calls after linking

Each crate writes what was recorded in it to a file, and the files are linked. The wrappers of the
calls of a crate are numbered, so no two of its call sites have one name, and a trait method has one
entry in its file. As long as no other file has an entry for the trait method or a call site of that
name, a call keeps exactly the targets recorded for it, in whatever order files and entries come.
-/

namespace Rmc.Codegen

open Rmc.Link Run LastWins

/-- What a crate writes down; the hash map gives its entries in any order. -/
def VtableCtx.getVirtualFunctionRestrictions (ctx : VtableCtx)
    (drained : List (Sigma fun _ : TraitDefinedMethod => List String)) : VtableCtxResults :=
  ⟨ctx.callSites, drained.map fun entry => ⟨entry.1, entry.2⟩⟩

section

variable {TraitTy SrcTy : Type} {crate : Crate TraitTy SrcTy} {symbols : List String}
  {es : List (VtableEvent TraitTy SrcTy)} {ctx ctx' : GotocCtx TraitTy}
  {drained : List (Sigma fun _ : TraitDefinedMethod => List String)} {files : List VtableCtxResults}

/-! ### Call sites -/

lemma wrapperName_injective (crate : Crate TraitTy SrcTy) :
    Function.Injective (wrapperName crate) :=
  fun _ _ h => Numeral.repr_injective ((String.append_right_inj _).mp h)

variable (crate) in
/-- The wrappers of the calls so far are numbered from one. -/
def Numbered (ctx : GotocCtx TraitTy) : Prop :=
  ctx.vtableCtx.callSites.map CallSite.functionName =
    (List.range ctx.vtableCtx.callSiteGlobalIdx).map fun n => wrapperName crate (n + 1)

lemma Numbered.of_eq (h : Numbered crate ctx)
    (hsites : ctx'.vtableCtx.callSites = ctx.vtableCtx.callSites)
    (hidx : ctx'.vtableCtx.callSiteGlobalIdx = ctx.vtableCtx.callSiteGlobalIdx) :
    Numbered crate ctx' := by
  rwa [Numbered, hsites, hidx]

lemma Numbered.virtualFuncall {t : TraitTy} (h : Numbered crate ctx)
    (hgen : codegenVirtualFuncall crate t idx parameters ctx = some ctx') :
    Numbered crate ctx' := by
  obtain ⟨-, -, hvtableCtx, -⟩ := codegenTraitTy_spec crate ctx t
  obtain ⟨t', -, -, -, hsites, hidx, -⟩ := virtualCallWithRestrictedFnPtr_spec hgen
  rw [hvtableCtx] at hsites hidx
  rw [Numbered, hsites, hidx, List.map_append, h, List.range_succ, List.map_append]
  rfl

lemma Numbered.of_run
    (hrun : run (VtableEvent.step crate) (.initial TraitTy symbols) es = some ctx) :
    Numbered crate ctx := by
  refine @run_invariant _ _ _ _ _ _ (fun _ ctx => Numbered crate ctx) ?_ ?_ hrun
  · rfl
  intro es ctx e ctx' _ h hstep
  have htraitTy : ∀ t, Numbered crate (codegenTraitTy crate t ctx) := by
    intro t
    obtain ⟨-, -, hvtableCtx, -⟩ := codegenTraitTy_spec crate ctx t
    exact h.of_eq (by rw [hvtableCtx]) (by rw [hvtableCtx])
  cases e with
  | symbol name =>
    have hgains := Gains.insertSymbol hstep
    exact h.of_eq hgains.callSites hgains.callSiteGlobalIdx
  | traitTy t =>
    obtain rfl := Option.some_inj.mp hstep
    exact htraitTy t
  | vtable src t =>
    obtain ⟨ctx₁, slots, hgains, -, hctx'⟩ := codegenVtable_spec hstep
    have h₁ := (htraitTy t).of_eq hgains.callSites hgains.callSiteGlobalIdx
    rcases hctx' with rfl | ⟨-, rfl⟩
    · exact h₁
    · exact h₁.of_eq rfl rfl
  | castDyn src dst =>
    obtain rfl := Option.some_inj.mp hstep
    exact htraitTy dst
  | virtualCall t idx parameters => exact h.virtualFuncall hstep
  | virtualDrop t => exact h.virtualFuncall hstep

lemma Numbered.eq_of_functionName_eq (h : Numbered crate ctx) {s s' : CallSite}
    (hs : s ∈ ctx.vtableCtx.callSites) (hs' : s' ∈ ctx.vtableCtx.callSites)
    (hname : s.functionName = s'.functionName) : s = s' := by
  refine List.inj_on_of_nodup_map ?_ hs hs' hname
  rw [h]
  refine List.nodup_range.map fun n n' hn => ?_
  exact Nat.succ_injective (wrapperName_injective crate hn)

/-! ### Entries -/

/-- Where no other file has an entry for a trait method, linking finds what the crate recorded. -/
lemma lookup_combined_of_apart {vtableCtx : VtableCtx} {key : TraitDefinedMethod}
    (hdrained : drained.Perm vtableCtx.possibleMethods.entries)
    (hfile : vtableCtx.getVirtualFunctionRestrictions drained ∈ files)
    (hapart : ∀ r ∈ files, r ≠ vtableCtx.getVirtualFunctionRestrictions drained →
      ∀ e ∈ r.possibleMethods, e.traitMethod ≠ key) :
    (combinedPossibleMethods files).lookup key = vtableCtx.possibleMethods.lookup key := by
  have hentry : ∀ possibilities, (⟨key, possibilities⟩ : PossibleMethodEntry) ∈ allEntries files ↔
      vtableCtx.possibleMethods.lookup key = some possibilities := by
    intro possibilities
    rw [← Option.mem_def, AList.mem_lookup_iff, ← hdrained.mem_iff]
    constructor
    · intro he
      obtain ⟨r, hr, he⟩ := List.mem_flatMap.mp he
      by_cases hown : r = vtableCtx.getVirtualFunctionRestrictions drained
      · subst hown
        obtain ⟨entry, hentry, heq⟩ := List.mem_map.mp he
        cases heq
        exact hentry
      · exact absurd rfl (hapart r hr hown _ he)
    · intro he
      exact List.mem_flatMap.mpr ⟨_, hfile, List.mem_map.mpr ⟨_, he, rfl⟩⟩
  cases hlookup : vtableCtx.possibleMethods.lookup key with
  | some possibilities =>
    obtain ⟨e, he, rfl⟩ := exists_isLast (f := PossibleMethodEntry.traitMethod)
      ⟨_, (hentry possibilities).mpr hlookup, rfl⟩
    rw [lookup_combined he, ← (hentry e.possibilities).mp he.mem, hlookup]
  | none =>
    rw [combinedPossibleMethods_eq, lookup_insertAll_of_forall_ne, AList.lookup_empty]
    rintro e he rfl
    rw [(hentry e.possibilities).mp he] at hlookup
    cases hlookup

/-! ### Calls -/

/-- A call of a crate keeps through linking exactly the targets recorded for its trait type and
slot, and among them is every function in that slot of a vtable of the trait type. -/
theorem linked_of_run
    (hrun : run (VtableEvent.step crate) (.initial TraitTy symbols) es = some ctx)
    (hdrops : ∀ pre src t post ctx₀, es = pre ++ .vtable src t :: post →
      run (VtableEvent.step crate) (.initial TraitTy symbols) pre = some ctx₀ →
      vtableImplName crate src t ∉ ctx₀.symbols → crate.dropSymName src ∈ ctx₀.symbols)
    (hdrained : drained.Perm ctx.vtableCtx.possibleMethods.entries)
    (hfile : ctx.vtableCtx.getVirtualFunctionRestrictions drained ∈ files)
    {n idx : ℕ} {t : TraitTy} (hcall : (es.filterMap VtableEvent.call)[n]? = some (t, idx))
    (hapart : ∀ r ∈ files, r ≠ ctx.vtableCtx.getVirtualFunctionRestrictions drained →
      (∀ s ∈ r.callSites, ∀ s' ∈ ctx.vtableCtx.callSites, s.functionName ≠ s'.functionName) ∧
        ∀ e ∈ r.possibleMethods, e.traitMethod ≠ ⟨normalizedTraitName crate t, idx⟩) :
    ∃ site targets, ctx.vtableCtx.callSites[n]? = some site ∧
      (linkFunctionPointerRestrictions files).lookup (cbmcCallSiteName site.functionName) =
        some targets ∧
      (∀ f, f ∈ targets ↔ f ∈ ctx.vtableCtx.possibilities ⟨normalizedTraitName crate t, idx⟩) ∧
      ∀ v ∈ ctx.vtables, normalizedTraitName crate v.traitTy = normalizedTraitName crate t →
        ∀ f, (idx, .fn f) ∈ v.slots → f ∈ targets := by
  have hinv := Invariant.of_run hrun
  have hsites := congrArg (fun l => l[n]?) hinv.callSites
  simp only [List.getElem?_map, hcall, Option.map_some, Option.map_eq_some_iff] at hsites
  obtain ⟨site, hsite, hkey⟩ := hsites
  have hmem := List.mem_of_getElem? hsite
  have hin : site ∈ allCallSites files := List.mem_flatMap.mpr ⟨_, hfile, hmem⟩
  obtain ⟨last, hlast, hname⟩ := exists_isLast (f := CallSite.functionName) ⟨site, hin, rfl⟩
  -- the last call site of that name is the one of this call
  obtain rfl : last = site := by
    obtain ⟨r, hr, hin⟩ := List.mem_flatMap.mp hlast.mem
    by_cases hown : r = ctx.vtableCtx.getVirtualFunctionRestrictions drained
    · subst hown
      exact (Numbered.of_run hrun).eq_of_functionName_eq hin hmem hname
    · exact absurd hname ((hapart r hr hown).1 last hin site hmem)
  have htargets := lookup_combined_of_apart hdrained hfile fun r hr hown => (hapart r hr hown).2
  refine ⟨last, _, hsite, lookup_link hlast, fun f => ?_, fun v hv htrait f hf => ?_⟩
  · rw [hkey, htargets]
    rfl
  · obtain ⟨src, pre, post, ctx₀, hes, hpre, hnew, -, hslots⟩ := hinv.vtables v hv
    have hrecorded := (hslots idx f hf).resolve_right
      (not_not.mpr (hdrops pre src v.traitTy post ctx₀ hes hpre hnew))
    rw [hkey, htargets, ← htrait]
    exact hrecorded

end

/-- A crate that calls `f` through `dyn A`, and one that records a method of another trait. -/
theorem linked_of_run_two_crates :
    ∃ ctx site targets, run (VtableEvent.step sendCrate) (.initial Bool ["drop", "f"])
        [.vtable () false, .virtualCall false 3 1] = some ctx ∧
      ctx.vtableCtx.callSites[0]? = some site ∧
      (linkFunctionPointerRestrictions
        [ctx.vtableCtx.getVirtualFunctionRestrictions ctx.vtableCtx.possibleMethods.entries,
          ⟨[], [⟨⟨"_7", 3⟩, ["g"]⟩]⟩]).lookup (cbmcCallSiteName site.functionName) = some targets ∧
      ∀ f, f ∈ targets ↔ f = "f" := by
  let es : List (VtableEvent Bool Unit) := [.vtable () false, .virtualCall false 3 1]
  let ctx := (run (VtableEvent.step sendCrate) (.initial Bool ["drop", "f"]) es).get (by decide)
  have hrun : run (VtableEvent.step sendCrate) (.initial Bool ["drop", "f"]) es = some ctx :=
    (Option.some_get _).symm
  have hdrops : ∀ pre src t post ctx₀, es = pre ++ .vtable src t :: post →
      run (VtableEvent.step sendCrate) (.initial Bool ["drop", "f"]) pre = some ctx₀ →
      vtableImplName sendCrate src t ∉ ctx₀.symbols → sendCrate.dropSymName src ∈ ctx₀.symbols := by
    intro pre src t post ctx₀ hes hpre _
    obtain rfl : pre = [] := by
      rcases pre with _ | ⟨e, _ | ⟨e', pre⟩⟩ <;> simp [es] at hes ⊢
    obtain rfl := Option.some_inj.mp hpre
    simp [sendCrate, GotocCtx.initial]
  obtain ⟨site, targets, hsite, htargets, hiff, -⟩ := linked_of_run hrun hdrops (.refl _)
    (List.mem_cons_self (l := [⟨[], [⟨⟨"_7", 3⟩, ["g"]⟩]⟩])) (n := 0) (t := false) rfl
    fun r hr hne => by
      obtain rfl := List.mem_singleton.mp ((List.mem_cons.mp hr).resolve_left hne)
      exact ⟨by simp, by decide⟩
  refine ⟨ctx, site, targets, hrun, hsite, htargets, fun f => ?_⟩
  rw [hiff]
  exact List.mem_singleton

end Rmc.Codegen

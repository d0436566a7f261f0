import Rmc.Lib.LastWins

/-!
# Linking the restrictions of virtual calls

Each crate writes down which call sites of trait methods it has and which functions a trait method
may call (`rmc_restrictions`). Before the model checker runs, the files of all crates are linked
into one table from call sites to possible targets (`rmc-link-restrictions`).

The entries of the crates for one trait method are not united: a later entry replaces an earlier
one. `linked_iff` says for which files nothing is lost.
-/

namespace Rmc.Link

open LastWins

/-- A method of a trait: the trait type and the slot of the method in its vtable. -/
structure TraitDefinedMethod where
  traitName : String
  vtableIdx : ℕ
  deriving DecidableEq, Repr

/-- A virtual call, named by the wrapper function it stands in. -/
structure CallSite where
  traitMethod : TraitDefinedMethod
  functionName : String
  deriving DecidableEq, Repr

/-- The functions that a trait method may stand for. -/
structure PossibleMethodEntry where
  traitMethod : TraitDefinedMethod
  possibilities : List String
  deriving DecidableEq, Repr

/-- What one crate writes down. -/
structure VtableCtxResults where
  callSites : List CallSite
  possibleMethods : List PossibleMethodEntry
  deriving DecidableEq, Repr

/-- The name the model checker has for a call site; its first call through a function pointer is
number one. -/
def cbmcCallSiteName (functionName : String) : String := functionName ++ ".function_pointer_call.1"

/-- The possibilities of all crates. -/
def combinedPossibleMethods (dataPerCrate : List VtableCtxResults) :
    AList fun _ : TraitDefinedMethod => List String :=
  dataPerCrate.foldl (fun combined crateData =>
    crateData.possibleMethods.foldl (fun combined entry =>
      combined.insert entry.traitMethod entry.possibilities) combined) ∅

/-- The targets of every call site of every crate. -/
def linkFunctionPointerRestrictions (dataPerCrate : List VtableCtxResults) :
    AList fun _ : String => List String :=
  let combined := combinedPossibleMethods dataPerCrate
  dataPerCrate.foldl (fun output crateData =>
    crateData.callSites.foldl (fun output callSite =>
      output.insert (cbmcCallSiteName callSite.functionName)
        ((combined.lookup callSite.traitMethod).getD [])) output) ∅

/-! ### What the files record -/

/-- All entries of all crates, in the order of the files. -/
def allEntries (dataPerCrate : List VtableCtxResults) : List PossibleMethodEntry :=
  dataPerCrate.flatMap VtableCtxResults.possibleMethods

/-- All call sites of all crates, in the order of the files. -/
def allCallSites (dataPerCrate : List VtableCtxResults) : List CallSite :=
  dataPerCrate.flatMap VtableCtxResults.callSites

/-- Some crate records the target for the trait method. -/
def Recorded (dataPerCrate : List VtableCtxResults) (m : TraitDefinedMethod) (target : String) :
    Prop :=
  ∃ e ∈ allEntries dataPerCrate, e.traitMethod = m ∧ target ∈ e.possibilities

/-- Linking loses no target and adds none: what is emitted for a call site is what the crates
record for its trait method. -/
def Linked (dataPerCrate : List VtableCtxResults) : Prop :=
  ∀ s ∈ allCallSites dataPerCrate, ∃ targets,
    (linkFunctionPointerRestrictions dataPerCrate).lookup (cbmcCallSiteName s.functionName) =
      some targets ∧ ∀ target, target ∈ targets ↔ Recorded dataPerCrate s.traitMethod target

lemma combinedPossibleMethods_eq (dataPerCrate : List VtableCtxResults) :
    combinedPossibleMethods dataPerCrate =
      insertAll PossibleMethodEntry.traitMethod PossibleMethodEntry.possibilities
        (allEntries dataPerCrate) ∅ := by
  rw [combinedPossibleMethods, insertAll, allEntries, List.foldl_flatMap]

lemma linkFunctionPointerRestrictions_eq (dataPerCrate : List VtableCtxResults) :
    linkFunctionPointerRestrictions dataPerCrate =
      insertAll (fun s : CallSite => cbmcCallSiteName s.functionName)
        (fun s => ((combinedPossibleMethods dataPerCrate).lookup s.traitMethod).getD [])
        (allCallSites dataPerCrate) ∅ := by
  rw [linkFunctionPointerRestrictions, insertAll, allCallSites, List.foldl_flatMap]

lemma cbmcCallSiteName_injective : Function.Injective cbmcCallSiteName := by
  intro f f' h
  have h' := congrArg String.toList h
  simp only [cbmcCallSiteName, String.toList_append] at h'
  exact String.toList_injective (List.append_cancel_right h')

/-! ### What is emitted -/

section

variable {dataPerCrate : List VtableCtxResults}

/-- A call site gets the possibilities of the last call site that has its name. -/
lemma lookup_link {s : CallSite}
    (hs : IsLast CallSite.functionName (allCallSites dataPerCrate) s) :
    (linkFunctionPointerRestrictions dataPerCrate).lookup (cbmcCallSiteName s.functionName) =
      some (((combinedPossibleMethods dataPerCrate).lookup s.traitMethod).getD []) := by
  rw [linkFunctionPointerRestrictions_eq]
  obtain ⟨pre, post, heq, hpost⟩ := hs
  refine lookup_insertAll_of_isLast (f := fun s : CallSite => cbmcCallSiteName s.functionName)
    ⟨pre, post, heq, fun y hy h => hpost y hy (cbmcCallSiteName_injective h)⟩ _

lemma lookup_combined {e : PossibleMethodEntry}
    (he : IsLast PossibleMethodEntry.traitMethod (allEntries dataPerCrate) e) :
    (combinedPossibleMethods dataPerCrate).lookup e.traitMethod = some e.possibilities := by
  rw [combinedPossibleMethods_eq]
  exact lookup_insertAll_of_isLast he _

/-- Nothing is emitted that is not recorded. -/
lemma recorded_of_mem_combined {m : TraitDefinedMethod} {target : String}
    (h : target ∈ ((combinedPossibleMethods dataPerCrate).lookup m).getD []) :
    Recorded dataPerCrate m target := by
  by_cases hm : ∃ e ∈ allEntries dataPerCrate, e.traitMethod = m
  · obtain ⟨e, he, rfl⟩ := exists_isLast hm
    rw [lookup_combined he] at h
    exact ⟨e, he.mem, rfl, h⟩
  · rw [combinedPossibleMethods_eq, lookup_insertAll_of_forall_ne fun e he hem => hm ⟨e, he, hem⟩]
      at h
    simp at h

/-- Call sites of one name have the same recorded targets. -/
def NamesAgree (dataPerCrate : List VtableCtxResults) : Prop :=
  ∀ s ∈ allCallSites dataPerCrate, ∀ s' ∈ allCallSites dataPerCrate,
    s.functionName = s'.functionName →
      ∀ target, Recorded dataPerCrate s.traitMethod target ↔
        Recorded dataPerCrate s'.traitMethod target

/-- For the trait method of a call site that is the last one of its name, the last entry in the
order of the files lists everything that any entry for the method lists. -/
def LastEntriesComplete (dataPerCrate : List VtableCtxResults) : Prop :=
  ∀ s, IsLast CallSite.functionName (allCallSites dataPerCrate) s →
    ∀ e, IsLast PossibleMethodEntry.traitMethod (allEntries dataPerCrate) e →
      e.traitMethod = s.traitMethod → ∀ e' ∈ allEntries dataPerCrate,
        e'.traitMethod = s.traitMethod → e'.possibilities ⊆ e.possibilities

/-- Linking loses no target exactly when no entry replaces one that lists more. -/
theorem linked_iff (dataPerCrate : List VtableCtxResults) :
    Linked dataPerCrate ↔ NamesAgree dataPerCrate ∧ LastEntriesComplete dataPerCrate := by
  constructor
  · intro h
    refine ⟨fun s hs s' hs' hname target => ?_, fun s hs e he hem e' he' hem' target ht => ?_⟩
    · obtain ⟨ts, hts, hiff⟩ := h s hs
      obtain ⟨ts', hts', hiff'⟩ := h s' hs'
      rw [hname, hts', Option.some.injEq] at hts
      rw [← hiff target, ← hiff' target, hts]
    · obtain ⟨ts, hts, hiff⟩ := h s hs.mem
      rw [lookup_link hs, ← hem, lookup_combined he, Option.getD_some, Option.some.injEq] at hts
      rw [hts]
      exact (hiff target).2 ⟨e', he', hem', ht⟩
  · rintro ⟨hnames, hlast⟩ s hs
    obtain ⟨l, hl, hname⟩ := exists_isLast (f := CallSite.functionName) ⟨s, hs, rfl⟩
    refine ⟨_, hname ▸ lookup_link hl, fun target => ?_⟩
    rw [hnames s hs l hl.mem hname.symm target]
    refine ⟨recorded_of_mem_combined, fun ⟨e', he', hem', ht⟩ => ?_⟩
    obtain ⟨e, he, hem⟩ := exists_isLast (f := PossibleMethodEntry.traitMethod) ⟨e', he', hem'⟩
    rw [← hem, lookup_combined he]
    exact hlast l hl e he hem e' he' hem' ht

end

/-- Two crates implement one trait, and the first one calls its method: the implementation of the
first crate is lost. -/
theorem not_linked_two_crates :
    ¬ Linked
      [⟨[⟨⟨"Shape", 3⟩, "restricted_call"⟩], [⟨⟨"Shape", 3⟩, ["Circle::area"]⟩]⟩,
       ⟨[], [⟨⟨"Shape", 3⟩, ["Square::area"]⟩]⟩] := by
  intro h
  obtain ⟨targets, htargets, hiff⟩ := h ⟨⟨"Shape", 3⟩, "restricted_call"⟩ (by simp [allCallSites])
  have hemitted : targets = ["Square::area"] := Option.some.inj (htargets.symm.trans rfl)
  have hmem := (hiff "Circle::area").2 ⟨⟨⟨"Shape", 3⟩, ["Circle::area"]⟩, by simp [allEntries]⟩
  simp [hemitted] at hmem

end Rmc.Link

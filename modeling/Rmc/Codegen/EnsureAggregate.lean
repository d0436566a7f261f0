import Rmc.Codegen.Aggregate

/-!
# Aggregates that are entered inside others

The closure of `ensure_struct` and `ensure_union` works on the same table and may call them
again: for its own name, for one whose closure still runs, or for a new one. Here a closure is
the tree of the calls that it makes, the assertions are told apart, and a run leaves a trace. A
name whose closure runs stands in the table with its incomplete type, so it is not entered again,
and what the closure enters does not touch it: it can be completed afterwards.
-/

namespace Rmc.Codegen

open OrdMap

variable [Ranked String] {name : String}

/-! ### Closures and their runs -/

/-- What a closure does: it returns the components, or it looks at the table, or it enters an
aggregate and goes on with the tag. -/
inductive AggrClosure where
  | ret (components : List DatatypeComponent)
  | look (next : SymbolTable → AggrClosure)
  | ensure (k : Aggr) (name : String) (prettyName : Option String) (f : String → AggrClosure)
      (next : Typ → AggrClosure)

/-- The assertions that can stop a run. -/
inductive AggrAssertion where
  /-- The name of an aggregate does not start like a tag. -/
  | name
  /-- The symbol of the type can be made: its components have different names. -/
  | symbol
  /-- A symbol that is inserted is not in the table. -/
  | insertion
  /-- A symbol that replaces another one completes it. -/
  | completion
  deriving DecidableEq, Repr

inductive AggrEvent where
  /-- `ensure_struct` or `ensure_union` is called. -/
  | call (k : Aggr) (name : String)
  /-- The closure of the call starts. -/
  | start (k : Aggr) (name : String) (prettyName : Option String)
  /-- The closure returns. -/
  | finish (k : Aggr) (name : String) (prettyName : Option String)
      (components : List DatatypeComponent)

namespace AggrEvent

def startedName : AggrEvent → Option String
  | .start _ name _ => some name
  | _ => none

end AggrEvent

/-- The names whose closures were started. -/
def started (events : List AggrEvent) : List String := events.filterMap AggrEvent.startedName

section

omit [Ranked String]

lemma AggrEvent.startedName_eq_some {e : AggrEvent} :
    e.startedName = some name ↔ ∃ k prettyName, e = .start k name prettyName := by
  cases e <;> simp [startedName]

@[simp] lemma started_nil : started [] = [] := rfl

@[simp] lemma started_append (events events' : List AggrEvent) :
    started (events ++ events') = started events ++ started events' :=
  List.filterMap_append

@[simp] lemma started_call (k : Aggr) (name : String) (events : List AggrEvent) :
    started (.call k name :: events) = started events := rfl

@[simp] lemma started_start (k : Aggr) (name : String) (prettyName : Option String)
    (events : List AggrEvent) :
    started (.start k name prettyName :: events) = name :: started events := rfl

@[simp] lemma started_finish (k : Aggr) (name : String) (prettyName : Option String)
    (components : List DatatypeComponent) (events : List AggrEvent) :
    started (.finish k name prettyName components :: events) = started events := rfl

variable {events : List AggrEvent}

lemma mem_started :
    name ∈ started events ↔ ∃ k prettyName, AggrEvent.start k name prettyName ∈ events := by
  simp only [started, List.mem_filterMap, AggrEvent.startedName_eq_some]
  constructor
  · rintro ⟨_, hmem, k, prettyName, rfl⟩
    exact ⟨k, prettyName, hmem⟩
  · rintro ⟨k, prettyName, hmem⟩
    exact ⟨_, hmem, k, prettyName, rfl⟩

end

/-- A run: its table, and what happened so far. -/
structure AggrRun where
  table : SymbolTable
  trace : List AggrEvent

namespace AggrRun

def log (e : AggrEvent) (s : AggrRun) : AggrRun := { s with trace := s.trace ++ [e] }

def withTable (st : SymbolTable) (s : AggrRun) : AggrRun := { s with table := st }

end AggrRun

/-- Code generation that stops at an assertion and keeps its run. -/
abbrev AssertGen (α : Type) := EStateM AggrAssertion AggrRun α

/-- A value, or the assertion that there is none. -/
def assertSome {α : Type} (a : AggrAssertion) (o : Option α) : AssertGen α :=
  match o with
  | some x => pure x
  | none => throw a

/-- The end of a call: the closure has returned, and its aggregate is completed. -/
def completeTraced (k : Aggr) (name : String) (prettyName : Option String)
    (components : List DatatypeComponent) : AssertGen Typ := do
  modify (AggrRun.log (.finish k name prettyName components))
  let sym ← assertSome .symbol (k.complete name prettyName components)
  let st ← assertSome .completion ((← get).table.replaceWithCompletion sym)
  modify (AggrRun.withTable st)
  return k.tag name

/-- `ensureAggr` with its assertions told apart and its events written down. -/
def ensureTraced (k : Aggr) (name : String) (prettyName : Option String)
    (f : String → AssertGen (List DatatypeComponent)) : AssertGen Typ := do
  modify (AggrRun.log (.call k name))
  assertSome .name (guard (startsWithTag name = false))
  if (← get).table.contains (aggrTag name) then return k.tag name
  else
    let sym ← assertSome .symbol (k.incomplete name prettyName)
    let st ← assertSome .insertion ((← get).table.insert sym)
    modify (AggrRun.withTable st)
    modify (AggrRun.log (.start k name prettyName))
    let components ← f name
    completeTraced k name prettyName components

namespace AggrClosure

def run : AggrClosure → AssertGen (List DatatypeComponent)
  | .ret components => pure components
  | .look next => do (next (← get).table).run
  | .ensure k name prettyName f next => do
    let t ← ensureTraced k name prettyName fun name => (f name).run
    (next t).run

/-- The closure on the table alone. -/
def gen : AggrClosure → Gen (List DatatypeComponent)
  | .ret components => fun st => some (components, st)
  | .look next => fun st => (next st).gen st
  | .ensure k name prettyName f next => fun st => do
    let (t, st') ← ensureAggr k name prettyName (fun name => (f name).gen) st
    (next t).gen st'

end AggrClosure

/-! ### The steps of a call -/

omit [Ranked String] in
lemma aggrTag_injective : Function.Injective aggrTag :=
  fun _ _ h => (String.append_right_inj _).mp h

variable {s s' s'' : AggrRun} {a : AggrAssertion} {events events' : List AggrEvent}

namespace AssertGen

variable {α β : Type}

lemma bind_of_ok {x : AssertGen α} {f : α → AssertGen β} {a : α} (h : x s = .ok a s') :
    (x >>= f) s = f a s' := by
  simp [bind, EStateM.bind, h]

lemma bind_of_error {x : AssertGen α} {f : α → AssertGen β} (h : x s = .error a s') :
    (x >>= f) s = .error a s' := by
  simp [bind, EStateM.bind, h]

@[simp] lemma modify_bind (g : AggrRun → AggrRun) (f : PUnit → AssertGen β) (s : AggrRun) :
    (modify g >>= f) s = f ⟨⟩ (g s) := rfl

@[simp] lemma get_bind (f : AggrRun → AssertGen β) (s : AggrRun) : (get >>= f) s = f s s := rfl

@[simp] lemma assertSome_some_bind (a : AggrAssertion) (x : α) (f : α → AssertGen β)
    (s : AggrRun) : (assertSome a (some x) >>= f) s = f x s := rfl

@[simp] lemma assertSome_none_bind (a : AggrAssertion) (f : α → AssertGen β) (s : AggrRun) :
    (assertSome a none >>= f) s = .error a s := rfl

@[simp] lemma pure_apply (x : α) (s : AggrRun) : (pure x : AssertGen α) s = .ok x s := rfl

end AssertGen

namespace AggrRun

variable (k : Aggr) (name : String) (prettyName : Option String)
  (components : List DatatypeComponent) (s : AggrRun)

/-- The run when the closure of a new aggregate starts. -/
def enter : AggrRun where
  table := s.table.set (Aggr.symbol name prettyName (k.incompleteTyp name))
  trace := s.trace ++ [.call k name, .start k name prettyName]

/-- The run when the closure has returned and the aggregate is complete. -/
def leave : AggrRun where
  table := s.table.set (Aggr.symbol name prettyName (k.completeTyp name components))
  trace := s.trace ++ [.finish k name prettyName components]

lemma lookup_enter_self : (s.enter k name prettyName).table.lookup (aggrTag name) =
    some (Aggr.symbol name prettyName (k.incompleteTyp name)) :=
  s.table.lookup_set_self _

lemma lookup_leave_self : (s.leave k name prettyName components).table.lookup (aggrTag name) =
    some (Aggr.symbol name prettyName (k.completeTyp name components)) :=
  s.table.lookup_set_self _

variable {name} {x : String}

lemma lookup_enter_of_ne (hx : x ≠ aggrTag name) :
    (s.enter k name prettyName).table.lookup x = s.table.lookup x :=
  s.table.lookup_set_of_ne hx

lemma lookup_leave_of_ne (hx : x ≠ aggrTag name) :
    (s.leave k name prettyName components).table.lookup x = s.table.lookup x :=
  s.table.lookup_set_of_ne hx

end AggrRun

section Steps

variable {k : Aggr} {prettyName : Option String} {components : List DatatypeComponent}
  {f : String → AssertGen (List DatatypeComponent)}

/-- A call ends at its name or at a name that is in the table. A new aggregate can always be
inserted, and its closure runs with the incomplete type in the table. -/
lemma ensureTraced_eq : ensureTraced k name prettyName f s =
    if startsWithTag name = true then .error .name (s.log (.call k name))
    else if s.table.contains (aggrTag name) = true then .ok (k.tag name) (s.log (.call k name))
    else (f name >>= completeTraced k name prettyName) (s.enter k name prettyName) := by
  split_ifs with hname hcontains
  · simp [ensureTraced, hname, failure]
  · simp [ensureTraced, hname, AggrRun.log, hcontains]
  · have hinsert : s.table.insert (Aggr.symbol name prettyName (k.incompleteTyp name)) =
        some (s.table.set (Aggr.symbol name prettyName (k.incompleteTyp name))) :=
      SymbolTable.insert_eq_some.mpr
        ⟨SymbolTable.contains_eq_false_iff.mp (Bool.not_eq_true _ ▸ hcontains), rfl⟩
    simp [ensureTraced, hname, AggrRun.log, hcontains, k.incomplete_eq, hinsert, AggrRun.enter,
      AggrRun.withTable]

lemma completeTraced_of_not_nodup (h : ¬ (components.map DatatypeComponent.name).Nodup) :
    completeTraced k name prettyName components s =
      .error .symbol (s.log (.finish k name prettyName components)) := by
  have hnone : k.complete name prettyName components = none := by
    rw [Option.eq_none_iff_forall_ne_some]
    intro sym hsym
    exact h ((k.complete_eq_some name prettyName).mp hsym).1
  simp [completeTraced, hnone]

/-- The incomplete type of an aggregate can be completed. -/
lemma completeTraced_of_nodup (h : (components.map DatatypeComponent.name).Nodup)
    (hold : s.table.lookup (aggrTag name) =
      some (Aggr.symbol name prettyName (k.incompleteTyp name))) :
    completeTraced k name prettyName components s =
      .ok (k.tag name) (s.leave k name prettyName components) := by
  have hreplace :
      s.table.replaceWithCompletion (Aggr.symbol name prettyName (k.completeTyp name components)) =
      some (s.table.set (Aggr.symbol name prettyName (k.completeTyp name components))) :=
    SymbolTable.replaceWithCompletion_eq_some.mpr
      ⟨⟨_, hold, k.completes_incompleteTyp name components⟩, rfl⟩
  simp only [completeTraced, AssertGen.modify_bind, k.complete_eq name prettyName h,
    AssertGen.assertSome_some_bind, AssertGen.get_bind, AggrRun.log, hreplace, AssertGen.pure_apply]
  rfl

end Steps

/-! ### What a run leaves behind -/

/-- The events of a run, also of one that an assertion stopped: no closure was started twice, and
only for names that were not in the table. -/
structure StartsOnce (s s' : AggrRun) (events : List AggrEvent) : Prop where
  trace : s'.trace = s.trace ++ events
  nodup : (started events).Nodup
  isNew : ∀ {name}, name ∈ started events → s.table.lookup (aggrTag name) = none

/-- What a run has done that came to its end. -/
structure Enters (s s' : AggrRun) (events : List AggrEvent) : Prop extends
    StartsOnce s s' events where
  machineModel : s'.table.machineModel = s.table.machineModel
  called : ∀ {k name}, AggrEvent.call k name ∈ events → s'.table.contains (aggrTag name) = true
  calls : ∀ {k name prettyName}, AggrEvent.start k name prettyName ∈ events →
    AggrEvent.call k name ∈ events
  finished : ∀ {k name prettyName}, AggrEvent.start k name prettyName ∈ events →
    ∃ components, AggrEvent.finish k name prettyName components ∈ events
  complete : ∀ {k name prettyName components},
    AggrEvent.finish k name prettyName components ∈ events →
      name ∈ started events ∧ s'.table.lookup (aggrTag name) =
        some (Aggr.symbol name prettyName (k.completeTyp name components))
  frame : ∀ {x}, (∀ name ∈ started events, x ≠ aggrTag name) → s'.table.lookup x = s.table.lookup x

namespace Enters

lemma refl (s : AggrRun) : Enters s s [] where
  trace := (List.append_nil _).symm
  nodup := List.nodup_nil
  isNew h := by simp at h
  machineModel := rfl
  called h := by simp at h
  calls h := by simp at h
  finished h := by simp at h
  complete h := by simp at h
  frame _ := rfl

section

variable (h : Enters s s' events)

include h

variable {x : String}

/-- A symbol that is in the table stays as it is. -/
lemma lookup {sym : Symbol} (hsym : s.table.lookup x = some sym) :
    s'.table.lookup x = some sym := by
  rw [← hsym]
  apply h.frame
  rintro name hname rfl
  simp [h.isNew hname] at hsym

lemma lookup_eq_none (hnone : s'.table.lookup x = none) : s.table.lookup x = none := by
  cases hsym : s.table.lookup x with
  | none => rfl
  | some sym => simp [h.lookup hsym] at hnone

lemma exists_of_started (hname : name ∈ started events) :
    ∃ k prettyName components, AggrEvent.finish k name prettyName components ∈ events ∧
      s'.table.lookup (aggrTag name) =
        some (Aggr.symbol name prettyName (k.completeTyp name components)) := by
  obtain ⟨k, prettyName, hstart⟩ := mem_started.mp hname
  obtain ⟨components, hfinish⟩ := h.finished hstart
  exact ⟨k, prettyName, components, hfinish, (h.complete hfinish).2⟩

/-- What was entered is not new for what comes after it. -/
lemma startsOnce_trans (h' : StartsOnce s' s'' events') :
    StartsOnce s s'' (events ++ events') where
  trace := by rw [h'.trace, h.trace, List.append_assoc]
  nodup := by
    rw [started_append]
    refine h.nodup.append h'.nodup fun name hname hname' => ?_
    obtain ⟨_, _, _, _, hsome⟩ := h.exists_of_started hname
    simp [h'.isNew hname'] at hsome
  isNew {name} hname := by
    rw [started_append, List.mem_append] at hname
    rcases hname with hname | hname
    · exact h.isNew hname
    · exact h.lookup_eq_none (h'.isNew hname)

lemma trans (h' : Enters s' s'' events') :
    Enters s s'' (events ++ events') where
  toStartsOnce := h.startsOnce_trans h'.toStartsOnce
  machineModel := h'.machineModel.trans h.machineModel
  called {k name} hcall := by
    rw [SymbolTable.contains_iff]
    rcases List.mem_append.mp hcall with hcall | hcall
    · obtain ⟨sym, hsym⟩ := SymbolTable.contains_iff.mp (h.called hcall)
      exact ⟨sym, h'.lookup hsym⟩
    · exact SymbolTable.contains_iff.mp (h'.called hcall)
  calls {k name prettyName} hstart := by
    rcases List.mem_append.mp hstart with hstart | hstart
    · exact List.mem_append_left _ (h.calls hstart)
    · exact List.mem_append_right _ (h'.calls hstart)
  finished {k name prettyName} hstart := by
    rcases List.mem_append.mp hstart with hstart | hstart
    · obtain ⟨components, hfinish⟩ := h.finished hstart
      exact ⟨components, List.mem_append_left _ hfinish⟩
    · obtain ⟨components, hfinish⟩ := h'.finished hstart
      exact ⟨components, List.mem_append_right _ hfinish⟩
  complete {k name prettyName components} hfinish := by
    rw [started_append, List.mem_append]
    rcases List.mem_append.mp hfinish with hfinish | hfinish
    · exact ⟨.inl (h.complete hfinish).1, h'.lookup (h.complete hfinish).2⟩
    · exact ⟨.inr (h'.complete hfinish).1, (h'.complete hfinish).2⟩
  frame {x} hx := by
    rw [h'.frame, h.frame]
    · exact fun name hname => hx name (by simp [hname])
    · exact fun name hname => hx name (by simp [hname])

end

end Enters

section Calls

variable {k : Aggr} {prettyName : Option String} {components : List DatatypeComponent}

/-- A call for a name that is in the table only leaves its event. -/
lemma enters_log_call (h : s.table.contains (aggrTag name) = true) :
    Enters s (s.log (.call k name)) [.call k name] where
  trace := rfl
  nodup := List.nodup_nil
  isNew h := by simp at h
  machineModel := rfl
  called {k' name'} hcall := by
    rw [List.mem_singleton, AggrEvent.call.injEq] at hcall
    rw [hcall.2]
    exact h
  calls h := by simp at h
  finished h := by simp at h
  complete h := by simp at h
  frame _ := rfl

/-- The name on the way is in the table, so its closure is not started again. -/
lemma ne_of_mem_started (h : StartsOnce (s.enter k name prettyName) s' events) {name' : String}
    (hname' : name' ∈ started events) :
    name' ≠ name ∧ s.table.lookup (aggrTag name') = none := by
  have hnone := h.isNew hname'
  have hne : name' ≠ name := by
    rintro rfl
    simp [AggrRun.lookup_enter_self] at hnone
  rw [AggrRun.lookup_enter_of_ne k prettyName s (aggrTag_injective.ne hne)] at hnone
  exact ⟨hne, hnone⟩

/-- The events of a new call up to those of its closure. -/
lemma StartsOnce.enter (hnew : s.table.lookup (aggrTag name) = none)
    (h : StartsOnce (s.enter k name prettyName) s' events) :
    StartsOnce s s' (.call k name :: .start k name prettyName :: events) where
  trace := by simp [h.trace, AggrRun.enter]
  nodup := by
    rw [started_call, started_start, List.nodup_cons]
    exact ⟨fun hname => (ne_of_mem_started h hname).1 rfl, h.nodup⟩
  isNew {name'} hname' := by
    rw [started_call, started_start, List.mem_cons] at hname'
    rcases hname' with rfl | hname'
    · exact hnew
    · exact (ne_of_mem_started h hname').2

lemma StartsOnce.log_finish {s₀ : AggrRun} (h : StartsOnce s₀ s events) :
    StartsOnce s₀ (s.log (.finish k name prettyName components))
      (events ++ [.finish k name prettyName components]) where
  trace := by simp [AggrRun.log, h.trace]
  nodup := by simpa using h.nodup
  isNew hname := h.isNew (by simpa using hname)

/-- The incomplete type is still in the table when the closure returns. -/
lemma Enters.lookup_enter (h : Enters (s.enter k name prettyName) s' events) :
    s'.table.lookup (aggrTag name) = some (Aggr.symbol name prettyName (k.incompleteTyp name)) :=
  h.lookup (s.lookup_enter_self k name prettyName)

lemma Enters.leave (hnew : s.table.lookup (aggrTag name) = none)
    (h : Enters (s.enter k name prettyName) s' events) :
    Enters s (s'.leave k name prettyName components)
      (.call k name :: .start k name prettyName ::
        (events ++ [.finish k name prettyName components])) where
  trace := by simp [AggrRun.leave, h.trace, AggrRun.enter]
  nodup := by simpa using (h.toStartsOnce.enter hnew).nodup
  isNew {name'} hname' := (h.toStartsOnce.enter hnew).isNew (by simpa using hname')
  machineModel := h.machineModel
  called {k' name'} hcall := by
    rw [SymbolTable.contains_iff]
    by_cases hname : name' = name
    · rw [hname]
      exact ⟨_, s'.lookup_leave_self k name prettyName components⟩
    · rw [AggrRun.lookup_leave_of_ne _ _ _ _ (aggrTag_injective.ne hname)]
      apply SymbolTable.contains_iff.mp
      apply h.called (k := k')
      simpa [hname] using hcall
  calls {k' name' prettyName'} hstart := by
    simp only [List.mem_cons, List.mem_append, reduceCtorEq, AggrEvent.start.injEq, false_or,
      List.not_mem_nil, or_false] at hstart
    rcases hstart with ⟨rfl, rfl, rfl⟩ | hstart
    · simp
    · simp [h.calls hstart]
  finished {k' name' prettyName'} hstart := by
    simp only [List.mem_cons, List.mem_append, reduceCtorEq, AggrEvent.start.injEq, false_or,
      List.not_mem_nil, or_false] at hstart
    rcases hstart with ⟨rfl, rfl, rfl⟩ | hstart
    · exact ⟨components, by simp⟩
    · obtain ⟨components', hfinish⟩ := h.finished hstart
      exact ⟨components', by simp [hfinish]⟩
  complete {k' name' prettyName' components'} hfinish := by
    simp only [List.mem_cons, List.mem_append, reduceCtorEq, AggrEvent.finish.injEq, false_or,
      List.not_mem_nil, or_false] at hfinish
    rcases hfinish with hfinish | ⟨rfl, rfl, rfl, rfl⟩
    · -- the inner aggregate has another name, so the outer one does not replace it
      obtain ⟨hstarted, hlookup⟩ := h.complete hfinish
      have hne := (ne_of_mem_started h.toStartsOnce hstarted).1
      rw [AggrRun.lookup_leave_of_ne _ _ _ _ (aggrTag_injective.ne hne)]
      exact ⟨by simp [hstarted], hlookup⟩
    · exact ⟨by simp, s'.lookup_leave_self _ _ _ _⟩
  frame {x} hx := by
    have hname : x ≠ aggrTag name := hx name (by simp)
    rw [AggrRun.lookup_leave_of_ne _ _ _ _ hname, h.frame, AggrRun.lookup_enter_of_ne _ _ _ hname]
    exact fun name' hname' => hx name' (by simp [hname'])

end Calls

/-! ### Every run -/

/-- Why a run was stopped. Only the caller can be the cause: a name that starts like a tag, or a
closure that returned two components of one name. -/
def Justifies (events : List AggrEvent) : AggrAssertion → Prop
  | .name => ∃ k name, AggrEvent.call k name ∈ events ∧ startsWithTag name = true
  | .symbol => ∃ k name prettyName components,
      AggrEvent.finish k name prettyName components ∈ events ∧
        ¬ (components.map DatatypeComponent.name).Nodup
  | .insertion => False
  | .completion => False

omit [Ranked String] in
lemma Justifies.mono (h : Justifies events a) (hsub : events ⊆ events') :
    Justifies events' a := by
  cases a with
  | name =>
    obtain ⟨k, name, hcall, htag⟩ := h
    exact ⟨k, name, hsub hcall, htag⟩
  | symbol =>
    obtain ⟨k, name, prettyName, components, hfinish, hdup⟩ := h
    exact ⟨k, name, prettyName, components, hsub hfinish, hdup⟩
  | insertion => exact h
  | completion => exact h

/-- How a run ends that began with `s`. When it returns, it has left the events `pre` first. -/
inductive Ends {α : Type} (s : AggrRun) (pre : List AggrEvent) :
    EStateM.Result AggrAssertion AggrRun α → Prop
  | ok {a : α} {s' : AggrRun} {events : List AggrEvent} (h : Enters s s' (pre ++ events)) :
      Ends s pre (.ok a s')
  | error {a : AggrAssertion} {s' : AggrRun} {events : List AggrEvent}
      (h : StartsOnce s s' events) (ha : Justifies events a) : Ends s pre (.error a s')

variable {f : String → AssertGen (List DatatypeComponent)}

namespace Ends

variable {α β : Type} {k : Aggr} {prettyName : Option String}

/-- One part of a run after the other. -/
lemma bind {x : AssertGen α} {f : α → AssertGen β} {pre : List AggrEvent} (hx : Ends s pre (x s))
    (hf : ∀ a s', Ends s' [] (f a s')) : Ends s [] ((x >>= f) s) := by
  cases hr : x s with
  | error a s' =>
    rw [AssertGen.bind_of_error hr]
    rw [hr] at hx
    cases hx with
    | error h ha => exact .error h ha
  | ok a s' =>
    rw [AssertGen.bind_of_ok hr]
    rw [hr] at hx
    obtain ⟨h⟩ := hx
    cases hr' : f a s' with
    | ok b s'' =>
      have hf' := hf a s'
      rw [hr'] at hf'
      obtain ⟨h'⟩ := hf'
      exact .ok (h.trans h')
    | error a' s'' =>
      have hf' := hf a s'
      rw [hr'] at hf'
      cases hf' with
      | error h' ha => exact .error (h.startsOnce_trans h') (ha.mono (List.subset_append_right _ _))

/-- The closure of a new name has run, with the incomplete type in the table. -/
lemma completeTraced (hnew : s.table.lookup (aggrTag name) = none)
    (h : Enters (s.enter k name prettyName) s' events) (components : List DatatypeComponent) :
    Ends s [.call k name] (completeTraced k name prettyName components s') := by
  by_cases hnodup : (components.map DatatypeComponent.name).Nodup
  · rw [completeTraced_of_nodup hnodup h.lookup_enter]
    exact .ok (h.leave hnew)
  · rw [completeTraced_of_not_nodup hnodup]
    refine .error (h.toStartsOnce.enter hnew).log_finish ?_
    exact ⟨k, name, prettyName, components, by simp, hnodup⟩

lemma ensureTraced (hf : ∀ s', Ends s' [] (f name s')) :
    Ends s [.call k name] (ensureTraced k name prettyName f s) := by
  rw [ensureTraced_eq]
  split_ifs with hname hcontains
  · have hstarts : StartsOnce s (s.log (.call k name)) [.call k name] :=
      ⟨rfl, List.nodup_nil, by simp⟩
    exact .error hstarts ⟨k, name, by simp, hname⟩
  · exact .ok (enters_log_call hcontains)
  rw [Bool.not_eq_true, SymbolTable.contains_eq_false_iff] at hcontains
  have hclosure := hf (s.enter k name prettyName)
  cases hr : f name (s.enter k name prettyName) with
  | ok components s' =>
    rw [hr] at hclosure
    rw [AssertGen.bind_of_ok hr]
    obtain ⟨h⟩ := hclosure
    exact .completeTraced hcontains h components
  | error a s' =>
    rw [hr] at hclosure
    rw [AssertGen.bind_of_error hr]
    cases hclosure with
    | error h ha =>
      refine .error (h.enter hcontains) (ha.mono ?_)
      exact fun e he => List.mem_cons_of_mem _ (List.mem_cons_of_mem _ he)

end Ends

/-- Whatever a closure calls, no insertion and no completion fails in it. -/
lemma AggrClosure.ends_run (c : AggrClosure) (s : AggrRun) : Ends s [] (c.run s) := by
  induction c generalizing s with
  | ret components => exact .ok (Enters.refl s)
  | look next ih => exact ih s.table s
  | ensure k name prettyName f next ihf ihnext =>
    apply Ends.bind
    · exact Ends.ensureTraced fun s' => ihf name s'
    · exact fun t s' => ihnext t s'

/-! ### The table alone -/

/-- What is left of a run without its trace. -/
def forget {α : Type} : EStateM.Result AggrAssertion AggrRun α → Option (α × SymbolTable)
  | .ok a s => some (a, s.table)
  | .error _ _ => none

section Forget

variable {α β : Type} {k : Aggr} {prettyName : Option String}

@[simp] lemma forget_ok (a : α) (s : AggrRun) :
    forget (EStateM.Result.ok (ε := AggrAssertion) a s) = some (a, s.table) := rfl

@[simp] lemma forget_error (a : AggrAssertion) (s : AggrRun) :
    forget (EStateM.Result.error (α := α) a s) = none := rfl

lemma forget_bind {x : AssertGen α} {f : α → AssertGen β} {g : α → Gen β}
    (hf : ∀ a s', forget (f a s') = g a s'.table) :
    forget ((x >>= f) s) = (forget (x s)).bind fun r => g r.1 r.2 := by
  cases hx : x s with
  | ok a s' =>
    rw [AssertGen.bind_of_ok hx, forget_ok, Option.bind_some]
    exact hf a s'
  | error a s' =>
    rw [AssertGen.bind_of_error hx, forget_error, forget_error, Option.bind_none]

lemma forget_completeTraced (components : List DatatypeComponent) :
    forget (completeTraced k name prettyName components s) = (do
      let st ← s.table.replaceWithCompletion (← k.complete name prettyName components)
      return (k.tag name, st)) := by
  cases hsym : k.complete name prettyName components with
  | none => simp [completeTraced, hsym]
  | some sym =>
    cases hst : s.table.replaceWithCompletion sym with
    | none => simp [completeTraced, hsym, AggrRun.log, hst]
    | some st =>
      simp only [completeTraced, AssertGen.modify_bind, hsym, AssertGen.assertSome_some_bind,
        AssertGen.get_bind, AggrRun.log, hst, AssertGen.pure_apply, forget_ok,
        some_bind, Option.pure_def]
      rfl

/-- The events and the names of the assertions aside, a call does what `ensureAggr` does. -/
lemma forget_ensureTraced {g : String → Gen (List DatatypeComponent)}
    (hf : ∀ s', forget (f name s') = g name s'.table) :
    forget (ensureTraced k name prettyName f s) = ensureAggr k name prettyName g s.table := by
  rw [ensureTraced_eq]
  split_ifs with hname hcontains
  · rw [ensureAggr_eq_none hname, forget_error]
  · simp [ensureAggr, hname, hcontains, AggrRun.log]
  · rw [forget_bind (g := fun components st => do
      let st' ← st.replaceWithCompletion (← k.complete name prettyName components)
      return (k.tag name, st')) (fun components s' => forget_completeTraced components), hf]
    have hinsert : s.table.insert (Aggr.symbol name prettyName (k.incompleteTyp name)) =
        some (s.table.set (Aggr.symbol name prettyName (k.incompleteTyp name))) :=
      SymbolTable.insert_eq_some.mpr
        ⟨SymbolTable.contains_eq_false_iff.mp (Bool.not_eq_true _ ▸ hcontains), rfl⟩
    simp [ensureAggr, hname, hcontains, k.incomplete_eq, hinsert, AggrRun.enter]

end Forget

lemma AggrClosure.forget_run (c : AggrClosure) (s : AggrRun) :
    forget (c.run s) = c.gen s.table := by
  induction c generalizing s with
  | ret components => rfl
  | look next ih => exact ih s.table s
  | ensure k name prettyName f next ihf ihnext =>
    rw [AggrClosure.run, forget_bind ihnext,
      forget_ensureTraced (g := fun name => (f name).gen) (ihf name)]
    rfl

/-! ### The outermost call -/

/-- A call on a table, with nothing on the way. -/
def ensureFrom (k : Aggr) (name : String) (prettyName : Option String) (f : String → AggrClosure)
    (st : SymbolTable) : EStateM.Result AggrAssertion AggrRun Typ :=
  ensureTraced k name prettyName (fun name => (f name).run) ⟨st, []⟩

/-- What the call leaves behind when it returns to a caller with the table `st`. -/
structure Settled (k : Aggr) (name : String) (st : SymbolTable) (s : AggrRun) : Prop where
  outermost : AggrEvent.call k name ∈ s.trace
  /-- The closure of every new name that was called for ran exactly once. -/
  once : ∀ {k name}, AggrEvent.call k name ∈ s.trace → st.lookup (aggrTag name) = none →
    (started s.trace).count name = 1
  /-- No closure ran but for a call, and none for a name that was in the table. -/
  isNew : ∀ {k name prettyName}, AggrEvent.start k name prettyName ∈ s.trace →
    AggrEvent.call k name ∈ s.trace ∧ st.lookup (aggrTag name) = none
  /-- A started closure returned, and the tag has the components that it returned. -/
  complete : ∀ {k name prettyName}, AggrEvent.start k name prettyName ∈ s.trace →
    ∃ components, s.table.lookup (aggrTag name) =
        some (Aggr.symbol name prettyName (k.completeTyp name components)) ∧
      ∀ k' prettyName' components',
        AggrEvent.finish k' name prettyName' components' ∈ s.trace ↔
          k' = k ∧ prettyName' = prettyName ∧ components' = components
  /-- Every new name that was called for is complete, as what it was called for. -/
  entered : ∀ {k name}, AggrEvent.call k name ∈ s.trace → st.lookup (aggrTag name) = none →
    ∃ k' prettyName components, AggrEvent.call k' name ∈ s.trace ∧
      s.table.lookup (aggrTag name) =
        some (Aggr.symbol name prettyName (k'.completeTyp name components))
  /-- Nothing else changed. -/
  frame : ∀ {x}, (∀ name ∈ started s.trace, x ≠ aggrTag name) → s.table.lookup x = st.lookup x
  machineModel : s.table.machineModel = st.machineModel

variable {k k' : Aggr} {components components' : List DatatypeComponent}
  {prettyName prettyName' : Option String}

omit [Ranked String] in
lemma Aggr.completeTyp_inj :
    k.completeTyp name components = k'.completeTyp name components' ↔
      k = k' ∧ components = components' := by
  cases k <;> cases k' <;> simp [Aggr.completeTyp]

omit [Ranked String] in
lemma Aggr.symbol_inj {t t' : Typ} :
    Aggr.symbol name prettyName t = Aggr.symbol name prettyName' t' ↔
      prettyName = prettyName' ∧ t = t' := by
  simp [Aggr.symbol, and_comm]

/-- Of a name only one closure returned. -/
lemma Enters.finish_unique (h : Enters s s' events)
    (hfinish : AggrEvent.finish k name prettyName components ∈ events)
    (hfinish' : AggrEvent.finish k' name prettyName' components' ∈ events) :
    k' = k ∧ prettyName' = prettyName ∧ components' = components := by
  have hsymbol := (h.complete hfinish').2.symm.trans (h.complete hfinish).2
  rw [Option.some.injEq, Aggr.symbol_inj, Aggr.completeTyp_inj] at hsymbol
  exact ⟨hsymbol.2.1, hsymbol.1, hsymbol.2.2⟩

/-- The closure of a new name that was called for was started. -/
lemma Enters.mem_started (h : Enters s s' events) (hcall : AggrEvent.call k name ∈ events)
    (hnew : s.table.lookup (aggrTag name) = none) : name ∈ started events := by
  by_contra hname
  have hframe : s'.table.lookup (aggrTag name) = s.table.lookup (aggrTag name) := by
    apply h.frame
    rintro name' hname' htag
    rw [aggrTag_injective htag] at hname
    exact hname hname'
  obtain ⟨sym, hsym⟩ := SymbolTable.contains_iff.mp (h.called hcall)
  simp [hframe, hnew] at hsym

lemma Enters.settled {st : SymbolTable} (h : Enters ⟨st, []⟩ s s.trace)
    (hcall : AggrEvent.call k name ∈ s.trace) : Settled k name st s where
  outermost := hcall
  once hcall hnew := List.count_eq_one_of_mem h.nodup (h.mem_started hcall hnew)
  isNew hstart := ⟨h.calls hstart, h.isNew (Codegen.mem_started.mpr ⟨_, _, hstart⟩)⟩
  complete {k name prettyName} hstart := by
    obtain ⟨components, hfinish⟩ := h.finished hstart
    refine ⟨components, (h.complete hfinish).2, fun k' prettyName' components' => ?_⟩
    constructor
    · exact h.finish_unique hfinish
    · rintro ⟨rfl, rfl, rfl⟩
      exact hfinish
  entered hcall hnew := by
    obtain ⟨k', prettyName, hstart⟩ := Codegen.mem_started.mp (h.mem_started hcall hnew)
    obtain ⟨components, hfinish⟩ := h.finished hstart
    exact ⟨k', prettyName, components, h.calls hstart, (h.complete hfinish).2⟩
  frame := h.frame
  machineModel := h.machineModel

section Outermost

variable (k : Aggr) (name : String) (prettyName : Option String) (f : String → AggrClosure)
  (st : SymbolTable)

lemma forget_ensureFrom : forget (ensureFrom k name prettyName f st) =
    ensureAggr k name prettyName (fun name => (f name).gen) st :=
  forget_ensureTraced (g := fun name => (f name).gen) fun s' => (f name).forget_run s'

/-- Aggregates can be entered inside the closures of others, for any names: no insertion and no
completion fails, every closure runs once, the tags that were called for are complete at the end,
and the table is the one that `ensureAggr` makes. -/
theorem ensureFrom_reentrant :
    forget (ensureFrom k name prettyName f st) =
        ensureAggr k name prettyName (fun name => (f name).gen) st ∧
      ((∃ s, ensureFrom k name prettyName f st = .ok (k.tag name) s ∧ Settled k name st s) ∨
      ∃ a s, ensureFrom k name prettyName f st = .error a s ∧
        a ≠ .insertion ∧ a ≠ .completion ∧ Justifies s.trace a ∧ (started s.trace).Nodup) := by
  have hends : Ends ⟨st, []⟩ [.call k name] (ensureFrom k name prettyName f st) :=
    Ends.ensureTraced (f name).ends_run
  have hforget := forget_ensureFrom k name prettyName f st
  refine ⟨hforget, ?_⟩
  cases hr : ensureFrom k name prettyName f st with
  | ok t s =>
    rw [hr] at hends hforget
    cases hends with
    | @ok _ _ events h =>
      obtain ⟨rfl, -⟩ := ensureAggr_eq_some hforget.symm
      have htrace : s.trace = [.call k name] ++ events := h.trace
      rw [← htrace] at h
      exact .inl ⟨s, rfl, h.settled (by simp [htrace])⟩
  | error a s =>
    rw [hr] at hends
    cases hends with
    | error h ha =>
      obtain rfl := h.trace
      refine .inr ⟨a, s, rfl, ?_, ?_, ha, h.nodup⟩
      · rintro rfl
        exact ha
      · rintro rfl
        exact ha

end Outermost

end Rmc.Codegen

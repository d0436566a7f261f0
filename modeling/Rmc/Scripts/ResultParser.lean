import Rmc.Lib.Checked

/-!
# The result messages

The messages that `cbmc_json_parser.py` prints for the results of the model checker: a terse one
with a summary and a regular one that lists every property. An exception that is not caught is
`none`. The keys of a property object are optional, as a `KeyError` is part of the control flow.

The two loops count differently. The terse one counts the properties with status `FAILURE`, the
regular one those whose status is not `SUCCESS`. With a third status, such as `UNKNOWN` or
`ERROR`, the terse message says that the verification was successful.
-/

namespace Rmc.Scripts

/-! ### Property objects -/

structure SourceLocation where
  file : Option String
  function : Option String
  line : Option String
  deriving DecidableEq, Repr

structure TraceStep where
  sourceLocation : Option SourceLocation
  deriving DecidableEq, Repr

/-- A property with its result. -/
structure Property where
  property : Option String
  status : Option String
  description : Option String
  trace : Option (List TraceStep)
  deriving DecidableEq, Repr

/-- The objects that the model checker writes: every key but the trace is there, and a trace has
steps. -/
structure Property.WellFormed (p : Property) : Prop where
  property : p.property.isSome = true
  status : p.status.isSome = true
  description : p.description.isSome = true
  trace : p.trace ≠ some []

/-- The keys that the loops read are there. -/
structure Property.Keyed (p : Property) : Prop where
  property : p.property.isSome = true
  status : p.status.isSome = true
  description : p.description.isSome = true

variable {p : Property}

lemma Property.WellFormed.keyed (h : p.WellFormed) : p.Keyed :=
  ⟨h.property, h.status, h.description⟩

/-! ### Text -/

/-- The codes of the terminal that `colorama` has: `Fore.GREEN`, `Fore.RED` and
`Style.RESET_ALL`. -/
structure Colors where
  green : String
  red : String
  resetAll : String

/-- The codes of ANSI terminals. -/
def Colors.ansi : Colors := ⟨"\x1b[32m", "\x1b[31m", "\x1b[0m"⟩

/-- The last line of a message. -/
def verdictLine (c : Colors) (successful : Bool) : String :=
  "\nVERIFICATION:- " ++ (if successful then c.green ++ "SUCCESSFUL" else c.red ++ "FAILED") ++
    c.resetAll ++ "\n"

/-- What a message is made of. -/
structure Report where
  numberTestsFailed : ℕ
  index : ℕ
  failures : String
  deriving DecidableEq, Repr

namespace Report

def summary (r : Report) : String :=
  " ** " ++ toString r.numberTestsFailed ++ " of " ++ toString (r.index + 1) ++ " failed\n"

def verdict (c : Colors) (r : Report) : String := verdictLine c (r.numberTestsFailed = 0)

end Report

/-! ### The failures -/

/-- The place of a failure: the source location of the last step of the trace. A missing key is a
`KeyError`, an empty trace an `IndexError`. -/
inductive Place where
  | found (file line function : String)
  | keyError
  | indexError

def SourceLocation.place (l : SourceLocation) : Place :=
  match l.file, l.function, l.line with
  | some file, some function, some line => .found file line function
  | _, _, _ => .keyError

def Property.place (p : Property) : Place :=
  match p.trace with
  | none => .keyError
  | some trace =>
    match trace.getLast? with
    | none => .indexError
    | some step =>
      match step.sourceLocation with
      | none => .keyError
      | some l => l.place

/-- The text for a failed property. Without a description the variable keeps the value it had. -/
def failureText (failureMessage : Option String) (p : Property) :
    Option (String × Option String) :=
  match p.description with
  | none => do return ("Failed Tests: " ++ (← failureMessage) ++ "\n", failureMessage)
  | some description =>
    match p.place with
    | .found file line function =>
      some ("Failed Tests: " ++ description ++ "\n File: \"" ++ file ++ "\", line " ++ line ++
        ", in " ++ function, some description)
    | .keyError => some ("Failed Tests: " ++ description ++ "\n", some description)
    | .indexError => none

/-- The loop over the failed properties. -/
def failureTexts (failureMessage : Option String) : List Property → Option String
  | [] => some ""
  | p :: ps => do
    let (text, failureMessage) ← failureText failureMessage p
    return text ++ (← failureTexts failureMessage ps)

/-- The failures are only listed when there are some. -/
def failuresOf (numberTestsFailed : ℕ) (failedTests : List Property) : Option String :=
  if numberTestsFailed = 0 then some "" else failureTexts none failedTests

/-! ### The terse message -/

/-- The counter and the list of a loop over the properties. -/
structure Failed where
  numberTestsFailed : ℕ
  failedTests : List Property

def Failed.add (f : Failed) (p : Property) : Failed :=
  { numberTestsFailed := f.numberTestsFailed + 1, failedTests := f.failedTests ++ [p] }

def terseStep (f : Failed) (p : Property) : Option Failed := do
  let status ← p.status
  if status = "FAILURE" then return f.add p else return f

def terseReport (properties : List Property) : Option Report := do
  let f ← properties.foldlM terseStep ⟨0, []⟩
  return { numberTestsFailed := f.numberTestsFailed, index := properties.length - 1,
           failures := ← failuresOf f.numberTestsFailed f.failedTests }

def Report.terse (c : Colors) (r : Report) : String :=
  "VERIFICATION RESULT: \n" ++ r.summary ++ r.failures ++ r.verdict c

def constructTersePropertyMessage (c : Colors) (properties : List Property) : Option String :=
  (terseReport properties).map (Report.terse c)

/-! ### The regular message -/

/-- The variables of the loop, which keep their values when a key is missing. -/
structure Regular where
  name : Option String
  status : Option String
  description : Option String
  failed : Failed
  checks : String

/-- The assignments from the keys, up to the first one that is missing. -/
def Regular.read (s : Regular) (p : Property) : Regular :=
  match p.property with
  | none => s
  | some name =>
    match p.status with
    | none => { s with name := some name }
    | some status =>
      match p.description with
      | none => { s with name := some name, status := some status }
      | some description =>
        { s with name := some name, status := some status, description := some description }

def checkText (index : ℕ) (name message description : String) : String :=
  "Check " ++ toString (index + 1) ++ ": " ++ name ++ "\n\t - Status: " ++ message ++
    "\n\t - Description: \"" ++ description ++ "\"\n\n"

def regularStep (c : Colors) (s : Regular) (p : Property × ℕ) : Option Regular := do
  let s := s.read p.1
  let status ← s.status
  let name ← s.name
  let description ← s.description
  if status = "SUCCESS" then
    let message := c.green ++ status ++ c.resetAll
    return { s with checks := s.checks ++ checkText p.2 name message description }
  else
    let message := c.red ++ status ++ c.resetAll
    return { s with failed := s.failed.add p.1,
                    checks := s.checks ++ checkText p.2 name message description }

def regularLoop (c : Colors) (properties : List Property) : Option Regular :=
  properties.zipIdx.foldlM (regularStep c) ⟨none, none, none, ⟨0, []⟩, ""⟩

def regularReport (c : Colors) (properties : List Property) : Option (String × Report) := do
  let s ← regularLoop c properties
  return (s.checks,
    { numberTestsFailed := s.failed.numberTestsFailed, index := properties.length - 1,
      failures := ← failuresOf s.failed.numberTestsFailed s.failed.failedTests })

def Report.regular (c : Colors) (r : Report) (checks : String) : String :=
  "RESULT:\n" ++ checks ++ "\nSUMMARY: \n" ++ r.summary ++ r.failures ++ r.verdict c

def constructPropertyMessage (c : Colors) (properties : List Property) : Option String :=
  (regularReport c properties).map fun (checks, r) => r.regular c checks

/-! ### What the messages say -/

/-- A message whose last line says that the verification was successful. -/
def PrintsSuccessful (c : Colors) (message : String) : Prop :=
  (verdictLine c true).toList <:+ message.toList

section

variable (c : Colors)

/-- The two verdicts end in different letters before the code at the end. -/
lemma exists_toList_verdictLine (successful : Bool) :
    ∃ start, (verdictLine c successful).toList =
      (start ++ [if successful then 'L' else 'D']) ++ (c.resetAll ++ "\n").toList := by
  have hsuccessful : "SUCCESSFUL" = "SUCCESSFU" ++ "L" := by decide +kernel
  have hfailed : "FAILED" = "FAILE" ++ "D" := by decide +kernel
  unfold verdictLine
  -- literals are slow to compare
  generalize "\nVERIFICATION:- " = label
  cases successful with
  | true =>
    refine ⟨(label ++ c.green ++ "SUCCESSFU").toList, ?_⟩
    rw [if_pos rfl, if_pos rfl, hsuccessful]
    generalize "SUCCESSFU" = word
    simp [String.toList_append]
  | false =>
    refine ⟨(label ++ c.red ++ "FAILE").toList, ?_⟩
    rw [if_neg (by decide), if_neg (by decide), hfailed]
    generalize "FAILE" = word
    simp [String.toList_append]

/-- A text that ends in a verdict ends in no other one. -/
lemma printsSuccessful_append_verdictLine (text : String) (successful : Bool) :
    PrintsSuccessful c (text ++ verdictLine c successful) ↔ successful = true := by
  rw [PrintsSuccessful, String.toList_append]
  cases successful with
  | true => simp
  | false =>
    obtain ⟨start, hstart⟩ := exists_toList_verdictLine c true
    obtain ⟨start', hstart'⟩ := exists_toList_verdictLine c false
    rw [hstart, hstart', ← List.append_assoc, ← List.append_assoc]
    generalize (c.resetAll ++ "\n").toList = code
    simp only [Bool.false_eq_true, if_true, if_false, iff_false]
    rintro ⟨before, h⟩
    rw [← List.append_assoc, ← List.append_assoc] at h
    have hlast := (List.append_inj' (List.append_cancel_right h) rfl).2
    exact absurd hlast (by decide)

lemma printsSuccessful_append_verdict (text : String) (r : Report) :
    PrintsSuccessful c (text ++ r.verdict c) ↔ r.numberTestsFailed = 0 := by
  unfold Report.verdict
  exact (printsSuccessful_append_verdictLine c text _).trans decide_eq_true_iff

lemma printsSuccessful_terse (r : Report) :
    PrintsSuccessful c (r.terse c) ↔ r.numberTestsFailed = 0 := by
  unfold Report.terse
  exact printsSuccessful_append_verdict c _ r

lemma printsSuccessful_regular (r : Report) (checks : String) :
    PrintsSuccessful c (r.regular c checks) ↔ r.numberTestsFailed = 0 := by
  unfold Report.regular
  exact printsSuccessful_append_verdict c _ r

end

/-! ### The loops -/

section

variable {properties : List Property} (c : Colors)

/-- Only an empty trace has no last step. -/
lemma Property.place_eq_indexError : p.place = .indexError ↔ p.trace = some [] := by
  constructor
  · intro hindex
    unfold place at hindex
    split at hindex
    · cases hindex
    · rename_i trace htrace
      by_cases hnil : trace = []
      · rw [htrace, hnil]
      · rw [List.getLast?_eq_some_getLast hnil] at hindex
        dsimp only at hindex
        split at hindex
        · cases hindex
        · unfold SourceLocation.place at hindex
          split at hindex <;> cases hindex
  · intro htrace
    simp [place, htrace]

/-- The text of a failure is there unless its trace is empty. -/
lemma exists_failureText (h : p.Keyed) (failureMessage : Option String)
    (htrace : p.trace ≠ some []) :
    ∃ text message, failureText failureMessage p = some (text, message) := by
  obtain ⟨description, hdescription⟩ := Option.isSome_iff_exists.mp h.description
  rw [failureText, hdescription]
  cases hp : p.place with
  | found file line function => exact ⟨_, _, rfl⟩
  | keyError => exact ⟨_, _, rfl⟩
  | indexError => exact absurd (Property.place_eq_indexError.mp hp) htrace

lemma failureText_eq_none (h : p.Keyed) (failureMessage : Option String)
    (htrace : p.trace = some []) :
    failureText failureMessage p = none := by
  obtain ⟨description, hdescription⟩ := Option.isSome_iff_exists.mp h.description
  simp only [failureText, hdescription, Property.place_eq_indexError.mpr htrace]

/-- The failures are listed without an exception exactly when no trace is empty. -/
lemma exists_failureTexts_iff (h : ∀ p ∈ properties, p.Keyed) (failureMessage : Option String) :
    (∃ text, failureTexts failureMessage properties = some text) ↔
      ∀ p ∈ properties, p.trace ≠ some [] := by
  induction properties generalizing failureMessage with
  | nil => simp [failureTexts]
  | cons p properties ih =>
    rw [List.forall_mem_cons] at h ⊢
    by_cases htrace : p.trace = some []
    · simp [failureTexts, failureText_eq_none h.1 failureMessage htrace, htrace]
    · obtain ⟨text, message, htext⟩ := exists_failureText h.1 failureMessage htrace
      rw [← ih h.2 message]
      simp [failureTexts, htext, htrace, Option.bind_eq_some_iff]

/-- The terse loop counts the properties with status `FAILURE`. -/
lemma foldlM_terseStep (h : ∀ p ∈ properties, p.Keyed) (f : Failed) :
    properties.foldlM terseStep f =
      some { numberTestsFailed :=
               f.numberTestsFailed + properties.countP (·.status = some "FAILURE"),
             failedTests := f.failedTests ++ properties.filter (·.status = some "FAILURE") } := by
  induction properties generalizing f with
  | nil => simp
  | cons p properties ih =>
    rw [List.forall_mem_cons] at h
    obtain ⟨status, hstatus⟩ := Option.isSome_iff_exists.mp h.1.status
    rw [List.foldlM_cons, List.countP_cons, List.filter_cons]
    by_cases hfailure : status = "FAILURE"
    · simp [terseStep, hstatus, hfailure, ih h.2, Failed.add, Nat.add_assoc, Nat.add_comm 1]
    · simp [terseStep, hstatus, hfailure, ih h.2]

lemma Regular.read_of_keyed (h : p.Keyed) (s : Regular) :
    s.read p = { s with name := p.property, status := p.status, description := p.description } := by
  obtain ⟨name, hname⟩ := Option.isSome_iff_exists.mp h.property
  obtain ⟨status, hstatus⟩ := Option.isSome_iff_exists.mp h.status
  obtain ⟨description, hdescription⟩ := Option.isSome_iff_exists.mp h.description
  simp [Regular.read, hname, hstatus, hdescription]

/-- One round of the regular loop counts the property unless its status is `SUCCESS`. -/
lemma exists_regularStep (h : p.Keyed) (s : Regular) (index : ℕ) :
    ∃ s', regularStep c s (p, index) = some s' ∧
      s'.failed = if p.status = some "SUCCESS" then s.failed else s.failed.add p := by
  obtain ⟨name, hname⟩ := Option.isSome_iff_exists.mp h.property
  obtain ⟨status, hstatus⟩ := Option.isSome_iff_exists.mp h.status
  obtain ⟨description, hdescription⟩ := Option.isSome_iff_exists.mp h.description
  by_cases hsuccess : status = "SUCCESS"
  · exact ⟨_, by simp [regularStep, Regular.read_of_keyed h, hname, hstatus, hdescription,
      hsuccess]; rfl, by simp [hstatus, hsuccess]⟩
  · exact ⟨_, by simp [regularStep, Regular.read_of_keyed h, hname, hstatus, hdescription,
      hsuccess]; rfl, by simp [hstatus, hsuccess]⟩

/-- The regular loop counts the properties whose status is not `SUCCESS`. -/
lemma exists_foldlM_regularStep (h : ∀ p ∈ properties, p.Keyed) (s : Regular) (start : ℕ) :
    ∃ s', (properties.zipIdx start).foldlM (regularStep c) s = some s' ∧
      s'.failed =
        { numberTestsFailed :=
            s.failed.numberTestsFailed + properties.countP (·.status ≠ some "SUCCESS"),
          failedTests :=
            s.failed.failedTests ++ properties.filter (·.status ≠ some "SUCCESS") } := by
  induction properties generalizing s start with
  | nil => exact ⟨s, by simp, by simp⟩
  | cons p properties ih =>
    rw [List.forall_mem_cons] at h
    obtain ⟨s₁, hs₁, hfailed₁⟩ := exists_regularStep c h.1 s start
    obtain ⟨s', hs', hfailed'⟩ := ih h.2 s₁ (start + 1)
    refine ⟨s', by simp [hs₁, hs'], ?_⟩
    rw [hfailed', hfailed₁, List.countP_cons, List.filter_cons]
    by_cases hsuccess : p.status = some "SUCCESS"
    · simp [hsuccess]
    · simp [hsuccess, Failed.add, Nat.add_assoc, Nat.add_comm 1]

/-! ### The reports -/

/-- The test for a failure only skips a loop over no failures. -/
lemma failuresOf_length (failedTests : List Property) :
    failuresOf failedTests.length failedTests = failureTexts none failedTests := by
  cases failedTests with
  | nil => rfl
  | cons p failedTests => simp [failuresOf]

lemma terseReport_eq (h : ∀ p ∈ properties, p.Keyed) :
    terseReport properties =
      (failureTexts none (properties.filter (·.status = some "FAILURE"))).map fun text =>
        { numberTestsFailed := properties.countP (·.status = some "FAILURE"),
          index := properties.length - 1, failures := text } := by
  simp only [terseReport, foldlM_terseStep h, some_bind, Nat.zero_add,
    List.nil_append, List.countP_eq_length_filter, failuresOf_length, Option.map_eq_bind]
  rfl

lemma exists_regularReport_eq (h : ∀ p ∈ properties, p.Keyed) :
    ∃ checks, regularReport c properties =
      (failureTexts none (properties.filter (·.status ≠ some "SUCCESS"))).map fun text =>
        (checks, { numberTestsFailed := properties.countP (·.status ≠ some "SUCCESS"),
                   index := properties.length - 1, failures := text }) := by
  obtain ⟨s, hs, hfailed⟩ := exists_foldlM_regularStep c h ⟨none, none, none, ⟨0, []⟩, ""⟩ 0
  rw [Nat.zero_add, List.nil_append] at hfailed
  refine ⟨s.checks, ?_⟩
  simp only [regularReport, regularLoop, hs, some_bind, hfailed,
    List.countP_eq_length_filter, failuresOf_length, Option.map_eq_bind]
  rfl

/-! ### The verdicts -/

/-- A message is printed, and says successful exactly when every property has status `SUCCESS`. -/
def SoundVerdict (properties : List Property) (message : Option String) : Prop :=
  ∃ text, message = some text ∧
    (PrintsSuccessful c text ↔ ∀ p ∈ properties, p.status = some "SUCCESS")

/-- Both messages are sound, and the reports that they are made of have the same number of failed
properties. -/
def SameSoundVerdict (properties : List Property) : Prop :=
  SoundVerdict c properties (constructTersePropertyMessage c properties) ∧
    SoundVerdict c properties (constructPropertyMessage c properties) ∧
    ∃ terse checks regular, terseReport properties = some terse ∧
      regularReport c properties = some (checks, regular) ∧
      terse.numberTestsFailed = regular.numberTestsFailed

section

variable (h : ∀ p ∈ properties, p.WellFormed)

include h

/-- No failure of well formed properties ends in an exception. -/
lemma exists_failureTexts_filter (f : Property → Bool) :
    ∃ text, failureTexts none (properties.filter f) = some text := by
  have hfailed : ∀ p ∈ properties.filter f, p.WellFormed :=
    fun p hp => h p (List.mem_of_mem_filter hp)
  exact (exists_failureTexts_iff (fun p hp => (hfailed p hp).keyed) none).mpr
    fun p hp => (hfailed p hp).trace

lemma exists_terseReport :
    ∃ r, terseReport properties = some r ∧
      r.numberTestsFailed = properties.countP (·.status = some "FAILURE") := by
  obtain ⟨text, htext⟩ := exists_failureTexts_filter h (·.status = some "FAILURE")
  rw [terseReport_eq fun p hp => (h p hp).keyed, htext]
  exact ⟨_, rfl, rfl⟩

lemma exists_regularReport :
    ∃ checks r, regularReport c properties = some (checks, r) ∧
      r.numberTestsFailed = properties.countP (·.status ≠ some "SUCCESS") := by
  obtain ⟨text, htext⟩ := exists_failureTexts_filter h (·.status ≠ some "SUCCESS")
  obtain ⟨checks, hreport⟩ := exists_regularReport_eq c fun p hp => (h p hp).keyed
  rw [htext] at hreport
  exact ⟨checks, _, hreport, rfl⟩

end

/-- Nothing but `SUCCESS` and `FAILURE` makes the two counts the same. -/
lemma countP_failure_eq_iff :
    properties.countP (·.status = some "FAILURE") = properties.countP (·.status ≠ some "SUCCESS") ↔
      ∀ p ∈ properties, p.status = some "SUCCESS" ∨ p.status = some "FAILURE" := by
  induction properties with
  | nil => simp
  | cons p properties ih =>
    have hle : properties.countP (·.status = some "FAILURE") ≤
        properties.countP (·.status ≠ some "SUCCESS") :=
      List.countP_mono_left fun q _ hq => by simp_all
    rw [List.forall_mem_cons, List.countP_cons, List.countP_cons, ← ih]
    by_cases hsuccess : p.status = some "SUCCESS"
    · simp [hsuccess]
    · by_cases hfailure : p.status = some "FAILURE"
      · simp [hfailure]
      · simp only [hsuccess, hfailure, ne_eq, not_false_eq_true, decide_true, decide_false,
          Bool.false_eq_true, if_true, if_false, false_or, false_and, iff_false]
        simp only [ne_eq] at hle
        omega

/-- The two messages agree and are sound exactly on the results that only have the statuses
`SUCCESS` and `FAILURE`. -/
theorem sameSoundVerdict_iff (h : ∀ p ∈ properties, p.WellFormed) :
    SameSoundVerdict c properties ↔
      ∀ p ∈ properties, p.status = some "SUCCESS" ∨ p.status = some "FAILURE" := by
  obtain ⟨terse, hterse, hterseFailed⟩ := exists_terseReport h
  obtain ⟨checks, regular, hregular, hregularFailed⟩ := exists_regularReport c h
  have hsuccess : regular.numberTestsFailed = 0 ↔
      ∀ p ∈ properties, p.status = some "SUCCESS" := by
    rw [hregularFailed, List.countP_eq_zero]
    simp
  rw [← countP_failure_eq_iff, ← hterseFailed, ← hregularFailed]
  constructor
  · rintro ⟨-, -, terse', checks', regular', hterse', hregular', hsame⟩
    obtain rfl := Option.some.inj (hterse.symm.trans hterse')
    obtain ⟨rfl, rfl⟩ := Prod.mk.inj (Option.some.inj (hregular.symm.trans hregular'))
    exact hsame
  · intro hsame
    refine ⟨⟨terse.terse c, by simp [constructTersePropertyMessage, hterse], ?_⟩,
      ⟨regular.regular c checks, by simp [constructPropertyMessage, hregular], ?_⟩,
      terse, checks, regular, hterse, hregular, hsame⟩
    · rw [printsSuccessful_terse, hsame, hsuccess]
    · rw [printsSuccessful_regular, hsuccess]

theorem sameSoundVerdict_success_failure :
    SameSoundVerdict .ansi
      [⟨some "main.assertion.1", some "SUCCESS", some "assertion", none⟩,
       ⟨some "main.assertion.2", some "FAILURE", some "assertion", some [⟨none⟩]⟩] := by
  refine (sameSoundVerdict_iff _ ?_).mpr (by decide)
  intro p hp
  simp only [List.mem_cons, List.not_mem_nil, or_false] at hp
  rcases hp with rfl | rfl <;> exact ⟨rfl, rfl, rfl, by simp⟩

/-- A property of unknown status is verified according to the terse message. -/
theorem not_sameSoundVerdict_unknown :
    let properties : List Property :=
      [⟨some "main.assertion.1", some "UNKNOWN", some "assertion", none⟩]
    ¬ SameSoundVerdict .ansi properties ∧
      ∃ message, constructTersePropertyMessage .ansi properties = some message ∧
        PrintsSuccessful .ansi message := by
  intro properties
  have hterse : constructTersePropertyMessage .ansi properties =
      some (Report.terse .ansi ⟨0, 0, ""⟩) := by
    simp [constructTersePropertyMessage, show terseReport properties = some ⟨0, 0, ""⟩ by decide]
  have hprints := (printsSuccessful_terse .ansi ⟨0, 0, ""⟩).mpr rfl
  refine ⟨?_, _, hterse, hprints⟩
  rintro ⟨⟨_, hterse', hsound⟩, -, -⟩
  obtain rfl := Option.some.inj (hterse.symm.trans hterse')
  exact absurd (hsound.mp hprints) (by decide)

end

end Rmc.Scripts

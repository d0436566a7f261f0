import Rmc.Lib.Numeral
import Rmc.Scripts.ResultParser

/-!
# From the response to the summary

`transform_cbmc_output` takes the results out of the response of the model checker and gives them to
one of the two message builders. The loop over the response keeps the list of the last result object
only, and without one it leaves `None`, over which the builders cannot iterate. The builders print
the last index of their loop plus one as the number of properties, which is one for an empty list.
-/

namespace Rmc.Scripts

/-! ### The response -/

/-- An object of the response with the keys that are read. -/
structure ResponseObject where
  result : Option (List Property)
  program : Option String
  messageText : Option String
  deriving DecidableEq, Repr

inductive OutputStyle where
  | regular
  | terse
  | old
  deriving DecidableEq, Repr

/-- One round of the loop over the response. -/
def extractStep (s : Option (List Property) × List ResponseObject) (o : ResponseObject) :
    Option (List Property) × List ResponseObject :=
  match o.result with
  | some result => (some result, s.2)
  | none => (s.1, s.2 ++ [o])

def extractSolverInformation (response : List ResponseObject) :
    Option (List Property) × List ResponseObject :=
  response.foldl extractStep (none, [])

def constTraceMessage : String := "Building error trace"

/-- The loop stops at the message that an error trace is built. -/
def constructSolverInformationMessage : List ResponseObject → String
  | [] => ""
  | o :: os =>
    match o.program, o.messageText with
    | some program, _ => program ++ "\n" ++ constructSolverInformationMessage os
    | none, some messageText =>
      if messageText ≠ constTraceMessage then
        messageText ++ "\n" ++ constructSolverInformationMessage os
      else "\n"
    | none, none => "\n" ++ constructSolverInformationMessage os

/-- What is printed for a response. To iterate over `None` is a `TypeError`. -/
def transformCbmcOutput (c : Colors) (response : List ResponseObject) (outputStyle : OutputStyle) :
    Option String :=
  let (properties, solverInformation) := extractSolverInformation response
  match outputStyle with
  | .regular => do
    let message ← constructPropertyMessage c (← properties)
    return constructSolverInformationMessage solverInformation ++ message
  | .terse => do constructTersePropertyMessage c (← properties)
  | .old => some ""

/-! ### Complete summaries -/

/-- The lists of the result objects. -/
def results (response : List ResponseObject) : List (List Property) :=
  response.filterMap ResponseObject.result

/-- The line that says how many properties of how many failed. -/
def summaryLine (failed total : ℕ) : String :=
  " ** " ++ toString failed ++ " of " ++ toString total ++ " failed\n"

/-- Both messages are printed, and the summaries in them have the number of the properties of all
result objects and the number of those that the builder counts as failed. -/
def SummaryComplete (c : Colors) (response : List ResponseObject) : Prop :=
  ∃ terse checks regular,
    (extractSolverInformation response).1.bind terseReport = some terse ∧
    (extractSolverInformation response).1.bind (regularReport c) = some (checks, regular) ∧
    transformCbmcOutput c response .terse = some (Report.terse c terse) ∧
    transformCbmcOutput c response .regular =
      some (constructSolverInformationMessage (extractSolverInformation response).2 ++
        Report.regular c regular checks) ∧
    terse.summary = summaryLine ((results response).flatten.countP (·.status = some "FAILURE"))
      (results response).flatten.length ∧
    regular.summary = summaryLine ((results response).flatten.countP (·.status ≠ some "SUCCESS"))
      (results response).flatten.length

section Output

variable {c : Colors} {response : List ResponseObject} {r : Report} {checks : String}

lemma transformCbmcOutput_terse
    (h : (extractSolverInformation response).1.bind terseReport = some r) :
    transformCbmcOutput c response .terse = some (r.terse c) := by
  obtain ⟨properties, hproperties, hreport⟩ := bind_eq_some.mp h
  simp [transformCbmcOutput, hproperties, constructTersePropertyMessage, hreport]

lemma transformCbmcOutput_regular
    (h : (extractSolverInformation response).1.bind (regularReport c) = some (checks, r)) :
    transformCbmcOutput c response .regular =
      some (constructSolverInformationMessage (extractSolverInformation response).2 ++
        r.regular c checks) := by
  obtain ⟨properties, hproperties, hreport⟩ := bind_eq_some.mp h
  simp [transformCbmcOutput, hproperties, constructPropertyMessage, hreport]

end Output

/-! ### What is extracted -/

lemma foldl_extractStep_fst (response : List ResponseObject)
    (s : Option (List Property) × List ResponseObject) :
    (response.foldl extractStep s).1 = (results response).getLast?.or s.1 := by
  induction response generalizing s with
  | nil => rfl
  | cons o response ih =>
    rw [List.foldl_cons, ih, extractStep]
    cases hresult : o.result with
    | none => rw [results, results, List.filterMap_cons_none hresult]
    | some result =>
      rw [results, results, List.filterMap_cons_some hresult, List.getLast?_cons]
      cases (response.filterMap ResponseObject.result).getLast? <;> rfl

/-- Only the last result object counts. -/
lemma extractSolverInformation_fst (response : List ResponseObject) :
    (extractSolverInformation response).1 = (results response).getLast? := by
  rw [extractSolverInformation, foldl_extractStep_fst, Option.or_none]

/-! ### The numbers of a summary -/

variable {f t f' : ℕ}

lemma summaryLine_inj {t' : ℕ} : summaryLine f t = summaryLine f' t' ↔ f = f' ∧ t = t' := by
  constructor
  · intro h
    have hchars := congrArg String.toList h
    simp only [summaryLine, String.toList_append, Nat.toString_eq_repr, Nat.toList_repr,
      List.append_assoc, List.append_cancel_left_eq] at hchars
    obtain ⟨hfailed, hrest⟩ := Numeral.toDigits_append_inj (by simp) (by simp) hchars
    rw [List.append_cancel_left_eq] at hrest
    exact ⟨hfailed, (Numeral.toDigits_append_inj (by simp) (by simp) hrest).1⟩
  · rintro ⟨rfl, rfl⟩
    rfl

lemma Report.summary_eq_iff {r : Report} :
    r.summary = summaryLine f t ↔ r.numberTestsFailed = f ∧ r.index + 1 = t :=
  summaryLine_inj

/-- The numbers of the last list are those of all lists when it has all properties, or when it is
empty and there is one property, which succeeded: the summary of an empty list has a property
too. -/
lemma counts_eq_iff (before last : List Property) :
    (last.countP (·.status = some "FAILURE") =
        (before ++ last).countP (·.status = some "FAILURE") ∧
      last.countP (·.status ≠ some "SUCCESS") =
        (before ++ last).countP (·.status ≠ some "SUCCESS") ∧
      last.length - 1 + 1 = (before ++ last).length) ↔
      (last ≠ [] ∧ before = []) ∨ (last = [] ∧ ∃ p, before = [p] ∧ p.status = some "SUCCESS") := by
  rw [List.countP_append, List.countP_append, List.length_append]
  by_cases hlast : last = []
  · subst hlast
    simp only [List.countP_nil, List.length_nil, Nat.add_zero, Nat.zero_sub, Nat.zero_add,
      ne_eq, not_true_eq_false, false_and, true_and, false_or]
    constructor
    · rintro ⟨-, hfailed, hlength⟩
      obtain ⟨p, rfl⟩ := List.length_eq_one_iff.mp hlength.symm
      refine ⟨p, rfl, ?_⟩
      by_contra hstatus
      simp [hstatus] at hfailed
    · rintro ⟨p, rfl, hstatus⟩
      simp [hstatus]
  · have hpos : 0 < last.length := List.length_pos_iff.mpr hlast
    simp only [hlast, ne_eq, not_false_eq_true, true_and, false_and, or_false]
    constructor
    · rintro ⟨-, -, hlength⟩
      exact List.length_eq_zero_iff.mp (by omega)
    · rintro rfl
      refine ⟨by simp, by simp, ?_⟩
      simp only [List.length_nil]
      omega

/-! ### When a summary is complete -/

section

variable {response : List ResponseObject} (c : Colors)

/-- The builders return for a list exactly when no property that the regular one counts as failed
has an empty trace; the terse one counts no others. -/
lemma exists_reports_iff {last : List Property} (h : ∀ p ∈ last, p.Keyed) :
    (∃ terse checks regular, terseReport last = some terse ∧
      regularReport c last = some (checks, regular) ∧
      terse.summary = summaryLine f t ∧ regular.summary = summaryLine f' t) ↔
      (last.countP (·.status = some "FAILURE") = f ∧
        last.countP (·.status ≠ some "SUCCESS") = f' ∧ last.length - 1 + 1 = t) ∧
        ∀ p ∈ last, p.status ≠ some "SUCCESS" → p.trace ≠ some [] := by
  obtain ⟨checks, hregular⟩ := exists_regularReport_eq c h
  have hterse := terseReport_eq h
  have htraces : (∃ text, failureTexts none (last.filter (·.status ≠ some "SUCCESS")) = some text) ↔
      ∀ p ∈ last, p.status ≠ some "SUCCESS" → p.trace ≠ some [] := by
    rw [exists_failureTexts_iff fun p hp => h p (List.mem_of_mem_filter hp)]
    simp only [List.mem_filter, decide_eq_true_eq, and_imp]
  rw [← htraces]
  constructor
  · rintro ⟨terse, checks', regular, hterse', hregular', hsummary, hsummary'⟩
    rw [hterse, Option.map_eq_some_iff] at hterse'
    rw [hregular, Option.map_eq_some_iff] at hregular'
    obtain ⟨_, -, rfl⟩ := hterse'
    obtain ⟨text, htext, hregular'⟩ := hregular'
    obtain ⟨-, rfl⟩ := Prod.mk.inj hregular'
    obtain ⟨hf, ht⟩ := Report.summary_eq_iff.mp hsummary
    obtain ⟨hf', -⟩ := Report.summary_eq_iff.mp hsummary'
    exact ⟨⟨hf, hf', ht⟩, text, htext⟩
  · rintro ⟨⟨hf, hf', ht⟩, text, htext⟩
    obtain ⟨text', htext'⟩ : ∃ text',
        failureTexts none (last.filter (·.status = some "FAILURE")) = some text' := by
      rw [exists_failureTexts_iff fun p hp => h p (List.mem_of_mem_filter hp)]
      intro p hp
      rw [List.mem_filter, decide_eq_true_eq] at hp
      apply htraces.mp ⟨text, htext⟩ p hp.1
      rw [hp.2]
      decide
    rw [htext, Option.map_some] at hregular
    rw [htext', Option.map_some] at hterse
    exact ⟨_, _, _, hterse, hregular, Report.summary_eq_iff.mpr ⟨hf, ht⟩,
      Report.summary_eq_iff.mpr ⟨hf', ht⟩⟩

/-- The summary of a response is complete exactly when there is a result object, the last one has
all properties (or is empty where a single property succeeded), and every property in it that did
not succeed has no trace or one with steps. -/
theorem summaryComplete_iff (h : ∀ result ∈ results response, ∀ p ∈ result, p.Keyed) :
    SummaryComplete c response ↔
      ∃ before last, results response = before ++ [last] ∧
        ((last ≠ [] ∧ before.flatten = []) ∨
          (last = [] ∧ ∃ p, before.flatten = [p] ∧ p.status = some "SUCCESS")) ∧
        ∀ p ∈ last, p.status ≠ some "SUCCESS" → p.trace ≠ some [] := by
  -- what is printed follows from the reports
  have hprinted : SummaryComplete c response ↔ ∃ terse checks regular,
      (extractSolverInformation response).1.bind terseReport = some terse ∧
      (extractSolverInformation response).1.bind (regularReport c) = some (checks, regular) ∧
      terse.summary = summaryLine ((results response).flatten.countP (·.status = some "FAILURE"))
        (results response).flatten.length ∧
      regular.summary = summaryLine ((results response).flatten.countP (·.status ≠ some "SUCCESS"))
        (results response).flatten.length :=
    ⟨fun ⟨terse, checks, regular, ht, hr, _, _, hs⟩ => ⟨terse, checks, regular, ht, hr, hs⟩,
      fun ⟨terse, checks, regular, ht, hr, hs⟩ => ⟨terse, checks, regular, ht, hr,
        transformCbmcOutput_terse ht, transformCbmcOutput_regular hr, hs⟩⟩
  rw [hprinted, extractSolverInformation_fst]
  obtain hnil | ⟨before, last, hresults⟩ := List.eq_nil_or_concat (results response)
  · -- no result object: the builders iterate over `None`
    simp [hnil]
  · rw [List.concat_eq_append] at hresults
    have hlast : ∀ p ∈ last, p.Keyed := h last (by simp [hresults])
    rw [hresults]
    simp only [List.getLast?_concat, Option.bind_some, List.flatten_append, List.flatten_cons,
      List.flatten_nil, List.append_nil]
    rw [exists_reports_iff c hlast, counts_eq_iff]
    constructor
    · intro hcond
      exact ⟨before, last, rfl, hcond⟩
    · rintro ⟨before', last', heq, hcond⟩
      obtain ⟨rfl, hsame⟩ := List.append_inj' heq rfl
      obtain rfl := List.head_eq_of_cons_eq hsame
      exact hcond

end

theorem summaryComplete_success_failure :
    SummaryComplete .ansi
      [⟨none, some "CBMC 5.44.0 (cbmc-5.44.0)", none⟩,
       ⟨some [⟨some "main.assertion.1", some "SUCCESS", some "assertion", none⟩,
              ⟨some "main.assertion.2", some "FAILURE", some "assertion", none⟩], none, none⟩] := by
  refine (summaryComplete_iff _ ?_).mpr ⟨[], _, rfl, .inl ⟨by decide, rfl⟩, by decide⟩
  intro result hresult p hp
  simp only [results, List.filterMap_cons, List.filterMap_nil, List.mem_singleton] at hresult
  subst hresult
  simp only [List.mem_cons, List.not_mem_nil, or_false] at hp
  rcases hp with rfl | rfl <;> exact ⟨rfl, rfl, rfl⟩

/-- The summary of an empty list of properties counts one. Without a result object, and for a failed
property with an empty trace, no message is printed, and of two result objects the first is left
out. -/
theorem not_summaryComplete_examples :
    let p : Property := ⟨some "main.assertion.1", some "FAILURE", some "assertion", none⟩
    (terseReport []).map Report.summary = some " ** 0 of 1 failed\n" ∧
    ¬ SummaryComplete .ansi [⟨some [], none, none⟩] ∧ ¬ SummaryComplete .ansi [] ∧
    ¬ SummaryComplete .ansi [⟨some [{ p with trace := some [] }], none, none⟩] ∧
    ¬ SummaryComplete .ansi [⟨some [p], none, none⟩, ⟨some [p], none, none⟩] := by
  intro p
  refine ⟨by decide, ?_, ?_, ?_, ?_⟩
  · rintro ⟨terse, checks, regular, hterse, -, -, -, hsummary, -⟩
    obtain rfl := Option.some.inj hterse
    exact absurd (Report.summary_eq_iff.mp hsummary).2 (by decide)
  · rintro ⟨terse, checks, regular, hterse, -⟩
    cases hterse
  · rintro ⟨terse, checks, regular, hterse, -⟩
    cases hterse
  · rintro ⟨terse, checks, regular, hterse, -, -, -, hsummary, -⟩
    obtain rfl := Option.some.inj hterse
    exact absurd (Report.summary_eq_iff.mp hsummary).2 (by decide)

end Rmc.Scripts

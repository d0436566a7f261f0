import Mathlib.Data.List.Infix
import Rmc.Lib.Lines
import Rmc.Lib.Text
import Rmc.Lib.Checked

/-!
# Test headers

The properties of a test stand in comments at the start of its file: the step at which it is
expected to fail and the extra arguments for the compiler and the verifier. `util.rs` prints them
and parses them line by line, looking for markers anywhere in a line. What is printed is read back,
whatever source text follows it.
-/

namespace Rmc.Bookrunner

open Lines

/-! ### Properties -/

inductive FailStep where
  | check
  | codegen
  | verification
  deriving DecidableEq, Repr

def FailStep.display : FailStep → String
  | .check => "check"
  | .codegen => "codegen"
  | .verification => "verify"

structure TestProps where
  path : String
  failStep : Option FailStep
  rustcArgs : List String
  rmcArgs : List String
  deriving DecidableEq, Repr

def displayFailStep : Option FailStep → String
  | some failStep => "// rmc-" ++ failStep.display ++ "-fail\n"
  | none => ""

/-- The arguments, each with a blank before it. -/
def displayArgs (args : List String) : String := args.foldl (fun f arg => f ++ (" " ++ arg)) ""

def displayFlags (header : String) (args : List String) : String :=
  if args.isEmpty then "" else header ++ displayArgs args ++ "\n"

def TestProps.display (props : TestProps) : String :=
  displayFailStep props.failStep ++ displayFlags "// compile-flags:" props.rustcArgs ++
    displayFlags "// rmc-flags:" props.rmcArgs

/-! ### Parsing -/

/-- `contains` for a line. -/
def contains (line : List Char) (pat : String) : Bool := decide (pat.toList <:+: line)

/-- A second marker panics. -/
def tryParseFailStep (curFailStep : Option FailStep) (line : List Char) :
    Option (Option FailStep) :=
  let failStep :=
    if contains line "rmc-check-fail" then some .check
    else if contains line "rmc-codegen-fail" then some .codegen
    else if contains line "rmc-verify-fail" then some .verification
    else none
  match curFailStep, failStep with
  | some _, some _ => none
  | none, some failStep => some (some failStep)
  | curFailStep, none => some curFailStep

/-- The words after a marker. A second marker with arguments panics. -/
def tryParseArgs (curArgs : List String) (name : String) (line : List Char) :
    Option (List String) :=
  let name := name ++ "-flags:"
  let args : List String :=
    match ((Text.split name.toList line).drop 1).head? with
    | some rest => (words (trim rest)).map String.ofList
    | none => []
  match curArgs.isEmpty, args.isEmpty with
  | false, false => none
  | true, false => some args
  | _, _ => some curArgs

/-- The variables of the loop over the lines. -/
structure Header where
  failStep : Option FailStep
  rustcArgs : List String
  rmcArgs : List String
  deriving DecidableEq, Repr

/-- The loop over the lines. It skips empty lines and stops at the first one that is no comment. -/
def parseLines (s : Header) : List (List Char) → Option Header
  | [] => some s
  | line :: rest =>
    let line := trimStart line
    if line = [] then parseLines s rest
    else if ¬ ['/', '/'] <+: line then some s
    else do
      let failStep ← tryParseFailStep s.failStep line
      let rustcArgs ← tryParseArgs s.rustcArgs "compile" line
      let rmcArgs ← tryParseArgs s.rmcArgs "rmc" line
      parseLines { failStep, rustcArgs, rmcArgs } rest

/-- The properties in a file with some content. -/
def parseTestHeader (path content : String) : Option TestProps := do
  let s ← parseLines { failStep := none, rustcArgs := [], rmcArgs := [] } (lines content.toList)
  return { path, failStep := s.failStep, rustcArgs := s.rustcArgs, rmcArgs := s.rmcArgs }

/-! ### Markers -/

def headerMarkers : List String :=
  ["rmc-check-fail", "rmc-codegen-fail", "rmc-verify-fail", "compile-flags:", "rmc-flags:"]

/-- No marker occurs in the text. -/
def NoMarker (l : List Char) : Prop := ∀ m ∈ headerMarkers, ¬ m.toList <:+: l

/-- An argument that can be printed and read back. -/
structure PlainArg (arg : String) : Prop where
  isWord : IsWord arg.toList
  noMarker : NoMarker arg.toList

/-- The lines at the start of a text that are comments, with the empty ones between them. -/
def commentLines (text : String) : List (List Char) :=
  (lines text.toList).takeWhile fun line =>
    trimStart line = [] ∨ ['/', '/'] <+: trimStart line

/-! ### Lines without a marker -/

variable {m : String} {line : List Char}

lemma contains_eq_false (h : ¬ m.toList <:+: line) : contains line m = false :=
  decide_eq_false h

lemma tryParseFailStep_of_not_isInfix (hcheck : ¬ "rmc-check-fail".toList <:+: line)
    (hcodegen : ¬ "rmc-codegen-fail".toList <:+: line)
    (hverify : ¬ "rmc-verify-fail".toList <:+: line) (cur : Option FailStep) :
    tryParseFailStep cur line = some cur := by
  simp only [tryParseFailStep, contains_eq_false hcheck, contains_eq_false hcodegen,
    contains_eq_false hverify, Bool.false_eq_true, if_false]

lemma split_flags_of_not_isInfix (hne : m.toList ≠ []) (h : ¬ m.toList <:+: line) :
    Text.split m.toList line = [line] := by
  obtain ⟨c, cs, hcs⟩ := List.exists_cons_of_ne_nil hne
  rw [hcs] at h ⊢
  exact Text.split_of_not_isInfix h

lemma tryParseArgs_of_not_isInfix (name : String) (h : ¬ (name ++ "-flags:").toList <:+: line)
    (cur : List String) :
    tryParseArgs cur name line = some cur := by
  have hne : (name ++ "-flags:").toList ≠ [] := by simp
  rw [tryParseArgs, split_flags_of_not_isInfix hne h]
  cases cur <;> rfl

lemma NoMarker.trimStart (h : NoMarker line) : NoMarker (trimStart line) := by
  intro m hm hsub
  exact h m hm (hsub.trans (List.dropWhile_suffix _).isInfix)

lemma parseLines_of_noMarker {text : List (List Char)} (s : Header)
    (h : ∀ line ∈ text.takeWhile (fun line => trimStart line = [] ∨ ['/', '/'] <+: trimStart line),
      NoMarker line) :
    parseLines s text = some s := by
  induction text with
  | nil => rfl
  | cons line text ih =>
    by_cases hempty : trimStart line = []
    · rw [List.takeWhile_cons_of_pos (by simp [hempty]), List.forall_mem_cons] at h
      simp only [parseLines, hempty, if_true]
      exact ih h.2
    · by_cases hcomment : ['/', '/'] <+: trimStart line
      · rw [List.takeWhile_cons_of_pos (by simp [hcomment]), List.forall_mem_cons] at h
        have hno := h.1.trimStart
        have hfail := tryParseFailStep_of_not_isInfix (hno _ (by simp [headerMarkers]))
          (hno _ (by simp [headerMarkers])) (hno _ (by simp [headerMarkers])) s.failStep
        have hrustc := tryParseArgs_of_not_isInfix "compile"
          (hno "compile-flags:" (by simp [headerMarkers])) s.rustcArgs
        have hrmc := tryParseArgs_of_not_isInfix "rmc"
          (hno "rmc-flags:" (by simp [headerMarkers])) s.rmcArgs
        simp only [parseLines, if_neg hempty, hcomment, not_true_eq_false, if_false, hfail, hrustc,
          hrmc, some_bind]
        exact ih h.2
      · simp only [parseLines, if_neg hempty, hcomment, not_false_eq_true, if_true]

/-! ### The lines of the header -/

lemma toList_displayArgs (args : List String) :
    (displayArgs args).toList = spaced (args.map String.toList) := by
  have hfold : ∀ (f : String), (args.foldl (fun f arg => f ++ (" " ++ arg)) f).toList =
      f.toList ++ spaced (args.map String.toList) := by
    induction args with
    | nil => simp [spaced]
    | cons arg args ih =>
      intro f
      rw [List.foldl_cons, ih, List.map_cons, spaced_cons]
      simp
  exact hfold ""

lemma parseLines_displayFailStep (failStep : Option FailStep) (rest : List Char) :
    parseLines ⟨none, [], []⟩ (lines ((displayFailStep failStep).toList ++ rest)) =
      parseLines ⟨failStep, [], []⟩ (lines rest) := by
  cases failStep with
  | none => rfl
  | some failStep =>
    obtain ⟨line, hline, hparse⟩ : ∃ line : List Char,
        (displayFailStep (some failStep)).toList = line ++ ['\n'] ∧
        ('\n' ∉ line ∧ line.getLast? ≠ some '\r' ∧ trimStart line = line ∧ line ≠ [] ∧
          ['/', '/'] <+: line ∧ tryParseFailStep none line = some (some failStep) ∧
          tryParseArgs [] "compile" line = some [] ∧ tryParseArgs [] "rmc" line = some []) := by
      refine ⟨("// rmc-" ++ failStep.display ++ "-fail").toList, ?_, ?_⟩
      · cases failStep <;> decide
      · cases failStep <;> decide
    obtain ⟨hnewline, hlast, htrim, hne, hcomment, hfail, hrustc, hrmc⟩ := hparse
    rw [hline, List.append_assoc, List.singleton_append, lines_append hnewline hlast, parseLines]
    simp only [htrim, if_neg hne, hcomment, not_true_eq_false, if_false, hfail, hrustc, hrmc,
      some_bind]

/-- The line of some arguments, between its marker and the newline. -/
structure FlagsLine (marker : String) (args : List String) : Prop where
  mem : marker ∈ ["compile-flags:", "rmc-flags:"]
  args : ∀ arg ∈ args, PlainArg arg

def flagsLine (marker : String) (args : List String) : List Char :=
  '/' :: '/' :: ' ' :: (marker.toList ++ spaced (args.map String.toList))

section FlagsLine

variable {marker : String} {args : List String}

lemma FlagsLine.isWord (h : FlagsLine marker args) : ∀ w ∈ args.map String.toList, IsWord w := by
  intro w hw
  obtain ⟨arg, harg, rfl⟩ := List.mem_map.mp hw
  exact (h.args arg harg).isWord

lemma not_mem_marker (hm : m ∈ headerMarkers) : ' ' ∉ m.toList := by
  revert m
  decide

section

variable (h : FlagsLine marker args)

include h

lemma FlagsLine.not_isInfix (hm : m ∈ headerMarkers) (hne : m ≠ marker) :
    ¬ m.toList <:+: flagsLine marker args := by
  have hslashes : ∀ m ∈ headerMarkers, ¬ m.toList <:+: ['/', '/'] := by decide
  have hmarkers : ∀ m ∈ headerMarkers, ∀ marker ∈ ["compile-flags:", "rmc-flags:"], m ≠ marker →
      ¬ m.toList <:+: marker.toList := by decide
  intro hsub
  have hblank := not_mem_marker hm
  rcases infix_of_infix_append_cons (a := ['/', '/']) hblank hsub with hsub | hsub
  · exact hslashes m hm hsub
  · rcases infix_of_infix_spaced hblank hsub with hsub | ⟨w, hw, hsub⟩
    · exact hmarkers m hm marker h.mem hne hsub
    · obtain ⟨arg, harg, rfl⟩ := List.mem_map.mp hw
      exact (h.args arg harg).noMarker m hm hsub

lemma FlagsLine.not_isInfix_spaced : ¬ marker.toList <:+: spaced (args.map String.toList) := by
  have hm : marker ∈ headerMarkers := by
    have hmem := h.mem
    simp only [List.mem_cons, List.not_mem_nil, or_false] at hmem
    rcases hmem with rfl | rfl <;> simp [headerMarkers]
  intro hsub
  rcases infix_of_infix_spaced (w := []) (not_mem_marker hm) hsub with hnil | ⟨w, hw, hsub⟩
  · have hne : ∀ m ∈ headerMarkers, ¬ m.toList <:+: [] := by decide
    exact hne marker hm hnil
  · obtain ⟨arg, harg, rfl⟩ := List.mem_map.mp hw
    exact (h.args arg harg).noMarker marker hm hsub

/-- The marker splits the line before the arguments. -/
lemma FlagsLine.split_eq :
    Text.split marker.toList (flagsLine marker args) =
      [['/', '/', ' '], spaced (args.map String.toList)] := by
  have hhead : ∀ marker ∈ ["compile-flags:", "rmc-flags:"],
      marker.toList.head? = some 'c' ∨ marker.toList.head? = some 'r' := by decide
  have hfirst := hhead marker h.mem
  have hrest := h.not_isInfix_spaced
  rw [flagsLine]
  cases hcs : marker.toList with
  | nil => simp [hcs] at hfirst
  | cons c cs =>
  rw [hcs] at hfirst hrest
  have hpre : ∀ a ∈ ['/', '/', ' '], a ≠ c := by
    rcases hfirst with hc | hc <;> obtain rfl := Option.some.inj hc <;> simp
  have happend : Text.split (c :: cs)
        (['/', '/', ' '] ++ (c :: cs ++ spaced (args.map String.toList))) =
      (Text.split (c :: cs) (c :: cs ++ spaced (args.map String.toList))).modifyHead
        (['/', '/', ' '] ++ ·) := Text.split_append hpre
  rw [Text.split_pattern_append, Text.split_of_not_isInfix hrest] at happend
  exact happend

end

lemma FlagsLine.tryParseArgs_eq (name : String) (h : FlagsLine (name ++ "-flags:") args) :
    tryParseArgs [] name (flagsLine (name ++ "-flags:") args) = some args := by
  have hargs : (words (trim (spaced (args.map String.toList)))).map String.ofList = args := by
    rw [words_trim_spaced h.isWord, List.map_map]
    simp [Function.comp_def]
  simp only [tryParseArgs, h.split_eq, List.drop_succ_cons, List.drop_zero, List.head?_cons, hargs]
  cases args <;> rfl

lemma FlagsLine.lines_eq (h : FlagsLine marker args) (rest : List Char) :
    lines (flagsLine marker args ++ '\n' :: rest) = flagsLine marker args :: lines rest := by
  have hmarker : ∀ marker ∈ ["compile-flags:", "rmc-flags:"], marker.toList ≠ [] ∧
      (marker.toList.all fun c => !isWhitespace c) = true := by decide +kernel
  have hnewline : '\n' ∉ flagsLine marker args := by
    have hspaced : '\n' ∉ spaced (args.map String.toList) := by
      intro hmem
      obtain ⟨w, hw, hmem⟩ := List.mem_flatMap.mp hmem
      rcases List.mem_cons.mp hmem with heq | hmem
      · exact absurd heq (by decide)
      · exact (h.isWord w hw).not_mem (by decide) hmem
    have hmarker' : '\n' ∉ marker.toList :=
      (isWord_of_all (hmarker marker h.mem).1 (hmarker marker h.mem).2).not_mem (by decide)
    simp [flagsLine, hspaced, hmarker']
  apply lines_append hnewline
  -- the last character is one of the last argument or of the marker
  intro hlast
  by_cases hargs : args = []
  · subst hargs
    have hends : ∀ marker ∈ ["compile-flags:", "rmc-flags:"],
        (flagsLine marker []).getLast? ≠ some '\r' := by decide
    exact hends marker h.mem hlast
  · have hne : args.map String.toList ≠ [] := by simpa using hargs
    have hspaced : spaced (args.map String.toList) ≠ [] := by
      obtain ⟨arg, args', rfl⟩ := List.exists_cons_of_ne_nil hargs
      exact List.cons_ne_nil _ _
    have hword := getLast?_spaced hne h.isWord '\r'
    rw [flagsLine, ← List.cons_append, ← List.cons_append, ← List.cons_append,
      List.getLast?_append_of_ne_nil _ hspaced] at hlast
    exact absurd (hword hlast) (by decide)

/-- The line only has arguments. -/
lemma FlagsLine.parseLines_cons (h : FlagsLine marker args) (s : Header) (rest : List (List Char)) :
    parseLines s (flagsLine marker args :: rest) =
      (tryParseArgs s.rustcArgs "compile" (flagsLine marker args)).bind fun rustcArgs =>
        (tryParseArgs s.rmcArgs "rmc" (flagsLine marker args)).bind fun rmcArgs =>
          parseLines { failStep := s.failStep, rustcArgs, rmcArgs } rest := by
  have hsteps : ∀ marker ∈ ["compile-flags:", "rmc-flags:"],
      "rmc-check-fail" ≠ marker ∧ "rmc-codegen-fail" ≠ marker ∧ "rmc-verify-fail" ≠ marker := by
    decide
  obtain ⟨hcheck, hcodegen, hverify⟩ := hsteps marker h.mem
  have hfail := tryParseFailStep_of_not_isInfix
    (h.not_isInfix (by simp [headerMarkers]) hcheck)
    (h.not_isInfix (by simp [headerMarkers]) hcodegen)
    (h.not_isInfix (by simp [headerMarkers]) hverify) s.failStep
  have htrim : trimStart (flagsLine marker args) = flagsLine marker args := by
    rw [trimStart, flagsLine, List.dropWhile_cons_of_neg (by decide)]
  have hne : flagsLine marker args ≠ [] := List.cons_ne_nil _ _
  have hcomment : ['/', '/'] <+: flagsLine marker args := ⟨_, rfl⟩
  simp only [parseLines, htrim, if_neg hne, hcomment, not_true_eq_false, if_false, hfail,
    Option.bind_eq_bind, Option.bind_some]

end FlagsLine

variable {args : List String}

lemma toList_displayFlags {header : String} (marker : String)
    (hheader : header.toList = '/' :: '/' :: ' ' :: marker.toList) (hargs : args ≠ []) :
    (displayFlags header args).toList = flagsLine marker args ++ ['\n'] := by
  rw [displayFlags, if_neg (by simpa using hargs), String.toList_append, String.toList_append,
    toList_displayArgs, hheader, flagsLine]
  rfl

lemma parseLines_compileFlags (h : ∀ arg ∈ args, PlainArg arg) (failStep : Option FailStep)
    (rest : List Char) :
    parseLines ⟨failStep, [], []⟩
        (lines ((displayFlags "// compile-flags:" args).toList ++ rest)) =
      parseLines ⟨failStep, args, []⟩ (lines rest) := by
  by_cases hargs : args = []
  · subst hargs
    rfl
  · have hline : FlagsLine "compile-flags:" args := ⟨by simp, h⟩
    have hrustc : tryParseArgs [] "compile" (flagsLine "compile-flags:" args) = some args :=
      FlagsLine.tryParseArgs_eq "compile" hline
    have hrmc := tryParseArgs_of_not_isInfix "rmc"
      (hline.not_isInfix (m := "rmc-flags:") (by simp [headerMarkers]) (by decide)) []
    rw [toList_displayFlags "compile-flags:" (by decide) hargs, List.append_assoc,
      List.singleton_append, hline.lines_eq, hline.parseLines_cons, hrustc, Option.bind_some, hrmc,
      Option.bind_some]

lemma parseLines_rmcFlags (h : ∀ arg ∈ args, PlainArg arg) (failStep : Option FailStep)
    (rustcArgs : List String) (rest : List Char) :
    parseLines ⟨failStep, rustcArgs, []⟩
        (lines ((displayFlags "// rmc-flags:" args).toList ++ rest)) =
      parseLines ⟨failStep, rustcArgs, args⟩ (lines rest) := by
  by_cases hargs : args = []
  · subst hargs
    rfl
  · have hline : FlagsLine "rmc-flags:" args := ⟨by simp, h⟩
    have hrustc := tryParseArgs_of_not_isInfix "compile"
      (hline.not_isInfix (m := "compile-flags:") (by simp [headerMarkers]) (by decide)) rustcArgs
    have hrmc : tryParseArgs [] "rmc" (flagsLine "rmc-flags:" args) = some args :=
      FlagsLine.tryParseArgs_eq "rmc" hline
    rw [toList_displayFlags "rmc-flags:" (by decide) hargs, List.append_assoc,
      List.singleton_append, hline.lines_eq, hline.parseLines_cons, hrustc, Option.bind_some, hrmc,
      Option.bind_some]

/-! ### Round trip -/

/-- The properties that are printed before a text are read back, when no marker occurs in an
argument or in a comment at the start of the text. -/
theorem parseTestHeader_display (props : TestProps) (text path : String)
    (hargs : ∀ arg ∈ props.rustcArgs ++ props.rmcArgs, PlainArg arg)
    (htext : ∀ line ∈ commentLines text, NoMarker line) :
    parseTestHeader path (props.display ++ text) = some { props with path := path } := by
  rw [List.forall_mem_append] at hargs
  have hlines : parseLines ⟨none, [], []⟩ (lines (props.display ++ text).toList) =
      some ⟨props.failStep, props.rustcArgs, props.rmcArgs⟩ := by
    rw [TestProps.display, String.toList_append, String.toList_append, String.toList_append,
      List.append_assoc, List.append_assoc, parseLines_displayFailStep,
      parseLines_compileFlags hargs.1, parseLines_rmcFlags hargs.2]
    exact parseLines_of_noMarker _ htext
  simp only [parseTestHeader, hlines, some_bind, Option.pure_def]

theorem parseTestHeader_display_edition :
    parseTestHeader "1.rs"
        (TestProps.display ⟨"1.rs", some .verification, ["--edition", "2018"], []⟩ ++
          "// A comment.\nfn main() \x7b\x7d\n") =
      some ⟨"1.rs", some .verification, ["--edition", "2018"], []⟩ := by
  apply parseTestHeader_display
  · intro arg harg
    simp only [List.append_nil, List.mem_cons, List.not_mem_nil, or_false] at harg
    rcases harg with rfl | rfl
    · exact ⟨isWord_of_all (by decide) (by decide), by unfold NoMarker; decide +kernel⟩
    · exact ⟨isWord_of_all (by decide) (by decide), by unfold NoMarker; decide +kernel⟩
  · unfold NoMarker
    decide +kernel

end Rmc.Bookrunner

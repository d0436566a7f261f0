import Rmc.Lib.Dict
import Rmc.Lib.Text

/-!
# The hierarchy of a book

`parse_hierarchy_with_summary` of `books.rs` reads the events of a parsed summary and records, for
every link, the directory for the examples of the chapter. The directory is kept in a path: the text
of a title is pushed, and the end of a list item pops it. The flag says that the event before was
text or inline code, which belongs to the same title.

The text of a heading, or of a link that is not in a list, is pushed too, and no end of an item pops
it. What comes next is merged into the heading or put under the link.
-/

namespace Rmc.Bookrunner

/-! ### Paths -/

/-- A path as the list of its components. -/
abbrev PathBuf := List String

/-- A text that is a component of its own. -/
def Plain (s : String) : Prop := s ≠ "" ∧ s ≠ "." ∧ s ≠ ".."

instance (s : String) : Decidable (Plain s) := inferInstanceAs (Decidable (_ ∧ _))

/-- A text without slashes is pushed. The empty text and a dot make no component, but for a dot at
the start of a path. -/
def push (path : PathBuf) (text : String) : PathBuf :=
  if text = "" ∨ text = "." ∧ path ≠ [] then path else path ++ [text]

def pop (path : PathBuf) : PathBuf := path.dropLast

/-- The last component, unless it is a dot or two dots. -/
def fileName (path : PathBuf) : Option String := path.getLast?.filter fun s => s ≠ "." ∧ s ≠ ".."

/-! ### Events -/

inductive Tag where
  | item
  | link (path : String)
  | list
  | heading
  | paragraph
  | emphasis
  deriving DecidableEq, Repr

inductive Event where
  | start (tag : Tag)
  | stop (tag : Tag)
  | text (text : String)
  | code (text : String)
  | html (text : String)
  | softBreak
  | hardBreak
  | rule
  deriving DecidableEq, Repr

/-- The characters that are problematic to the file system or terminal. -/
def problematic : List Char := ['/', '(', ')', Char.ofNat 39]

def sanitise (text : String) : String :=
  String.ofList (text.toList.map fun c => if c ∈ problematic then '_' else c)

/-- The variables of the loop. What is inserted into the map is kept in order. -/
structure HierarchyState where
  path : PathBuf
  prevEventIsTextOrCode : Bool
  inserts : List (PathBuf × PathBuf)
  deriving DecidableEq, Repr

/-- The map: a later insert for a path replaces the earlier one. -/
def HierarchyState.hierarchy (s : HierarchyState) : List (PathBuf × PathBuf) :=
  Dict.update [] s.inserts

def fullPath (summaryDir : PathBuf) (path : String) : PathBuf :=
  ((Text.split ['/'] path.toList).map String.ofList).foldl push summaryDir

/-- A text starts a component, or goes on with the one of the text before. -/
def addText (s : HierarchyState) (text : String) : Option HierarchyState :=
  let text := sanitise text
  if s.prevEventIsTextOrCode then do
    let prevText ← fileName s.path
    return { s with path := push (pop s.path) (prevText ++ text), prevEventIsTextOrCode := true }
  else return { s with path := push s.path text, prevEventIsTextOrCode := true }

def hierarchyStep (summaryDir : PathBuf) (s : HierarchyState) : Event → Option HierarchyState
  | .stop .item => some { s with path := pop s.path, prevEventIsTextOrCode := false }
  | .stop (.link path) =>
    some { s with inserts := s.inserts ++ [(fullPath summaryDir path, s.path)],
                  prevEventIsTextOrCode := false }
  | .text text | .code text => addText s text
  | _ => some s

/-- A book: its name is a component, and the map may have entries before. -/
structure Book where
  name : String
  plain : Plain name
  slash : '/' ∉ name.toList
  summaryDir : PathBuf
  inserts : List (PathBuf × PathBuf)

def Book.root (book : Book) : PathBuf := push ["src", "test", "bookrunner", "books"] book.name

/-- The loop over the events after the start of the summary. -/
def parseHierarchyWithSummary (book : Book) (events : List Event) : Option HierarchyState :=
  events.foldlM (hierarchyStep book.summaryDir)
    { path := book.root, prevEventIsTextOrCode := false, inserts := book.inserts }

/-! ### Summaries -/

/-- A part of a title. -/
inductive Chunk where
  | text (text : String)
  | code (text : String)
  deriving DecidableEq, Repr

namespace Chunk

def str : Chunk → String
  | .text s | .code s => s

def event : Chunk → Event
  | .text s => .text s
  | .code s => .code s

end Chunk

/-- An item of a list: a link and a nested list, which may be empty. -/
inductive Item where
  | mk (title : List Chunk) (path : String) (sub : List Item)
  deriving Repr

/-- A summary consists of headings, links and lists. -/
inductive Block where
  | heading (text : List Chunk)
  | link (title : List Chunk) (path : String)
  | list (items : List Item)
  deriving Repr

def titleText : List Chunk → String
  | [] => ""
  | c :: cs => c.str ++ titleText cs

def texts (cs : List Chunk) : List Event := cs.map Chunk.event

mutual

/-- The events of an item that are not ignored. -/
def itemEvents : Item → List Event
  | .mk title path sub =>
    texts title ++ .stop (.link path) :: (itemsEvents sub ++ [.stop .item])

def itemsEvents : List Item → List Event
  | [] => []
  | item :: items => itemEvents item ++ itemsEvents items

end

def blockEvents : Block → List Event
  | .heading text => texts text
  | .link title path => texts title ++ [.stop (.link path)]
  | .list items => itemsEvents items

def summaryEvents (summary : List Block) : List Event := summary.flatMap blockEvents

/-- The events that the loop does not ignore. -/
def Event.relevant : Event → Bool
  | .stop .item | .stop (.link _) | .text _ | .code _ => true
  | _ => false

mutual

def itemTitles : Item → List (List Chunk)
  | .mk title _ sub => title :: itemsTitles sub

def itemsTitles : List Item → List (List Chunk)
  | [] => []
  | item :: items => itemTitles item ++ itemsTitles items

end

def blockTitles : Block → List (List Chunk)
  | .heading _ => []
  | .link title _ => [title]
  | .list items => itemsTitles items

mutual

/-- The directories of an item and the items in it, under the titles of the enclosing ones. -/
def itemDirectories (summaryDir parent : PathBuf) : Item → List (PathBuf × PathBuf)
  | .mk title path sub =>
    (fullPath summaryDir path, parent ++ [sanitise (titleText title)]) ::
      itemsDirectories summaryDir (parent ++ [sanitise (titleText title)]) sub

def itemsDirectories (summaryDir parent : PathBuf) : List Item → List (PathBuf × PathBuf)
  | [] => []
  | item :: items => itemDirectories summaryDir parent item ++
      itemsDirectories summaryDir parent items

end

/-- A link that is in no list is under the root. -/
def blockDirectories (summaryDir root : PathBuf) : Block → List (PathBuf × PathBuf)
  | .heading _ => []
  | .link title path => [(fullPath summaryDir path, root ++ [sanitise (titleText title)])]
  | .list items => itemsDirectories summaryDir root items

def directories (summaryDir root : PathBuf) (summary : List Block) : List (PathBuf × PathBuf) :=
  summary.flatMap (blockDirectories summaryDir root)

/-- The events up to the end of an outermost item. -/
def EndsItem (summary : List Block) (events : List Event) : Prop :=
  ∃ before done item rest after,
    summary = before ++ .list (done ++ item :: rest) :: after ∧
      events = summaryEvents before ++ itemsEvents (done ++ [item])

/-- Every link has the directory of its titles, which the map has for the last link to a path, and
the path is the root after outermost items. -/
def Mirrors (book : Book) (summary : List Block) (events : List Event) : Prop :=
  (∃ s, parseHierarchyWithSummary book events = some s ∧
    s.inserts = book.inserts ++ directories book.summaryDir book.root summary ∧
    ∀ x, x ∈ s.hierarchy ↔ LastWins.IsLast Prod.fst
      (book.inserts ++ directories book.summaryDir book.root summary) x) ∧
  ∀ pre post, events = pre ++ post → EndsItem summary (pre.filter Event.relevant) →
    ∃ s, parseHierarchyWithSummary book pre = some s ∧ s.path = book.root

/-! ### Texts -/

lemma sanitise_append (a b : String) : sanitise (a ++ b) = sanitise a ++ sanitise b := by
  simp [sanitise]

variable {s text : String} {path : PathBuf}

/-- No problematic character is replaced by a dot. -/
lemma sanitise_eq_iff {l : List Char} (hl : ∀ c ∈ l, c = '.') :
    sanitise s = String.ofList l ↔ s = String.ofList l := by
  have hdot : ∀ c, (if c ∈ problematic then '_' else c) = '.' ↔ c = '.' := by
    intro c
    split_ifs with hc
    · constructor
      · intro h
        exact absurd h (by decide)
      · rintro rfl
        exact absurd hc (by decide)
    · rfl
  have hlist : ∀ l' : List Char,
      l'.map (fun c => if c ∈ problematic then '_' else c) = l ↔ l' = l := by
    induction l with
    | nil => simp
    | cons d l ih =>
      rw [List.forall_mem_cons] at hl
      obtain ⟨rfl, hl⟩ := hl
      intro l'
      cases l' with
      | nil => simp
      | cons c l' => rw [List.map_cons, List.cons.injEq, List.cons.injEq, hdot, ih hl]
  rw [sanitise, String.ofList_inj, hlist, ← String.toList_inj, String.toList_ofList]

lemma plain_sanitise_iff : Plain (sanitise s) ↔ Plain s := by
  have hempty := sanitise_eq_iff (s := s) (l := []) (by simp)
  have hdot := sanitise_eq_iff (s := s) (l := ['.']) (by simp)
  have hdots := sanitise_eq_iff (s := s) (l := ['.', '.']) (by simp)
  exact and_congr (not_congr hempty) (and_congr (not_congr hdot) (not_congr hdots))

lemma Plain.append (h : Plain s) (t : String) : Plain (s ++ t) := by
  obtain ⟨hempty, hdot, hdots⟩ := h
  rw [ne_eq, ← String.toList_inj] at hempty hdot hdots
  refine ⟨?_, ?_, ?_⟩ <;>
    (rw [ne_eq, ← String.toList_inj, String.toList_append]
     intro heq)
  · exact hempty (List.append_eq_nil_iff.mp heq).1
  · rcases List.append_eq_singleton_iff.mp heq with ⟨hs, -⟩ | ⟨hs, -⟩
    · exact hempty hs
    · exact hdot hs
  · rcases hs : s.toList with _ | ⟨a, _ | ⟨b, l⟩⟩
    · exact hempty hs
    · rw [hs] at heq
      have ha : a = '.' := (List.cons.inj heq).1
      exact hdot (by rw [hs, ha]; rfl)
    · rw [hs] at heq
      simp only [List.cons_append] at heq
      obtain ⟨ha, heq⟩ := List.cons.inj heq
      obtain ⟨hb, heq⟩ := List.cons.inj heq
      obtain ⟨rfl, -⟩ := List.append_eq_nil_iff.mp heq
      exact hdots (by rw [hs, ha, hb]; rfl)

lemma push_of_plain (h : Plain text) : push path text = path ++ [text] := by
  rw [push, if_neg]
  rintro (he | ⟨hd, -⟩)
  · exact h.1 he
  · exact h.2.1 hd

lemma fileName_append (h : Plain text) : fileName (path ++ [text]) = some text := by
  simp [fileName, h.2.1, h.2.2]

@[simp]
lemma pop_append (path : PathBuf) (text : String) : pop (path ++ [text]) = path :=
  List.dropLast_concat

lemma Book.root_eq (book : Book) :
    book.root = ["src", "test", "bookrunner", "books"] ++ [book.name] :=
  push_of_plain book.plain

/-! ### Runs -/

section Runs

variable {dir : PathBuf} {s s' : HierarchyState}

/-- The loop from any state. -/
def runFrom (dir : PathBuf) (s : HierarchyState) (events : List Event) :
    Option HierarchyState :=
  events.foldlM (hierarchyStep dir) s

lemma runFrom_nil : runFrom dir s [] = some s := rfl

lemma runFrom_cons (e : Event) (events : List Event) :
    runFrom dir s (e :: events) = (hierarchyStep dir s e).bind fun s => runFrom dir s events :=
  List.foldlM_cons

lemma runFrom_append (events events' : List Event) :
    runFrom dir s (events ++ events') =
      (runFrom dir s events).bind fun s => runFrom dir s events' :=
  List.foldlM_append

/-- Only the relevant events change the state. -/
lemma runFrom_filter (events : List Event) :
    runFrom dir s (events.filter Event.relevant) = runFrom dir s events := by
  induction events generalizing s with
  | nil => rfl
  | cons e events ih =>
    by_cases he : e.relevant = true
    · rw [List.filter_cons_of_pos he, runFrom_cons, runFrom_cons]
      exact congrArg _ (funext fun s => ih)
    · have hstep : hierarchyStep dir s e = some s := by
        cases e with
        | stop tag => cases tag <;> simp_all [Event.relevant, hierarchyStep]
        | _ => simp_all [Event.relevant, hierarchyStep]
      rw [List.filter_cons_of_neg he, ih, runFrom_cons, hstep, Option.bind_some]

lemma hierarchyStep_inserts {e : Event} (h : hierarchyStep dir s e = some s') :
    s.inserts <+: s'.inserts := by
  have htext : ∀ text, addText s text = some s' → s.inserts <+: s'.inserts := by
    intro text h
    simp only [addText] at h
    split_ifs at h
    · obtain ⟨prevText, -, h⟩ := Option.bind_eq_some_iff.mp h
      obtain rfl := Option.some.inj h
      exact List.prefix_refl _
    · obtain rfl := Option.some.inj h
      exact List.prefix_refl _
  cases e with
  | text text => exact htext text h
  | code text => exact htext text h
  | stop tag =>
    cases tag with
    | link path =>
      obtain rfl := Option.some.inj h
      exact List.prefix_append _ _
    | _ =>
      obtain rfl := Option.some.inj h
      exact List.prefix_refl _
  | _ =>
    obtain rfl := Option.some.inj h
    exact List.prefix_refl _

lemma runFrom_inserts {events : List Event} (h : runFrom dir s events = some s') :
    s.inserts <+: s'.inserts := by
  induction events generalizing s with
  | nil =>
    obtain rfl := Option.some.inj h
    exact List.prefix_refl _
  | cons e events ih =>
    rw [runFrom_cons] at h
    obtain ⟨s₁, hs₁, h⟩ := Option.bind_eq_some_iff.mp h
    exact (hierarchyStep_inserts hs₁).trans (ih h)

end Runs

end Rmc.Bookrunner

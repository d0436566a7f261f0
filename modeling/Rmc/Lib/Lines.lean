import Mathlib.Data.List.DropRight

/-!
# Lines and words

Lines of a text as a buffered reader returns them, and words between blanks. A blank is a character
with the Unicode property `White_Space`.
-/

namespace Lines

/-- The characters with the property `White_Space`. -/
def isWhitespace (c : Char) : Bool :=
  let n := c.toNat
  (9 ≤ n && n ≤ 13) || n == 0x20 || n == 0x85 || n == 0xA0 || n == 0x1680 ||
    (0x2000 ≤ n && n ≤ 0x200A) || n == 0x2028 || n == 0x2029 || n == 0x202F || n == 0x205F ||
    n == 0x3000

/-- A line that ended in a newline, without a carriage return before it. -/
def stripCr (line : List Char) : List Char :=
  if line.getLast? = some '\r' then line.dropLast else line

/-- The lines of a text, when a part of the first line has been read. What follows the last newline
is a line unless it is empty. -/
def linesFrom (line : List Char) : List Char → List (List Char)
  | [] => if line = [] then [] else [line]
  | c :: l => if c = '\n' then stripCr line :: linesFrom [] l else linesFrom (line ++ [c]) l

def lines (l : List Char) : List (List Char) := linesFrom [] l

def trimStart (l : List Char) : List Char := l.dropWhile isWhitespace

def trim (l : List Char) : List Char := (trimStart l).rdropWhile isWhitespace

/-- The words between blanks. -/
def words (l : List Char) : List (List Char) := (l.splitOnP isWhitespace).filter (· ≠ [])

/-! ### Lines -/

variable {l rest w m : List Char} {c : Char} {ws : List (List Char)}

lemma linesFrom_append {line : List Char} (h : '\n' ∉ l) :
    linesFrom line (l ++ '\n' :: rest) = stripCr (line ++ l) :: lines rest := by
  induction l generalizing line with
  | nil => simp [linesFrom, lines]
  | cons c l ih =>
    rw [List.mem_cons, not_or] at h
    rw [List.cons_append, linesFrom, if_neg (Ne.symm h.1), ih h.2, List.append_assoc,
      List.singleton_append]

/-- A line without blanks at its end. -/
lemma lines_append (h : '\n' ∉ l) (hlast : l.getLast? ≠ some '\r') :
    lines (l ++ '\n' :: rest) = l :: lines rest := by
  rw [lines, linesFrom_append h, List.nil_append, stripCr, if_neg hlast]

/-! ### Words -/

/-- Words with a blank before each. -/
def spaced (ws : List (List Char)) : List Char := ws.flatMap (' ' :: ·)

lemma spaced_cons (w : List Char) (ws : List (List Char)) :
    spaced (w :: ws) = ' ' :: (w ++ spaced ws) := rfl

/-- A word has characters and no blanks. -/
def IsWord (w : List Char) : Prop := w ≠ [] ∧ ∀ c ∈ w, isWhitespace c = false

lemma isWord_of_all (hne : w ≠ []) (h : (w.all fun c => !isWhitespace c) = true) : IsWord w := by
  refine ⟨hne, fun c hc => ?_⟩
  simpa using List.all_eq_true.mp h c hc

lemma IsWord.not_mem (h : IsWord w) (hc : isWhitespace c = true) : c ∉ w := by
  intro hmem
  rw [h.2 c hmem] at hc
  cases hc

lemma getLast?_spaced (hne : ws ≠ []) (h : ∀ w ∈ ws, IsWord w) :
    ∀ c ∈ (spaced ws).getLast?, isWhitespace c = false := by
  obtain rfl | ⟨init, w, rfl⟩ := List.eq_nil_or_concat ws
  · exact absurd rfl hne
  · have hw : IsWord w := h w (by simp)
    intro c hc
    have hspaced : spaced (init.concat w) = spaced init ++ ' ' :: w := by
      simp [spaced]
    rw [hspaced, List.getLast?_append, List.getLast?_cons, Option.mem_def] at hc
    obtain ⟨d, hd⟩ : ∃ d, w.getLast? = some d :=
      Option.isSome_iff_exists.mp (by simpa using hw.1)
    rw [hd] at hc
    obtain rfl : d = c := by simpa using hc
    exact hw.2 d (List.mem_of_getLast? hd)

lemma rdropWhile_eq_self (h : ∀ c ∈ l.getLast?, isWhitespace c = false) :
    l.rdropWhile isWhitespace = l := by
  obtain rfl | ⟨init, c, rfl⟩ := List.eq_nil_or_concat l
  · rfl
  · rw [List.concat_eq_append] at h ⊢
    exact List.rdropWhile_concat_neg _ _ _ (by simp [h c (by simp)])

lemma words_trim_spaced (h : ∀ w ∈ ws, IsWord w) : words (trim (spaced ws)) = ws := by
  have hblank : isWhitespace ' ' = true := by decide
  -- after the first word, each blank ends a word
  have hsplit : ∀ (w : List Char) (ws : List (List Char)), IsWord w → (∀ w ∈ ws, IsWord w) →
      (w ++ spaced ws).splitOnP isWhitespace = w :: ws := by
    intro w ws hw hws
    induction ws generalizing w with
    | nil =>
      rw [spaced, List.flatMap_nil, List.append_nil]
      exact List.splitOnP_eq_singleton hw.2
    | cons w' ws ih =>
      rw [List.forall_mem_cons] at hws
      rw [spaced_cons, List.splitOnP_append_cons_of_forall_mem hw.2 _ hblank, ih w' hws.1 hws.2]
  cases ws with
  | nil => rfl
  | cons w ws =>
    have hlast := getLast?_spaced (List.cons_ne_nil w ws) h
    rw [List.forall_mem_cons] at h
    obtain ⟨c, w', rfl⟩ := List.exists_cons_of_ne_nil h.1.1
    have hc : isWhitespace c = false := h.1.2 c List.mem_cons_self
    have hstart : trimStart (spaced ((c :: w') :: ws)) = (c :: w') ++ spaced ws := by
      simp [trimStart, spaced_cons, hblank, hc]
    have hlast' : ∀ d ∈ ((c :: w') ++ spaced ws).getLast?, isWhitespace d = false := by
      intro d hd
      apply hlast d
      rw [spaced_cons, List.getLast?_cons]
      rw [List.cons_append] at hd
      rw [List.cons_append, hd]
      rfl
    rw [trim, hstart, rdropWhile_eq_self hlast', words, hsplit _ _ h.1 h.2]
    rw [List.filter_eq_self]
    intro w hw
    rcases List.mem_cons.mp hw with rfl | hw
    · simp
    · simpa using (h.2 w hw).1

/-! ### Occurrences -/

/-- A pattern without a character occurs before it or behind it. -/
lemma infix_of_infix_append_cons {a b : List Char} (hc : c ∉ m) (h : m <:+: a ++ c :: b) :
    m <:+: a ∨ m <:+: b := by
  obtain ⟨s, t, heq⟩ := h
  rcases List.append_eq_append_iff.mp heq with ⟨a', ha, -⟩ | ⟨a', ha, hb⟩
  · exact .inl ⟨s, a', ha.symm⟩
  · cases a' with
    | nil =>
      rw [List.append_nil] at ha
      exact .inl ⟨s, [], by rw [List.append_nil, ha]⟩
    | cons d a' =>
      obtain ⟨rfl, rfl⟩ := List.cons.inj hb
      -- the pattern and what starts with the character are ends of one list
      have hsuffix : m <:+ a ++ c :: a' := ⟨s, ha⟩
      rcases List.suffix_or_suffix_of_suffix hsuffix (List.suffix_append a (c :: a')) with hm | hm
      · rcases List.suffix_cons_iff.mp hm with rfl | hm
        · exact absurd List.mem_cons_self hc
        · exact .inr (hm.isInfix.trans (List.prefix_append a' t).isInfix)
      · exact absurd (hm.subset List.mem_cons_self) hc

/-- A pattern without blanks occurs in one of the words. -/
lemma infix_of_infix_spaced (hm : ' ' ∉ m) (h : m <:+: w ++ spaced ws) :
    m <:+: w ∨ ∃ v ∈ ws, m <:+: v := by
  induction ws generalizing w with
  | nil =>
    rw [spaced, List.flatMap_nil, List.append_nil] at h
    exact .inl h
  | cons v ws ih =>
    rw [spaced_cons] at h
    rcases infix_of_infix_append_cons hm h with h | h
    · exact .inl h
    · rcases ih h with h | ⟨u, hu, h⟩
      · exact .inr ⟨v, List.mem_cons_self, h⟩
      · exact .inr ⟨u, List.mem_cons_of_mem _ hu, h⟩

end Lines

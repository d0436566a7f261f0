import Rmc.Lib.Checked
import Rmc.Lib.Text

/-!
# C identifiers

How one name is made into a C identifier (`fix_name` in `name_transformer.rs`): characters that may
not stand in an identifier become underscores, a number gets one in front, and reserved words at the
end are replaced. The result is a C identifier when the name is not empty and has no letters and
digits from outside of ASCII: those count as alphanumeric, and are kept.
-/

namespace Rmc.GenC

/-- The classes of characters in the standard library. Those of the ASCII characters are known. -/
class UnicodeTables where
  isAlphabetic : Char → Bool
  isNumeric : Char → Bool
  isAlphabetic_of_ascii : ∀ c, c.toNat < 128 → isAlphabetic c = c.isAlpha
  isNumeric_of_ascii : ∀ c, c.toNat < 128 → isNumeric c = c.isDigit

export UnicodeTables (isNumeric)

variable [UnicodeTables]

def isAlphanumeric (c : Char) : Bool := UnicodeTables.isAlphabetic c || isNumeric c

/-- The characters that stay. -/
def isKept (ch : Char) : Bool := isAlphanumeric ch || ch == '_' || ch == '$'

def illegalNames : List (String × String) := [("case", "case_"), ("default", "default_")]

def validChars (name : List Char) : List Char := name.map fun ch => if isKept ch then ch else '_'

/-- The name of valid characters, with an underscore before a number. -/
def newName (name : List Char) : List Char :=
  match validChars name with
  | first :: rest => if isNumeric first then '_' :: first :: rest else first :: rest
  | [] => []

def fixName (name : List Char) : List Char :=
  match illegalNames.find? fun (illegal, _) => illegal.toList.isSuffixOf (newName name) with
  | some (illegal, replacement) => Text.replace illegal.toList replacement.toList (newName name)
  | none => newName name

/-! ### C identifiers -/

/-- The classes of the characters up to `U+00FF`. -/
@[reducible] def latin1 : UnicodeTables where
  isAlphabetic c := c.isAlpha || c == 'ª' || c == 'µ' || c == 'º' ||
    (0xC0 ≤ c.toNat && c.toNat ≤ 0xFF && c != '×' && c != '÷')
  isNumeric c := c.isDigit || c == '²' || c == '³' || c == '¹' || c == '¼' || c == '½' || c == '¾'
  isAlphabetic_of_ascii c hc := by
    have hne : ∀ d : Char, 128 ≤ d.toNat → (c == d) = false := by
      rintro d hd
      rw [beq_eq_false_iff_ne]
      rintro rfl
      omega
    have hlt : ¬ 0xC0 ≤ c.toNat := by omega
    simp [hne 'ª' (by decide), hne 'µ' (by decide), hne 'º' (by decide), hlt]
  isNumeric_of_ascii c hc := by
    have hne : ∀ d : Char, 128 ≤ d.toNat → (c == d) = false := by
      rintro d hd
      rw [beq_eq_false_iff_ne]
      rintro rfl
      omega
    simp [hne '²' (by decide), hne '³' (by decide), hne '¹' (by decide), hne '¼' (by decide),
      hne '½' (by decide), hne '¾' (by decide)]

/-- The characters of C identifiers, with the dollar sign. -/
def isCIdentifierChar (c : Char) : Bool := c.isAlphanum || c == '_' || c == '$'

/-- A C identifier: not empty, and not starting with a digit. -/
def isCIdentifier : List Char → Bool
  | [] => false
  | c :: l => isCIdentifierChar c && !c.isDigit && l.all isCIdentifierChar

variable {c : Char} {l : List Char}

omit [UnicodeTables] in
lemma isCIdentifier_cons :
    isCIdentifier (c :: l) = true ↔
    c.isDigit = false ∧ ∀ d ∈ c :: l, isCIdentifierChar d = true := by
  simp only [isCIdentifier, Bool.and_eq_true, Bool.not_eq_true', List.all_eq_true,
    List.forall_mem_cons]
  constructor
  · rintro ⟨⟨hc, hdigit⟩, hl⟩
    exact ⟨hdigit, hc, hl⟩
  · rintro ⟨hdigit, hc, hl⟩
    exact ⟨⟨hc, hdigit⟩, hl⟩

variable {name : List Char}

lemma isAlphanumeric_of_ascii (h : c.toNat < 128) : isAlphanumeric c = c.isAlphanum := by
  rw [isAlphanumeric, UnicodeTables.isAlphabetic_of_ascii c h, UnicodeTables.isNumeric_of_ascii c h]
  rfl

omit [UnicodeTables] in
lemma toNat_lt_of_isCIdentifierChar (h : isCIdentifierChar c = true) : c.toNat < 128 := by
  have halpha : c.isAlpha =
      (decide (65 ≤ c.val ∧ c.val ≤ 90) || 97 ≤ c.val && c.val ≤ 122) := rfl
  simp only [isCIdentifierChar, Char.isAlphanum, halpha, Char.isDigit, Bool.or_eq_true,
    Bool.and_eq_true, decide_eq_true_eq, beq_iff_eq, ge_iff_le, UInt32.le_iff_toNat_le] at h
  rcases h with ((((h | h) | h) | rfl) | rfl)
  · exact Nat.lt_of_le_of_lt h.2 (by decide)
  · exact Nat.lt_of_le_of_lt h.2 (by decide)
  · exact Nat.lt_of_le_of_lt h.2 (by decide)
  · decide
  · decide

/-- The characters that stay are those of C identifiers, but for letters and digits that are not
ASCII. -/
lemma isCIdentifierChar_iff : isCIdentifierChar c = true ↔ isKept c = true ∧ c.toNat < 128 := by
  by_cases hc : c.toNat < 128
  · simp [isCIdentifierChar, isKept, isAlphanumeric_of_ascii hc, hc]
  · have hnot : isCIdentifierChar c ≠ true := fun h => hc (toNat_lt_of_isCIdentifierChar h)
    simp [hc, hnot]

/-- What `fixName` makes of a name: only characters that stay, and no digit at the start. -/
structure Fixed (l : List Char) : Prop where
  kept : ∀ c ∈ l, isKept c = true
  head : ∀ c ∈ l.head?, isNumeric c = false

lemma Fixed.isCIdentifier_iff (h : Fixed l) :
    isCIdentifier l = true ↔ l ≠ [] ∧ ∀ c ∈ l, c.toNat < 128 := by
  cases l with
  | nil => simp [isCIdentifier]
  | cons c l =>
    have hhead : isNumeric c = false := h.head c rfl
    simp only [isCIdentifier_cons, isCIdentifierChar_iff, ne_eq, List.cons_ne_nil,
      not_false_eq_true, true_and]
    constructor
    · rintro ⟨-, hall⟩ d hd
      exact (hall d hd).2
    · intro hall
      refine ⟨?_, fun d hd => ⟨h.kept d hd, hall d hd⟩⟩
      rwa [← UnicodeTables.isNumeric_of_ascii c (hall c List.mem_cons_self)]

lemma isKept_of_isCIdentifierChar (h : isCIdentifierChar c = true) : isKept c = true :=
  (isCIdentifierChar_iff.1 h).1

omit [UnicodeTables] in
/-- Illegal names and what replaces them are C identifiers but for being reserved. -/
lemma isCIdentifier_of_mem_illegalNames :
    ∀ p ∈ illegalNames, isCIdentifier p.1.toList = true ∧ isCIdentifier p.2.toList = true := by
  decide

omit [UnicodeTables] in
lemma ne_nil_of_isCIdentifier (h : isCIdentifier l = true) : l ≠ [] := by
  rintro rfl
  simp [isCIdentifier] at h

lemma Fixed.of_isCIdentifier (h : isCIdentifier l = true) : Fixed l := by
  cases l with
  | nil => simp [isCIdentifier] at h
  | cons c l =>
    obtain ⟨hdigit, hall⟩ := isCIdentifier_cons.1 h
    refine ⟨fun d hd => isKept_of_isCIdentifierChar (hall d hd), ?_⟩
    rintro d hd
    cases hd
    rw [UnicodeTables.isNumeric_of_ascii c
      (toNat_lt_of_isCIdentifierChar (hall c List.mem_cons_self))]
    exact hdigit

/-- Replacing a pattern by a C identifier keeps a name fixed. -/
lemma Fixed.replace {pat new : List Char} (h : Fixed l) (hnew : isCIdentifier new = true) :
    Fixed (Text.replace pat new l) := by
  have hfixed := Fixed.of_isCIdentifier hnew
  refine ⟨fun c hc => ?_, fun c hc => ?_⟩
  · rcases Text.mem_of_mem_replace hc with hc | hc
    · exact hfixed.kept c hc
    · exact h.kept c hc
  · rcases @Text.head?_replace _ _ pat _ l (ne_nil_of_isCIdentifier hnew) with heq | ⟨-, heq⟩
    · exact h.head c (heq ▸ hc)
    · exact hfixed.head c (heq ▸ hc)

lemma isKept_underscore : isKept '_' = true := by simp [isKept]

lemma isNumeric_underscore : isNumeric '_' = false :=
  UnicodeTables.isNumeric_of_ascii '_' (by decide)

lemma isKept_of_mem_validChars (hc : c ∈ validChars name) : isKept c = true := by
  obtain ⟨ch, -, rfl⟩ := List.mem_map.1 hc
  split_ifs with hch
  · exact hch
  · exact isKept_underscore

lemma mem_validChars_iff (hne : c ≠ '_') : c ∈ validChars name ↔ c ∈ name ∧ isKept c = true := by
  constructor
  · intro hc
    obtain ⟨ch, hch, rfl⟩ := List.mem_map.1 hc
    split_ifs at hne ⊢ with hkept
    · exact ⟨hch, hkept⟩
    · exact absurd rfl hne
  · rintro ⟨hc, hkept⟩
    exact List.mem_map.2 ⟨c, hc, if_pos hkept⟩

/-- An underscore is put before the valid characters exactly when they start with a number. -/
lemma newName_eq (name : List Char) :
    newName name = validChars name ∧ (∀ c ∈ (validChars name).head?, isNumeric c = false) ∨
    newName name = '_' :: validChars name ∧ name ≠ [] := by
  rw [newName]
  cases hv : validChars name with
  | nil => exact .inl ⟨rfl, nofun⟩
  | cons first rest =>
    have hne : name ≠ [] := by
      rintro rfl
      cases hv
    dsimp only
    split_ifs with hnum
    · exact .inr ⟨rfl, hne⟩
    · refine .inl ⟨rfl, ?_⟩
      rintro c hc
      cases hc
      simpa using hnum

lemma fixed_newName (name : List Char) : Fixed (newName name) := by
  rcases newName_eq name with ⟨heq, hhead⟩ | ⟨heq, -⟩
  · rw [heq]
    exact ⟨fun c hc => isKept_of_mem_validChars hc, hhead⟩
  · rw [heq]
    refine ⟨List.forall_mem_cons.2 ⟨isKept_underscore, fun c hc => isKept_of_mem_validChars hc⟩, ?_⟩
    rintro c hc
    cases hc
    exact isNumeric_underscore

lemma newName_eq_nil_iff : newName name = [] ↔ name = [] := by
  rcases newName_eq name with ⟨heq, -⟩ | ⟨heq, hne⟩
  · rw [heq, validChars, List.map_eq_nil_iff]
  · simp [heq, hne]

lemma mem_newName_iff (hne : c ≠ '_') : c ∈ newName name ↔ c ∈ name ∧ isKept c = true := by
  rw [← mem_validChars_iff hne]
  rcases newName_eq name with ⟨heq, -⟩ | ⟨heq, -⟩
  · rw [heq]
  · rw [heq, List.mem_cons, or_iff_right hne]

lemma fixName_eq (name : List Char) : fixName name = newName name ∨
    ∃ illegal ∈ illegalNames,
      fixName name = Text.replace illegal.1.toList illegal.2.toList (newName name) := by
  rw [fixName]
  cases hfind : illegalNames.find? fun (illegal, _) =>
      illegal.toList.isSuffixOf (newName name) with
  | none => exact .inl rfl
  | some illegal => exact .inr ⟨illegal, List.mem_of_find?_eq_some hfind, rfl⟩

lemma fixed_fixName (name : List Char) : Fixed (fixName name) := by
  rcases fixName_eq name with heq | ⟨illegal, hmem, heq⟩
  · rw [heq]
    exact fixed_newName name
  · rw [heq]
    exact (fixed_newName name).replace (isCIdentifier_of_mem_illegalNames _ hmem).2

lemma fixName_eq_nil_iff : fixName name = [] ↔ name = [] := by
  rcases fixName_eq name with heq | ⟨illegal, hmem, heq⟩
  · rw [heq, newName_eq_nil_iff]
  · have hnew := ne_nil_of_isCIdentifier (isCIdentifier_of_mem_illegalNames _ hmem).2
    rw [heq, Text.replace_eq_nil_iff hnew, newName_eq_nil_iff]

omit [UnicodeTables] in
lemma toNat_lt_of_isCIdentifier (h : isCIdentifier l = true) : ∀ c ∈ l, c.toNat < 128 := by
  let _ := latin1
  exact ((Fixed.of_isCIdentifier h).isCIdentifier_iff.1 h).2

/-- The characters of a fixed name are ASCII when the letters and digits of the name are. -/
lemma forall_mem_fixName_iff :
    (∀ c ∈ fixName name, c.toNat < 128) ↔
    ∀ c ∈ name, isAlphanumeric c = true → c.toNat < 128 := by
  constructor
  · intro hall c hc halnum
    by_contra hascii
    refine hascii (hall c ?_)
    have hne : c ≠ '_' := by
      rintro rfl
      exact hascii (by decide)
    have hnew : c ∈ newName name := (mem_newName_iff hne).2 ⟨hc, by simp [isKept, halnum]⟩
    rcases fixName_eq name with heq | ⟨illegal, hmem, heq⟩
    · rwa [heq]
    · -- the patterns that are replaced are ASCII
      have hpat := (isCIdentifier_of_mem_illegalNames _ hmem).1
      rw [heq]
      exact Text.mem_replace (ne_nil_of_isCIdentifier hpat)
        (fun hc => hascii (toNat_lt_of_isCIdentifier hpat c hc)) hnew
  · intro hall c hc
    have hnew : c ∈ newName name → c.toNat < 128 := by
      intro hc
      by_cases hne : c = '_'
      · subst hne
        decide
      · obtain ⟨hmem, hkept⟩ := (mem_newName_iff hne).1 hc
        simp only [isKept, Bool.or_eq_true, beq_iff_eq] at hkept
        rcases hkept with (halnum | hc) | rfl
        · exact hall c hmem halnum
        · exact absurd hc hne
        · decide
    rcases fixName_eq name with heq | ⟨illegal, hmem, heq⟩
    · exact hnew (heq ▸ hc)
    · rw [heq] at hc
      rcases Text.mem_of_mem_replace hc with hc | hc
      · exact toNat_lt_of_isCIdentifier (isCIdentifier_of_mem_illegalNames _ hmem).2 c hc
      · exact hnew hc

lemma Fixed.ne (h : Fixed l) (hascii : c.toNat < 128) (hc : isCIdentifierChar c = false) :
    ∀ d ∈ l, d ≠ c := by
  rintro d hd rfl
  have htrue := isCIdentifierChar_iff.2 ⟨h.kept d hd, hascii⟩
  rw [hc] at htrue
  cases htrue

variable {ext : List Char}

/-- A number after a name: nothing, or a C identifier. -/
lemma Fixed.append (h : Fixed l) (hext : ext = [] ∨ isCIdentifier ext = true) :
    Fixed (l ++ ext) := by
  rcases hext with rfl | hext
  · rwa [List.append_nil]
  · have hfixed := Fixed.of_isCIdentifier hext
    refine ⟨fun c hc => ?_, fun c hc => ?_⟩
    · rcases List.mem_append.1 hc with hc | hc
      · exact h.kept c hc
      · exact hfixed.kept c hc
    · cases l with
      | nil => exact hfixed.head c hc
      | cons d l => exact h.head c hc

lemma isCIdentifier_fixName_append_iff (hext : ext = [] ∨ isCIdentifier ext = true) :
    isCIdentifier (fixName name ++ ext) = true ↔
      (name ≠ [] ∨ ext ≠ []) ∧ ∀ c ∈ name, isAlphanumeric c = true → c.toNat < 128 := by
  have hascii : ∀ c ∈ ext, c.toNat < 128 := by
    rcases hext with rfl | hext
    · nofun
    · exact toNat_lt_of_isCIdentifier hext
  rw [((fixed_fixName name).append hext).isCIdentifier_iff, List.forall_mem_append,
    and_iff_left hascii, forall_mem_fixName_iff]
  simp only [ne_eq, List.append_eq_nil_iff, fixName_eq_nil_iff, not_and_or]

/-- A C identifier that does not end in a reserved word stays as it is. -/
lemma fixName_eq_self (h : isCIdentifier l = true)
    (hillegal : ∀ p ∈ illegalNames, p.1.toList.isSuffixOf l = false) :
    fixName l = l := by
  have hvalid : validChars l = l := by
    rw [validChars]
    refine (List.map_congr_left fun c hc => ?_).trans (List.map_id l)
    rw [if_pos ((Fixed.of_isCIdentifier h).kept c hc), id]
  have hnew : newName l = l := by
    rcases newName_eq l with ⟨hnew, -⟩ | ⟨hnew, -⟩
    · rw [hnew, hvalid]
    · cases l with
      | nil => simp [isCIdentifier] at h
      | cons c l =>
        have hc := (Fixed.of_isCIdentifier h).head c rfl
        simp [newName, hvalid, hc]
  rw [fixName, hnew]
  split
  · next illegal replacement hfind =>
    have hsome := List.find?_some hfind
    have hsuffix : illegal.toList.isSuffixOf l = true := hsome
    rw [hillegal _ (List.mem_of_find?_eq_some hfind)] at hsuffix
    cases hsuffix
  · rfl

end Rmc.GenC

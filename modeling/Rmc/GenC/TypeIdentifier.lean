import Rmc.GenC.NameTransformer
import Rmc.Goto.Transformer

/-!
# Identifiers of types

The generated C names functions and parameters after types (`Type::to_identifier`): a word for each
constructor, then its numbers and the identifiers of its parts. For types without tags the text can
be read back. A tag stands in the text as it is, so a type with tags can get the text of another
type, or a text that is no identifier.
-/

namespace Rmc

open GenC

/-! ### The text -/

def CIntType.debug : CIntType → String
  | .bool => "Bool"
  | .char => "Char"
  | .int => "Int"
  | .sizeT => "SizeT"
  | .sSizeT => "SSizeT"

mutual

/-- Generate a text that is meant to identify a type and to be a name. -/
def Typ.toIdentifier : Typ → String
  | .array typ size => "array_of_" ++ toString size ++ "_" ++ typ.toIdentifier
  | .bool => "bool"
  | .cBitField typ width => "cbitfield_of_" ++ toString width ++ "_" ++ typ.toIdentifier
  | .cInteger intKind => "c_int_" ++ intKind.debug
  | .code parameters returnType =>
    "code_from_" ++ parameterString parameters ++ "_to_" ++ returnType.toIdentifier
  | .constructor => "constructor"
  | .double => "double"
  | .empty => "empty"
  | .flexibleArray typ => "flexarray_of_" ++ typ.toIdentifier
  | .float => "float"
  | .incompleteStruct tag => tag
  | .incompleteUnion tag => tag
  | .infiniteArray typ => "infinite_array_of_" ++ typ.toIdentifier
  | .pointer typ => "pointer_to_" ++ typ.toIdentifier
  | .signedbv width => "signed_bv_" ++ toString width
  | .struct tag _ => "struct_" ++ tag
  | .structTag tag => "struct_tag_" ++ tag
  | .union tag _ => "union_" ++ tag
  | .unionTag tag => "union_tag_" ++ tag
  | .unsignedbv width => "unsigned_bv_" ++ toString width
  | .variadicCode parameters returnType =>
    "variadic_code_from_" ++ parameterString parameters ++ "_to_" ++ returnType.toIdentifier
  | .vector typ size => "vec_of_" ++ toString size ++ "_" ++ typ.toIdentifier

/-- The types of the parameters, with underscores between them. -/
def parameterString : List Parameter → String
  | [] => ""
  | .mk typ _ _ :: rest => typ.toIdentifier ++ moreParameters rest

def moreParameters : List Parameter → String
  | [] => ""
  | .mk typ _ _ :: rest => "_" ++ typ.toIdentifier ++ moreParameters rest

end

/-! ### What it is meant to tell apart -/

mutual

/-- A type without the names of parameters and without the components of aggregates. -/
def Typ.skeleton : Typ → Typ
  | .array typ size => .array typ.skeleton size
  | .cBitField typ width => .cBitField typ.skeleton width
  | .code parameters returnType => .code (skeletonOfParameters parameters) returnType.skeleton
  | .flexibleArray typ => .flexibleArray typ.skeleton
  | .infiniteArray typ => .infiniteArray typ.skeleton
  | .pointer typ => .pointer typ.skeleton
  | .struct tag _ => .struct tag []
  | .union tag _ => .union tag []
  | .variadicCode parameters returnType =>
    .variadicCode (skeletonOfParameters parameters) returnType.skeleton
  | .vector typ size => .vector typ.skeleton size
  | typ => typ

def skeletonOfParameters : List Parameter → List Parameter
  | [] => []
  | .mk typ _ _ :: rest => .mk typ.skeleton none none :: skeletonOfParameters rest

end

mutual

/-- The tags in the text of a type. -/
def Typ.tags : Typ → List String
  | .array typ _ => typ.tags
  | .cBitField typ _ => typ.tags
  | .code parameters returnType => tagsOfParameters parameters ++ returnType.tags
  | .flexibleArray typ => typ.tags
  | .incompleteStruct tag => [tag]
  | .incompleteUnion tag => [tag]
  | .infiniteArray typ => typ.tags
  | .pointer typ => typ.tags
  | .struct tag _ => [tag]
  | .structTag tag => [tag]
  | .union tag _ => [tag]
  | .unionTag tag => [tag]
  | .variadicCode parameters returnType => tagsOfParameters parameters ++ returnType.tags
  | .vector typ _ => typ.tags
  | _ => []

def tagsOfParameters : List Parameter → List String
  | [] => []
  | .mk typ _ _ :: rest => typ.tags ++ tagsOfParameters rest

end

/-- The reserved words of C. -/
def keywords : List String :=
  ["auto", "break", "case", "char", "const", "continue", "default", "do", "double", "else", "enum",
   "extern", "float", "for", "goto", "if", "inline", "int", "long", "register", "restrict",
   "return", "short", "signed", "sizeof", "static", "struct", "switch", "typedef", "union",
   "unsigned", "void", "volatile", "while", "_Alignas", "_Alignof", "_Atomic", "_Bool", "_Complex",
   "_Generic", "_Imaginary", "_Noreturn", "_Static_assert", "_Thread_local"]

/-- A name that a function can have in C. -/
def isFunctionName (s : String) : Bool := isCIdentifier s.toList && !keywords.contains s

/-! ### The words -/

/-- The word that the text of a type starts with. -/
def Typ.word : Typ → String
  | .array _ _ => "array_of_"
  | .bool => "bool"
  | .cBitField _ _ => "cbitfield_of_"
  | .cInteger _ => "c_int_"
  | .code _ _ => "code_from_"
  | .constructor => "constructor"
  | .double => "double"
  | .empty => "empty"
  | .flexibleArray _ => "flexarray_of_"
  | .float => "float"
  | .incompleteStruct _ => ""
  | .incompleteUnion _ => ""
  | .infiniteArray _ => "infinite_array_of_"
  | .pointer _ => "pointer_to_"
  | .signedbv _ => "signed_bv_"
  | .struct _ _ => "struct_"
  | .structTag _ => "struct_tag_"
  | .union _ _ => "union_"
  | .unionTag _ => "union_tag_"
  | .unsignedbv _ => "unsigned_bv_"
  | .variadicCode _ _ => "variadic_code_from_"
  | .vector _ _ => "vec_of_"

/-- The text after the word. -/
def Typ.afterWord : Typ → List Char
  | .array typ size | .cBitField typ size | .vector typ size =>
    Nat.toDigits 10 size ++ '_' :: typ.toIdentifier.toList
  | .cInteger intKind => intKind.debug.toList
  | .code parameters returnType | .variadicCode parameters returnType =>
    (parameterString parameters).toList ++ ("_to_".toList ++ returnType.toIdentifier.toList)
  | .flexibleArray typ | .infiniteArray typ | .pointer typ => typ.toIdentifier.toList
  | .incompleteStruct tag | .incompleteUnion tag | .struct tag _ | .structTag tag | .union tag _
  | .unionTag tag => tag.toList
  | .signedbv width | .unsignedbv width => Nat.toDigits 10 width
  | .bool | .constructor | .double | .empty | .float => []

lemma Typ.toList_toIdentifier (t : Typ) :
    t.toIdentifier.toList = t.word.toList ++ t.afterWord := by
  have hnumber : ∀ (w : String) (n : ℕ) (t : Typ),
      (w ++ toString n ++ "_" ++ t.toIdentifier).toList =
        w.toList ++ (Nat.toDigits 10 n ++ '_' :: t.toIdentifier.toList) := by
    intro w n t
    simp only [String.toList_append, Nat.toString_eq_ofList_toDigits, String.toList_ofList,
      List.append_assoc]
    rfl
  have hcode : ∀ (w : String) (ps : List Parameter) (t : Typ),
      (w ++ parameterString ps ++ "_to_" ++ t.toIdentifier).toList =
        w.toList ++ ((parameterString ps).toList ++ ("_to_".toList ++ t.toIdentifier.toList)) := by
    intro w ps t
    simp only [String.toList_append, List.append_assoc]
  have hwidth : ∀ (w : String) (n : ℕ),
      (w ++ toString n).toList = w.toList ++ Nat.toDigits 10 n := by
    intro w n
    simp only [String.toList_append, Nat.toString_eq_ofList_toDigits, String.toList_ofList]
  rw [Typ.word.eq_def, Typ.afterWord.eq_def]
  cases t with
  | array t n | cBitField t n | vector t n => exact hnumber _ n t
  | code ps r | variadicCode ps r => exact hcode _ ps r
  | signedbv w | unsignedbv w => exact hwidth _ w
  | bool | constructor | double | empty | float => exact (List.append_nil _).symm
  | incompleteStruct | incompleteUnion => rfl
  | _ => exact String.toList_append

/-- The words of types without tags. -/
def words : List String :=
  ["array_of_", "bool", "cbitfield_of_", "c_int_", "code_from_", "constructor", "double", "empty",
   "flexarray_of_", "float", "infinite_array_of_", "pointer_to_", "signed_bv_", "unsigned_bv_",
   "variadic_code_from_", "vec_of_"]

lemma Typ.word_mem_words {t : Typ} (h : t.tags = []) : t.word ∈ words := by
  cases t with
  | incompleteStruct | incompleteUnion | struct | structTag | union | unionTag => cases h
  | _ => simp [Typ.word, words]

lemma words_prefixFree : ∀ w ∈ words, ∀ w' ∈ words, w.toList <+: w'.toList → w = w' := by
  decide

/-- Types without tags that start the same text have one word. -/
lemma Typ.word_eq_of_append_eq {t₁ t₂ : Typ} (h₁ : t₁.tags = []) (h₂ : t₂.tags = [])
    {r₁ r₂ : List Char} (h : t₁.toIdentifier.toList ++ r₁ = t₂.toIdentifier.toList ++ r₂) :
    t₁.word = t₂.word ∧ t₁.afterWord ++ r₁ = t₂.afterWord ++ r₂ := by
  rw [Typ.toList_toIdentifier, Typ.toList_toIdentifier, List.append_assoc, List.append_assoc] at h
  have hword : t₁.word = t₂.word := by
    have hpre₁ : t₁.word.toList <+: t₁.word.toList ++ (t₁.afterWord ++ r₁) := List.prefix_append _ _
    have hpre₂ : t₂.word.toList <+: t₁.word.toList ++ (t₁.afterWord ++ r₁) :=
      h ▸ List.prefix_append _ _
    rcases List.prefix_or_prefix_of_prefix hpre₁ hpre₂ with hpre | hpre
    · exact words_prefixFree _ (Typ.word_mem_words h₁) _ (Typ.word_mem_words h₂) hpre
    · exact (words_prefixFree _ (Typ.word_mem_words h₂) _ (Typ.word_mem_words h₁) hpre).symm
  rw [hword] at h
  exact ⟨hword, List.append_cancel_left h⟩

/-- The first character of a word is neither an underscore nor the one of `to`. -/
lemma Typ.toList_toIdentifier_ne {t : Typ} (h : t.tags = []) {c : Char} (hc : c = '_' ∨ c = 't')
    (l r : List Char) : t.toIdentifier.toList ++ l ≠ c :: r := by
  have hall : ∀ w ∈ words, ∀ d ∈ w.toList.head?, d ≠ '_' ∧ d ≠ 't' := by simp [words]
  have hne : ∀ w ∈ words, w.toList ≠ [] := by decide
  intro heq
  rw [Typ.toList_toIdentifier] at heq
  obtain ⟨d, rest, hd⟩ := List.exists_cons_of_ne_nil (hne _ (Typ.word_mem_words h))
  have hd' := hall _ (Typ.word_mem_words h) d (by rw [hd]; rfl)
  rw [hd, List.cons_append, List.cons_append, List.cons.injEq] at heq
  rcases hc with rfl | rfl
  · exact hd'.1 heq.1
  · exact hd'.2 heq.1

/-! ### Reading the text back -/

/-- What may follow the text of a type. -/
def Stops (r : List Char) : Prop := ∀ c ∈ r.head?, c = '_'

lemma Stops.isDigit {r : List Char} (h : Stops r) : ∀ c ∈ r.head?, c.isDigit = false := by
  intro c hc
  rw [h c hc]
  rfl

lemma stops_underscore (r : List Char) : Stops ('_' :: r) := by
  intro c hc
  cases hc
  rfl

lemma stops_moreParameters (ps : List Parameter) (r : List Char) :
    Stops ((moreParameters ps).toList ++ ("_to_".toList ++ r)) := by
  cases ps with
  | nil => exact stops_underscore _
  | cons p ps =>
    obtain ⟨t, i, b⟩ := p
    simp only [moreParameters, String.toList_append, List.append_assoc]
    exact stops_underscore _

lemma CIntType.eq_of_append_eq {k k' : CIntType} {r r' : List Char}
    (h : k.debug.toList ++ r = k'.debug.toList ++ r') : k = k' ∧ r = r' := by
  cases k <;> cases k' <;> simp_all [CIntType.debug]

lemma number_eq_of_append_eq {m n : ℕ} {l l' r r' : List Char}
    (h : (Nat.toDigits 10 m ++ '_' :: l) ++ r = (Nat.toDigits 10 n ++ '_' :: l') ++ r') :
    m = n ∧ l ++ r = l' ++ r' := by
  rw [List.append_assoc, List.append_assoc] at h
  obtain ⟨hmn, hrest⟩ := Numeral.toDigits_append_inj (stops_underscore _).isDigit
    (stops_underscore _).isDigit h
  exact ⟨hmn, (List.cons.inj hrest).2⟩

mutual

/-- The text of a type without tags can be read back, up to the names of parameters. -/
lemma Typ.skeleton_eq_of_append_eq (t₁ t₂ : Typ) (h₁ : t₁.tags = []) (h₂ : t₂.tags = [])
    {r₁ r₂ : List Char} (hr₁ : Stops r₁) (hr₂ : Stops r₂)
    (h : t₁.toIdentifier.toList ++ r₁ = t₂.toIdentifier.toList ++ r₂) :
    t₁.skeleton = t₂.skeleton ∧ r₁ = r₂ := by
  obtain ⟨hword, hafter⟩ := Typ.word_eq_of_append_eq h₁ h₂ h
  cases t₁ with
  | array t n =>
    cases t₂ with
    | array t' n' =>
      obtain ⟨rfl, hrest⟩ := number_eq_of_append_eq hafter
      obtain ⟨hs, hr⟩ := Typ.skeleton_eq_of_append_eq t t' h₁ h₂ hr₁ hr₂ hrest
      exact ⟨by rw [Typ.skeleton, Typ.skeleton, hs], hr⟩
    | _ => simp [Typ.word] at hword
  | cBitField t n =>
    cases t₂ with
    | cBitField t' n' =>
      obtain ⟨rfl, hrest⟩ := number_eq_of_append_eq hafter
      obtain ⟨hs, hr⟩ := Typ.skeleton_eq_of_append_eq t t' h₁ h₂ hr₁ hr₂ hrest
      exact ⟨by rw [Typ.skeleton, Typ.skeleton, hs], hr⟩
    | _ => simp [Typ.word] at hword
  | vector t n =>
    cases t₂ with
    | vector t' n' =>
      obtain ⟨rfl, hrest⟩ := number_eq_of_append_eq hafter
      obtain ⟨hs, hr⟩ := Typ.skeleton_eq_of_append_eq t t' h₁ h₂ hr₁ hr₂ hrest
      exact ⟨by rw [Typ.skeleton, Typ.skeleton, hs], hr⟩
    | _ => simp [Typ.word] at hword
  | flexibleArray t =>
    cases t₂ with
    | flexibleArray t' =>
      obtain ⟨hs, hr⟩ := Typ.skeleton_eq_of_append_eq t t' h₁ h₂ hr₁ hr₂ hafter
      exact ⟨by rw [Typ.skeleton, Typ.skeleton, hs], hr⟩
    | _ => simp [Typ.word] at hword
  | infiniteArray t =>
    cases t₂ with
    | infiniteArray t' =>
      obtain ⟨hs, hr⟩ := Typ.skeleton_eq_of_append_eq t t' h₁ h₂ hr₁ hr₂ hafter
      exact ⟨by rw [Typ.skeleton, Typ.skeleton, hs], hr⟩
    | _ => simp [Typ.word] at hword
  | pointer t =>
    cases t₂ with
    | pointer t' =>
      obtain ⟨hs, hr⟩ := Typ.skeleton_eq_of_append_eq t t' h₁ h₂ hr₁ hr₂ hafter
      exact ⟨by rw [Typ.skeleton, Typ.skeleton, hs], hr⟩
    | _ => simp [Typ.word] at hword
  | bool =>
    cases t₂ with
    | bool => exact ⟨rfl, hafter⟩
    | _ => simp [Typ.word] at hword
  | constructor =>
    cases t₂ with
    | constructor => exact ⟨rfl, hafter⟩
    | _ => simp [Typ.word] at hword
  | double =>
    cases t₂ with
    | double => exact ⟨rfl, hafter⟩
    | _ => simp [Typ.word] at hword
  | empty =>
    cases t₂ with
    | empty => exact ⟨rfl, hafter⟩
    | _ => simp [Typ.word] at hword
  | float =>
    cases t₂ with
    | float => exact ⟨rfl, hafter⟩
    | _ => simp [Typ.word] at hword
  | signedbv w =>
    cases t₂ with
    | signedbv w' =>
      obtain ⟨rfl, hr⟩ := Numeral.toDigits_append_inj hr₁.isDigit hr₂.isDigit hafter
      exact ⟨rfl, hr⟩
    | _ => simp [Typ.word] at hword
  | unsignedbv w =>
    cases t₂ with
    | unsignedbv w' =>
      obtain ⟨rfl, hr⟩ := Numeral.toDigits_append_inj hr₁.isDigit hr₂.isDigit hafter
      exact ⟨rfl, hr⟩
    | _ => simp [Typ.word] at hword
  | code ps t =>
    cases t₂ with
    | code ps' t' =>
      obtain ⟨hps₁, ht₁⟩ := List.append_eq_nil_iff.1 h₁
      obtain ⟨hps₂, ht₂⟩ := List.append_eq_nil_iff.1 h₂
      obtain ⟨hps, hrest⟩ := parameterString_eq_of_append_eq ps ps' hps₁ hps₂
        (by simpa only [Typ.afterWord, List.append_assoc] using hafter)
      obtain ⟨hs, hr⟩ := Typ.skeleton_eq_of_append_eq t t' ht₁ ht₂ hr₁ hr₂ hrest
      exact ⟨by rw [Typ.skeleton, Typ.skeleton, hps, hs], hr⟩
    | _ => simp [Typ.word] at hword
  | variadicCode ps t =>
    cases t₂ with
    | variadicCode ps' t' =>
      obtain ⟨hps₁, ht₁⟩ := List.append_eq_nil_iff.1 h₁
      obtain ⟨hps₂, ht₂⟩ := List.append_eq_nil_iff.1 h₂
      obtain ⟨hps, hrest⟩ := parameterString_eq_of_append_eq ps ps' hps₁ hps₂
        (by simpa only [Typ.afterWord, List.append_assoc] using hafter)
      obtain ⟨hs, hr⟩ := Typ.skeleton_eq_of_append_eq t t' ht₁ ht₂ hr₁ hr₂ hrest
      exact ⟨by rw [Typ.skeleton, Typ.skeleton, hps, hs], hr⟩
    | _ => simp [Typ.word] at hword
  | cInteger k =>
    cases t₂ with
    | cInteger k' =>
      obtain ⟨rfl, hr⟩ := CIntType.eq_of_append_eq hafter
      exact ⟨rfl, hr⟩
    | _ => simp [Typ.word] at hword
  | incompleteStruct | incompleteUnion | struct | structTag | union | unionTag => cases h₁
termination_by structural t₁

/-- The parameters end where no underscore and type follow. -/
lemma parameterString_eq_of_append_eq (ps₁ ps₂ : List Parameter)
    (h₁ : tagsOfParameters ps₁ = []) (h₂ : tagsOfParameters ps₂ = []) {r₁ r₂ : List Char}
    (h : (parameterString ps₁).toList ++ ("_to_".toList ++ r₁) =
      (parameterString ps₂).toList ++ ("_to_".toList ++ r₂)) :
    skeletonOfParameters ps₁ = skeletonOfParameters ps₂ ∧ r₁ = r₂ := by
  rcases ps₁ with _ | ⟨⟨t, i, b⟩, ps⟩ <;> rcases ps₂ with _ | ⟨⟨t', i', b'⟩, ps'⟩
  · exact ⟨rfl, List.append_cancel_left h⟩
  · rw [tagsOfParameters, List.append_eq_nil_iff] at h₂
    simp only [parameterString, String.toList_append, List.append_assoc] at h
    exact absurd h.symm (Typ.toList_toIdentifier_ne h₂.1 (.inl rfl) _ _)
  · rw [tagsOfParameters, List.append_eq_nil_iff] at h₁
    simp only [parameterString, String.toList_append, List.append_assoc] at h
    exact absurd h (Typ.toList_toIdentifier_ne h₁.1 (.inl rfl) _ _)
  · rw [tagsOfParameters, List.append_eq_nil_iff] at h₁ h₂
    simp only [parameterString, String.toList_append, List.append_assoc] at h
    obtain ⟨ht, hrest⟩ := Typ.skeleton_eq_of_append_eq t t' h₁.1 h₂.1
      (stops_moreParameters ps r₁) (stops_moreParameters ps' r₂) h
    obtain ⟨hps, hr⟩ := moreParameters_eq_of_append_eq ps ps' h₁.2 h₂.2 hrest
    exact ⟨by rw [skeletonOfParameters, skeletonOfParameters, ht, hps], hr⟩
termination_by structural ps₁

lemma moreParameters_eq_of_append_eq (ps₁ ps₂ : List Parameter)
    (h₁ : tagsOfParameters ps₁ = []) (h₂ : tagsOfParameters ps₂ = []) {r₁ r₂ : List Char}
    (h : (moreParameters ps₁).toList ++ ("_to_".toList ++ r₁) =
      (moreParameters ps₂).toList ++ ("_to_".toList ++ r₂)) :
    skeletonOfParameters ps₁ = skeletonOfParameters ps₂ ∧ r₁ = r₂ := by
  rcases ps₁ with _ | ⟨⟨t, i, b⟩, ps⟩ <;> rcases ps₂ with _ | ⟨⟨t', i', b'⟩, ps'⟩
  · exact ⟨rfl, List.append_cancel_left h⟩
  · rw [tagsOfParameters, List.append_eq_nil_iff] at h₂
    simp only [moreParameters, String.toList_append, List.append_assoc] at h
    exact absurd (List.cons.inj h).2.symm (Typ.toList_toIdentifier_ne h₂.1 (.inr rfl) _ _)
  · rw [tagsOfParameters, List.append_eq_nil_iff] at h₁
    simp only [moreParameters, String.toList_append, List.append_assoc] at h
    exact absurd (List.cons.inj h).2 (Typ.toList_toIdentifier_ne h₁.1 (.inr rfl) _ _)
  · rw [tagsOfParameters, List.append_eq_nil_iff] at h₁ h₂
    simp only [moreParameters, String.toList_append, List.append_assoc] at h
    obtain ⟨ht, hrest⟩ := Typ.skeleton_eq_of_append_eq t t' h₁.1 h₂.1
      (stops_moreParameters ps r₁) (stops_moreParameters ps' r₂) (List.append_cancel_left h)
    obtain ⟨hps, hr⟩ := moreParameters_eq_of_append_eq ps ps' h₁.2 h₂.2 hrest
    exact ⟨by rw [skeletonOfParameters, skeletonOfParameters, ht, hps], hr⟩
termination_by structural ps₁

end

/-! ### Texts that are names -/

/-- The words of types with a tag. -/
def tagWords : List String := ["", "struct_", "struct_tag_", "union_", "union_tag_"]

lemma Typ.word_mem (t : Typ) : t.word ∈ words ++ tagWords := by
  cases t <;> simp [Typ.word, words, tagWords]

lemma Typ.isCIdentifierChar_word (t : Typ) : ∀ c ∈ t.word.toList, isCIdentifierChar c = true := by
  have hall : ∀ w ∈ words ++ tagWords, ∀ c ∈ w.toList, isCIdentifierChar c = true := by
    simp only [← List.all_eq_true]
    decide
  exact hall _ t.word_mem

lemma isCIdentifierChar_toDigits (n : ℕ) : ∀ c ∈ Nat.toDigits 10 n, isCIdentifierChar c = true := by
  intro c hc
  have hdigit := Nat.isDigit_of_mem_toDigits (by decide) (by decide) hc
  simp [isCIdentifierChar, Char.isAlphanum, hdigit]

/-- The text after the word decides. -/
lemma Typ.forall_mem_toIdentifier (t : Typ) :
    (∀ c ∈ t.toIdentifier.toList, isCIdentifierChar c = true) ↔
      ∀ c ∈ t.afterWord, isCIdentifierChar c = true := by
  rw [Typ.toList_toIdentifier, List.forall_mem_append, and_iff_right t.isCIdentifierChar_word]

/-- The tags in a text have only characters of C identifiers. -/
def PlainTags (tags : List String) : Prop :=
  ∀ tag ∈ tags, ∀ c ∈ tag.toList, isCIdentifierChar c = true

lemma plainTags_singleton {tag : String} :
    PlainTags [tag] ↔ ∀ c ∈ tag.toList, isCIdentifierChar c = true :=
  List.forall_mem_singleton

lemma plainTags_append {l r : List String} : PlainTags (l ++ r) ↔ PlainTags l ∧ PlainTags r :=
  List.forall_mem_append

mutual

/-- A text has only characters of C identifiers when its tags do. -/
lemma Typ.forall_mem_toIdentifier_iff (t : Typ) :
    (∀ c ∈ t.toIdentifier.toList, isCIdentifierChar c = true) ↔ PlainTags t.tags := by
  rw [Typ.forall_mem_toIdentifier]
  cases t with
  | array t n | cBitField t n | vector t n =>
    rw [Typ.afterWord, List.forall_mem_append, and_iff_right (isCIdentifierChar_toDigits n),
      List.forall_mem_cons, and_iff_right (by decide)]
    exact t.forall_mem_toIdentifier_iff
  | code ps t | variadicCode ps t =>
    have hto : ∀ c ∈ "_to_".toList, isCIdentifierChar c = true :=
      List.all_eq_true.mp (by decide)
    rw [Typ.afterWord, List.forall_mem_append, List.forall_mem_append, and_iff_right hto, Typ.tags,
      plainTags_append, forall_mem_parameterString_iff ps, t.forall_mem_toIdentifier_iff]
  | flexibleArray t | infiniteArray t | pointer t => exact t.forall_mem_toIdentifier_iff
  | signedbv w | unsignedbv w => exact iff_of_true (isCIdentifierChar_toDigits w) nofun
  | cInteger k =>
    cases k
    all_goals exact iff_of_true (List.all_eq_true.mp (by decide)) nofun
  | bool | constructor | double | empty | float => exact iff_of_true nofun nofun
  | _ => exact plainTags_singleton.symm
termination_by structural t

lemma forall_mem_parameterString_iff (ps : List Parameter) :
    (∀ c ∈ (parameterString ps).toList, isCIdentifierChar c = true) ↔
      PlainTags (tagsOfParameters ps) := by
  rcases ps with _ | ⟨⟨t, i, b⟩, ps⟩
  · exact iff_of_true nofun nofun
  · rw [parameterString, tagsOfParameters, String.toList_append, List.forall_mem_append,
      t.forall_mem_toIdentifier_iff, forall_mem_moreParameters_iff ps, plainTags_append]
termination_by structural ps

lemma forall_mem_moreParameters_iff (ps : List Parameter) :
    (∀ c ∈ (moreParameters ps).toList, isCIdentifierChar c = true) ↔
      PlainTags (tagsOfParameters ps) := by
  rcases ps with _ | ⟨⟨t, i, b⟩, ps⟩
  · exact iff_of_true nofun nofun
  · have hsep : ∀ c ∈ "_".toList, isCIdentifierChar c = true :=
      List.all_eq_true.mp (by decide)
    rw [moreParameters, tagsOfParameters, String.toList_append, String.toList_append,
      List.forall_mem_append, List.forall_mem_append, and_iff_right hsep,
      t.forall_mem_toIdentifier_iff, forall_mem_moreParameters_iff ps, plainTags_append]
termination_by structural ps

end

/-- The types whose text is a name: their tags are plain, they are not called by a reserved word,
and an incomplete type has a tag that is a name. -/
structure Typ.Nameable (t : Typ) : Prop where
  tags : PlainTags t.tags
  double : t ≠ .double
  float : t ≠ .float
  incomplete : ∀ tag, t = .incompleteStruct tag ∨ t = .incompleteUnion tag →
    isFunctionName tag = true

/-- A text that starts with a word is an identifier when its characters are. -/
lemma Typ.isCIdentifier_iff {t : Typ} (hword : t.word ≠ "") :
    isCIdentifier t.toIdentifier.toList = true ↔ PlainTags t.tags := by
  rw [← t.forall_mem_toIdentifier_iff]
  have hall : ∀ w ∈ words ++ tagWords, ∀ c ∈ w.toList.head?, c.isDigit = false := by
    simp [words, tagWords]
  have hhead := hall _ t.word_mem
  have hne : t.word.toList ≠ [] := fun hnil => hword (String.toList_injective hnil)
  obtain ⟨c, w, hw⟩ := List.exists_cons_of_ne_nil hne
  rw [hw] at hhead
  rw [Typ.toList_toIdentifier, hw, List.cons_append, isCIdentifier_cons,
    and_iff_right (hhead c rfl)]

/-- No reserved word starts with the word of a type, but for the two that are types. -/
lemma Typ.toIdentifier_notMem_keywords {t : Typ} (hword : t.word ≠ "") (hdouble : t ≠ .double)
    (hfloat : t ≠ .float) : t.toIdentifier ∉ keywords := by
  have hall : ∀ k ∈ keywords, ∀ w ∈ words ++ tagWords, w.toList <+: k.toList →
      w = "" ∨ w = "double" ∨ w = "float" := by
    decide +kernel
  intro hmem
  have hpre : t.word.toList <+: t.toIdentifier.toList :=
    t.toList_toIdentifier ▸ List.prefix_append _ _
  rcases hall _ hmem _ t.word_mem hpre with h | h | h
  · exact hword h
  · cases t with
    | double => exact hdouble rfl
    | _ => simp [Typ.word] at h
  · cases t with
    | float => exact hfloat rfl
    | _ => simp [Typ.word] at h

lemma plainTags_of_isFunctionName {tag : String} (h : isFunctionName tag = true) :
    PlainTags [tag] := by
  rw [isFunctionName, Bool.and_eq_true] at h
  rw [plainTags_singleton]
  cases hl : tag.toList with
  | nil => nofun
  | cons c l => exact (isCIdentifier_cons.1 (hl ▸ h.1)).2

/-- The text of a type is a name exactly when the type is nameable. -/
lemma Typ.isFunctionName_iff (t : Typ) : isFunctionName t.toIdentifier = true ↔ t.Nameable := by
  by_cases hword : t.word = ""
  · -- the text of an incomplete type is its tag
    have htag : ∃ tag, (t = .incompleteStruct tag ∨ t = .incompleteUnion tag) ∧
        t.toIdentifier = tag ∧ t.tags = [tag] := by
      cases t with
      | incompleteStruct tag => exact ⟨tag, .inl rfl, rfl, rfl⟩
      | incompleteUnion tag => exact ⟨tag, .inr rfl, rfl, rfl⟩
      | _ => simp [Typ.word] at hword
    obtain ⟨tag, ht, hid, htags⟩ := htag
    rw [hid]
    constructor
    · intro h
      refine ⟨htags ▸ plainTags_of_isFunctionName h, ?_, ?_, ?_⟩
      · rintro rfl
        simp at ht
      · rintro rfl
        simp at ht
      · intro tag' ht'
        have hsame : tag' = tag := by
          rcases ht with rfl | rfl <;> simpa [eq_comm] using ht'
        exact hsame ▸ h
    · exact fun h => h.incomplete tag ht
  · rw [isFunctionName, Bool.and_eq_true, Typ.isCIdentifier_iff hword, Bool.not_eq_true',
      List.contains_eq_mem, decide_eq_false_iff_not]
    constructor
    · rintro ⟨htags, hkey⟩
      refine ⟨htags, ?_, ?_, ?_⟩
      · rintro rfl
        exact hkey (by decide)
      · rintro rfl
        exact hkey (by decide)
      · rintro tag (rfl | rfl)
        · exact absurd rfl hword
        · exact absurd rfl hword
    · rintro ⟨htags, hdouble, hfloat, -⟩
      exact ⟨htags, Typ.toIdentifier_notMem_keywords hword hdouble hfloat⟩

/-- The text tells all types apart whose tags are from a set exactly when that set is empty, and it
is a name exactly when the type is nameable. -/
theorem Typ.toIdentifier_identifies_iff (T : Set String) (t : Typ) :
    ((∀ t₁ t₂ : Typ, t₁.Composed → t₂.Composed → (∀ tag ∈ t₁.tags, tag ∈ T) →
        (∀ tag ∈ t₂.tags, tag ∈ T) → t₁.toIdentifier = t₂.toIdentifier →
        t₁.skeleton = t₂.skeleton) ↔ T = ∅) ∧
      (isFunctionName t.toIdentifier = true ↔ t.Nameable) := by
  refine ⟨⟨fun h => ?_, ?_⟩, Typ.isFunctionName_iff t⟩
  · -- a tag makes an incomplete struct and an incomplete union of one text
    by_contra hne
    obtain ⟨tag, htag⟩ := Set.nonempty_iff_ne_empty.2 hne
    have hmem : ∀ tag' ∈ [tag], tag' ∈ T := List.forall_mem_singleton.2 htag
    have hsame := h (.incompleteStruct tag) (.incompleteUnion tag) .incompleteStruct
      .incompleteUnion hmem hmem rfl
    cases hsame
  · rintro rfl t₁ t₂ - - h₁ h₂ heq
    have hstops : Stops [] := nofun
    refine (Typ.skeleton_eq_of_append_eq t₁ t₂ (List.eq_nil_iff_forall_not_mem.2 h₁)
      (List.eq_nil_iff_forall_not_mem.2 h₂) hstops hstops ?_).1
    rw [heq]

/-- An incomplete struct called `bool` has the text of the boolean type, and the text of the
floating point type is a reserved word. -/
theorem Typ.toIdentifier_incompleteStruct_bool :
    (Typ.incompleteStruct "bool").Composed ∧ Typ.bool.Composed ∧
      (Typ.incompleteStruct "bool").toIdentifier = Typ.bool.toIdentifier ∧
      (Typ.incompleteStruct "bool").skeleton ≠ Typ.bool.skeleton ∧
    Typ.double.Composed ∧ isFunctionName Typ.double.toIdentifier = false ∧
    (Typ.structTag "tag-Point").Composed ∧
      isFunctionName (Typ.structTag "tag-Point").toIdentifier = false :=
  ⟨.incompleteStruct, .bool, rfl, nofun, .double, by decide, .structTagRaw, by decide⟩

end Rmc

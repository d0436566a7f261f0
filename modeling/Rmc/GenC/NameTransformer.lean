import Mathlib.Data.Bool.AllAny
import Mathlib.Data.List.TakeWhile
import Rmc.GenC.FixName
import Rmc.Lib.FreshName
import Rmc.Lib.Numeral

/-!
# Names in generated C

The names of a program are made into C identifiers (`name_transformer.rs`). The transformer
remembers what each name became and which results are in use; a result that is in use gets the
first free number as a suffix. So names are mapped one to one, whatever is asked in whatever order,
as long as the number does not overflow.

A result is a tag, the name of a function and the name of a variable, of which only the middle one
is always there.
-/

namespace Rmc.GenC

variable [UnicodeTables]

structure NameTransformer where
  mappedNames : List (String × String)
  usedNames : Finset String

/-- The tag of a name, and the rest. -/
def splitTag (origName : List Char) : List Char × List Char :=
  if "tag-".toList.isPrefixOf origName then (origName.take 4, origName.drop 4) else ([], origName)

/-- The name of a function, and of a variable in it. -/
def splitVariable (name : List Char) : Option (List Char × Option (List Char)) :=
  match Text.split "::1::".toList name with
  | [name] => some (name, none)
  | [name, suffix] => some (name, some suffix)
  | _ => none

/-- The result that a name gets unless it is in use. -/
def fixIdentifier (tag name : List Char) (suffix : Option (List Char)) : List Char :=
  let withPrefix := tag ++ fixName name
  match suffix with
  | none => withPrefix
  | some suffix => withPrefix ++ ("::".toList ++ fixName suffix)

def numbered (result : String) (suffix : ℕ) : String := result ++ "_" ++ toString suffix

namespace NameTransformer

def new : NameTransformer := ⟨[], ∅⟩

/-- The numbers from zero on that are `i32` values. Counting past them overflows. -/
def suffixLimit : ℕ := 2 ^ 31

/-- Convert a name. The loop panics when the number overflows. -/
def normalizeIdentifier (self : NameTransformer) (origName : String) :
    Option (String × NameTransformer) := do
  guard (origName ≠ "")
  match self.mappedNames.lookup origName with
  | some result => return (result, self)
  | none =>
    let (tag, name) := splitTag origName.toList
    let (name, suffix) ← splitVariable name
    let result := String.ofList (fixIdentifier tag name suffix)
    let result ←
      if result ∈ self.usedNames then
        FreshName.search self.usedNames (numbered result) suffixLimit 0
      else some result
    return (result, ⟨(origName, result) :: self.mappedNames, insert result self.usedNames⟩)

/-- Convert names one after the other. -/
def normalizeIdentifiers (self : NameTransformer) :
    List String → Option (List String × NameTransformer)
  | [] => some ([], self)
  | origName :: rest => do
    let (result, self) ← self.normalizeIdentifier origName
    let (results, self) ← self.normalizeIdentifiers rest
    return (result :: results, self)

end NameTransformer

/-! ### Calls -/

omit [UnicodeTables] in
lemma numbered_injective (result : String) : Function.Injective (numbered result) := by
  intro i j h
  have hlist := congrArg String.toList h
  simp only [numbered, String.toList_append] at hlist
  have hdigits : Nat.toDigits 10 i = Nat.toDigits 10 j := by
    simpa [Nat.toString_eq_ofList_toDigits] using List.append_cancel_left hlist
  exact Numeral.toDigits_injective hdigits

/-- An identifier has at most one separator between function and variable. -/
def AtMostOneSeparator (origName : String) : Prop :=
  (Text.split "::1::".toList origName.toList).length ≤ 2

instance (origName : String) : Decidable (AtMostOneSeparator origName) := Nat.decLe _ _

omit [UnicodeTables] in
/-- The tag has no part of a separator. -/
lemma length_split_splitTag (l : List Char) :
    (Text.split "::1::".toList (splitTag l).2).length = (Text.split "::1::".toList l).length := by
  unfold splitTag
  split_ifs with htag
  · have happend := List.prefix_iff_eq_append.1 (List.isPrefixOf_iff_prefix.1 htag)
    have hlength : (Text.split "::1::".toList ("tag-".toList ++ l.drop 4)).length =
        (Text.split "::1::".toList (l.drop 4)).length :=
      Text.length_split_append (List.all_iff_forall_prop.mp (by decide))
    rw [← happend]
    exact hlength.symm
  · rfl

variable {name : List Char}

omit [UnicodeTables] in
lemma exists_splitVariable_iff :
    (∃ parts, splitVariable name = some parts) ↔ (Text.split "::1::".toList name).length ≤ 2 := by
  have hne : Text.split "::1::".toList name ≠ [] := Text.splitFrom_ne_nil
  unfold splitVariable
  rcases hs : Text.split "::1::".toList name with _ | ⟨p, _ | ⟨q, _ | ⟨r, rest⟩⟩⟩
  · exact absurd hs hne
  · simp
  · simp
  · simp

variable {origName result : String} {names results : List String} {self self' : NameTransformer}
  {parts : List Char × Option (List Char)}

omit [UnicodeTables] in
lemma atMostOneSeparator_iff : AtMostOneSeparator origName ↔
    ∃ parts, splitVariable (splitTag origName.toList).2 = some parts := by
  rw [exists_splitVariable_iff, length_split_splitTag, AtMostOneSeparator]

namespace NameTransformer

/-- The result of a name, before it is known whether it is in use. -/
def base (origName : String) (parts : List Char × Option (List Char)) : String :=
  String.ofList (fixIdentifier (splitTag origName.toList).1 parts.1 parts.2)

/-- A result for the name can be found: if its base is in use, then not with every number. -/
def NumberLeft (used : Finset String) (origName : String) : Prop :=
  ∀ parts, splitVariable (splitTag origName.toList).2 = some parts →
    base origName parts ∈ used → ∃ k < suffixLimit, numbered (base origName parts) k ∉ used

/-- What a result of a new name is: its base if that is free, and otherwise its base and a
number. -/
def Results (used : Finset String) (origName result : String) : Prop :=
  result ∉ used ∧ ∃ parts, splitVariable (splitTag origName.toList).2 = some parts ∧
    (base origName parts ∉ used ∧ result = base origName parts ∨
      base origName parts ∈ used ∧ ∃ k, result = numbered (base origName parts) k)

lemma normalizeIdentifier_of_lookup_eq_some {r : String} (hne : origName ≠ "")
    (h : self.mappedNames.lookup origName = some r) :
    self.normalizeIdentifier origName = some (r, self) := by
  simp [normalizeIdentifier, hne, h]

/-- A call on a new name returns when a number is left for it. -/
lemma exists_normalizeIdentifier_iff (hne : origName ≠ "")
    (hnew : self.mappedNames.lookup origName = none)
    (hparts : splitVariable (splitTag origName.toList).2 = some parts) :
    (∃ x, self.normalizeIdentifier origName = some x) ↔ NumberLeft self.usedNames origName := by
  have hleft : NumberLeft self.usedNames origName ↔ (base origName parts ∈ self.usedNames →
      ∃ k < suffixLimit, numbered (base origName parts) k ∉ self.usedNames) := by
    refine ⟨fun h => h parts hparts, fun h parts' hparts' => ?_⟩
    rwa [← Option.some.inj (hparts.symm.trans hparts')]
  rw [hleft]
  by_cases hused : base origName parts ∈ self.usedNames
  · have hnone : self.normalizeIdentifier origName = none ↔
        FreshName.search self.usedNames (numbered (base origName parts)) suffixLimit 0 = none := by
      rw [base] at hused ⊢
      cases hsearch : FreshName.search self.usedNames (numbered (String.ofList _)) suffixLimit 0 <;>
        simp [normalizeIdentifier, hne, hnew, hparts, hused, hsearch]
    rw [← Option.ne_none_iff_exists', ne_eq, hnone, FreshName.search_eq_none_iff]
    simp [hused]
  · rw [base] at hused
    simp [normalizeIdentifier, hne, hnew, hparts, hused, base]

/-- A call that returns: the result is remembered already, or it is one of a new name. -/
lemma normalizeIdentifier_cases
    (h : self.normalizeIdentifier origName = some (result, self')) : origName ≠ "" ∧
    (self.mappedNames.lookup origName = some result ∧ self' = self ∨
      self.mappedNames.lookup origName = none ∧ Results self.usedNames origName result ∧
        self' = ⟨(origName, result) :: self.mappedNames, insert result self.usedNames⟩) := by
  have hne : origName ≠ "" := by
    rintro rfl
    simp [normalizeIdentifier] at h
  refine ⟨hne, ?_⟩
  cases hlookup : self.mappedNames.lookup origName with
  | some r =>
    rw [normalizeIdentifier_of_lookup_eq_some hne hlookup, Option.some.injEq, Prod.mk.injEq] at h
    exact .inl ⟨congrArg some h.1, h.2.symm⟩
  | none =>
    cases hparts : splitVariable (splitTag origName.toList).2 with
    | none => simp [normalizeIdentifier, hne, hlookup, hparts] at h
    | some parts =>
      refine .inr ⟨rfl, ?_⟩
      by_cases hused : base origName parts ∈ self.usedNames
      · have hused' := hused
        rw [base] at hused'
        simp only [normalizeIdentifier, hlookup, hparts, if_pos hused', some_bind, bind_eq_some,
          pure_eq_some, Prod.mk.injEq] at h
        obtain ⟨-, -, r, hsearch, rfl, rfl⟩ := h
        obtain ⟨k, -, hk, hunused, -⟩ := FreshName.search_eq_some hsearch
        exact ⟨⟨hunused, parts, hparts, .inr ⟨hused, k, hk.symm⟩⟩, rfl⟩
      · have hused' := hused
        rw [base] at hused'
        simp only [normalizeIdentifier, hlookup, hparts, if_neg hused', some_bind, bind_eq_some,
          pure_eq_some, Prod.mk.injEq] at h
        obtain ⟨-, -, rfl, rfl⟩ := h
        exact ⟨⟨hused, parts, hparts, .inl ⟨hused, rfl⟩⟩, rfl⟩

lemma normalizeIdentifiers_cons {n : String} :
    self.normalizeIdentifiers (n :: names) = some (results, self') ↔ ∃ r nt rs,
      self.normalizeIdentifier n = some (r, nt) ∧
      nt.normalizeIdentifiers names = some (rs, self') ∧ results = r :: rs := by
  simp only [normalizeIdentifiers, bind_eq_some, pure_eq_some, Prod.exists, Prod.mk.injEq]
  constructor
  · rintro ⟨r, nt, hfirst, rs, nt', hrest, rfl, rfl⟩
    exact ⟨r, nt, rs, hfirst, hrest, rfl⟩
  · rintro ⟨r, nt, rs, hfirst, hrest, rfl⟩
    exact ⟨r, nt, hfirst, rs, self', hrest, rfl, rfl⟩

lemma normalizeIdentifiers_append {names' : List String}
    (h : self.normalizeIdentifiers (names ++ names') = some (results, self')) :
    ∃ results₁ self₁ results₂, self.normalizeIdentifiers names = some (results₁, self₁) ∧
      self₁.normalizeIdentifiers names' = some (results₂, self') := by
  induction names generalizing self results with
  | nil => exact ⟨[], self, results, rfl, h⟩
  | cons n names ih =>
    rw [List.cons_append, normalizeIdentifiers_cons] at h
    obtain ⟨r, nt, rs, hfirst, hrest, -⟩ := h
    obtain ⟨results₁, self₁, results₂, h₁, h₂⟩ := ih hrest
    exact ⟨r :: results₁, self₁, results₂,
      normalizeIdentifiers_cons.mpr ⟨r, nt, results₁, hfirst, h₁, rfl⟩, h₂⟩

/-- A run of calls returns when each of them does. -/
lemma exists_normalizeIdentifiers_iff :
    (∃ results self', self.normalizeIdentifiers names = some (results, self')) ↔
      ∀ calls n rest, names = calls ++ n :: rest → ∀ results nt,
        self.normalizeIdentifiers calls = some (results, nt) →
        ∃ x, nt.normalizeIdentifier n = some x := by
  constructor
  · rintro ⟨results, self', hrun⟩ calls n rest rfl results₁ nt hcalls
    obtain ⟨_, nt', _, hcalls', hrest⟩ := normalizeIdentifiers_append hrun
    obtain ⟨-, rfl⟩ := Prod.mk.inj (Option.some.inj (hcalls.symm.trans hcalls'))
    obtain ⟨r, nt₂, -, hn, -⟩ := normalizeIdentifiers_cons.mp hrest
    exact ⟨_, hn⟩
  · intro h
    induction names generalizing self with
    | nil => exact ⟨[], self, rfl⟩
    | cons n names ih =>
      obtain ⟨⟨r, nt⟩, hfirst⟩ := h [] n names rfl [] self rfl
      have hrest : ∀ calls m rest, names = calls ++ m :: rest → ∀ results nt',
          nt.normalizeIdentifiers calls = some (results, nt') →
          ∃ x, nt'.normalizeIdentifier m = some x := by
        rintro calls m rest rfl results nt' hcalls
        exact h (n :: calls) m rest rfl (r :: results) nt'
          (normalizeIdentifiers_cons.mpr ⟨r, nt, results, hfirst, hcalls, rfl⟩)
      obtain ⟨results, self', hrun⟩ := ih hrest
      exact ⟨r :: results, self', normalizeIdentifiers_cons.mpr ⟨r, nt, results, hfirst, hrun, rfl⟩⟩

/-- What every call on a name of the list keeps, a run of calls keeps. -/
lemma normalizeIdentifiers_invariant {P : NameTransformer → Prop}
    (hstep : ∀ {self self' n r}, n ∈ names → P self →
      self.normalizeIdentifier n = some (r, self') → P self')
    (h : P self) (hrun : self.normalizeIdentifiers names = some (results, self')) : P self' := by
  induction names generalizing self results with
  | nil =>
    cases hrun
    exact h
  | cons n names ih =>
    obtain ⟨r, nt, rs, hfirst, hrest, -⟩ := normalizeIdentifiers_cons.mp hrun
    exact ih (fun hn => hstep (List.mem_cons_of_mem _ hn)) (hstep List.mem_cons_self h hfirst) hrest

/-! ### Names are mapped one to one -/

/-- What a transformer remembers: the used names are the results, and each is the result of one
name. -/
structure Coherent (nt : NameTransformer) : Prop where
  used : ∀ r, r ∈ nt.usedNames ↔ ∃ n, nt.mappedNames.lookup n = some r
  unique : ∀ {n n' r}, nt.mappedNames.lookup n = some r → nt.mappedNames.lookup n' = some r → n = n'

omit [UnicodeTables] in
lemma coherent_new : Coherent new := ⟨fun r => by simp [new], fun h => by simp [new] at h⟩

omit [UnicodeTables] in
lemma lookup_cons_iff {n r : String} (hnew : self.mappedNames.lookup origName = none) :
    List.lookup n ((origName, result) :: self.mappedNames) = some r ↔
      n = origName ∧ r = result ∨ self.mappedNames.lookup n = some r := by
  rw [List.lookup_cons]
  by_cases hn : n = origName
  · simp [hn, hnew, eq_comm]
  · simp [hn, beq_eq_false_iff_ne.2 hn]

omit [UnicodeTables] in
/-- An unused result can be remembered for a new name. -/
lemma Coherent.cons (h : self.Coherent) (hnew : self.mappedNames.lookup origName = none)
    (hunused : result ∉ self.usedNames) :
    Coherent ⟨(origName, result) :: self.mappedNames, insert result self.usedNames⟩ := by
  have hfresh : ∀ n, self.mappedNames.lookup n ≠ some result :=
    fun n hn => hunused ((h.used result).2 ⟨n, hn⟩)
  refine ⟨fun r => ?_, fun {n n' r} hn hn' => ?_⟩
  · simp only [Finset.mem_insert, h.used, lookup_cons_iff hnew, exists_or, exists_eq_left]
  · rw [lookup_cons_iff hnew] at hn hn'
    rcases hn with ⟨hn, hr⟩ | hn <;> rcases hn' with ⟨hn', hr'⟩ | hn'
    · exact hn.trans hn'.symm
    · exact absurd (hr ▸ hn') (hfresh _)
    · exact absurd (hr' ▸ hn) (hfresh _)
    · exact h.unique hn hn'

/-- What a transformer has remembered stays. -/
def Le (nt nt' : NameTransformer) : Prop :=
  ∀ {n r}, nt.mappedNames.lookup n = some r → nt'.mappedNames.lookup n = some r

/-- A call keeps what was remembered, and its result is remembered. -/
lemma Coherent.normalizeIdentifier (h : self.Coherent)
    (hrun : self.normalizeIdentifier origName = some (result, self')) :
    self'.Coherent ∧ Le self self' ∧ self'.mappedNames.lookup origName = some result := by
  obtain ⟨-, ⟨hlookup, rfl⟩ | ⟨hnew, ⟨hunused, -⟩, rfl⟩⟩ := normalizeIdentifier_cases hrun
  · exact ⟨h, id, hlookup⟩
  · exact ⟨h.cons hnew hunused, fun hn => (lookup_cons_iff hnew).mpr (.inr hn), by simp⟩

/-- A run of calls: each result is remembered for its name in the end. -/
lemma Coherent.normalizeIdentifiers (h : self.Coherent)
    (hrun : self.normalizeIdentifiers names = some (results, self')) :
    self'.Coherent ∧ Le self self' ∧
      List.Forall₂ (fun n r => self'.mappedNames.lookup n = some r) names results := by
  induction names generalizing self results with
  | nil =>
    cases hrun
    exact ⟨h, id, .nil⟩
  | cons n names ih =>
    obtain ⟨r, nt, rs, hfirst, hrest, rfl⟩ := normalizeIdentifiers_cons.mp hrun
    obtain ⟨hcoherent, hle, hlookup⟩ := h.normalizeIdentifier hfirst
    obtain ⟨hcoherent', hle', hall⟩ := ih hcoherent hrest
    exact ⟨hcoherent', fun hn => hle' (hle hn), .cons (hle' hlookup) hall⟩

/-- What was asked for is remembered. -/
lemma Coherent.exists_lookup (h : self.Coherent)
    (hrun : self.normalizeIdentifiers names = some (results, self')) {n : String} (hn : n ∈ names) :
    ∃ r, self'.mappedNames.lookup n = some r := by
  obtain ⟨-, -, hall⟩ := h.normalizeIdentifiers hrun
  obtain ⟨i, hi, rfl⟩ := List.mem_iff_getElem.mp hn
  exact ⟨_, (List.forall₂_iff_get.mp hall).2 i hi (hall.length_eq ▸ hi)⟩

/-- Only names that have been asked for are remembered. -/
lemma mem_of_lookup {n r : String} (hrun : new.normalizeIdentifiers names = some (results, self))
    (h : self.mappedNames.lookup n = some r) : n ∈ names := by
  refine normalizeIdentifiers_invariant
    (P := fun nt => ∀ n r, nt.mappedNames.lookup n = some r → n ∈ names)
    (fun {self self' m r} hm hself hcall n x hn => ?_) (by simp [new]) hrun n r h
  obtain ⟨-, ⟨-, rfl⟩ | ⟨hnew, -, rfl⟩⟩ := normalizeIdentifier_cases hcall
  · exact hself n x hn
  · rcases (lookup_cons_iff hnew).mp hn with ⟨rfl, -⟩ | hn
    · exact hm
    · exact hself n x hn

/-- As long as there are no more names than numbers, a number is left for each of them. -/
lemma numberLeft_of_card_le {all : List String} (hcard : all.toFinset.card ≤ suffixLimit)
    (hrun : new.normalizeIdentifiers names = some (results, self)) (hsub : names ⊆ all) {n : String}
    (hn : n ∈ all) (hnew : self.mappedNames.lookup n = none) : NumberLeft self.usedNames n := by
  intro parts _ _
  have hused : self.usedNames ⊆
      (all.toFinset.erase n).image fun m => (self.mappedNames.lookup m).getD "" := by
    intro r hr
    obtain ⟨m, hm⟩ := ((coherent_new.normalizeIdentifiers hrun).1.used r).mp hr
    refine Finset.mem_image.mpr ⟨m, Finset.mem_erase.mpr ⟨?_, ?_⟩, by rw [hm, Option.getD_some]⟩
    · rintro rfl
      rw [hnew] at hm
      cases hm
    · exact List.mem_toFinset.mpr (hsub (mem_of_lookup hrun hm))
  have hlt : self.usedNames.card < suffixLimit :=
    calc self.usedNames.card ≤ (all.toFinset.erase n).card :=
          (Finset.card_le_card hused).trans Finset.card_image_le
      _ < all.toFinset.card := Finset.card_erase_lt_of_mem (List.mem_toFinset.mpr hn)
      _ ≤ suffixLimit := hcard
  obtain ⟨r, hr⟩ := FreshName.exists_search (numbered_injective (base n parts)) hlt 0
  by_contra hnot
  push Not at hnot
  rw [FreshName.search_eq_none_iff.mpr (by simpa using hnot)] at hr
  cases hr

/-- A run of calls on names with at most one separator returns when a number is left for each name
on its first call. -/
lemma exists_run_iff (hnames : ∀ n ∈ names, n ≠ "" ∧ AtMostOneSeparator n) :
    (∃ results self', self.normalizeIdentifiers names = some (results, self')) ↔
      ∀ calls n rest, names = calls ++ n :: rest → ∀ results nt,
        self.normalizeIdentifiers calls = some (results, nt) →
        nt.mappedNames.lookup n = none → NumberLeft nt.usedNames n := by
  rw [exists_normalizeIdentifiers_iff]
  refine forall₄_congr fun calls n rest heq => forall₃_congr fun results nt hcalls => ?_
  obtain ⟨hne, hsep⟩ := hnames n (heq ▸ List.mem_append_right _ List.mem_cons_self)
  obtain ⟨parts, hparts⟩ := atMostOneSeparator_iff.mp hsep
  cases hlookup : nt.mappedNames.lookup n with
  | some r => simp [normalizeIdentifier_of_lookup_eq_some hne hlookup]
  | none => simp [exists_normalizeIdentifier_iff hne hlookup hparts]

/-- Calls on no more names than there are numbers return. -/
lemma exists_run_of_card_le (hnames : ∀ n ∈ names, n ≠ "" ∧ AtMostOneSeparator n)
    (hcard : names.toFinset.card ≤ suffixLimit) :
    ∃ results self', new.normalizeIdentifiers names = some (results, self') := by
  refine (exists_run_iff hnames).mpr ?_
  rintro calls n rest rfl results nt hcalls hnew
  exact numberLeft_of_card_le hcard hcalls (List.subset_append_left _ _)
    (List.mem_append_right _ List.mem_cons_self) hnew

end NameTransformer

/-! ### Names that stay -/

variable {c : Char} {l : List Char} {n r : String}

section

omit [UnicodeTables]

lemma splitTag_eq (l : List Char) :
    ((splitTag l).1 = [] ∨ (splitTag l).1 = "tag-".toList) ∧
      (splitTag l).1 ++ (splitTag l).2 = l := by
  unfold splitTag
  split_ifs with htag
  · obtain ⟨rest, rfl⟩ := List.isPrefixOf_iff_prefix.1 htag
    exact ⟨.inr rfl, rfl⟩
  · exact ⟨.inl rfl, rfl⟩

lemma splitTag_append {tag body : List Char} (htag : tag = [] ∨ tag = "tag-".toList)
    (hbody : ∀ c ∈ body, c ≠ '-') : splitTag (tag ++ body) = (tag, body) := by
  rcases htag with rfl | rfl
  · rw [splitTag, if_neg]
    · rfl
    · intro hpre
      obtain ⟨rest, rfl⟩ := List.isPrefixOf_iff_prefix.1 hpre
      exact hbody '-' (by simp) rfl
  · rfl

/-- A C identifier has no tag and no separator. -/
lemma splitVariable_of_isCIdentifier (h : isCIdentifier l = true) :
    splitTag l = ([], l) ∧ splitVariable l = some (l, none) := by
  let _ := latin1
  have hne : ∀ {c : Char}, c.toNat < 128 → isCIdentifierChar c = false → ∀ d ∈ l, d ≠ c :=
    fun hascii hc => (Fixed.of_isCIdentifier h).ne hascii hc
  refine ⟨splitTag_append (.inl rfl) (hne (by decide) (by decide)), ?_⟩
  have hsplit : Text.split "::1::".toList l = [l] :=
    Text.split_of_forall_ne (hne (by decide) (by decide))
  rw [splitVariable, hsplit]

lemma admissible_of_isCIdentifier (h : isCIdentifier n.toList = true) :
    n ≠ "" ∧ AtMostOneSeparator n := by
  obtain ⟨htag, hparts⟩ := splitVariable_of_isCIdentifier h
  refine ⟨?_, atMostOneSeparator_iff.mpr ⟨(n.toList, none), by rwa [htag]⟩⟩
  rintro rfl
  simp [isCIdentifier] at h

/-- An underscore and a number make an identifier. -/
lemma isCIdentifier_number (k : ℕ) : isCIdentifier ('_' :: Nat.toDigits 10 k) = true := by
  have hdigits : ∀ c ∈ Nat.toDigits 10 k, isCIdentifierChar c = true := by
    intro c hc
    have hdigit := Nat.isDigit_of_mem_toDigits (by decide) (by decide) hc
    simp [isCIdentifierChar, Char.isAlphanum, hdigit]
  exact isCIdentifier_cons.2 ⟨by decide, List.forall_mem_cons.2 ⟨by decide, hdigits⟩⟩

lemma toList_numbered (r : String) (k : ℕ) :
    (numbered r k).toList = r.toList ++ '_' :: Nat.toDigits 10 k := by
  simp [numbered]

lemma isDigit_getLast_numbered (r : String) (k : ℕ) :
    (numbered r k).toList.getLast?.any Char.isDigit = true := by
  have hlast := List.getLast?_eq_some_getLast (Nat.toDigits_ne_nil : Nat.toDigits 10 k ≠ [])
  have hdigit := Nat.isDigit_of_mem_toDigits (by decide) (by decide) (List.mem_of_getLast? hlast)
  simp [toList_numbered, hlast, List.getLast?_append, List.getLast?_cons, hdigit]

lemma isCIdentifier_numbered (h : isCIdentifier r.toList = true) (k : ℕ) :
    isCIdentifier (numbered r k).toList = true := by
  rw [toList_numbered]
  cases hr : r.toList with
  | nil => simp [hr, isCIdentifier] at h
  | cons c l =>
    rw [hr, isCIdentifier_cons] at h
    refine isCIdentifier_cons.mpr ⟨h.1, List.forall_mem_append.mpr ⟨h.2, ?_⟩⟩
    exact (isCIdentifier_cons.mp (isCIdentifier_number k)).2

end

namespace NameTransformer

/-- The name is what it is converted to. -/
def settled (n : String) : Bool :=
  (splitVariable (splitTag n.toList).2).any fun parts => base n parts == n

lemma settled_of_isCIdentifier (h : isCIdentifier n.toList = true)
    (hillegal : ∀ p ∈ illegalNames, p.1.toList.isSuffixOf n.toList = false) : settled n = true := by
  obtain ⟨htag, hparts⟩ := splitVariable_of_isCIdentifier h
  have hbase : base n (n.toList, none) = n := by
    rw [base, htag, fixIdentifier, fixName_eq_self h hillegal]
    exact String.ofList_toList
  simp [settled, htag, hparts, hbase]

/-- A numbered identifier does not end in a reserved word. -/
lemma settled_numbered (h : isCIdentifier r.toList = true) (k : ℕ) :
    settled (numbered r k) = true := by
  refine settled_of_isCIdentifier (isCIdentifier_numbered h k) fun p hp => ?_
  have hlast : ∀ p ∈ illegalNames, p.1.toList ≠ [] ∧
      p.1.toList.getLast?.any Char.isDigit = false := by
    decide
  rw [← Bool.not_eq_true, List.isSuffixOf_iff_suffix]
  rintro ⟨l, heq⟩
  have hdigit := isDigit_getLast_numbered r k
  rw [← heq, List.getLast?_append_of_ne_nil _ (hlast p hp).1, (hlast p hp).2] at hdigit
  cases hdigit

/-- Every name that was converted is as it was. -/
def KeepsNames (nt : NameTransformer) : Prop :=
  ∀ n r, nt.mappedNames.lookup n = some r → r = n

/-- One call: a settled name is not in use before its turn, so that it gets no number. -/
lemma KeepsNames.normalizeIdentifier (h : self.KeepsNames) (hc : self.Coherent)
    (hn : settled n = true) (hrun : self.normalizeIdentifier n = some (r, self')) :
    self'.KeepsNames := by
  obtain ⟨-, ⟨-, rfl⟩ | ⟨hnew, ⟨-, parts, hparts, hr⟩, rfl⟩⟩ := normalizeIdentifier_cases hrun
  · exact h
  · rw [settled, hparts, Option.any_some, beq_iff_eq] at hn
    rw [hn] at hr
    have hunused : n ∉ self.usedNames := by
      intro hused
      obtain ⟨m, hm⟩ := (hc.used n).mp hused
      rw [← h m n hm, hnew] at hm
      cases hm
    intro m x hm
    rcases (lookup_cons_iff hnew).mp hm with ⟨rfl, rfl⟩ | hm
    · exact (hr.resolve_right fun hused => hunused hused.1).2
    · exact h m x hm

/-- Calls on settled names return the names, in whatever order they are made. -/
lemma keepsNames_of_run (hnames : ∀ n ∈ names, settled n = true)
    (hrun : new.normalizeIdentifiers names = some (results, self)) : self.KeepsNames := by
  refine (normalizeIdentifiers_invariant (P := fun nt => nt.Coherent ∧ nt.KeepsNames)
    (fun hn h hcall => ?_) ⟨coherent_new, fun _ _ hn => by cases hn⟩ hrun).2
  exact ⟨(h.1.normalizeIdentifier hcall).1, h.2.normalizeIdentifier h.1 (hnames _ hn) hcall⟩

/-- Settled names need no numbers, so that calls on them return. -/
lemma exists_run_of_settled (hnames : ∀ n ∈ names, n ≠ "" ∧ settled n = true) :
    ∃ results self', new.normalizeIdentifiers names = some (results, self') := by
  have hsep : ∀ n ∈ names, n ≠ "" ∧ AtMostOneSeparator n := by
    intro n hn
    obtain ⟨hne, hsettled⟩ := hnames n hn
    obtain ⟨parts, hparts, -⟩ := (Option.any_eq_true ..).mp hsettled
    exact ⟨hne, atMostOneSeparator_iff.mpr ⟨parts, hparts⟩⟩
  refine (exists_run_iff hsep).mpr ?_
  rintro calls n rest rfl results nt hcalls hnew parts hparts hused
  have hn := (hnames n (List.mem_append_right _ List.mem_cons_self)).2
  rw [settled, hparts, Option.any_some, beq_iff_eq] at hn
  rw [hn] at hused
  obtain ⟨m, hm⟩ := ((coherent_new.normalizeIdentifiers hcalls).1.used n).mp hused
  have hkeeps := keepsNames_of_run (fun n hn => (hnames n (List.mem_append_left _ hn)).2) hcalls
  rw [← hkeeps m n hm, hnew] at hm
  cases hm

/-! ### Sequences of calls -/

/-- A sequence of calls on names with at most one separator returns exactly when a number is left
for each name on its first call. Then equal names get equal results and distinct names distinct
ones, and the used names are the results remembered. -/
theorem normalizeIdentifiers_new_iff {names : List String}
    (hnames : ∀ n ∈ names, n ≠ "" ∧ AtMostOneSeparator n) :
    (∃ results nt, new.normalizeIdentifiers names = some (results, nt) ∧
      results.length = names.length ∧
      (∀ (i j : ℕ) (n n' r r' : String), names[i]? = some n → names[j]? = some n' →
        results[i]? = some r → results[j]? = some r' → (n = n' ↔ r = r')) ∧
      ∀ r, r ∈ nt.usedNames ↔ ∃ n, nt.mappedNames.lookup n = some r) ↔
    ∀ calls n rest, names = calls ++ n :: rest → ∀ results nt,
      new.normalizeIdentifiers calls = some (results, nt) →
      nt.mappedNames.lookup n = none → NumberLeft nt.usedNames n := by
  rw [← exists_run_iff hnames]
  refine exists₂_congr fun results nt => and_iff_left_of_imp fun hrun => ?_
  obtain ⟨hcoherent, -, hall⟩ := coherent_new.normalizeIdentifiers hrun
  refine ⟨hall.length_eq.symm, fun i j n n' r r' hi hj hri hrj => ?_, hcoherent.used⟩
  have hlookup : ∀ {i : ℕ} {n r : String}, names[i]? = some n → results[i]? = some r →
      nt.mappedNames.lookup n = some r := by
    intro i n r hn hr
    obtain ⟨hi, rfl⟩ := List.getElem?_eq_some_iff.1 hn
    obtain ⟨hi', rfl⟩ := List.getElem?_eq_some_iff.1 hr
    exact (List.forall₂_iff_get.1 hall).2 i hi hi'
  have hn := hlookup hi hri
  have hn' := hlookup hj hrj
  constructor
  · rintro rfl
    rw [hn, Option.some.injEq] at hn'
    exact hn'
  · rintro rfl
    exact hcoherent.unique hn hn'

end NameTransformer

omit [UnicodeTables] in
/-- Two names that would become the same, and one of them again. -/
theorem NameTransformer.normalizeIdentifiers_new_colliding :
    let _ : UnicodeTables := latin1
    ∃ results nt, NameTransformer.new.normalizeIdentifiers ["a-b", "a_b", "a-b"] =
        some (results, nt) ∧
      results.length = 3 ∧
      (∀ (i j : ℕ) (n n' r r' : String), ["a-b", "a_b", "a-b"][i]? = some n →
        ["a-b", "a_b", "a-b"][j]? = some n' → results[i]? = some r → results[j]? = some r' →
        (n = n' ↔ r = r')) ∧
      ∀ r, r ∈ nt.usedNames ↔ ∃ n, nt.mappedNames.lookup n = some r := by
  intro _
  have hnames : ∀ n ∈ ["a-b", "a_b", "a-b"], n ≠ "" ∧ AtMostOneSeparator n := by decide
  refine (NameTransformer.normalizeIdentifiers_new_iff hnames).mpr ?_
  exact (exists_run_iff hnames).mp (exists_run_of_card_le hnames (by decide))

omit [UnicodeTables] in
/-- A name that becomes `a_b`, after `a_b` itself and that name with every number. -/
theorem NameTransformer.normalizeIdentifiers_overflow :
    let _ : UnicodeTables := latin1
    let names := "a_b" :: (List.range suffixLimit).map (numbered "a_b") ++ ["a-b"]
    (∀ n ∈ names, n ≠ "" ∧ AtMostOneSeparator n) ∧
      NameTransformer.new.normalizeIdentifiers names = none := by
  intro _ names
  let calls := "a_b" :: (List.range suffixLimit).map (numbered "a_b")
  have hident : ∀ n ∈ calls, isCIdentifier n.toList = true := by
    refine List.forall_mem_cons.mpr ⟨by decide, List.forall_mem_map.mpr fun k _ => ?_⟩
    exact isCIdentifier_numbered (by decide) k
  have hsettled : ∀ n ∈ calls, settled n = true := by
    refine List.forall_mem_cons.mpr ⟨by decide, List.forall_mem_map.mpr fun k _ => ?_⟩
    exact settled_numbered (by decide) k
  refine ⟨List.forall_mem_append.mpr ⟨fun n hn => admissible_of_isCIdentifier (hident n hn), ?_⟩,
    ?_⟩
  · decide
  · rw [Option.eq_none_iff_forall_ne_some]
    rintro ⟨results, last⟩ hrun
    obtain ⟨results₁, nt, _, hcalls, hlast⟩ := normalizeIdentifiers_append hrun
    obtain ⟨r, nt', _, hcall, -⟩ := normalizeIdentifiers_cons.mp hlast
    have hnew : nt.mappedNames.lookup "a-b" = none := by
      rw [Option.eq_none_iff_forall_ne_some]
      intro x hx
      exact absurd (hident _ (mem_of_lookup hcalls hx)) (by decide)
    -- all results that the name could get are in use
    have hused : ∀ n ∈ calls, n ∈ nt.usedNames := by
      intro n hn
      obtain ⟨x, hx⟩ := coherent_new.exists_lookup hcalls hn
      rw [keepsNames_of_run hsettled hcalls n x hx] at hx
      exact ((coherent_new.normalizeIdentifiers hcalls).1.used n).mpr ⟨n, hx⟩
    obtain ⟨k, hk, hunused⟩ := (exists_normalizeIdentifier_iff (by decide) hnew
      (by decide : splitVariable (splitTag "a-b".toList).2 = some ("a-b".toList, none))).mp
      ⟨_, hcall⟩ ("a-b".toList, none) (by decide) (hused _ List.mem_cons_self)
    exact hunused (hused _ (List.mem_cons_of_mem _
      (List.mem_map_of_mem (List.mem_range.mpr hk))))

/-! ### The pieces of a result -/

/-- The pieces of a result: without its tag, the names of the function and of the variable. -/
def pieces (result : String) : List (List Char) :=
  Text.split "::".toList (splitTag result.toList).2

variable {ext : List Char} {suffix : Option (List Char)}

lemma pieces_fixIdentifier {tag : List Char} (htag : tag = [] ∨ tag = "tag-".toList)
    (hext : ext = [] ∨ isCIdentifier ext = true) :
    pieces (String.ofList (fixIdentifier tag name suffix ++ ext)) = match suffix with
      | none => [fixName name ++ ext]
      | some suffix => [fixName name, fixName suffix ++ ext] := by
  have hname := fixed_fixName name
  have hdash : ∀ {l : List Char}, Fixed l → ∀ c ∈ l, c ≠ '-' :=
    fun h => h.ne (by decide) (by decide)
  have hcolon : ∀ {l : List Char}, Fixed l → ∀ c ∈ l, c ≠ ':' :=
    fun h => h.ne (by decide) (by decide)
  have hlist : (String.ofList (fixIdentifier tag name suffix ++ ext)).toList =
      fixIdentifier tag name suffix ++ ext := String.toList_ofList
  rw [pieces, hlist]
  cases suffix with
  | none =>
    have hbody := hname.append hext
    rw [fixIdentifier, List.append_assoc, splitTag_append htag (hdash hbody)]
    exact Text.split_of_forall_ne (hcolon hbody)
  | some suffix =>
    have hbody := (fixed_fixName suffix).append hext
    have hall : ∀ c ∈ fixName name ++ ("::".toList ++ (fixName suffix ++ ext)), c ≠ '-' := by
      simp only [List.forall_mem_append]
      exact ⟨hdash hname, by simp, List.forall_mem_append.1 (hdash hbody)⟩
    have heq : fixIdentifier tag name (some suffix) ++ ext =
        tag ++ (fixName name ++ ("::".toList ++ (fixName suffix ++ ext))) := by
      simp [fixIdentifier]
    rw [heq, splitTag_append htag hall]
    exact Text.split_append_pattern_append (hcolon hname) (hcolon hbody)

omit [UnicodeTables] in
lemma eq_append_of_splitVariable (h : splitVariable l = some (name, suffix)) :
    l = name ++ (suffix.elim [] fun suffix => "::1::".toList ++ suffix) := by
  have hjoin : "::1::".toList.intercalate (Text.split "::1::".toList l) = l :=
    Text.intercalate_split
  rcases hs : Text.split "::1::".toList l with _ | ⟨p, _ | ⟨q, _ | ⟨r, rest⟩⟩⟩
  · rw [splitVariable, hs] at h
    cases h
  · rw [splitVariable, hs] at h
    cases h
    rw [← hjoin, hs]
    simp
  · rw [splitVariable, hs] at h
    cases h
    rw [← hjoin, hs]
    simp [List.intercalate]
  · rw [splitVariable, hs] at h
    cases h

/-- The letters and digits of an identifier are those of its parts. -/
lemma forall_mem_origName_iff {origName : List Char}
    (h : splitVariable (splitTag origName).2 = some (name, suffix)) :
    (∀ c ∈ origName, isAlphanumeric c = true → c.toNat < 128) ↔
      (∀ c ∈ name, isAlphanumeric c = true → c.toNat < 128) ∧
      ∀ s ∈ suffix, ∀ c ∈ s, isAlphanumeric c = true → c.toNat < 128 := by
  obtain ⟨htag, horig⟩ := splitTag_eq origName
  have htag' : ∀ c ∈ (splitTag origName).1, isAlphanumeric c = true → c.toNat < 128 := by
    rcases htag with htag | htag
    · rw [htag]
      nofun
    · rw [htag]
      exact fun c hc _ => (by simp : ∀ c ∈ "tag-".toList, c.toNat < 128) c hc
  have hsep : ∀ c ∈ "::1::".toList, isAlphanumeric c = true → c.toNat < 128 :=
    fun c hc _ => (by simp : ∀ c ∈ "::1::".toList, c.toNat < 128) c hc
  rw [← horig, List.forall_mem_append, and_iff_right htag', eq_append_of_splitVariable h,
    List.forall_mem_append]
  cases suffix with
  | none => simp
  | some suffix =>
    rw [Option.elim_some, List.forall_mem_append, and_iff_right hsep]
    simp

namespace NameTransformer

/-- When the result of a new name is made of C identifiers: no letter or digit of it is from
outside of ASCII, it has at most one separator, the function before a variable has a name, and so
has the last part unless a number is put behind it; and a number is left if one is needed. -/
structure Clean (used : Finset String) (origName : String) : Prop where
  ascii : ∀ c ∈ origName.toList, isAlphanumeric c = true → c.toNat < 128
  parts : ∃ parts, splitVariable (splitTag origName.toList).2 = some parts ∧
    (parts.2 ≠ none → parts.1 ≠ []) ∧ (parts.2.getD parts.1 ≠ [] ∨ base origName parts ∈ used)
  number : NumberLeft used origName

lemma clean_iff {used : Finset String} (hleft : NumberLeft used origName)
    (hparts : splitVariable (splitTag origName.toList).2 = some parts) :
    Clean used origName ↔
      (∀ c ∈ origName.toList, isAlphanumeric c = true → c.toNat < 128) ∧
      (parts.2 ≠ none → parts.1 ≠ []) ∧
      (parts.2.getD parts.1 ≠ [] ∨ base origName parts ∈ used) := by
  constructor
  · rintro ⟨hascii, ⟨parts', hparts', h⟩, -⟩
    rw [hparts, Option.some.injEq] at hparts'
    subst hparts'
    exact ⟨hascii, h⟩
  · rintro ⟨hascii, h⟩
    exact ⟨hascii, ⟨parts, hparts, h⟩, hleft⟩

/-- A result is its base with nothing, or a number, behind it. -/
lemma exists_ext
    (h : base origName parts ∉ self.usedNames ∧ result = base origName parts ∨
      base origName parts ∈ self.usedNames ∧ ∃ k, result = numbered (base origName parts) k) :
    ∃ ext, result =
        String.ofList (fixIdentifier (splitTag origName.toList).1 parts.1 parts.2 ++ ext) ∧
      (ext = [] ∨ isCIdentifier ext = true) ∧
      (ext ≠ [] ↔ base origName parts ∈ self.usedNames) := by
  rcases h with ⟨hunused, rfl⟩ | ⟨hused, k, rfl⟩
  · exact ⟨[], by rw [List.append_nil, base], .inl rfl, by simp [hunused]⟩
  · refine ⟨'_' :: Nat.toDigits 10 k, ?_, .inr (isCIdentifier_number k), by simp [hused]⟩
    apply String.toList_injective
    simp [numbered, base]

/-- A new name becomes C identifiers exactly when it is clean. -/
lemma forall_pieces_iff_clean (hne : origName ≠ "")
    (hnew : self.mappedNames.lookup origName = none) :
    (∃ r self', self.normalizeIdentifier origName = some (r, self') ∧
      ∀ piece ∈ pieces r, isCIdentifier piece = true) ↔ Clean self.usedNames origName := by
  cases hparts : splitVariable (splitTag origName.toList).2 with
  | none =>
    constructor
    · rintro ⟨r, self', h, -⟩
      simp [normalizeIdentifier, hne, hnew, hparts] at h
    · rintro ⟨-, ⟨parts, h, -⟩, -⟩
      rw [hparts] at h
      cases h
  | some parts =>
    have hcall := exists_normalizeIdentifier_iff hne hnew hparts
    by_cases hleft : NumberLeft self.usedNames origName
    swap
    · constructor
      · rintro ⟨r, self', h, -⟩
        exact absurd (hcall.mp ⟨_, h⟩) hleft
      · exact fun h => absurd h.number hleft
    obtain ⟨⟨result, self₁⟩, hrun⟩ := hcall.mpr hleft
    obtain ⟨-, ⟨hlookup, -⟩ | ⟨-, ⟨-, parts', hparts', hresult⟩, -⟩⟩ :=
      normalizeIdentifier_cases hrun
    · rw [hnew] at hlookup
      cases hlookup
    obtain rfl := Option.some.inj (hparts.symm.trans hparts')
    obtain ⟨ext, heq, hext, hused⟩ := exists_ext hresult
    obtain ⟨name, suffix⟩ := parts
    have hpieces := @pieces_fixIdentifier _ name ext suffix _ (splitTag_eq origName.toList).1 hext
    rw [← heq] at hpieces
    have hreturn : (∃ r self', self.normalizeIdentifier origName = some (r, self') ∧
        ∀ piece ∈ pieces r, isCIdentifier piece = true) ↔
        ∀ piece ∈ pieces result, isCIdentifier piece = true := by
      simp [hrun]
    rw [hreturn, hpieces, clean_iff hleft hparts, forall_mem_origName_iff hparts, ← hused]
    cases suffix with
    | none =>
      rw [List.forall_mem_singleton, isCIdentifier_fixName_append_iff hext]
      simp [and_comm]
    | some suffix =>
      have hname := @isCIdentifier_fixName_append_iff _ name [] (.inl rfl)
      rw [List.append_nil] at hname
      rw [List.forall_mem_cons, List.forall_mem_singleton, hname,
        isCIdentifier_fixName_append_iff hext]
      simp only [ne_eq, not_true_eq_false, or_false, Option.mem_some_iff, forall_eq',
        reduceCtorEq, not_false_eq_true, true_imp_iff, Option.getD_some]
      constructor
      · rintro ⟨⟨hne, hascii⟩, hlast, hascii'⟩
        exact ⟨⟨hascii, hascii'⟩, hne, hlast⟩
      · rintro ⟨⟨hascii, hascii'⟩, hne, hlast⟩
        exact ⟨⟨hne, hascii⟩, hlast, hascii'⟩

/-- The names in use when a name is first asked for, after the calls so far. -/
def usedBefore (history : List String) (origName : String) : Finset String :=
  ((new.normalizeIdentifiers (history.takeWhile (· ≠ origName))).map fun s => s.2.usedNames).getD ∅

/-- The result of a name is the one that it got, or gets, on the first call. -/
lemma exists_first_call {history : List String} {nt : NameTransformer}
    (hrun : new.normalizeIdentifiers history = some (results, nt)) (origName : String) :
    ∃ nt₁ : NameTransformer, usedBefore history origName = nt₁.usedNames ∧
      nt₁.mappedNames.lookup origName = none ∧
      (nt.normalizeIdentifier origName).map Prod.fst =
        (nt₁.normalizeIdentifier origName).map Prod.fst := by
  have hsplit := List.takeWhile_append_dropWhile (p := (· ≠ origName)) (l := history)
  rw [← hsplit] at hrun
  obtain ⟨results₁, nt₁, results₂, hbefore, hafter⟩ := normalizeIdentifiers_append hrun
  have hnotMem : origName ∉ history.takeWhile (· ≠ origName) := by
    intro hmem
    simpa using List.mem_takeWhile_imp hmem
  have hnone : nt₁.mappedNames.lookup origName = none := by
    rw [Option.eq_none_iff_forall_ne_some]
    exact fun r hr => hnotMem (mem_of_lookup hbefore hr)
  refine ⟨nt₁, by rw [usedBefore, hbefore]; rfl, hnone, ?_⟩
  cases hdrop : history.dropWhile (· ≠ origName) with
  | nil =>
    rw [hdrop] at hafter
    cases hafter
    rfl
  | cons n rest =>
    -- the first call is in the history, and its result is remembered
    obtain rfl : n = origName := by
      have hhead := List.head_dropWhile_not (p := (· ≠ origName)) (l := history)
        (by rw [hdrop]; exact List.cons_ne_nil _ _)
      simp only [hdrop, List.head_cons] at hhead
      simpa using hhead
    rw [hdrop] at hafter
    obtain ⟨r, nt₂, rs, hfirst, hrest, -⟩ := normalizeIdentifiers_cons.mp hafter
    obtain ⟨hcoherent, -, hlookup⟩ :=
      (coherent_new.normalizeIdentifiers hbefore).1.normalizeIdentifier hfirst
    have hkeep := (hcoherent.normalizeIdentifiers hrest).2.1 hlookup
    rw [hfirst, normalizeIdentifier_of_lookup_eq_some (normalizeIdentifier_cases hfirst).1 hkeep]
    rfl

/-- After any calls, a name is given a result made of C identifiers exactly when it was clean on
its first call. -/
theorem forall_pieces_isCIdentifier_iff {history results : List String} {nt : NameTransformer}
    (hrun : new.normalizeIdentifiers history = some (results, nt)) {origName : String}
    (hne : origName ≠ "") :
    (∃ r nt', nt.normalizeIdentifier origName = some (r, nt') ∧
      ∀ piece ∈ pieces r, isCIdentifier piece = true) ↔
      Clean (usedBefore history origName) origName := by
  obtain ⟨nt₁, hused, hnone, hsame⟩ := exists_first_call hrun origName
  rw [hused, ← forall_pieces_iff_clean hne hnone]
  have hfst : ∀ {nt : NameTransformer}, (∃ r nt', nt.normalizeIdentifier origName = some (r, nt') ∧
      ∀ piece ∈ pieces r, isCIdentifier piece = true) ↔
      ∃ r ∈ (nt.normalizeIdentifier origName).map Prod.fst,
        ∀ piece ∈ pieces r, isCIdentifier piece = true := by
    intro nt
    constructor
    · rintro ⟨r, nt', h, hall⟩
      exact ⟨r, Option.map_eq_some_iff.2 ⟨(r, nt'), h, rfl⟩, hall⟩
    · rintro ⟨r, hr, hall⟩
      obtain ⟨⟨r', nt'⟩, h, rfl⟩ := Option.map_eq_some_iff.1 hr
      exact ⟨r', nt', h, hall⟩
  rw [hfst, hfst, hsame]

end NameTransformer

omit [UnicodeTables] in
/-- A variable without a name, after one that has become the same. -/
theorem NameTransformer.forall_pieces_numbered :
    let _ : UnicodeTables := latin1
    ∃ results nt, NameTransformer.new.normalizeIdentifiers ["a-::1::"] = some (results, nt) ∧
      ∃ r nt', nt.normalizeIdentifier "a_::1::" = some (r, nt') ∧
        ∀ piece ∈ pieces r, isCIdentifier piece = true := by
  intro _
  obtain ⟨results, nt, hrun⟩ : ∃ results nt,
      NameTransformer.new.normalizeIdentifiers ["a-::1::"] = some (results, nt) := ⟨_, _, rfl⟩
  refine ⟨results, nt, hrun, (forall_pieces_isCIdentifier_iff hrun (by decide)).2 ?_⟩
  refine ⟨List.all_iff_forall_prop.mp (by decide), ⟨⟨"a_".toList, some []⟩, by decide, by decide,
    .inr (by decide)⟩, fun parts hparts _ => ⟨0, by decide, ?_⟩⟩
  obtain rfl : ("a_".toList, some []) = parts := Option.some.inj hparts
  decide

omit [UnicodeTables] in
/-- A letter from outside of ASCII stays, and a tag may have nothing behind it. -/
theorem NameTransformer.not_forall_pieces_isCIdentifier :
    let _ : UnicodeTables := latin1
    (∃ nt, NameTransformer.new.normalizeIdentifier "é" = some ("é", nt)) ∧
      (∃ piece ∈ pieces "é", isCIdentifier piece = false) ∧
    (∃ nt, NameTransformer.new.normalizeIdentifier "tag-" = some ("tag-", nt)) ∧
      ∃ piece ∈ pieces "tag-", isCIdentifier piece = false := by
  intro _
  refine ⟨⟨_, rfl⟩, ⟨['é'], by decide, by decide⟩, ⟨_, rfl⟩, ⟨[], by decide, by decide⟩⟩

end Rmc.GenC

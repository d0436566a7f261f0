import Mathlib.Data.List.Pairwise
import Mathlib.Data.List.Perm.Basic
import Mathlib.Tactic.Common
import Mathlib.Order.Basic

/-!
# Ordered maps

A finite map from keys to values that is iterated in the order of its keys. The order is the one
a rank function gives to the keys, so that a development may leave it open: nothing below knows
more of a rank than that it tells keys apart.
-/

namespace OrdMap

/-- A type whose values are told apart, and ordered, by a natural number. -/
class Ranked (K : Type*) where
  rank : K → ℕ
  rank_injective : Function.Injective rank

open Ranked

variable {K V : Type*}

/-- The number of a word, read with its characters as the digits `1, 2, …`. -/
def wordRank (l : List Char) : ℕ := l.foldr (fun c n => n * 1114113 + (c.toNat + 1)) 0

@[simp] lemma wordRank_nil : wordRank [] = 0 := rfl

@[simp] lemma wordRank_cons (c : Char) (l : List Char) :
    wordRank (c :: l) = wordRank l * 1114113 + (c.toNat + 1) := rfl

lemma char_toNat_lt (c : Char) : c.toNat < 1114112 := by
  have h : c.toNat < 0xd800 ∨ 0xdfff < c.toNat ∧ c.toNat < 0x110000 := c.valid
  omega

lemma wordRank_injective : Function.Injective wordRank := by
  intro l l' h
  induction l generalizing l' with
  | nil =>
    cases l' with
    | nil => rfl
    | cons c' l' =>
      rw [wordRank_nil, wordRank_cons] at h
      omega
  | cons c l ih =>
    cases l' with
    | nil =>
      rw [wordRank_nil, wordRank_cons] at h
      omega
    | cons c' l' =>
      rw [wordRank_cons, wordRank_cons] at h
      have hc := char_toNat_lt c
      have hc' := char_toNat_lt c'
      have hl : wordRank l = wordRank l' := by omega
      have hcc : c.toNat = c'.toNat := by omega
      rw [Char.toNat_inj.1 hcc, ih hl]

/-- One order of strings. -/
@[reducible] def rankedString : Ranked String where
  rank s := wordRank s.toList
  rank_injective _ _ h := String.toList_injective (wordRank_injective h)

/-! ### Association lists -/

/-- The entries are in strictly ascending key order. -/
def Ascending [Ranked K] (l : List (K × V)) : Prop :=
  l.Pairwise fun a b => rank a.1 < rank b.1

/-- The value of the first entry at a key. -/
def find? [DecidableEq K] (k : K) : List (K × V) → Option V
  | [] => none
  | (k', v) :: l => if k' = k then some v else find? k l

/-- Put an entry at its place, replacing the value the key had. -/
def insertEntry [Ranked K] (k : K) (v : V) : List (K × V) → List (K × V)
  | [] => [(k, v)]
  | (k', v') :: l =>
    if rank k < rank k' then (k, v) :: (k', v') :: l
    else if rank k = rank k' then (k, v) :: l
    else (k', v') :: insertEntry k v l

@[simp] lemma find?_nil [DecidableEq K] (k : K) : find? k ([] : List (K × V)) = none := rfl

@[simp] lemma find?_cons [DecidableEq K] (k k' : K) (v : V) (l : List (K × V)) :
    find? k ((k', v) :: l) = if k' = k then some v else find? k l := rfl

lemma mem_of_find?_eq_some [DecidableEq K] {k : K} {v : V} {l : List (K × V)}
    (h : find? k l = some v) : (k, v) ∈ l := by
  induction l with
  | nil => simp at h
  | cons hd tl ih =>
    obtain ⟨k', v'⟩ := hd
    rw [find?_cons] at h
    split_ifs at h with hk
    · cases h
      subst hk
      exact List.mem_cons_self
    · exact List.mem_cons_of_mem _ (ih h)

variable [Ranked K]

lemma mem_insertEntry {k : K} {v : V} {e : K × V} {l : List (K × V)}
    (h : e ∈ insertEntry k v l) : e = (k, v) ∨ e ∈ l := by
  induction l with
  | nil => simpa [insertEntry] using h
  | cons hd tl ih =>
    obtain ⟨k', v'⟩ := hd
    simp only [insertEntry] at h
    split_ifs at h with h₁ h₂
    · simpa using h
    · rcases List.mem_cons.1 h with h | h
      · exact .inl h
      · exact .inr (List.mem_cons_of_mem _ h)
    · rcases List.mem_cons.1 h with h | h
      · exact .inr (h ▸ List.mem_cons_self)
      · exact (ih h).imp_right (List.mem_cons_of_mem _)

lemma ascending_insertEntry (k : K) (v : V) {l : List (K × V)} (h : Ascending l) :
    Ascending (insertEntry k v l) := by
  induction l with
  | nil => simp [insertEntry, Ascending]
  | cons hd tl ih =>
    obtain ⟨k', v'⟩ := hd
    have htl := List.pairwise_cons.1 h
    simp only [insertEntry]
    split_ifs with h₁ h₂
    · refine List.pairwise_cons.2 ⟨fun e he => ?_, h⟩
      rcases List.mem_cons.1 he with rfl | he
      · exact h₁
      · exact Nat.lt_trans h₁ (htl.1 e he)
    · exact List.pairwise_cons.2 ⟨fun e he => h₂ ▸ htl.1 e he, htl.2⟩
    · refine List.pairwise_cons.2 ⟨fun e he => ?_, ih htl.2⟩
      rcases mem_insertEntry he with rfl | he
      · show rank k' < rank k
        omega
      · exact htl.1 e he

lemma insertEntry_of_forall_lt {k : K} (v : V) {l : List (K × V)}
    (h : ∀ e ∈ l, rank e.1 < rank k) : insertEntry k v l = l ++ [(k, v)] := by
  induction l with
  | nil => rfl
  | cons hd tl ih =>
    obtain ⟨k', v'⟩ := hd
    obtain ⟨hlt, htl⟩ := List.forall_mem_cons.1 h
    rw [insertEntry, if_neg (Nat.lt_asymm hlt), if_neg (Nat.ne_of_gt hlt), ih htl, List.cons_append]

lemma Ascending.nodup_keys {l : List (K × V)} (h : Ascending l) : (l.map Prod.fst).Nodup := by
  rw [List.Nodup, List.pairwise_map]
  exact h.imp fun hlt heq => absurd hlt (by simp [heq])

section Find

variable [DecidableEq K]

lemma find?_eq_some_of_mem {k : K} {v : V} {l : List (K × V)} (hl : Ascending l)
    (h : (k, v) ∈ l) : find? k l = some v := by
  induction l with
  | nil => simp at h
  | cons hd tl ih =>
    obtain ⟨k', v'⟩ := hd
    have htl := List.pairwise_cons.1 hl
    rw [find?_cons]
    rcases List.mem_cons.1 h with he | he
    · cases he
      simp
    · have hne : k' ≠ k := fun hk => absurd (htl.1 _ he) (by simp [hk])
      rw [if_neg hne]
      exact ih htl.2 he

lemma find?_insertEntry_self (k : K) (v : V) (l : List (K × V)) :
    find? k (insertEntry k v l) = some v := by
  induction l with
  | nil => simp [insertEntry]
  | cons hd tl ih =>
    obtain ⟨k', v'⟩ := hd
    simp only [insertEntry]
    split_ifs with h₁ h₂
    · simp
    · simp
    · have hne : k' ≠ k := fun hk => h₂ (by rw [hk])
      rw [find?_cons, if_neg hne, ih]

lemma find?_insertEntry_of_ne {k k' : K} (hk : k' ≠ k) (v : V) (l : List (K × V)) :
    find? k' (insertEntry k v l) = find? k' l := by
  induction l with
  | nil => simp [insertEntry, hk.symm]
  | cons hd tl ih =>
    obtain ⟨k'', v''⟩ := hd
    simp only [insertEntry]
    split_ifs with h₁ h₂
    · simp [hk.symm]
    · have hkk : k = k'' := rank_injective h₂
      subst hkk
      simp [hk.symm]
    · rw [find?_cons, find?_cons, ih]

end Find

end OrdMap

open OrdMap

/-- A finite map whose entries stand in the order of their keys. -/
structure OrdMap (K V : Type*) [Ranked K] where
  entries : List (K × V)
  ascending : Ascending entries

namespace OrdMap

variable {K V : Type*} [Ranked K]

/-- The map without entries. -/
def empty : OrdMap K V := ⟨[], List.Pairwise.nil⟩

/-- Insert a value at a key, replacing the value the key had. -/
def insert (m : OrdMap K V) (k : K) (v : V) : OrdMap K V :=
  ⟨insertEntry k v m.entries, ascending_insertEntry k v m.ascending⟩

variable [DecidableEq K] {m : OrdMap K V}

/-- Remove the entry of a key. -/
def erase (m : OrdMap K V) (k : K) : OrdMap K V :=
  ⟨m.entries.filter fun e => e.1 ≠ k, m.ascending.filter _⟩

/-- The value at a key. -/
def get? (m : OrdMap K V) (k : K) : Option V := find? k m.entries

/-- Whether a key has a value. -/
def containsKey (m : OrdMap K V) (k : K) : Bool := (m.get? k).isSome

@[simp] lemma get?_empty (k : K) : (empty : OrdMap K V).get? k = none := rfl

@[simp] lemma get?_insert_self (m : OrdMap K V) (k : K) (v : V) :
    (m.insert k v).get? k = some v :=
  find?_insertEntry_self k v m.entries

lemma get?_insert_of_ne (m : OrdMap K V) {k k' : K} (h : k' ≠ k) (v : V) :
    (m.insert k v).get? k' = m.get? k' :=
  find?_insertEntry_of_ne h v m.entries

lemma get?_insert (m : OrdMap K V) (k k' : K) (v : V) :
    (m.insert k v).get? k' = if k' = k then some v else m.get? k' := by
  split_ifs with h
  · subst h
    exact get?_insert_self m k' v
  · exact get?_insert_of_ne m h v

lemma mem_entries_iff {k : K} {v : V} : (k, v) ∈ m.entries ↔ m.get? k = some v :=
  ⟨find?_eq_some_of_mem m.ascending, mem_of_find?_eq_some⟩

lemma get?_of_get?_erase {k k' : K} {v : V} (h : (m.erase k).get? k' = some v) :
    m.get? k' = some v :=
  mem_entries_iff.1 (List.mem_of_mem_filter (mem_entries_iff.2 h))

lemma get?_erase_of_ne {k k' : K} (h : k' ≠ k) : (m.erase k).get? k' = m.get? k' := by
  refine Option.ext fun v => ?_
  rw [← mem_entries_iff, ← mem_entries_iff, erase, List.mem_filter]
  simp [h]

lemma containsKey_iff {k : K} : m.containsKey k = true ↔ ∃ v, m.get? k = some v :=
  Option.isSome_iff_exists

@[ext] lemma ext_get? {m' : OrdMap K V} (h : ∀ k, m.get? k = m'.get? k) : m = m' := by
  obtain ⟨l, hl⟩ := m
  obtain ⟨l', hl'⟩ := m'
  have hnodup : ∀ {l : List (K × V)}, Ascending l → l.Nodup := fun hl =>
    hl.imp fun {a b} hab he => absurd hab (by simp [he])
  have hperm : l.Perm l' := by
    refine (List.perm_ext_iff_of_nodup (hnodup hl) (hnodup hl')).2 fun ⟨k, v⟩ => ?_
    have hl_iff := mem_entries_iff (m := ⟨l, hl⟩) (k := k) (v := v)
    have hl'_iff := mem_entries_iff (m := ⟨l', hl'⟩) (k := k) (v := v)
    rw [hl_iff, hl'_iff, h k]
  have heq : l = l' := List.Perm.eq_of_pairwise
    (fun _ _ _ _ hab hba => absurd hab (Nat.lt_asymm hba)) hl hl' hperm
  subst heq
  rfl

lemma mem_map_fst_entries {k : K} : k ∈ m.entries.map Prod.fst ↔ ∃ v, m.get? k = some v := by
  simp [← mem_entries_iff]

lemma length_entries_insert {k : K} (h : m.get? k = none) (v : V) :
    (m.insert k v).entries.length = m.entries.length + 1 := by
  obtain ⟨l, hl⟩ := m
  simp only [get?, insert] at h ⊢
  clear hl
  induction l with
  | nil => rfl
  | cons e l ih =>
    obtain ⟨k', v'⟩ := e
    rw [find?_cons] at h
    split_ifs at h with hk
    rw [insertEntry]
    split_ifs with hlt heq
    · simp
    · exact absurd (Ranked.rank_injective heq).symm hk
    · simp [ih h]

/-- The keys of a map, in order, depend only on which keys have a value. -/
lemma map_fst_entries_eq {V' : Type*} {m' : OrdMap K V'}
    (h : ∀ k, (∃ v, m.get? k = some v) ↔ ∃ v, m'.get? k = some v) :
    m.entries.map Prod.fst = m'.entries.map Prod.fst := by
  have hperm := (List.perm_ext_iff_of_nodup m.ascending.nodup_keys m'.ascending.nodup_keys).2
    fun k => by rw [mem_map_fst_entries, mem_map_fst_entries, h k]
  have hm : (m.entries.map Prod.fst).Pairwise fun k k' => Ranked.rank k < Ranked.rank k' :=
    List.pairwise_map.2 m.ascending
  have hm' : (m'.entries.map Prod.fst).Pairwise fun k k' => Ranked.rank k < Ranked.rank k' :=
    List.pairwise_map.2 m'.ascending
  exact List.Perm.eq_of_pairwise (fun _ _ _ _ hab hba => absurd hab (Nat.lt_asymm hba)) hm hm' hperm

lemma get?_foldl_insert {l : List (K × V)} (hl : (l.map Prod.fst).Nodup) {k : K} {v : V} :
    (l.foldl (fun m e => m.insert e.1 e.2) m).get? k = some v ↔
      (k, v) ∈ l ∨ k ∉ l.map Prod.fst ∧ m.get? k = some v := by
  induction l generalizing m with
  | nil => simp
  | cons e l ih =>
    obtain ⟨k', v'⟩ := e
    rw [List.map_cons, List.nodup_cons] at hl
    rw [List.foldl_cons, ih hl.2, get?_insert]
    by_cases hk : k = k'
    · subst hk
      have hnot : (k, v) ∉ l := fun hmem => hl.1 (List.mem_map.2 ⟨(k, v), hmem, rfl⟩)
      simp [hl.1, hnot, eq_comm]
    · simp [hk]

end OrdMap

import Mathlib.Data.List.Find
import Mathlib.Data.List.Nodup
import Rmc.Lib.Checked

/-!
# Trees with keyed nodes

Trees whose nodes carry data with a key. A path of keys leads from the root to a node, through the
first child with each key. In a tree whose siblings have different keys every node is reached by
one path, and two such trees with the same data at the same paths differ in the order of siblings
only.
-/

inductive RoseTree (α : Type*) where
  | node (data : α) (children : List (RoseTree α))

namespace RoseTree

variable {α K : Type*}

def data : RoseTree α → α
  | .node a _ => a

def children : RoseTree α → List (RoseTree α)
  | .node _ cs => cs

@[simp]
lemma data_node (a : α) (cs : List (RoseTree α)) : (node a cs).data = a := rfl

@[simp]
lemma children_node (a : α) (cs : List (RoseTree α)) : (node a cs).children = cs := rfl

/-! ### Lists of elements with keys -/

section Keys

variable {β : Type*} [DecidableEq K] {f : β → K} {b : β} {l : List β} {k : K}

lemma find?_key_of_mem (h : (l.map f).Nodup) (hb : b ∈ l) :
    l.find? (fun x => f x = f b) = some b := by
  induction l with
  | nil => cases hb
  | cons c l ih =>
    rw [List.map_cons, List.nodup_cons] at h
    rcases List.mem_cons.mp hb with rfl | hb
    · simp
    · have hne : f c ≠ f b := by
        intro heq
        exact h.1 (heq ▸ List.mem_map_of_mem hb)
      rw [List.find?_cons_of_neg (by simpa using hne)]
      exact ih h.2 hb

lemma find?_key_eq_none : l.find? (fun x => f x = k) = none ↔ k ∉ l.map f := by
  simp only [List.find?_eq_none, decide_eq_true_eq, List.mem_map, not_exists, not_and]

/-- Replacing the first element with a key by one with the same key. -/
lemma find?_set_findIdx (hb : f b = k) (hk : k ∈ l.map f) (k' : K) :
    (l.set (l.findIdx fun x => f x = k) b).find? (fun x => f x = k') =
      if k' = k then some b else l.find? fun x => f x = k' := by
  induction l with
  | nil => cases hk
  | cons c l ih =>
    by_cases hc : f c = k
    · have hidx : (c :: l).findIdx (fun x => f x = k) = 0 := by simp [List.findIdx_cons, hc]
      rw [hidx, List.set_cons_zero]
      by_cases hk' : k' = k
      · simp [hk', hb]
      · have hne : k ≠ k' := Ne.symm hk'
        simp [hk', hb, hc, hne]
    · have hidx : (c :: l).findIdx (fun x => f x = k) = l.findIdx (fun x => f x = k) + 1 := by
        simp [List.findIdx_cons, hc]
      have hmem : k ∈ l.map f := by
        rcases List.mem_cons.mp hk with heq | hmem
        · exact absurd heq.symm hc
        · exact hmem
      rw [hidx, List.set_cons_succ]
      by_cases hck : f c = k'
      · have hne : k' ≠ k := hck ▸ hc
        simp [hck, hne]
      · rw [List.find?_cons_of_neg (by simpa using hck),
          List.find?_cons_of_neg (by simpa using hck)]
        exact ih hmem

lemma map_set_findIdx (hb : f b = k) : (l.set (l.findIdx fun x => f x = k) b).map f = l.map f := by
  induction l with
  | nil => rfl
  | cons c l ih =>
    by_cases hc : f c = k
    · simp [List.findIdx_cons, hc, hb]
    · simp [List.findIdx_cons, hc, ih]

end Keys

/-! ### Paths -/

section Paths

variable [DecidableEq K] (key : α → K)

/-- The data at the end of a path. -/
def find (t : RoseTree α) : List K → Option α
  | [] => some t.data
  | k :: p =>
    match t.children.find? (fun c => key c.data = k) with
    | some c => c.find p
    | none => none

/-- The data at the end of a path that starts with one of the trees. -/
def findIn (ts : List (RoseTree α)) (k : K) (p : List K) : Option α :=
  (ts.find? fun c => key c.data = k).bind fun c => c.find key p

@[simp]
lemma find_nil (t : RoseTree α) : t.find key [] = some t.data := rfl

lemma find_cons (t : RoseTree α) (k : K) (p : List K) :
    t.find key (k :: p) = findIn key t.children k p := by
  rw [find, findIn]
  cases t.children.find? (fun c => key c.data = k) <;> rfl

end Paths

/-! ### Distinct siblings -/

/-- The children of every node have different keys. -/
inductive Distinct (key : α → K) : RoseTree α → Prop
  | node {a : α} {cs : List (RoseTree α)} (keys : (cs.map fun c => key c.data).Nodup)
      (sub : ∀ c ∈ cs, Distinct key c) : Distinct key (node a cs)

variable {t c : RoseTree α} {key : α → K}

lemma Distinct.keys (h : t.Distinct key) : (t.children.map fun c => key c.data).Nodup := by
  cases h with
  | node keys sub => exact keys

lemma Distinct.sub (h : t.Distinct key) (hc : c ∈ t.children) : c.Distinct key := by
  cases h with
  | node keys sub => exact sub c hc

/-! ### The order of siblings -/

/-- The trees differ in the order of siblings only. -/
inductive Reorders : RoseTree α → RoseTree α → Prop
  | node {a : α} {cs ds es : List (RoseTree α)} (sub : List.Forall₂ Reorders cs ds)
      (perm : ds.Perm es) : Reorders (node a cs) (node a es)

section Reorder

variable [DecidableEq K] {s : RoseTree α}

/-- A child of one tree has a partner with the same key and the same data at all paths. -/
lemma exists_partner (hs : s.Distinct key) (h : ∀ p, s.find key p = t.find key p)
    (hc : c ∈ s.children) :
    ∃ d ∈ t.children, key d.data = key c.data ∧ ∀ p, c.find key p = d.find key p := by
  have hfind : s.children.find? (fun x => key x.data = key c.data) = some c :=
    find?_key_of_mem (f := fun x : RoseTree α => key x.data) hs.keys hc
  have hpath : ∀ p, some c >>= (fun x => x.find key p) =
      (t.children.find? fun x => key x.data = key c.data) >>= (fun x => x.find key p) := by
    intro p
    have hp := h (key c.data :: p)
    rw [find_cons, find_cons, findIn, findIn, hfind] at hp
    exact hp
  cases hd : t.children.find? (fun x => key x.data = key c.data) with
  | none =>
    have hnil := hpath []
    rw [hd] at hnil
    cases hnil
  | some d =>
    refine ⟨d, List.mem_of_find?_eq_some hd, by simpa using List.find?_some hd, fun p => ?_⟩
    have hp := hpath p
    rw [hd] at hp
    exact hp

/-- Trees with different keys at siblings and with the same data at the same paths are the same up
to the order of siblings. -/
theorem reorders_of_find (hs : s.Distinct key) (ht : t.Distinct key)
    (h : ∀ p, s.find key p = t.find key p) :
    Reorders s t := by
  induction hs generalizing t with
  | @node a cs keys sub ih =>
    have hs : (node a cs).Distinct key := .node keys sub
    obtain ⟨b, es⟩ := t
    obtain rfl : a = b := Option.some.inj (h [])
    have hpartner : ∀ c ∈ cs, ∃ d, d ∈ es ∧ key d.data = key c.data ∧ Reorders c d := by
      intro c hc
      obtain ⟨d, hd, hkey, hpaths⟩ := exists_partner hs h hc
      exact ⟨d, hd, hkey, ih c hc (ht.sub hd) hpaths⟩
    obtain ⟨ds, hds⟩ : ∃ ds, List.Forall₂
        (fun c d => d ∈ es ∧ key d.data = key c.data ∧ Reorders c d) cs ds :=
      Checked.exists_forall₂ hpartner
    have hkeys : (ds.map fun d => key d.data) = cs.map fun c => key c.data := by
      clear keys sub ih hs ht h hpartner
      induction hds with
      | nil => rfl
      | cons hcd _ ih => rw [List.map_cons, List.map_cons, ih, hcd.2.1]
    have hmem : ∀ d ∈ ds, d ∈ es := by
      intro d hd
      obtain ⟨c, -, hcd⟩ := Checked.exists_of_mem_forall₂ hds hd
      exact hcd.1
    refine .node (hds.imp fun c d hcd => hcd.2.2) ?_
    have hnodup : ds.Nodup := List.Nodup.of_map _ (hkeys ▸ keys)
    have hnodup' : es.Nodup := List.Nodup.of_map _ ht.keys
    rw [List.perm_ext_iff_of_nodup hnodup hnodup']
    intro e
    refine ⟨hmem e, fun he => ?_⟩
    -- the partner of the child with the key of `e` can only be `e`
    obtain ⟨c, hc, hkey, -⟩ := exists_partner ht (fun p => (h p).symm) he
    have hkey' : key e.data ∈ ds.map fun d => key d.data := by
      rw [hkeys, ← hkey]
      exact List.mem_map_of_mem hc
    obtain ⟨d, hd, hde⟩ := List.mem_map.mp hkey'
    obtain rfl : d = e := List.inj_on_of_nodup_map ht.keys (hmem d hd) he hde
    exact hd

end Reorder

end RoseTree

import Mathlib.Algebra.Group.Nat.Defs
import Rmc.Lib.RoseTree

/-!
# The book report

`bookrunner.rs` and `books.rs` collect the results of the tests in a tree. The path of a test leads
through the book, its chapters and sections, and every node counts the tests below it that pass and
that fail. The tree is built by merging the tree of one test after the other into it.

The counters have 32 bits. An addition that overflows panics, and this is the only way in which a
report can fail.
-/

namespace Rmc.Bookrunner

open RoseTree

/-! ### Trees -/

/-- The results of a test or a suite. -/
structure Node where
  name : String
  numPass : ℕ
  numFail : ℕ
  deriving DecidableEq, Repr

abbrev Tree := RoseTree Node

/-- How a function may end without a result. -/
inductive Stop where
  | returnsNone
  | panics
  deriving DecidableEq, Repr

/-- A sum of 32 bit numbers. -/
def checkedAdd (m n : ℕ) : Except Stop ℕ := if m + n < 2 ^ 32 then .ok (m + n) else .error .panics

mutual

/-- `Tree::merge`: two trees whose roots have the same name. -/
def merge (l r : Tree) : Except Stop Tree :=
  match r with
  | .node rdata rchildren =>
    if l.data.name ≠ rdata.name then .error .returnsNone
    else do
      let children ← mergeChildren l.children rchildren
      let numPass ← checkedAdd l.data.numPass rdata.numPass
      let numFail ← checkedAdd l.data.numFail rdata.numFail
      return .node { name := l.data.name, numPass, numFail } children

/-- The loop over the subtrees of the second tree. A subtree with the name of one that is there is
merged into it at its place, any other one is added at the end. -/
def mergeChildren (ls rs : List Tree) : Except Stop (List Tree) :=
  match rs with
  | [] => .ok ls
  | cnr :: rs =>
    match ls.find? fun cnl => cnl.data.name = cnr.data.name with
    | some cnl => do
      let merged ← merge cnl cnr
      mergeChildren (ls.set (ls.findIdx fun cnl => cnl.data.name = cnr.data.name) merged) rs
    | none => mergeChildren (ls ++ [cnr]) rs

end

/-! ### Pipelines -/

structure LitaniPipeline where
  name : String
  status : String
  deriving DecidableEq, Repr

def LitaniPipeline.getStatus (p : LitaniPipeline) : Except Stop Bool :=
  if p.status = "fail" then .ok false
  else if p.status = "success" then .ok true
  else .error .panics

/-- The parts of a name between slashes and dots. -/
def LitaniPipeline.parts (p : LitaniPipeline) : List String :=
  (p.name.toList.splitOnP fun c => c = '/' || c = '.').map String.ofList

/-- The path of a test and its result. -/
def parseLogLine (p : LitaniPipeline) : Except Stop (List String × Bool) := do
  let l ← p.getStatus
  match p.parts.findIdx? (· = "bookrunner") with
  | none => .error .panics
  | some dashIndex => .ok ((p.parts.drop dashIndex).dropLast, l)

/-- The tree of one test, built from the end of its path. -/
def treeFromPath (path : List String) (result : Bool) : Except Stop Tree :=
  match path.reverse with
  | [] => .error .panics
  | last :: rest =>
    .ok (rest.foldl
      (fun tree name => .node ⟨name, tree.data.numPass, tree.data.numFail⟩ [tree])
      (.node ⟨last, if result then 1 else 0, if result then 0 else 1⟩ []))

/-- `unwrap` of a result that may be `None`. -/
def unwrap (t : Except Stop Tree) : Except Stop Tree :=
  match t with
  | .ok t => .ok t
  | .error _ => .error .panics

/-- The tree after one more pipeline. -/
def addPipeline (tests : Tree) (p : LitaniPipeline) : Except Stop Tree := do
  let (ns, l) ← parseLogLine p
  unwrap (merge tests (← treeFromPath ns l))

def root : Tree := .node ⟨"bookrunner", 0, 0⟩ []

def parseLitaniOutput (pipelines : List LitaniPipeline) : Except Stop Tree :=
  pipelines.foldlM addPipeline root

/-! ### Exact reports -/

namespace LitaniPipeline

/-- The path from the first part `bookrunner`, without the last part, the extension. -/
def path (p : LitaniPipeline) : List String :=
  (p.parts.dropWhile (· ≠ "bookrunner")).dropLast

def passes (p : LitaniPipeline) : Bool := p.status = "success"

def fails (p : LitaniPipeline) : Bool := p.status = "fail"

/-- A test: its path is below `bookrunner`, and it passes or fails. -/
structure IsTest (p : LitaniPipeline) : Prop where
  status : p.passes = true ∨ p.fails = true
  path : ∃ before below ext, p.parts = before ++ "bookrunner" :: (below ++ [ext])

/-- The path of the test goes through the node that is reached from the root by a path. -/
def Through (q : List String) (p : LitaniPipeline) : Prop := ("bookrunner" :: q) <+: p.path

instance (q : List String) (p : LitaniPipeline) : Decidable (p.Through q) :=
  inferInstanceAs (Decidable (_ <+: _))

end LitaniPipeline

open LitaniPipeline

/-- The node at a path in the report of some tests: it is there for the root and where a test goes
through it, and counts those tests. -/
def expected (ps : List LitaniPipeline) (q : List String) : Option Node :=
  if q = [] ∨ ∃ p ∈ ps, p.Through q then
    some { name := q.getLastD "bookrunner",
           numPass := ps.countP fun p => p.passes && decide (p.Through q),
           numFail := ps.countP fun p => p.fails && decide (p.Through q) }
  else none

/-- The report is there, siblings have different names, every node counts the tests through it, and
tests in another order give the same report up to the order of siblings. -/
def ExactReport (ps : List LitaniPipeline) : Prop :=
  ∃ t, parseLitaniOutput ps = .ok t ∧ t.Distinct Node.name ∧
    (∀ q, t.find Node.name q = expected ps q) ∧
    ∀ ps', ps.Perm ps' → ∃ t', parseLitaniOutput ps' = .ok t' ∧ Reorders t t'

/-! ### Merging -/

/-- The sum of what two trees have at a path. -/
def joined : Option Node → Option Node → Option Node
  | some a, some b =>
    some { name := a.name, numPass := a.numPass + b.numPass, numFail := a.numFail + b.numFail }
  | some a, none => some a
  | none, o => o

@[simp]
lemma joined_none (o : Option Node) : joined o none = o := by
  cases o <;> rfl

@[simp]
lemma none_joined (o : Option Node) : joined none o = o := rfl

/-- The sum of two nodes does not overflow. -/
def Fits : Option Node → Option Node → Prop
  | some a, some b => a.numPass + b.numPass < 2 ^ 32 ∧ a.numFail + b.numFail < 2 ^ 32
  | _, _ => True

variable {m n : ℕ} {t : Tree} {ls cs : List Tree}

lemma checkedAdd_of_lt (h : m + n < 2 ^ 32) : checkedAdd m n = .ok (m + n) := if_pos h

/-- What a child that was merged in or added changes. -/
lemma findIn_set {k : String} (ht : t.data.name = k) (hk : k ∈ ls.map fun c => c.data.name)
    (n : String) (p : List String) :
    findIn Node.name (ls.set (ls.findIdx fun c => c.data.name = k) t) n p =
      if n = k then t.find Node.name p else findIn Node.name ls n p := by
  rw [findIn, find?_set_findIdx (f := fun c : Tree => c.data.name) ht hk]
  by_cases hn : n = k
  · rw [if_pos hn, if_pos hn, Option.bind_some]
  · rw [if_neg hn, if_neg hn, findIn]

lemma findIn_append_singleton (hk : t.data.name ∉ ls.map fun c => c.data.name) (n : String)
    (p : List String) :
    findIn Node.name (ls ++ [t]) n p =
      if n = t.data.name then t.find Node.name p else findIn Node.name ls n p := by
  rw [findIn, List.find?_append]
  by_cases hn : n = t.data.name
  · subst hn
    rw [find?_key_eq_none.mpr hk]
    simp
  · have hne : t.data.name ≠ n := Ne.symm hn
    simp [hne, hn, findIn]

lemma findIn_cons {c : Tree} (n : String) (p : List String) :
    findIn Node.name (c :: cs) n p =
      if c.data.name = n then c.find Node.name p else findIn Node.name cs n p := by
  rw [findIn, List.find?_cons]
  by_cases hn : c.data.name = n
  · simp [hn]
  · simp [hn, findIn]

lemma findIn_eq_none {n : String} (h : n ∉ cs.map fun c => c.data.name) (p : List String) :
    findIn Node.name cs n p = none := by
  rw [findIn, find?_key_eq_none.mpr h, Option.bind_none]

/-- One round of the loop: the subtree is merged into the one with its name, or added. -/
lemma exists_mergeChildren_cons {cnr : Tree}
    (hls : (ls.map fun c => c.data.name).Nodup) (hlsub : ∀ c ∈ ls, c.Distinct Node.name)
    (hcnr : cnr.Distinct Node.name)
    (hmerge : ∀ cnl ∈ ls, cnl.data.name = cnr.data.name →
      (∀ p, findIn Node.name ls cnr.data.name p = cnl.find Node.name p) →
      ∃ t, merge cnl cnr = .ok t ∧ t.Distinct Node.name ∧
        ∀ p, t.find Node.name p = joined (cnl.find Node.name p) (cnr.find Node.name p)) :
    ∃ ls', (∀ rs, mergeChildren ls (cnr :: rs) = mergeChildren ls' rs) ∧
      (ls'.map fun c => c.data.name).Nodup ∧ (∀ c ∈ ls', c.Distinct Node.name) ∧
      ∀ n p, findIn Node.name ls' n p =
        if n = cnr.data.name then joined (findIn Node.name ls n p) (cnr.find Node.name p)
        else findIn Node.name ls n p := by
  cases hfound : ls.find? fun cnl => cnl.data.name = cnr.data.name with
  | none =>
    have hnew := find?_key_eq_none.mp hfound
    refine ⟨ls ++ [cnr], fun rs => by rw [mergeChildren, hfound], ?_, ?_, fun n p => ?_⟩
    · rw [List.map_append, List.map_singleton, List.nodup_append_comm, List.singleton_append,
        List.nodup_cons]
      exact ⟨hnew, hls⟩
    · intro c hc
      rcases List.mem_append.mp hc with hc | hc
      · exact hlsub c hc
      · exact List.mem_singleton.mp hc ▸ hcnr
    · rw [findIn_append_singleton hnew]
      by_cases hn : n = cnr.data.name
      · rw [if_pos hn, if_pos hn, hn, findIn_eq_none hnew, none_joined]
      · rw [if_neg hn, if_neg hn]
  | some cnl =>
    have hmem := List.mem_of_find?_eq_some hfound
    have hcnl : cnl.data.name = cnr.data.name := by simpa using List.find?_some hfound
    have hfindIn : ∀ p, findIn Node.name ls cnr.data.name p = cnl.find Node.name p := by
      intro p
      rw [findIn, hfound, Option.bind_some]
    obtain ⟨merged, hmerged, hdistinct, hfind⟩ := hmerge cnl hmem hcnl hfindIn
    have hdata : merged.data.name = cnr.data.name := by
      have hnil := hfind []
      simp only [find_nil, joined, Option.some.injEq] at hnil
      rw [hnil, hcnl]
    refine ⟨ls.set (ls.findIdx fun c => c.data.name = cnr.data.name) merged, fun rs => ?_, ?_, ?_,
      fun n p => ?_⟩
    · rw [mergeChildren, hfound]
      simp only [hmerged]
      rfl
    · rw [map_set_findIdx (f := fun c : Tree => c.data.name) hdata]
      exact hls
    · intro c hc
      rcases List.mem_or_eq_of_mem_set hc with hc | rfl
      · exact hlsub c hc
      · exact hdistinct
    · rw [findIn_set hdata (hcnl ▸ List.mem_map_of_mem hmem)]
      by_cases hn : n = cnr.data.name
      · rw [if_pos hn, if_pos hn, hfind, hn, hfindIn]
      · rw [if_neg hn, if_neg hn]

mutual

/-- Merging two trees adds what they have at every path. -/
lemma exists_merge (l r : Tree) (hl : l.Distinct Node.name) (hr : r.Distinct Node.name)
    (hname : l.data.name = r.data.name)
    (hfits : ∀ p, Fits (l.find Node.name p) (r.find Node.name p)) :
    ∃ t, merge l r = .ok t ∧ t.Distinct Node.name ∧
      ∀ p, t.find Node.name p = joined (l.find Node.name p) (r.find Node.name p) := by
  match r with
  | .node rdata rchildren =>
    have hfitsIn : ∀ n p, Fits (findIn Node.name l.children n p)
        (findIn Node.name rchildren n p) := by
      intro n p
      have hnp := hfits (n :: p)
      rw [find_cons, find_cons] at hnp
      exact hnp
    obtain ⟨children, hchildren, hkeys, hsub, hfind⟩ :=
      exists_mergeChildren l.children rchildren hl.keys (fun c hc => hl.sub hc) hr.keys
        (fun c hc => hr.sub hc) hfitsIn
    obtain ⟨hpass, hfail⟩ := hfits []
    rw [data_node] at hname hpass hfail
    refine ⟨.node ⟨l.data.name, l.data.numPass + rdata.numPass, l.data.numFail + rdata.numFail⟩
      children, ?_, .node hkeys hsub, fun p => ?_⟩
    · rw [merge, if_neg (not_not.mpr hname), hchildren]
      simp only [bind, Except.bind, checkedAdd_of_lt hpass, checkedAdd_of_lt hfail]
      rfl
    · cases p with
      | nil => rfl
      | cons n p => rw [find_cons, find_cons, find_cons, children_node, hfind, children_node]

lemma exists_mergeChildren (ls rs : List Tree) (hls : (ls.map fun c => c.data.name).Nodup)
    (hlsub : ∀ c ∈ ls, c.Distinct Node.name) (hrs : (rs.map fun c => c.data.name).Nodup)
    (hrsub : ∀ c ∈ rs, c.Distinct Node.name)
    (hfits : ∀ n p, Fits (findIn Node.name ls n p) (findIn Node.name rs n p)) :
    ∃ cs, mergeChildren ls rs = .ok cs ∧ (cs.map fun c => c.data.name).Nodup ∧
      (∀ c ∈ cs, c.Distinct Node.name) ∧
      ∀ n p, findIn Node.name cs n p =
        joined (findIn Node.name ls n p) (findIn Node.name rs n p) := by
  match rs with
  | [] => exact ⟨ls, rfl, hls, hlsub, fun n p => (joined_none _).symm⟩
  | cnr :: rs =>
    rw [List.map_cons, List.nodup_cons] at hrs
    rw [List.forall_mem_cons] at hrsub
    obtain ⟨ls', hround, hls', hlsub', hfind'⟩ :=
      exists_mergeChildren_cons hls hlsub hrsub.1 fun cnl hmem hcnl hfindIn =>
        exists_merge cnl cnr (hlsub cnl hmem) hrsub.1 hcnl fun p => by
          have hp := hfits cnr.data.name p
          rw [findIn_cons, if_pos rfl, hfindIn] at hp
          exact hp
    -- no later subtree has the name of `cnr`
    have hlater : ∀ p, findIn Node.name rs cnr.data.name p = none := findIn_eq_none hrs.1
    have hfits' : ∀ n p, Fits (findIn Node.name ls' n p) (findIn Node.name rs n p) := by
      intro n p
      by_cases hn : n = cnr.data.name
      · rw [hn, hlater]
        cases findIn Node.name ls' cnr.data.name p <;> trivial
      · have hnp := hfits n p
        rw [findIn_cons, if_neg (Ne.symm hn)] at hnp
        rw [hfind', if_neg hn]
        exact hnp
    obtain ⟨cs, hcs, hkeys, hsub, hfind⟩ :=
      exists_mergeChildren ls' rs hls' hlsub' hrs.2 hrsub.2 hfits'
    refine ⟨cs, (hround rs).trans hcs, hkeys, hsub, fun n p => ?_⟩
    rw [hfind, hfind', findIn_cons]
    by_cases hn : n = cnr.data.name
    · rw [if_pos hn, if_pos hn.symm, hn, hlater, joined_none]
    · rw [if_neg hn, if_neg (Ne.symm hn)]

end

/-! ### The tree of one test -/

/-- The tree of a path from its root on. -/
def chain (numPass numFail : ℕ) (name : String) : List String → Tree
  | [] => .node ⟨name, numPass, numFail⟩ []
  | next :: below => .node ⟨name, numPass, numFail⟩ [chain numPass numFail next below]

@[simp]
lemma data_chain (numPass numFail : ℕ) (name : String) (below : List String) :
    (chain numPass numFail name below).data = ⟨name, numPass, numFail⟩ := by
  cases below <;> rfl

lemma foldl_chain (numPass numFail : ℕ) (name next : String) (above below : List String) :
    (name :: above).reverse.foldl
        (fun tree name => RoseTree.node ⟨name, tree.data.numPass, tree.data.numFail⟩ [tree])
        (chain numPass numFail next below) =
      chain numPass numFail name (above ++ next :: below) := by
  induction above generalizing name with
  | nil => simp [chain]
  | cons name' above ih =>
    rw [List.reverse_cons, List.foldl_append, ih]
    simp [chain]

lemma treeFromPath_cons (name : String) (below : List String) (result : Bool) :
    treeFromPath (name :: below) result =
      .ok (chain (if result then 1 else 0) (if result then 0 else 1) name below) := by
  obtain rfl | ⟨above, last, rfl⟩ := List.eq_nil_or_concat below
  · rfl
  · rw [List.concat_eq_append, ← foldl_chain _ _ name last above []]
    simp [treeFromPath, chain]

lemma distinct_chain (numPass numFail : ℕ) (name : String) (below : List String) :
    (chain numPass numFail name below).Distinct Node.name := by
  induction below generalizing name with
  | nil => exact .node List.nodup_nil fun c hc => absurd hc List.not_mem_nil
  | cons next below ih =>
    refine .node (List.nodup_singleton _) fun c hc => ?_
    rw [List.mem_singleton.mp hc]
    exact ih next

/-- A path leads to a node of the tree when it is a part of its path. -/
lemma find_chain (numPass numFail : ℕ) (name : String) (below q : List String) :
    (chain numPass numFail name below).find Node.name q =
      if q <+: below then some ⟨q.getLastD name, numPass, numFail⟩ else none := by
  induction below generalizing name q with
  | nil =>
    cases q with
    | nil => rfl
    | cons n q => simp [chain, find_cons, findIn]
  | cons next below ih =>
    cases q with
    | nil => rfl
    | cons n q =>
      rw [find_cons, chain, children_node, findIn_cons, data_chain]
      by_cases hn : next = n
      · subst hn
        rw [if_pos rfl, ih]
        simp only [List.cons_prefix_cons, true_and, List.getLastD_cons]
      · rw [if_neg hn, if_neg (fun h => hn (List.cons_prefix_cons.mp h).1.symm)]
        rfl

/-! ### One pipeline -/

lemma findIdx?_append_cons {before below : List String} :
    (before ++ "bookrunner" :: below).findIdx? (· = "bookrunner") =
      some ((before ++ "bookrunner" :: below).findIdx (· = "bookrunner")) := by
  rw [List.findIdx?_eq_some_iff_findIdx_eq]
  exact ⟨List.findIdx_lt_length_of_exists ⟨"bookrunner", by simp, by simp⟩, rfl⟩

lemma drop_findIdx {l : List String} (k : String) :
    l.drop (l.findIdx (· = k)) = l.dropWhile (· ≠ k) := by
  induction l with
  | nil => rfl
  | cons a l ih =>
    by_cases ha : a = k
    · simp [List.findIdx_cons, ha]
    · simp [List.findIdx_cons, ha, ih]

variable {p : LitaniPipeline}

section

variable (h : p.IsTest)

include h

lemma LitaniPipeline.IsTest.exists_path : ∃ below, p.path = "bookrunner" :: below := by
  obtain ⟨before, below, ext, hparts⟩ := h.path
  rw [LitaniPipeline.path, hparts]
  clear hparts h
  induction before with
  | nil =>
    refine ⟨below, ?_⟩
    rw [List.nil_append, List.dropWhile_cons_of_neg (by simp), ← List.cons_append,
      List.dropLast_concat]
  | cons a before ih =>
    by_cases ha : a = "bookrunner"
    · subst ha
      refine ⟨before ++ "bookrunner" :: below, ?_⟩
      have hassoc : "bookrunner" :: (before ++ "bookrunner" :: (below ++ [ext])) =
          ("bookrunner" :: (before ++ "bookrunner" :: below)) ++ [ext] := by simp
      rw [List.cons_append, List.dropWhile_cons_of_neg (by simp), hassoc, List.dropLast_concat]
    · rw [List.cons_append, List.dropWhile_cons_of_pos (by simpa using ha)]
      exact ih

lemma LitaniPipeline.IsTest.through_nil : p.Through [] := by
  obtain ⟨below, hpath⟩ := h.exists_path
  rw [Through, hpath]
  exact ⟨below, rfl⟩

lemma parseLogLine_eq : parseLogLine p = .ok (p.path, p.passes) := by
  have hstatus : p.getStatus = .ok p.passes := by
    rw [getStatus, passes]
    rcases h.status with hs | hs
    · have hs : p.status = "success" := by simpa [passes] using hs
      simp [hs]
    · have hs : p.status = "fail" := by simpa [fails] using hs
      simp [hs]
  obtain ⟨before, below, ext, hparts⟩ := h.path
  have hidx : p.parts.findIdx? (· = "bookrunner") = some (p.parts.findIdx (· = "bookrunner")) := by
    rw [hparts]
    exact findIdx?_append_cons
  simp only [parseLogLine, hstatus, bind, Except.bind, hidx, drop_findIdx, path]

/-- The tree of a test has one at the nodes that the test goes through. -/
lemma exists_treeFromPath :
    ∃ t, treeFromPath p.path p.passes = .ok t ∧ t.Distinct Node.name ∧
      t.data.name = "bookrunner" ∧
      ∀ q, t.find Node.name q =
        if p.Through q then
          some ⟨q.getLastD "bookrunner", if p.passes then 1 else 0, if p.passes then 0 else 1⟩
        else none := by
  obtain ⟨below, hpath⟩ := h.exists_path
  rw [hpath, treeFromPath_cons]
  refine ⟨_, rfl, distinct_chain _ _ _ _, by rw [data_chain], fun q => ?_⟩
  rw [find_chain]
  simp only [Through, hpath, List.cons_prefix_cons, true_and]

lemma LitaniPipeline.IsTest.fails_eq : p.fails = !p.passes := by
  have hne : "fail" ≠ "success" := by decide
  rcases h.status with hs | hs
  · have hstatus : p.status = "success" := by simpa [passes] using hs
    simp [fails, passes, hstatus, hne.symm]
  · have hstatus : p.status = "fail" := by simpa [fails] using hs
    simp [fails, passes, hstatus, hne]

end

/-! ### The report -/

def passing (ps : List LitaniPipeline) : ℕ := ps.countP LitaniPipeline.passes

def failing (ps : List LitaniPipeline) : ℕ := ps.countP LitaniPipeline.fails

variable {ps : List LitaniPipeline} {t' : Tree}

/-- The report of some tests with one more test. -/
lemma joined_expected (h : p.IsTest) (q : List String) :
    joined (expected ps q)
        (if p.Through q then
          some ⟨q.getLastD "bookrunner", if p.passes then 1 else 0, if p.passes then 0 else 1⟩
        else none) =
      expected (ps ++ [p]) q := by
  by_cases hp : p.Through q
  · have hlater : q = [] ∨ ∃ p' ∈ ps ++ [p], p'.Through q := .inr ⟨p, by simp, hp⟩
    rw [if_pos hp, expected, expected, if_pos hlater]
    by_cases hold : q = [] ∨ ∃ p' ∈ ps, p'.Through q
    · rw [if_pos hold]
      cases hpass : p.passes <;>
        simp [joined, List.countP_append, hp, hpass, h.fails_eq]
    · rw [if_neg hold]
      push Not at hold
      have hnone : ∀ f : LitaniPipeline → Bool,
          (ps.countP fun p => f p && decide (p.Through q)) = 0 := by
        intro f
        rw [List.countP_eq_zero]
        intro p' hp'
        simp [hold.2 p' hp']
      cases hpass : p.passes <;>
        simp [List.countP_append, hnone, hp, hpass, h.fails_eq]
  · have hiff : (q = [] ∨ ∃ p' ∈ ps ++ [p], p'.Through q) ↔ q = [] ∨ ∃ p' ∈ ps, p'.Through q := by
      simp [or_and_right, exists_or, hp]
    rw [if_neg hp, joined_none, expected, expected]
    simp only [hiff, List.countP_append, List.countP_singleton, hp, decide_false, Bool.and_false,
      Bool.false_eq_true, if_false, Nat.add_zero]

/-- A node counts no more tests than there are. -/
lemma fits_expected (h : p.IsTest) (hpassing : passing (ps ++ [p]) < 2 ^ 32)
    (hfailing : failing (ps ++ [p]) < 2 ^ 32) (q : List String) :
    Fits (expected ps q)
      (if p.Through q then
        some ⟨q.getLastD "bookrunner", if p.passes then 1 else 0, if p.passes then 0 else 1⟩
      else none) := by
  have hle : ∀ f : LitaniPipeline → Bool,
      (ps.countP fun p => f p && decide (p.Through q)) ≤ ps.countP f := by
    intro f
    apply List.countP_mono_left
    intro p' _ hp'
    exact (Bool.and_eq_true_iff.mp hp').1
  have hpass := hle passes
  have hfail := hle fails
  rw [passing, List.countP_append, List.countP_singleton] at hpassing
  rw [failing, List.countP_append, List.countP_singleton, h.fails_eq] at hfailing
  rw [expected]
  by_cases hold : q = [] ∨ ∃ p' ∈ ps, p'.Through q
  · rw [if_pos hold]
    by_cases hp : p.Through q
    · rw [if_pos hp]
      cases hpp : p.passes <;> simp only [hpp, Fits, Bool.not_true, Bool.not_false,
        Bool.false_eq_true, if_true, if_false] at hpassing hfailing ⊢ <;> omega
    · rw [if_neg hp]
      trivial
  · rw [if_neg hold]
    split <;> trivial

/-- What holds of the tree after some tests. -/
structure Reports (t : Tree) (ps : List LitaniPipeline) : Prop where
  distinct : t.Distinct Node.name
  find : ∀ q, t.find Node.name q = expected ps q

lemma reports_root : Reports root [] := by
  refine ⟨.node List.nodup_nil fun c hc => absurd hc List.not_mem_nil, fun q => ?_⟩
  cases q with
  | nil => simp [expected, root]
  | cons n q => simp [expected, root, find_cons, findIn]

lemma Reports.data (h : Reports t ps) :
    t.data = ⟨"bookrunner", ps.countP fun p => p.passes && decide (p.Through []),
      ps.countP fun p => p.fails && decide (p.Through [])⟩ := by
  have hnil := h.find []
  rw [find_nil, expected, if_pos (.inl rfl)] at hnil
  exact Option.some.inj hnil

lemma exists_addPipeline (ht : Reports t ps) (h : p.IsTest)
    (hpassing : passing (ps ++ [p]) < 2 ^ 32) (hfailing : failing (ps ++ [p]) < 2 ^ 32) :
    ∃ t', addPipeline t p = .ok t' ∧ Reports t' (ps ++ [p]) := by
  obtain ⟨r, hr, hdistinct, hname, hfind⟩ := exists_treeFromPath h
  obtain ⟨t', hmerge, hdistinct', hfind'⟩ := exists_merge t r ht.distinct hdistinct
    (by rw [ht.data, hname]) fun q => by
      rw [ht.find, hfind]
      exact fits_expected h hpassing hfailing q
  refine ⟨t', ?_, hdistinct', fun q => ?_⟩
  · simp only [addPipeline, parseLogLine_eq h, bind, Except.bind, hr, hmerge, unwrap]
  · rw [hfind', ht.find, hfind, joined_expected h]

lemma exists_foldlM_addPipeline (h : ∀ p ∈ ps, p.IsTest) {done : List LitaniPipeline}
    (ht : Reports t done) (hpassing : passing (done ++ ps) < 2 ^ 32)
    (hfailing : failing (done ++ ps) < 2 ^ 32) :
    ∃ t', ps.foldlM addPipeline t = .ok t' ∧ Reports t' (done ++ ps) := by
  induction ps generalizing t done with
  | nil => exact ⟨t, rfl, by rwa [List.append_nil]⟩
  | cons p ps ih =>
    rw [List.forall_mem_cons] at h
    rw [List.append_cons] at hpassing hfailing ⊢
    have hle : ∀ f : LitaniPipeline → Bool,
        (done ++ [p]).countP f ≤ (done ++ [p] ++ ps).countP f := fun f =>
      (List.sublist_append_left _ _).countP_le
    obtain ⟨t₁, ht₁, hreports⟩ := exists_addPipeline ht h.1 ((hle passes).trans_lt hpassing)
      ((hle fails).trans_lt hfailing)
    obtain ⟨t', ht', hreports'⟩ := ih h.2 hreports hpassing hfailing
    refine ⟨t', ?_, hreports'⟩
    rw [List.foldlM_cons, ht₁]
    exact ht'

lemma exists_parseLitaniOutput (h : ∀ p ∈ ps, p.IsTest) (hpassing : passing ps < 2 ^ 32)
    (hfailing : failing ps < 2 ^ 32) :
    ∃ t, parseLitaniOutput ps = .ok t ∧ Reports t ps :=
  exists_foldlM_addPipeline h reports_root hpassing hfailing

/-! ### The counters of the root -/

lemma checkedAdd_eq_ok {k : ℕ} : checkedAdd m n = .ok k ↔ k = m + n ∧ k < 2 ^ 32 := by
  rw [checkedAdd]
  by_cases h : m + n < 2 ^ 32
  · rw [if_pos h, Except.ok.injEq]
    constructor
    · rintro rfl
      exact ⟨rfl, h⟩
    · rintro ⟨rfl, -⟩
      rfl
  · rw [if_neg h]
    constructor
    · rintro ⟨⟩
    · rintro ⟨rfl, hlt⟩
      exact absurd hlt h

/-- Both counters are those of a run that has not overflowed. -/
structure Counts (t : Tree) (numPass numFail : ℕ) : Prop where
  pass : t.data.numPass = numPass
  fail : t.data.numFail = numFail
  pass_lt : numPass < 2 ^ 32
  fail_lt : numFail < 2 ^ 32

lemma counts_of_merge {l r : Tree} (h : merge l r = .ok t) :
    Counts t (l.data.numPass + r.data.numPass) (l.data.numFail + r.data.numFail) := by
  obtain ⟨rdata, rchildren⟩ := r
  rw [merge] at h
  split_ifs at h with hname
  cases hchildren : mergeChildren l.children rchildren with
  | error e => simp [hchildren, bind, Except.bind] at h
  | ok children =>
    cases hpass : checkedAdd l.data.numPass rdata.numPass with
    | error e => simp [hchildren, hpass, bind, Except.bind] at h
    | ok numPass =>
      cases hfail : checkedAdd l.data.numFail rdata.numFail with
      | error e => simp [hchildren, hpass, hfail, bind, Except.bind] at h
      | ok numFail =>
        simp only [hchildren, hpass, hfail, bind, Except.bind, pure, Except.pure,
          Except.ok.injEq] at h
        subst h
        obtain ⟨rfl, hlt⟩ := checkedAdd_eq_ok.mp hpass
        obtain ⟨rfl, hlt'⟩ := checkedAdd_eq_ok.mp hfail
        exact ⟨rfl, rfl, hlt, hlt'⟩

lemma counts_of_addPipeline (h : p.IsTest) (hadd : addPipeline t p = .ok t') :
    Counts t' (t.data.numPass + if p.passes then 1 else 0)
      (t.data.numFail + if p.fails then 1 else 0) := by
  obtain ⟨r, hr, -, -, hfind⟩ := exists_treeFromPath h
  have hdata := hfind []
  rw [find_nil, if_pos h.through_nil, Option.some.injEq] at hdata
  simp only [addPipeline, parseLogLine_eq h, bind, Except.bind, hr] at hadd
  cases hmerge : merge t r with
  | error e =>
    rw [hmerge] at hadd
    cases hadd
  | ok t₁ =>
    rw [hmerge] at hadd
    obtain rfl := Except.ok.inj hadd
    have hcounts := counts_of_merge hmerge
    rw [hdata] at hcounts
    rw [h.fails_eq]
    cases hpass : p.passes <;> simpa only [hpass, Bool.not_true, Bool.not_false,
      Bool.false_eq_true, if_true, if_false] using hcounts

/-- A run that returns has counted all tests, and the numbers fit. -/
lemma counts_of_foldlM (h : ∀ p ∈ ps, p.IsTest) {numPass numFail : ℕ}
    (ht : Counts t numPass numFail) (hrun : ps.foldlM addPipeline t = .ok t') :
    Counts t' (numPass + passing ps) (numFail + failing ps) := by
  induction ps generalizing t numPass numFail with
  | nil =>
    obtain rfl := Except.ok.inj hrun
    exact ht
  | cons p ps ih =>
    rw [List.forall_mem_cons] at h
    rw [List.foldlM_cons] at hrun
    cases hadd : addPipeline t p with
    | error e =>
      rw [hadd] at hrun
      cases hrun
    | ok t₁ =>
      rw [hadd] at hrun
      have hcounts := counts_of_addPipeline h.1 hadd
      rw [ht.pass, ht.fail] at hcounts
      have hrest := ih h.2 hcounts hrun
      rw [passing, failing, List.countP_cons, List.countP_cons, Nat.add_comm (List.countP _ ps),
        Nat.add_comm (List.countP _ ps), ← Nat.add_assoc, ← Nat.add_assoc]
      exact hrest

lemma counts_of_parseLitaniOutput (h : ∀ p ∈ ps, p.IsTest) (hrun : parseLitaniOutput ps = .ok t) :
    Counts t (passing ps) (failing ps) := by
  have hroot : Counts root 0 0 := ⟨rfl, rfl, by decide, by decide⟩
  have hcounts := counts_of_foldlM h hroot hrun
  rwa [Nat.zero_add, Nat.zero_add] at hcounts

/-! ### When a report is exact -/

/-- The report of some tests is exact exactly when both counters can hold their numbers. -/
theorem exactReport_iff {ps : List LitaniPipeline} (h : ∀ p ∈ ps, p.IsTest) :
    ExactReport ps ↔ passing ps < 2 ^ 32 ∧ failing ps < 2 ^ 32 := by
  constructor
  · rintro ⟨t, ht, -⟩
    have hcounts := counts_of_parseLitaniOutput h ht
    exact ⟨hcounts.pass_lt, hcounts.fail_lt⟩
  · rintro ⟨hpassing, hfailing⟩
    obtain ⟨t, ht, hreports⟩ := exists_parseLitaniOutput h hpassing hfailing
    refine ⟨t, ht, hreports.distinct, hreports.find, fun ps' hperm => ?_⟩
    obtain ⟨t', ht', hreports'⟩ := exists_parseLitaniOutput (fun p hp => h p (hperm.mem_iff.mpr hp))
      (by rwa [passing, ← hperm.countP_eq]) (by rwa [failing, ← hperm.countP_eq])
    refine ⟨t', ht', reorders_of_find hreports.distinct hreports'.distinct fun q => ?_⟩
    -- what is expected at a path does not depend on the order
    rw [hreports.find, hreports'.find, expected, expected]
    simp only [hperm.countP_eq, hperm.mem_iff]

/-- The first example of a chapter. -/
def firstExample (status : String) : LitaniPipeline :=
  { name := "src/test/bookrunner/books/Nomicon/Races/1.rs", status := status }

lemma isTest_firstExample {status : String} (h : status = "success" ∨ status = "fail") :
    (firstExample status).IsTest := by
  refine ⟨?_, ["src", "test"], ["books", "Nomicon", "Races", "1"], "rs", ?_⟩
  · rw [passes, fails, decide_eq_true_eq, decide_eq_true_eq]
    exact h
  · show ("src/test/bookrunner/books/Nomicon/Races/1.rs".toList.splitOnP
      fun c => c = '/' || c = '.').map String.ofList = _
    decide +kernel

theorem exactReport_firstExample :
    ExactReport [firstExample "success", firstExample "fail"] := by
  refine (exactReport_iff ?_).mpr ⟨by decide +kernel, by decide +kernel⟩
  intro p hp
  simp only [List.mem_cons, List.not_mem_nil, or_false] at hp
  rcases hp with rfl | rfl
  · exact isTest_firstExample (.inl rfl)
  · exact isTest_firstExample (.inr rfl)

/-- Where a test passes more often than a counter can hold, there is no report. -/
theorem not_exactReport_replicate :
    ¬ ExactReport (List.replicate (2 ^ 32) (firstExample "success")) ∧
      ¬ ∃ t, parseLitaniOutput (List.replicate (2 ^ 32) (firstExample "success")) = .ok t := by
  have hpasses : (firstExample "success").passes = true := by decide
  have htest : ∀ p ∈ List.replicate (2 ^ 32) (firstExample "success"), p.IsTest := by
    intro p hp
    rw [List.eq_of_mem_replicate hp]
    exact isTest_firstExample (.inl rfl)
  have hrun : ¬ ∃ t, parseLitaniOutput (List.replicate (2 ^ 32) (firstExample "success")) =
      .ok t := by
    rintro ⟨t, hrun⟩
    have hlt := (counts_of_parseLitaniOutput htest hrun).pass_lt
    rw [passing, List.countP_replicate, if_pos hpasses] at hlt
    exact lt_irrefl _ hlt
  exact ⟨fun ⟨t, ht, _⟩ => hrun ⟨t, ht⟩, hrun⟩

end Rmc.Bookrunner

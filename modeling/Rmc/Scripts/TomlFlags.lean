import Rmc.Lib.Dict

/-!
# Flags from a configuration

`extract_flags_from_toml` of `cargo-rmc` reads the flags of a configuration file. Of the tables that
may hold flags the last one counts. The flags may be grouped in nested tables, and a flag that
occurs more than once has its last value. Every flag is then rendered as arguments.

A value that is no boolean, string or list is meant to be an error, which the nested function
records in `success`. The assignment makes a local variable of that function, so the flag is left
out and the function returns. Only a list with an element that is no string ends the run.
-/

namespace Rmc.Scripts.TomlFlags

open LastWins

/-! ### Documents -/

inductive Toml where
  | bool (b : Bool)
  | str (s : String)
  | int (i : ℤ)
  | float (text : String)
  | datetime (text : String)
  | list (l : List Toml)
  | table (entries : List (String × Toml))
  deriving Repr

/-- The entries of a table in their order. -/
abbrev Table := List (String × Toml)

/-- The table under a path of sections. A section that is missing is an empty table, on one that is
no table `get` is no method. -/
def getTable : Table → List String → Option Table
  | table, [] => some table
  | table, name :: names =>
    match table.lookup name with
    | none => getTable [] names
    | some (.table t) => getTable t names
    | some _ => none

def tables : List (List String) :=
  [["workspace", "metadata", "rmc"], ["package", "metadata", "rmc"], ["rmc"]]

/-- The contents of the tables, where a later table replaces the entries of an earlier one. -/
def rmcData (data : Table) : Option Table :=
  tables.foldlM (fun rmcData name => (getTable data name).map (Dict.update rmcData)) []

/-- The table of flags, empty if there is none. -/
def flagTable (data : Table) : Option Table := do
  match (← rmcData data).lookup "flags" with
  | none => some []
  | some (.table flags) => some flags
  | some _ => none

/-- A document in which the sections and the flags are tables. -/
structure Document where
  data : Table
  flags : Table
  flagTable_eq : flagTable data = some flags

/-! ### Finding the flags -/

mutual

/-- The loop of `find_flags` over a table. -/
def findFlags (args : Table) (flags : Table) : Table :=
  match args with
  | [] => flags
  | x :: args => findFlags args (findEntry x flags)

def findEntry (x : String × Toml) (flags : Table) : Table :=
  match x with
  | (key, value) => findFlag key value flags

/-- A table is searched, any other value is the value of a flag. -/
def findFlag (key : String) (value : Toml) (flags : Table) : Table :=
  match value with
  | .table args => findFlags args flags
  | .bool b => Dict.set key (.bool b) flags
  | .str s => Dict.set key (.str s) flags
  | .int i => Dict.set key (.int i) flags
  | .float text => Dict.set key (.float text) flags
  | .datetime text => Dict.set key (.datetime text) flags
  | .list l => Dict.set key (.list l) flags

end

/-! ### Rendering the flags -/

/-- The strings of a list, if all elements are strings. -/
def Toml.strings : List Toml → Option (List String)
  | [] => some []
  | .str s :: l => (Toml.strings l).map (s :: ·)
  | _ :: _ => none

/-- The switch that turns a boolean flag off. -/
def negation (flag : String) : String :=
  if "no-".toList.isPrefixOf flag.toList then "--" ++ String.ofList (flag.toList.drop 3)
  else "--no-" ++ flag

/-- The arguments for one flag. The assertion on lists fails with `none`; for a value of any other
type only a local `success` is set. -/
def addFlag (flagList : List String) (x : String × Toml) : Option (List String) :=
  let (flag, value) := x
  match value with
  | .bool true => some (flagList ++ ["--" ++ flag])
  | .bool false => some (flagList ++ [negation flag])
  | .list l => do
    let value ← Toml.strings l
    return flagList ++ ["--" ++ flag] ++ value
  | .str s => some (flagList ++ ["--" ++ flag] ++ [s])
  | .int _ | .float _ | .datetime _ | .table _ => some flagList

def extractFlagsFromToml (doc : Document) : Option (List String) := do
  let flags := findFlags doc.flags []
  let success := true
  let flagList ← flags.foldlM addFlag []
  guard success
  return flagList

/-! ### What is documented -/

mutual

/-- The flags of a table in any nesting, in the order of the document. -/
def occurrences : Table → Table
  | [] => []
  | x :: args => entryOccurrences x ++ occurrences args

def entryOccurrences : String × Toml → Table
  | (key, value) => valueOccurrences key value

def valueOccurrences (key : String) : Toml → Table
  | .table args => occurrences args
  | .bool b => [(key, .bool b)]
  | .str s => [(key, .str s)]
  | .int i => [(key, .int i)]
  | .float text => [(key, .float text)]
  | .datetime text => [(key, .datetime text)]
  | .list l => [(key, .list l)]

end

/-- The documented arguments of a flag, for booleans, strings and lists of strings. -/
def rendering : String × Toml → Option (List String)
  | (flag, .bool true) => some ["--" ++ flag]
  | (flag, .bool false) => some [negation flag]
  | (flag, .str s) => some ["--" ++ flag, s]
  | (flag, .list l) => (Toml.strings l).map (("--" ++ flag) :: ·)
  | _ => none

/-- A result has the arguments of the last occurrence of every flag, and nothing else. -/
def Translates (doc : Document) (result : List String) : Prop :=
  ∃ flags : Table, (flags.map Prod.fst).Nodup ∧
    (∀ x, x ∈ flags ↔ IsLast Prod.fst (occurrences doc.flags) x) ∧
    ∃ args, flags.mapM rendering = some args ∧ result = args.flatten

/-- The flags are translated or the run ends with an error, and it ends with an error when some
flag has a value that cannot be rendered. -/
def TranslatedOrRejected (doc : Document) : Prop :=
  ∀ result, extractFlagsFromToml doc = some result →
    Translates doc result ∧ ∀ x ∈ occurrences doc.flags, (rendering x).isSome = true

/-- A list with an element that is no string. -/
def Toml.Mixed : Toml → Prop
  | .list l => Toml.strings l = none
  | _ => False

/-! ### The flags that are found -/

mutual

/-- The loop assigns the flags of the table in their order. -/
lemma findFlags_eq (args flags : Table) :
    findFlags args flags = Dict.update flags (occurrences args) := by
  match args with
  | [] => rfl
  | x :: args =>
    rw [findFlags, findFlags_eq args, findEntry_eq x, occurrences, Dict.update_append]

lemma findEntry_eq (x : String × Toml) (flags : Table) :
    findEntry x flags = Dict.update flags (entryOccurrences x) := by
  match x with
  | (key, value) => rw [findEntry, entryOccurrences, findFlag_eq key value]

lemma findFlag_eq (key : String) (value : Toml) (flags : Table) :
    findFlag key value flags = Dict.update flags (valueOccurrences key value) := by
  match value with
  | .table args => rw [findFlag, valueOccurrences, findFlags_eq args]
  | .bool b => rfl
  | .str s => rfl
  | .int i => rfl
  | .float text => rfl
  | .datetime text => rfl
  | .list l => rfl

end

variable {x : String × Toml} {result flagList : List String} {flags : Table}

lemma mem_findFlags_iff {args : Table} :
    x ∈ findFlags args [] ↔ IsLast Prod.fst (occurrences args) x := by
  rw [findFlags_eq]
  exact Dict.mem_update_iff

lemma nodup_keys_findFlags (args : Table) : ((findFlags args []).map Prod.fst).Nodup := by
  rw [findFlags_eq]
  exact Dict.nodup_keys_update _

/-! ### The arguments that are added -/

/-- What one flag adds: its arguments, if it can be rendered, and nothing otherwise. -/
lemma addFlag_eq_some_iff :
    addFlag flagList x = some result ↔
      ¬ x.2.Mixed ∧ result = flagList ++ (rendering x).getD [] := by
  obtain ⟨flag, value⟩ := x
  cases value with
  | bool b => cases b <;> simp [addFlag, rendering, Toml.Mixed, eq_comm]
  | list l =>
    cases hl : Toml.strings l with
    | none => simp [addFlag, rendering, Toml.Mixed, hl]
    | some strings => simp [addFlag, rendering, Toml.Mixed, hl, eq_comm]
  | str s => simp [addFlag, rendering, Toml.Mixed, eq_comm]
  | int i => simp [addFlag, rendering, Toml.Mixed, eq_comm]
  | float text => simp [addFlag, rendering, Toml.Mixed, eq_comm]
  | datetime text => simp [addFlag, rendering, Toml.Mixed, eq_comm]
  | table entries => simp [addFlag, rendering, Toml.Mixed, eq_comm]

lemma foldlM_addFlag_eq_some_iff :
    flags.foldlM addFlag flagList = some result ↔
      (∀ x ∈ flags, ¬ x.2.Mixed) ∧
        result = flagList ++ flags.flatMap fun x => (rendering x).getD [] := by
  induction flags generalizing flagList with
  | nil => simp [eq_comm]
  | cons x flags ih =>
    rw [List.foldlM_cons, Option.bind_eq_bind, Option.bind_eq_some_iff, List.forall_mem_cons,
      List.flatMap_cons]
    constructor
    · rintro ⟨flagList', hadd, hrest⟩
      obtain ⟨hx, rfl⟩ := addFlag_eq_some_iff.mp hadd
      obtain ⟨hflags, rfl⟩ := ih.mp hrest
      exact ⟨⟨hx, hflags⟩, List.append_assoc _ _ _⟩
    · rintro ⟨⟨hx, hflags⟩, rfl⟩
      refine ⟨_, addFlag_eq_some_iff.mpr ⟨hx, rfl⟩, ih.mpr ⟨hflags, ?_⟩⟩
      rw [List.append_assoc]

lemma extractFlagsFromToml_eq_some_iff {doc : Document} :
    extractFlagsFromToml doc = some result ↔
      (∀ x ∈ findFlags doc.flags [], ¬ x.2.Mixed) ∧
        result = (findFlags doc.flags []).flatMap fun x => (rendering x).getD [] := by
  rw [← List.nil_append (List.flatMap _ _), ← foldlM_addFlag_eq_some_iff]
  simp [extractFlagsFromToml, guard]

lemma mapM_rendering (h : ∀ x ∈ flags, (rendering x).isSome = true) :
    flags.mapM rendering = some (flags.map fun x => (rendering x).getD []) := by
  induction flags with
  | nil => rfl
  | cons x flags ih =>
    rw [List.forall_mem_cons] at h
    obtain ⟨args, hargs⟩ := Option.isSome_iff_exists.mp h.1
    simp [List.mapM_cons, hargs, ih h.2]

/-! ### When flags are translated or rejected -/

/-- The flags of a document are translated or rejected exactly when every value in it can be
rendered, or when the last value of some flag is a list with an element that is no string. -/
theorem translatedOrRejected_iff (doc : Document) :
    TranslatedOrRejected doc ↔
      (∀ x ∈ occurrences doc.flags, (rendering x).isSome = true) ∨
        ∃ x, IsLast Prod.fst (occurrences doc.flags) x ∧ x.2.Mixed := by
  constructor
  · intro h
    by_cases hmixed : ∃ x ∈ findFlags doc.flags [], x.2.Mixed
    · obtain ⟨x, hx, hmixed⟩ := hmixed
      exact .inr ⟨x, mem_findFlags_iff.mp hx, hmixed⟩
    · left
      -- nothing stops the run, so that it returns
      push Not at hmixed
      exact (h _ (extractFlagsFromToml_eq_some_iff.mpr ⟨hmixed, rfl⟩)).2
  · rintro (hall | ⟨x, hlast, hmixed⟩) result hresult
    · obtain ⟨-, rfl⟩ := extractFlagsFromToml_eq_some_iff.mp hresult
      refine ⟨⟨findFlags doc.flags [], nodup_keys_findFlags _, fun x => mem_findFlags_iff, ?_⟩,
        hall⟩
      have hflags : ∀ x ∈ findFlags doc.flags [], (rendering x).isSome = true :=
        fun x hx => hall x (mem_findFlags_iff.mp hx).mem
      exact ⟨_, mapM_rendering hflags, List.flatMap_def⟩
    · obtain ⟨hnone, -⟩ := extractFlagsFromToml_eq_some_iff.mp hresult
      exact absurd hmixed (hnone x (mem_findFlags_iff.mpr hlast))

/-- An unwinding bound that is written as a number is left out without an error. -/
theorem not_translatedOrRejected_unwind :
    ∃ doc : Document,
      doc.data =
        [("rmc", .table [("flags", .table [("unwind", .int 5), ("verbose", .bool true)])])] ∧
      extractFlagsFromToml doc = some ["--verbose"] ∧ ¬ TranslatedOrRejected doc := by
  let doc : Document :=
    { data := [("rmc", .table [("flags", .table [("unwind", .int 5), ("verbose", .bool true)])])],
      flags := [("unwind", .int 5), ("verbose", .bool true)],
      flagTable_eq := by rfl }
  have hresult : extractFlagsFromToml doc = some ["--verbose"] := by rfl
  refine ⟨doc, rfl, hresult, fun h => ?_⟩
  have hint := (h _ hresult).2 ("unwind", .int 5) (by simp [doc, occurrences, entryOccurrences,
    valueOccurrences])
  simp [rendering] at hint

end Rmc.Scripts.TomlFlags

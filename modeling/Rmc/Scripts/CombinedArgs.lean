import Mathlib.Tactic.Common

/-!
# Combining the configuration with the command line

`parse_args` of `cargo-rmc` runs one parser three times: over the command line to find the
configuration, over the flags of the configuration, and over the command line again with the
namespace of the second run. The option `--c-lib` has the action `ExtendAction`, which extends the
list object that it finds in the namespace, and a namespace without the attribute gets the default
object of the option itself. The first two runs thus extend the same list, and the values of the
command line are in it twice in the end.

A list object is modelled by its place in a heap. The parser gives, for every occurrence of the
option, the paths that follow it.
-/

namespace Rmc.Scripts.CombinedArgs

/-! ### Paths -/

/-- A path of `pathlib`. -/
structure PurePath where
  absolute : Bool
  parts : List String
  deriving DecidableEq, Repr

namespace PurePath

def parent (p : PurePath) : PurePath := { p with parts := p.parts.dropLast }

/-- An absolute path replaces what it is joined to. -/
def joinpath (p q : PurePath) : PurePath :=
  if q.absolute then q else { p with parts := p.parts ++ q.parts }

end PurePath

/-! ### The parser -/

/-- The list objects, and the one that the attribute `c_lib` of the namespace refers to. -/
structure State where
  heap : List (List PurePath)
  cLib : Option ℕ
  deriving DecidableEq, Repr

namespace State

/-- The items of the attribute. -/
def items (s : State) : Option (List PurePath) := s.cLib.bind fun i => s.heap[i]?

/-- `ExtendAction.__call__`. Without the attribute it extends a new list. -/
def extend (s : State) (values : List PurePath) : State :=
  match s.cLib with
  | some i => { s with heap := s.heap.modify i (· ++ values) }
  | none => { heap := s.heap ++ [values], cLib := some s.heap.length }

/-- A run of the parser. A namespace that lacks the attribute gets the default object. -/
def parse (default : ℕ) (occurrences : List (List PurePath)) (s : State) : State :=
  occurrences.foldl extend { s with cLib := some (s.cLib.getD default) }

/-- `fix_paths` replaces the list by a new one with its paths joined to the directory of the
configuration. -/
def fixPaths (configToml : PurePath) (s : State) : State :=
  match s.items with
  | some items =>
    { heap := s.heap ++ [items.map configToml.parent.joinpath], cLib := some s.heap.length }
  | none => s

end State

open Rmc.Scripts.CombinedArgs.State

/-- The flags of a configuration file: its path and what follows each occurrence of the option. -/
structure ConfigToml where
  path : PurePath
  flags : List (List PurePath)
  deriving DecidableEq, Repr

/-- The second and the third run, with a namespace of its own. -/
def getCombinedArgs (default : ℕ) (config : ConfigToml) (argv : List (List PurePath))
    (heap : List (List PurePath)) : State :=
  (((State.mk heap none).parse default config.flags).fixPaths config.path).parse default argv

/-- The parser is created with an empty list as the default, the only list object there is. -/
def parseArgs (config : Option ConfigToml) (argv : List (List PurePath)) : State :=
  let clArgs := (State.mk [[]] none).parse 0 argv
  match config with
  | some config => getCombinedArgs 0 config argv clArgs.heap
  | none => clArgs

/-! ### The runs -/

lemma foldl_extend (occurrences heap : List (List PurePath)) (i : ℕ) :
    occurrences.foldl extend { heap := heap, cLib := some i } =
      { heap := heap.modify i (· ++ occurrences.flatten), cLib := some i } := by
  induction occurrences generalizing heap with
  | nil =>
    have hid : (fun l : List PurePath => l ++ List.flatten []) = id := by
      funext l
      simp
    rw [List.foldl_nil, hid, List.modify_id]
  | cons values occurrences ih =>
    have hcomp : (fun l : List PurePath => l ++ (values :: occurrences).flatten) =
        (fun l => l ++ occurrences.flatten) ∘ (fun l => l ++ values) := by
      funext l
      simp
    rw [List.foldl_cons, hcomp, ← List.modify_modify_eq]
    exact ih _

/-- A run over a new namespace extends the default object and leaves it in the namespace. -/
lemma parse_none (default : ℕ) (occurrences heap : List (List PurePath)) :
    (State.mk heap none).parse default occurrences =
      { heap := heap.modify default (· ++ occurrences.flatten), cLib := some default } :=
  foldl_extend occurrences heap default

lemma parse_some (default i : ℕ) (occurrences heap : List (List PurePath)) :
    (State.mk heap (some i)).parse default occurrences =
      { heap := heap.modify i (· ++ occurrences.flatten), cLib := some i } :=
  foldl_extend occurrences heap i

/-- With a configuration they are there twice, at first as if they stood in the configuration. -/
lemma items_parseArgs_some (config : ConfigToml) (argv : List (List PurePath)) :
    (parseArgs (some config) argv).items =
      some (argv.flatten.map config.path.parent.joinpath ++
        config.flags.flatten.map config.path.parent.joinpath ++ argv.flatten) := by
  -- the default object after the second run
  have hdefault : (State.mk [argv.flatten] none).parse 0 config.flags =
      { heap := [argv.flatten ++ config.flags.flatten], cLib := some 0 } := by
    rw [parse_none]
    rfl
  have hfirst : ((State.mk [[]] none).parse 0 argv).heap = [argv.flatten] := by
    rw [parse_none]
    rfl
  simp only [parseArgs, getCombinedArgs, hfirst, hdefault]
  -- the third run extends the list that `fix_paths` made
  have hfix : (State.mk [argv.flatten ++ config.flags.flatten] (some 0)).fixPaths config.path =
      { heap := [argv.flatten ++ config.flags.flatten,
          (argv.flatten ++ config.flags.flatten).map config.path.parent.joinpath],
        cLib := some 1 } := rfl
  rw [hfix, parse_some]
  simp [items]

/-! ### The combined list -/

/-- The values of the configuration, joined to its directory, are followed by the values of the
command line exactly when the command line has none. -/
theorem items_parseArgs_combined_iff (config : ConfigToml) (argv : List (List PurePath)) :
    (parseArgs (some config) argv).items =
        some (config.flags.flatten.map config.path.parent.joinpath ++ argv.flatten) ↔
      argv.flatten = [] := by
  rw [items_parseArgs_some, Option.some.injEq, List.append_cancel_right_eq]
  constructor
  · intro h
    have hlength := congrArg List.length h
    rw [List.length_append, List.length_map] at hlength
    apply List.length_eq_zero_iff.mp
    omega
  · intro h
    rw [h, List.map_nil, List.nil_append]

/-- A library of the command line is linked twice, and the first time looked for in the directory of
the configuration. -/
theorem items_parseArgs_twice :
    let config : ConfigToml :=
      { path := { absolute := false, parts := ["crate", "Cargo.toml"] },
        flags := [[{ absolute := false, parts := ["a.c"] }]] }
    let b : PurePath := { absolute := false, parts := ["b.c"] }
    (parseArgs (some config) [[b]]).items =
      some [{ absolute := false, parts := ["crate", "b.c"] },
        { absolute := false, parts := ["crate", "a.c"] }, b] ∧
    (parseArgs (some config) [[b]]).items ≠
      some (config.flags.flatten.map config.path.parent.joinpath ++ [b]) := by
  decide

end Rmc.Scripts.CombinedArgs

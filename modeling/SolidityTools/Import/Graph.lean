import SolidityTools.Import
import SolidityTools.Ascending

set_option autoImplicit false

/-! # Dependencies between files

A set of files forms a graph: a file depends on those files of the set that its imports mean.
An import means a file with the same final segment. If there are several, the paths have to
agree: in normal form, or else as the end of the longer path.
-/

namespace SolidityTools

/-! ## Resolution -/

/-- The path that an import asks for, in normal form. A relative path starts from the directory
of the importing file. -/
def Import.target (i : Import) (importer : String) : String :=
  match i.kind, ImportPath.directory? importer with
  | .relative, some directory => ImportPath.normalise (directory ++ "/" ++ i.path)
  | _, _ => ImportPath.normalise i.path

/-- Whether the normal form of a path ends with a whole path. -/
def endsWithPath (path target : String) : Bool :=
  ('/' :: target.toList).isSuffixOf (ImportPath.normalise path).toList

/-- The file that an import means, among the files with its final segment. -/
def Import.resolve? (i : Import) (importer : String) : List String → Option String
  | [only] => some only
  | candidates =>
    let target := i.target importer
    (candidates.find? fun c => ImportPath.normalise c == target).or
      (candidates.find? fun c => endsWithPath c target)

/-- The elements of a list, each once, in the order of their first occurrence. -/
def firstOccurrences (seen : List String) : List String → List String
  | [] => []
  | x :: xs =>
    if seen.contains x then firstOccurrences seen xs else x :: firstOccurrences (x :: seen) xs

/-! ## The graph -/

structure FileNode where
  name : String
  imports : List Import
  /-- The files of the graph that this file imports, in the order of its imports. -/
  dependencies : List String
  /-- The files of the graph that import this file, in ascending order. -/
  importedBy : List String
deriving DecidableEq, Repr

/-- The files of a set with their dependencies, in ascending order of their names. -/
structure DependencyGraph where
  files : List FileNode
deriving Repr

namespace DependencyGraph

/-- The files by name, in ascending order; a repeated name keeps the later source. -/
def sources (files : List (String × String)) : List (String × String) :=
  Ascending.ofList (fun a b => a.1 < b.1) files

/-- The names of the files with a final segment. -/
def candidates (names : List String) (segment : String) : List String :=
  names.filter fun n => ImportPath.fileName n == segment

/-- The files that a file depends on. -/
def dependenciesOf (names : List String) (importer : String) (imports : List Import) :
    List String :=
  firstOccurrences [] (imports.filterMap fun i =>
    i.resolve? importer (candidates names i.fileName))

def build (files : List (String × String)) : DependencyGraph :=
  let sources := sources files
  let names := sources.map (·.1)
  let outgoing := sources.map fun (name, source) =>
    let imports := importsOf source
    (name, imports, dependenciesOf names name imports)
  ⟨outgoing.map fun (name, imports, dependencies) =>
    { name, imports, dependencies
      importedBy := (outgoing.filter fun (_, _, ds) => ds.contains name).map (·.1) }⟩

def names (g : DependencyGraph) : List String := g.files.map (·.name)

def dependencies (g : DependencyGraph) (name : String) : List String :=
  match g.files.find? (·.name == name) with
  | some file => file.dependencies
  | none => []

/-! ## Cycles -/

def smallest (name : String) (names : List String) : String :=
  names.foldl (fun least n => if n < least then n else least) name

/-- A cycle written from its smallest name on. -/
def rotate : List String → List String
  | [] => []
  | name :: names =>
    let least := smallest name names
    (name :: names).dropWhile (· != least) ++ (name :: names).takeWhile (· != least)

/-- The cycles that close along simple paths. The search goes on from `current`, the last file of
`path`, and leaves out files smaller than the first one, from which their cycles are found. Since
a path repeats no file, `steps` need not be more than the number of files. -/
def cyclesAlong (g : DependencyGraph) (first : String) :
    (steps : Nat) → (path : List String) → (current : String) → List (List String)
  | 0, _, _ => []
  | steps + 1, path, current =>
    (g.dependencies current).flatMap fun next =>
      if path.contains next then [rotate (path.dropWhile (· != next))]
      else if first ≤ next then cyclesAlong g first steps (path ++ [next]) next
      else []

/-- The cycles of the graph, each once and from its smallest name on, in ascending order. -/
def cycles (g : DependencyGraph) : List (List String) :=
  Ascending.ofList (fun a b => a < b)
    (g.names.flatMap fun first => g.cyclesAlong first g.files.length [first] first)

end DependencyGraph

end SolidityTools

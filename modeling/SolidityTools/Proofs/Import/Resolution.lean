import SolidityTools.Proofs.Import.Graph
import SolidityTools.Proofs.Import.Path

set_option autoImplicit false

/-! # What an import means

An import means a file with the same final segment. As a normal form keeps the final segment, the
file at the path of the import is always among those that are looked at, and it is preferred to any
other one (`exists_dependency_at_target`).

Where no file is at that path, the search goes on for files that have the path at their end. So a
relative import may mean a file that lies under some other folder: it is exact only if there is no
such file, or a file at the path itself (`relative_exact_iff`).
-/

namespace SolidityTools

open ImportPath

namespace ImportPath

/-- A path from the directory of a file. A file without a directory stands in the empty one. -/
def beside (importer path : String) : String := (directory? importer).getD "" ++ "/" ++ path

/-- Whether a path has another one at its end, under some further folders. -/
def LiesUnder (path wanted : String) : Prop :=
  normalSegments wanted.toList ≠ [] ∧ ∃ outer, outer ≠ [] ∧
    normalSegments path.toList = outer ++ normalSegments wanted.toList

instance (path wanted : String) : Decidable (LiesUnder path wanted) :=
  decidable_of_iff _ isSuffixOf_normalise_iff

theorem fileName_join (directory path : String) :
    fileName (directory ++ "/" ++ path) = fileName path := by
  have hname := fileName_append_separator isSeparator_slash directory.toList path.toList
  rwa [← toList_join, String.ofList_toList, String.ofList_toList] at hname

end ImportPath

/-! ## Among files with the same final segment -/

namespace Import

variable {i : Import} {importer : String} {candidates : List String}

/-- The path that is asked for has the final segment of the import. -/
theorem fileName_target (h : IsOrdinary i.fileName) (importer : String) :
    ImportPath.fileName (i.target importer) = i.fileName := by
  unfold target
  split
  · next directory _ _ =>
      have hname : ImportPath.fileName (directory ++ "/" ++ i.path) = i.fileName :=
        fileName_join directory i.path
      rw [fileName_normalise (by rwa [hname]), hname]
  · exact fileName_normalise h

/-- A relative import asks for a path from the directory of the importing file. -/
theorem target_of_relative (h : i.kind = .relative) (importer : String) :
    i.target importer = normalise (beside importer i.path) := by
  unfold target beside
  rw [h]
  cases hdirectory : directory? importer with
  | some directory => rfl
  | none =>
      rw [Option.getD_none, normalise, normalise, toList_join, String.toList_empty,
        List.nil_append, normalSegments_slash]

/-- **A file at the path that is asked for is preferred to all others.** -/
theorem exists_resolve?_of_mem {name : String} (hname : name ∈ candidates)
    (hpath : normalise name = i.target importer) :
    ∃ found, i.resolve? importer candidates = some found ∧
      normalise found = i.target importer := by
  rw [resolve?.eq_def]
  split
  · next only =>
      -- a single file is taken without a look at its path
      obtain rfl := List.mem_singleton.mp hname
      exact ⟨name, rfl, hpath⟩
  · have hsome : (candidates.find? fun c => normalise c == i.target importer).isSome = true :=
      List.find?_isSome.mpr ⟨name, hname, by simpa using hpath⟩
    obtain ⟨found, hfound⟩ := Option.isSome_iff_exists.mp hsome
    refine ⟨found, ?_, by simpa using List.find?_some hfound⟩
    simp only [hfound, Option.some_or]

/-- With several files to choose from, the only one at the path is found if there is one or if there
is none that has the path at its end. -/
theorem resolve?_exact_iff (hshared : 2 ≤ candidates.length) :
    (∀ found, i.resolve? importer candidates = some found →
        normalise found = i.target importer) ↔
      (∃ name ∈ candidates, normalise name = i.target importer) ∨
        ∀ name ∈ candidates, endsWithPath name (i.target importer) = false := by
  by_cases hexact : ∃ name ∈ candidates, normalise name = i.target importer
  · obtain ⟨name, hname, hpath⟩ := hexact
    obtain ⟨found, hfound, hnormal⟩ := exists_resolve?_of_mem hname hpath
    refine ⟨fun _ => Or.inl ⟨name, hname, hpath⟩, fun _ other hother => ?_⟩
    rw [hfound, Option.some.injEq] at hother
    rwa [← hother]
  · -- without a file at the path, what the second search finds is never exact
    have hnone : (candidates.find? fun c => normalise c == i.target importer) = none := by
      rw [List.find?_eq_none]
      exact fun name hname hpath => hexact ⟨name, hname, by simpa using hpath⟩
    have hresolve : i.resolve? importer candidates
        = candidates.find? fun c => endsWithPath c (i.target importer) := by
      rw [resolve?.eq_def]
      split
      · exact absurd hshared (by simp)
      · simp only [hnone, Option.none_or]
    rw [hresolve, or_iff_right hexact]
    constructor
    · intro h name hname
      by_contra hends
      rw [Bool.not_eq_false] at hends
      have hsome : (candidates.find? fun c => endsWithPath c (i.target importer)).isSome = true :=
        List.find?_isSome.mpr ⟨name, hname, hends⟩
      obtain ⟨found, hfound⟩ := Option.isSome_iff_exists.mp hsome
      exact hexact ⟨found, List.mem_of_find?_eq_some hfound, h found hfound⟩
    · intro h found hfound
      have hends := List.find?_some hfound
      rw [h found (List.mem_of_find?_eq_some hfound)] at hends
      cases hends

end Import

/-! ## In a set of files -/

namespace DependencyGraph

variable {files : List (String × String)} {file : FileNode} {i : Import}

/-- **An import whose file is there means it.** If the normal form of some file of the set is the
path that the import asks for, the importing file depends on a file with that normal form, whatever
other files share the final segment or have the path at their end. -/
theorem exists_dependency_at_target (hfile : file ∈ (build files).files) (hi : i ∈ file.imports)
    (hname : IsOrdinary i.fileName) {name : String} (hlisted : name ∈ (build files).names)
    (hordinary : IsOrdinary (fileName name)) (hpath : normalise name = i.target file.name) :
    ∃ found ∈ file.dependencies, normalise found = i.target file.name := by
  have hsegment : fileName name = i.fileName := by
    rw [← fileName_normalise hordinary, hpath, i.fileName_target hname]
  have hcandidate : name ∈ candidates (build files).names i.fileName :=
    List.mem_filter.mpr ⟨hlisted, by simpa using hsegment⟩
  obtain ⟨found, hfound, hnormal⟩ := Import.exists_resolve?_of_mem hcandidate hpath
  exact ⟨found, ((consistent_build files).mem_dependencies file hfile found).mpr ⟨i, hi, hfound⟩,
    hnormal⟩

/-- The file is there under a name that is not in normal form, next to a file that has the path at
its end. -/
theorem exists_dependency_at_target_spelled :
    let files := [("x/Main.sol", "import \"../a/./Token.sol\";"), ("lib/..\\a//Token.sol", ""),
      ("lib/a/Token.sol", ""), ("Token.sol", "")]
    let i : Import := ⟨"../a/./Token.sol", .relative, 1⟩
    let file : FileNode := ⟨"x/Main.sol", [i], ["lib/..\\a//Token.sol"], []⟩
    file ∈ (build files).files ∧ i ∈ file.imports ∧ IsOrdinary i.fileName ∧
      IsOrdinary (fileName "lib/..\\a//Token.sol") ∧
      normalise "lib/..\\a//Token.sol" = i.target file.name ∧
      ∃ found ∈ file.dependencies, normalise found = "a/Token.sol" := by
  intro files i file
  have hfile : file ∈ (build files).files := by decide +kernel
  have hi : i ∈ file.imports := List.mem_singleton_self i
  have hname : IsOrdinary i.fileName := by decide +kernel
  have hlisted : "lib/..\\a//Token.sol" ∈ (build files).names := by decide +kernel
  have hordinary : IsOrdinary (fileName "lib/..\\a//Token.sol") := by decide +kernel
  have hpath : normalise "lib/..\\a//Token.sol" = i.target file.name := by decide +kernel
  have htarget : i.target file.name = "a/Token.sol" := by decide +kernel
  refine ⟨hfile, hi, hname, hordinary, hpath, ?_⟩
  rw [← htarget]
  exact exists_dependency_at_target hfile hi hname hlisted hordinary hpath

/-- The name of a file is not guessed: a relative import contributes no dependency but on a file at
its path, seen from the directory of the importing file, and none where no file has that path. -/
structure IsExact (g : DependencyGraph) (file : FileNode) (i : Import) : Prop where
  atPath : ∀ name ∈ file.dependencies, g.meant? file i = some name →
    normalise name = normalise (beside file.name i.path)
  none : (∀ name ∈ g.names, normalise name ≠ normalise (beside file.name i.path)) →
    g.meant? file i = none

/-- What an import means is a dependency, so it is known from what it contributes. -/
theorem isExact_iff (hfile : file ∈ (build files).files) (hi : i ∈ file.imports) :
    (build files).IsExact file i ↔ ∀ name, (build files).meant? file i = some name →
      normalise name = normalise (beside file.name i.path) := by
  have hdepends : ∀ name, (build files).meant? file i = some name → name ∈ file.dependencies :=
    fun name hname => ((consistent_build files).mem_dependencies file hfile name).mpr
      ⟨i, hi, hname⟩
  constructor
  · intro h name hname
    exact h.atPath name (hdepends name hname) hname
  · intro h
    refine ⟨fun name _ => h name, fun hno => ?_⟩
    rw [Option.eq_none_iff_forall_ne_some]
    intro name hname
    exact hno name (List.mem_filter.mp (mem_of_resolve? hname)).1 (h name hname)

/-- **When a relative import is exact.** With several files that share its final segment, the name
of a relative import is not guessed exactly if one of them is at its path or none of them has the
path at its end, under some further folders. -/
theorem relative_exact_iff (hfile : file ∈ (build files).files) (hi : i ∈ file.imports)
    (hkind : i.kind = .relative)
    (hshared : 2 ≤ (candidates (build files).names i.fileName).length) :
    (build files).IsExact file i ↔
      (∃ name ∈ candidates (build files).names i.fileName,
          normalise name = normalise (beside file.name i.path)) ∨
        ∀ name ∈ candidates (build files).names i.fileName,
          ¬LiesUnder name (beside file.name i.path) := by
  have hends : ∀ name, endsWithPath name (i.target file.name) = false ↔
      ¬LiesUnder name (beside file.name i.path) := by
    intro name
    rw [Import.target_of_relative hkind, endsWithPath, ← Bool.not_eq_true,
      isSuffixOf_normalise_iff]
    rfl
  have hexact := @Import.resolve?_exact_iff i file.name _ hshared
  simp only [hends] at hexact
  rw [isExact_iff hfile hi, ← Import.target_of_relative hkind]
  exact hexact

/-- No file is at the path, and none of the two files of that name has the path at its end. -/
theorem relative_exact_none :
    let files := [("c/User.sol", "import \"./Base.sol\";"), ("a/Base.sol", ""), ("b/Base.sol", "")]
    let i : Import := ⟨"./Base.sol", .relative, 1⟩
    let file : FileNode := ⟨"c/User.sol", [i], [], []⟩
    file ∈ (build files).files ∧ i ∈ file.imports ∧ i.kind = .relative ∧
      2 ≤ (candidates (build files).names i.fileName).length ∧ (build files).IsExact file i := by
  intro files i file
  have hfile : file ∈ (build files).files := by decide +kernel
  have hi : i ∈ file.imports := List.mem_singleton_self i
  have hshared : 2 ≤ (candidates (build files).names i.fileName).length := by decide +kernel
  refine ⟨hfile, hi, rfl, hshared, (relative_exact_iff hfile hi rfl hshared).mpr (Or.inr ?_)⟩
  decide +kernel

/-- A file without a directory imports a file next to it that is not there. The import means one of
two files of that name in folders, and as that one imports the file in turn, a cycle is listed. -/
theorem not_relative_exact :
    let files := [("Main.sol", "import \"./Base.sol\";"),
      ("a/Base.sol", "import \"../Main.sol\";"), ("b/Base.sol", "")]
    let i : Import := ⟨"./Base.sol", .relative, 1⟩
    let file : FileNode := ⟨"Main.sol", [i], ["a/Base.sol"], ["a/Base.sol"]⟩
    file ∈ (build files).files ∧ i ∈ file.imports ∧ i.kind = .relative ∧
      2 ≤ (candidates (build files).names i.fileName).length ∧
      ¬(build files).IsExact file i ∧ (build files).cycles = [["Main.sol", "a/Base.sol"]] := by
  intro files i file
  have hmeant : (build files).meant? file i = some "a/Base.sol" := by decide +kernel
  have hpath : normalise "a/Base.sol" ≠ normalise (beside file.name i.path) := by decide +kernel
  refine ⟨by decide +kernel, List.mem_singleton_self i, rfl, by decide +kernel, fun h => ?_,
    by decide +kernel⟩
  exact hpath (h.atPath "a/Base.sol" (List.mem_singleton_self _) hmeant)

end DependencyGraph

end SolidityTools

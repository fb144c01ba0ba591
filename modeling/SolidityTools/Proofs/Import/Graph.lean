import SolidityTools.Proofs.Import.Cycle
import SolidityTools.Proofs.Text.Bytes
import Mathlib.Data.List.Sort

set_option autoImplicit false

/-! # Dependencies are recorded on both sides

Each file of a graph knows the files that it imports and the files that import it. The two records
agree, name files of the graph only and repeat nothing; the first is in the order of the imports and
the second in that of the names (`DependencyGraph.Consistent`).

A graph is made from the files in order of their names, each with the last source that was given for
it. That list is strictly ascending, so it is known by its members, and those are the last sources
(`mem_sources_iff`). Hence the order in which the files were given does not matter beyond that.
-/

namespace SolidityTools.DependencyGraph

open Text

/-! ## First occurrences -/

/-- Some names, each once. -/
theorem mem_firstOccurrences_iff {x : String} {seen xs : List String} :
    x ∈ firstOccurrences seen xs ↔ x ∈ xs ∧ x ∉ seen := by
  induction xs generalizing seen with
  | nil => simp [firstOccurrences]
  | cons y ys ih =>
      rw [firstOccurrences]
      by_cases hy : y ∈ seen
      · rw [if_pos (by simpa using hy), ih, List.mem_cons]
        constructor
        · rintro ⟨hx, hseen⟩
          exact ⟨Or.inr hx, hseen⟩
        · rintro ⟨rfl | hx, hseen⟩
          · exact absurd hy hseen
          · exact ⟨hx, hseen⟩
      · rw [if_neg (by simpa using hy), List.mem_cons, ih, List.mem_cons, List.mem_cons, not_or]
        by_cases hxy : x = y
        · simp [hxy, hy]
        · simp [hxy]

/-- The names that some elements give, each once, stand in the order of the first elements that give
them. -/
theorem pairwise_firstOccurrences {α : Type} (f : α → Option String) (seen : List String)
    (as : List α) :
    (firstOccurrences seen (as.filterMap f)).Pairwise fun x y =>
      as.findIdx (f · == some x) < as.findIdx (f · == some y) := by
  induction as generalizing seen with
  | nil => exact .nil
  | cons a as ih =>
      -- an element that does not give a name stands in front of those that do
      have hbehind : ∀ x, f a ≠ some x →
          (a :: as).findIdx (f · == some x) = as.findIdx (f · == some x) + 1 := by
        intro x hx
        have hfalse : (f a == some x) = false := by simpa using hx
        rw [List.findIdx_cons, hfalse]
        rfl
      have hlift : ∀ seen : List String, (∀ x, f a = some x → x ∈ seen) →
          (firstOccurrences seen (as.filterMap f)).Pairwise fun x y =>
            (a :: as).findIdx (f · == some x) < (a :: as).findIdx (f · == some y) := by
        intro seen hseen
        refine (ih seen).imp_of_mem fun {x y} hx hy hlt => ?_
        have hne : ∀ z ∈ firstOccurrences seen (as.filterMap f), f a ≠ some z := fun z hz hfa =>
          (mem_firstOccurrences_iff.mp hz).2 (hseen z hfa)
        rw [hbehind x (hne x hx), hbehind y (hne y hy)]
        omega
      cases hfa : f a with
      | none =>
          rw [List.filterMap_cons_none hfa]
          exact hlift seen (by simp [hfa])
      | some name =>
          rw [List.filterMap_cons_some hfa, firstOccurrences]
          by_cases hseen : name ∈ seen
          · rw [if_pos (by simpa using hseen)]
            exact hlift seen (by simp [hfa, hseen])
          · rw [if_neg (by simpa using hseen)]
            refine List.pairwise_cons.mpr ⟨fun y hy => ?_, hlift _ (by simp [hfa])⟩
            have hne : f a ≠ some y := fun h => by
              rw [hfa, Option.some.injEq] at h
              exact (mem_firstOccurrences_iff.mp hy).2 (h ▸ List.mem_cons_self)
            have hfirst : (a :: as).findIdx (f · == some name) = 0 := by
              rw [List.findIdx_cons, hfa]
              simp
            rw [hfirst, hbehind y hne]
            omega

/-! ## The last source of each name -/

/-- The source that is given last for a name. -/
def lastSource? (files : List (String × String)) (name : String) : Option String :=
  ((files.filter (·.1 == name)).getLast?).map (·.2)

theorem lastSource?_concat (files : List (String × String)) (file : String × String)
    (name : String) :
    lastSource? (files ++ [file]) name
      = if file.1 = name then some file.2 else lastSource? files name := by
  unfold lastSource?
  rw [List.filter_append]
  by_cases h : file.1 = name
  · rw [if_pos h, List.filter_cons_of_pos (by simpa using h)]
    simp
  · rw [if_neg h, List.filter_cons_of_neg (by simpa using h)]
    simp

theorem exists_lastSource_iff {files : List (String × String)} {name : String} :
    (∃ source, lastSource? files name = some source) ↔ ∃ file ∈ files, file.1 = name := by
  have hfilter : (∃ source, lastSource? files name = some source) ↔
      files.filter (·.1 == name) ≠ [] := by
    rw [← Option.isSome_iff_exists, lastSource?, Option.isSome_map, Option.isSome_iff_ne_none, Ne,
      List.getLast?_eq_none_iff]
  rw [hfilter, Ne, List.filter_eq_nil_iff]
  simp

/-- The files stand in the order of their names. -/
theorem pairwise_sources (files : List (String × String)) :
    (sources files).Pairwise fun a b => a.1 < b.1 :=
  Ascending.pairwise_ofList (·.1) (by simp) files

/-- Names are not repeated. -/
theorem eq_of_name_eq {files : List (String × String)} {a b : String × String}
    (ha : a ∈ sources files) (hb : b ∈ sources files) (h : a.1 = b.1) : a = b := by
  have hnodup : ((sources files).map (·.1)).Nodup := by
    rw [List.Nodup, List.pairwise_map]
    exact (pairwise_sources files).imp ne_of_lt
  exact List.inj_on_of_nodup_map hnodup ha hb h

/-- **The listed files are those that were given, each with its last source.** The induction is on
the files from the last one on, which takes the place of an earlier one with its name. -/
theorem mem_sources_iff {files : List (String × String)} {name source : String} :
    (name, source) ∈ sources files ↔ lastSource? files name = some source := by
  induction files using List.reverseRecOn with
  | nil => simp [sources, Ascending.ofList, lastSource?]
  | append_singleton files file ih =>
      have hstep : sources (files ++ [file])
          = Ascending.insert (fun a b => a.1 < b.1) file (sources files) := by
        rw [sources, sources, Ascending.ofList, Ascending.ofList, List.foldl_append]
        rfl
      have hself : file ∈ sources (files ++ [file]) := by
        rw [hstep]
        exact Ascending.mem_insert_self _ _ _
      rw [lastSource?_concat]
      by_cases hname : file.1 = name
      · -- names are not repeated, so the new file is the only one of its name
        rw [if_pos hname, Option.some.injEq]
        constructor
        · intro hmem
          rw [← eq_of_name_eq hmem hself hname.symm]
        · rintro rfl
          rwa [← hname]
      · rw [if_neg hname, ← ih, hstep]
        constructor
        · intro hmem
          rcases Ascending.mem_insert hmem with heq | hmem
          · exact absurd (congrArg Prod.fst heq).symm hname
          · exact hmem
        · intro hmem
          refine Ascending.mem_insert_of_mem hmem fun hfile hother => ?_
          simp only [decide_eq_false_iff_not, not_lt] at hfile hother
          exact absurd (le_antisymm hother hfile) hname

theorem sources_congr {files files' : List (String × String)}
    (h : ∀ name, lastSource? files name = lastSource? files' name) :
    sources files = sources files' := by
  have hirrefl : Std.Irrefl fun a b : String × String => a.1 < b.1 := ⟨fun a => lt_irrefl a.1⟩
  have hasymm : Std.Asymm fun a b : String × String => a.1 < b.1 := ⟨fun a b => lt_asymm⟩
  refine List.Pairwise.eq_of_mem_iff (pairwise_sources files) (pairwise_sources files') ?_
  rintro ⟨name, source⟩
  rw [mem_sources_iff, mem_sources_iff, h]

/-! ## The files of a graph -/

/-- The file of the graph that an import of a file means. -/
def meant? (g : DependencyGraph) (file : FileNode) (i : Import) : Option String :=
  i.resolve? file.name (candidates g.names i.fileName)

theorem names_build (files : List (String × String)) :
    (build files).names = (sources files).map (·.1) := by
  simp only [build, names, List.map_map]
  rfl

/-- What a file of the graph imports is read off its last source. -/
theorem exists_of_mem_files {files : List (String × String)} {file : FileNode}
    (h : file ∈ (build files).files) :
    ∃ source, lastSource? files file.name = some source ∧ file.imports = importsOf source ∧
      file.dependencies
        = firstOccurrences [] (file.imports.filterMap ((build files).meant? file)) := by
  simp only [build, List.mem_map] at h
  obtain ⟨entry, ⟨⟨name, source⟩, hmem, rfl⟩, rfl⟩ := h
  refine ⟨source, mem_sources_iff.mp hmem, rfl, ?_⟩
  simp only [dependenciesOf]
  congr 2
  funext i
  rw [meant?, names_build]

theorem importedBy_eq {files : List (String × String)} {file : FileNode}
    (h : file ∈ (build files).files) :
    file.importedBy
      = ((build files).files.filter (·.dependencies.contains file.name)).map (·.name) := by
  simp only [build, List.mem_map] at h
  obtain ⟨entry, ⟨⟨name, source⟩, hmem, rfl⟩, rfl⟩ := h
  simp only [build, List.filter_map, List.map_map]
  rfl

/-! ## Consistency -/

/-- The two records of dependencies in a graph fit together. -/
structure Consistent (g : DependencyGraph) : Prop where
  /-- The files stand in the order of the bytes of their names, so no name is repeated. -/
  names_ascending : g.names.Pairwise fun a b => bytes a.toList < bytes b.toList
  /-- Only files of the graph are recorded. -/
  known : ∀ file ∈ g.files, ∀ name ∈ file.dependencies ++ file.importedBy, name ∈ g.names
  /-- What one file records of another, that one records of it. -/
  recordedByBoth : ∀ file ∈ g.files, ∀ other ∈ g.files,
    other.name ∈ file.dependencies ↔ file.name ∈ other.importedBy
  nodup : ∀ file ∈ g.files, file.dependencies.Nodup ∧ file.importedBy.Nodup
  importedBy_ascending : ∀ file ∈ g.files,
    file.importedBy.Pairwise fun a b => bytes a.toList < bytes b.toList
  /-- A file depends on the files that its imports mean. -/
  mem_dependencies : ∀ file ∈ g.files, ∀ name,
    name ∈ file.dependencies ↔ ∃ i ∈ file.imports, g.meant? file i = some name
  /-- Dependencies stand in the order of the first imports that mean them. -/
  dependencies_inOrder : ∀ file ∈ g.files, file.dependencies.Pairwise fun a b =>
    file.imports.findIdx (g.meant? file · == some a)
      < file.imports.findIdx (g.meant? file · == some b)

theorem pairwise_names (files : List (String × String)) :
    (build files).names.Pairwise (· < ·) := by
  rw [names_build, List.pairwise_map]
  exact pairwise_sources files

/-- Ascending names are different and have ascending bytes. -/
theorem nodup_and_pairwise_bytes {names : List String} (h : names.Pairwise (· < ·)) :
    names.Nodup ∧ names.Pairwise fun a b => bytes a.toList < bytes b.toList :=
  ⟨h.imp ne_of_lt, h.imp fun hlt => bytes_lt_bytes (String.lt_iff.mp hlt)⟩

theorem pairwise_importedBy {files : List (String × String)} {file : FileNode}
    (h : file ∈ (build files).files) : file.importedBy.Pairwise (· < ·) := by
  rw [importedBy_eq h]
  exact (pairwise_names files).sublist (List.filter_sublist.map _)

theorem consistent_build (files : List (String × String)) : (build files).Consistent := by
  have hmem : ∀ file ∈ (build files).files, ∀ name, name ∈ file.dependencies ↔
      ∃ i ∈ file.imports, (build files).meant? file i = some name := by
    intro file hfile name
    obtain ⟨source, -, -, hdependencies⟩ := exists_of_mem_files hfile
    rw [hdependencies, mem_firstOccurrences_iff, List.mem_filterMap]
    simp
  have hinOrder : ∀ file ∈ (build files).files, file.dependencies.Pairwise fun a b =>
      file.imports.findIdx ((build files).meant? file · == some a)
        < file.imports.findIdx ((build files).meant? file · == some b) := by
    intro file hfile
    obtain ⟨source, -, -, hdependencies⟩ := exists_of_mem_files hfile
    rw [hdependencies]
    exact pairwise_firstOccurrences _ [] file.imports
  constructor
  case names_ascending => exact (nodup_and_pairwise_bytes (pairwise_names files)).2
  case known =>
    intro file hfile name hname
    rcases List.mem_append.mp hname with hname | hname
    · obtain ⟨i, -, hi⟩ := (hmem file hfile name).mp hname
      exact (List.mem_filter.mp (mem_of_resolve? hi)).1
    · rw [importedBy_eq hfile] at hname
      obtain ⟨other, hother, rfl⟩ := List.mem_map.mp hname
      exact List.mem_map_of_mem (List.mem_filter.mp hother).1
  case recordedByBoth =>
    intro file hfile other hother
    rw [importedBy_eq hother, List.mem_map]
    constructor
    · intro hname
      exact ⟨file, List.mem_filter.mpr ⟨hfile, by simpa using hname⟩, rfl⟩
    · rintro ⟨file', hfile', hname⟩
      obtain ⟨hfile', hdepends⟩ := List.mem_filter.mp hfile'
      -- the name belongs to one file only
      have hnodup := (nodup_and_pairwise_bytes (pairwise_names files)).1
      obtain rfl := List.inj_on_of_nodup_map hnodup hfile' hfile hname
      simpa using hdepends
  case nodup =>
    intro file hfile
    refine ⟨(hinOrder file hfile).imp fun hlt heq => ?_,
      (nodup_and_pairwise_bytes (pairwise_importedBy hfile)).1⟩
    rw [heq] at hlt
    exact lt_irrefl _ hlt
  case importedBy_ascending =>
    exact fun file hfile => (nodup_and_pairwise_bytes (pairwise_importedBy hfile)).2
  case mem_dependencies => exact hmem
  case dependencies_inOrder => exact hinOrder

/-- **The graph of a set of files.** Its records of dependencies fit together. Its files are those
that were given, each with the imports of its last source, and nothing but the last source of each
name matters: any other list of files with the same last sources, such as a reordering that keeps
them, gives the same graph. -/
theorem build_invariant (files : List (String × String)) :
    (build files).Consistent ∧
      (∀ name, name ∈ (build files).names ↔ ∃ file ∈ files, file.1 = name) ∧
      (∀ file ∈ (build files).files, ∃ source, lastSource? files file.name = some source ∧
        file.imports = importsOf source) ∧
      ∀ files', (∀ name, lastSource? files' name = lastSource? files name) →
        build files' = build files := by
  refine ⟨consistent_build files, ?_, ?_, ?_⟩
  · intro name
    rw [names_build, List.mem_map]
    constructor
    · rintro ⟨⟨name, source⟩, hmem, rfl⟩
      exact exists_lastSource_iff.mp ⟨source, mem_sources_iff.mp hmem⟩
    · intro hgiven
      obtain ⟨source, hsource⟩ := exists_lastSource_iff.mpr hgiven
      exact ⟨(name, source), mem_sources_iff.mpr hsource, rfl⟩
  · intro file hfile
    obtain ⟨source, hsource, himports, -⟩ := exists_of_mem_files hfile
    exact ⟨source, hsource, himports⟩
  · intro files' h
    simp only [build, sources_congr h]

end SolidityTools.DependencyGraph

import SolidityTools.Command.FileTree

set_option autoImplicit false

/-! # Files keep what is written to them

A text that is written at a place is what is read there afterwards, and every other place holds what
it held (`file?_setText_of_ne`). Writing makes folders but never removes one, so a path that can be
followed before leads to the same place afterwards (`place?_setText`), and what is written to a path
is read from it (`read?_of_write?`). A file that is written where one was, or into a folder that was
there, makes no folder either, and then no path leads anywhere else (`place?_setText_eq`).
-/

namespace SolidityTools

namespace FileTree

theorem fromUTF8?_toUTF8 (text : String) : String.fromUTF8? text.toUTF8 = some text := by
  have hvalid : text.toUTF8.IsValidUTF8 := text.isValidUTF8
  rw [String.fromUTF8?, dif_pos hvalid]
  rfl

theorem textAt?_of_file? {tree : FileTree} {place : Place} {text : String}
    (h : tree.file? place = some text.toUTF8) : tree.textAt? place = some text := by
  rw [textAt?, h]
  exact fromUTF8?_toUTF8 text

/-! ## Folders -/

theorem liesInside_iff {place folder : Place} :
    liesInside place folder = true ↔ folder <+: place ∧ folder.length < place.length := by
  simp [liesInside]

theorem isFolder_of_prefix (tree : FileTree) {folder inner : Place} (hbegins : folder <+: inner)
    (h : tree.isFolder inner = true) : tree.isFolder folder = true := by
  rcases Nat.lt_or_ge folder.length inner.length with hlt | hge
  · have hinside : ∀ place : Place, inner <+: place → liesInside place folder = true :=
      fun place hplace =>
        liesInside_iff.mpr ⟨hbegins.trans hplace, Nat.lt_of_lt_of_le hlt hplace.length_le⟩
    rw [isFolder, Bool.or_eq_true, Bool.or_eq_true] at h ⊢
    rcases h with (hempty | hnamed) | hfile
    · rw [List.isEmpty_iff.mp hempty] at hlt
      exact absurd hlt (Nat.not_lt_zero _)
    · obtain ⟨named, hmem, hnamed⟩ := List.any_eq_true.mp hnamed
      refine .inl (.inr (List.any_eq_true.mpr ⟨named, hmem, ?_⟩))
      rw [Bool.or_eq_true] at hnamed ⊢
      rcases hnamed with heq | hnamed
      · exact .inr (hinside named (beq_iff_eq.mp heq ▸ List.prefix_rfl))
      · exact .inr (hinside named (liesInside_iff.mp hnamed).1)
    · obtain ⟨file, hmem, hfile⟩ := List.any_eq_true.mp hfile
      exact .inr (List.any_eq_true.mpr ⟨file, hmem, hinside file.1 (liesInside_iff.mp hfile).1⟩)
  · rw [hbegins.eq_of_length_le hge]
    exact h

/-- Paths lead to the same places where the same folders are. -/
theorem follow?_congr {tree tree' : FileTree}
    (hfolder : ∀ folder, tree'.isFolder folder = tree.isFolder folder) (start : Place)
    (segments : List String) : tree'.follow? start segments = tree.follow? start segments := by
  induction segments generalizing start with
  | nil => rfl
  | cons segment segments ih => simp only [follow?, hfolder, ih]

/-! ## Places -/

section SetText

variable (tree : FileTree) (place : Place) (text : String)

theorem file?_setText : (tree.setText place text).file? place = some text.toUTF8 := by
  by_cases hfile : tree.isFile place = true
  · have hsome : (tree.files.find? (·.1 == place)).isSome = true := by
      rw [isFile, file?, Option.isSome_map] at hfile
      exact hfile
    obtain ⟨file, hfind⟩ := Option.isSome_iff_exists.mp hsome
    have hplace := List.find?_some hfind
    -- replacing keeps the places, so the same file is found
    have hsame : (fun file : Place × ByteArray =>
        (if file.1 == place then (place, text.toUTF8) else file).1 == place)
          = fun file => file.1 == place := by
      funext file
      by_cases h : (file.1 == place) = true
      · rw [if_pos h, h]
        exact beq_self_eq_true place
      · rw [if_neg h]
    simp only [setText, file?, if_pos hfile, List.find?_map, Function.comp_def, hsame, hfind,
      Option.map_some, if_pos hplace]
  · have hnone : tree.files.find? (·.1 == place) = none := by
      rw [isFile, file?, Option.isSome_map] at hfile
      exact Option.not_isSome_iff_eq_none.mp hfile
    simp [setText, file?, if_neg hfile, List.find?_append, hnone]

theorem textAt?_setText : (tree.setText place text).textAt? place = some text :=
  textAt?_of_file? (file?_setText tree place text)

/-- Every other place holds what it held. -/
theorem file?_setText_of_ne {other : Place} (h : other ≠ place) :
    (tree.setText place text).file? other = tree.file? other := by
  by_cases hfile : tree.isFile place = true
  · simp only [setText, file?, if_pos hfile]
    induction tree.files with
    | nil => rfl
    | cons file files ih =>
        by_cases hplace : file.1 = place
        · have hne : (place == other) = false := beq_eq_false_iff_ne.mpr (Ne.symm h)
          simpa [List.find?_cons, hplace, hne] using ih
        · by_cases hother : file.1 = other
          · simp [hother, h]
          · simpa [List.find?_cons, hplace, hother] using ih
  · have hne : (place == other) = false := beq_eq_false_iff_ne.mpr (Ne.symm h)
    simp [setText, file?, if_neg hfile, List.find?_append, hne]

theorem textAt?_setText_of_ne {other : Place} (h : other ≠ place) :
    (tree.setText place text).textAt? other = tree.textAt? other := by
  rw [textAt?, textAt?, file?_setText_of_ne tree place text h]

theorem exists_mem_setText {file : Place × ByteArray} (h : file ∈ tree.files) :
    ∃ file' ∈ (tree.setText place text).files, file'.1 = file.1 := by
  by_cases hfile : tree.isFile place = true
  · simp only [setText, if_pos hfile]
    refine ⟨_, List.mem_map_of_mem h, ?_⟩
    by_cases hplace : (file.1 == place) = true
    · rw [if_pos hplace]
      exact (beq_iff_eq.mp hplace).symm
    · rw [if_neg hplace]
  · simp only [setText, if_neg hfile]
    exact ⟨file, List.mem_append_left _ h, rfl⟩

theorem isFolder_setText {folder : Place} (h : tree.isFolder folder = true) :
    (tree.setText place text).isFolder folder = true := by
  rw [isFolder, Bool.or_eq_true, Bool.or_eq_true] at h ⊢
  rcases h with hnamed | hfile
  · exact .inl hnamed
  · obtain ⟨file, hmem, hinside⟩ := List.any_eq_true.mp hfile
    obtain ⟨file', hmem', heq⟩ := exists_mem_setText tree place text hmem
    exact .inr (List.any_eq_true.mpr ⟨file', hmem', by rw [heq]; exact hinside⟩)

/-- A file that is written where one was, or into a folder that was there, makes no folder. -/
theorem isFolder_setText_eq (h : tree.isFile place = true ∨ tree.isFolder place.dropLast = true)
    (folder : Place) : (tree.setText place text).isFolder folder = tree.isFolder folder := by
  refine Bool.eq_iff_iff.mpr ⟨fun hfolder => ?_, isFolder_setText tree place text⟩
  rw [isFolder, Bool.or_eq_true] at hfolder
  rcases hfolder with hnamed | hfile
  · rw [isFolder, Bool.or_eq_true]
    exact .inl hnamed
  · obtain ⟨file, hmem, hinside⟩ := List.any_eq_true.mp hfile
    by_cases hplace : tree.isFile place = true
    · simp only [setText, if_pos hplace] at hmem
      obtain ⟨file', hmem', rfl⟩ := List.mem_map.mp hmem
      have hsame : (if file'.1 == place then (place, text.toUTF8) else file').1 = file'.1 := by
        by_cases heq : (file'.1 == place) = true
        · rw [if_pos heq]
          exact (beq_iff_eq.mp heq).symm
        · rw [if_neg heq]
      rw [hsame] at hinside
      rw [isFolder, Bool.or_eq_true]
      exact .inr (List.any_eq_true.mpr ⟨file', hmem', hinside⟩)
    · simp only [setText, if_neg hplace] at hmem
      rcases List.mem_append.mp hmem with hmem | hmem
      · rw [isFolder, Bool.or_eq_true]
        exact .inr (List.any_eq_true.mpr ⟨file, hmem, hinside⟩)
      · -- what holds the new file holds its folder, or is that folder
        obtain rfl := List.mem_singleton.mp hmem
        obtain ⟨hbegins, hlength⟩ : folder <+: place ∧ folder.length < place.length :=
          liesInside_iff.mp hinside
        refine isFolder_of_prefix tree (List.prefix_of_prefix_length_le hbegins
          place.dropLast_prefix ?_) (h.resolve_left hplace)
        rw [List.length_dropLast]
        omega

/-! ## Paths -/

theorem follow?_setText {start target : Place} {segments : List String}
    (h : tree.follow? start segments = some target) :
    (tree.setText place text).follow? start segments = some target := by
  induction segments generalizing start with
  | nil => exact h
  | cons segment segments ih =>
      rw [follow?] at h ⊢
      by_cases hfolder : tree.isFolder start = true
      · rw [if_pos hfolder] at h
        rw [if_pos (isFolder_setText tree place text hfolder)]
        split at h
        · next hstay => rw [if_pos hstay]; exact ih h
        · next hstay =>
            rw [if_neg hstay]
            split at h
            · next hup => rw [if_pos hup]; exact ih h
            · next hup =>
                rw [if_neg hup]
                split at h
                · next hlength => rw [if_pos hlength]; exact ih h
                · cases h
      · rw [if_neg hfolder] at h
        cases h

theorem place?_setText {path : String} {target : Place} (h : tree.place? path = some target) :
    (tree.setText place text).place? path = some target := by
  rw [place?] at h ⊢
  split at h
  · exact follow?_setText tree place text h
  · exact follow?_setText tree place text h

/-- Where no folder is made, every path leads where it led. -/
theorem place?_setText_eq (h : tree.isFile place = true ∨ tree.isFolder place.dropLast = true)
    (path : String) : (tree.setText place text).place? path = tree.place? path := by
  have hfolder := isFolder_setText_eq tree place text h
  rw [place?, place?]
  split
  · exact follow?_congr hfolder _ _
  · exact follow?_congr hfolder _ _

end SetText

/-- **What is written to a path is read from it.** -/
theorem read?_of_write? {tree tree' : FileTree} {path text : String}
    (h : tree.write? path text = some tree') : tree'.read? path = some text := by
  obtain ⟨place, hplace, hwrite⟩ := Option.bind_eq_some_iff.mp h
  rw [writeAt?] at hwrite
  split at hwrite
  · cases hwrite
  · cases hwrite
    rw [read?, place?_setText tree place text hplace]
    exact textAt?_setText tree place text

end FileTree

end SolidityTools

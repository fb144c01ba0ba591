import SolidityTools.Command.Run
import SolidityTools.Proofs.Command.FileTree
import SolidityTools.Proofs.Toml.Document
import SolidityTools.Settings.Reader

set_option autoImplicit false

/-! # Settings are read back

Whatever part of the settings is written to a file, reading the file gives the standard settings
with this part in the place of the standard. A table is read back as the entries of the fields that
are kept, so each field finds either the value that was written for it or nothing, and then it
takes its default.
-/

namespace SolidityTools

open Toml

namespace Settings

/-- The standard settings, with the fields that `keeps` selects by table and key taken from other
settings. -/
def overlaid (keeps : String → String → Bool) (s : Settings) : Settings where
  editor :=
    let own (key : String) {α : Type} (value standard : α) : α :=
      if keeps "editor" key then value else standard
    let d := EditorSettings.standard
    { tabSize := own "tab_size" s.editor.tabSize d.tabSize
      indentWidth := own "indent_width" s.editor.indentWidth d.indentWidth
      trimTrailing := own "trim_trailing_whitespace" s.editor.trimTrailing d.trimTrailing }
  lint :=
    let own (key : String) {α : Type} (value standard : α) : α :=
      if keeps "lint" key then value else standard
    let d := LintSettings.standard
    { disabledRules := own "disabled_rules" s.lint.disabledRules d.disabledRules
      headerLines := own "header_scan_lines" s.lint.headerLines d.headerLines
      allowedNumbers := own "magic_number_allowlist" s.lint.allowedNumbers d.allowedNumbers }
  gas :=
    let own (key : String) (value standard : UInt64) : UInt64 :=
      if keeps "gas" key then value else standard
    let d := GasWeights.standard
    { base := own "base" s.gas.base d.base
      viewBase := own "view_base" s.gas.viewBase d.viewBase
      storageWrite := own "storage_write" s.gas.storageWrite d.storageWrite
      memoryWrite := own "memory_write" s.gas.memoryWrite d.memoryWrite
      loop := own "loop_cost" s.gas.loop d.loop
      unboundedLoop := own "unbounded_loop_penalty" s.gas.unboundedLoop d.unboundedLoop
      externalCall := own "external_call" s.gas.externalCall d.externalCall
      event := own "event" s.gas.event d.event
      creation := own "contract_creation" s.gas.creation d.creation }

/-- With all fields taken nothing is left of the standard. -/
theorem overlaid_all (s : Settings) : overlaid (fun _ _ => true) s = s := rfl

/-! ## Fields -/

section Fields

variable {fields : List (String × WrittenValue)} {keeps : String → Bool}

/-- The entries of the fields that are kept. -/
def keptEntries (keeps : String → Bool) (fields : List (String × WrittenValue)) : Entries :=
  entriesOf (fields.filter fun field => keeps field.1)

/-- A kept field is found, and a field that is not kept is missing. -/
theorem get?_keptEntries (hnodup : (fields.map Prod.fst).Nodup) {key : String}
    {value : WrittenValue} (hmem : (key, value) ∈ fields) :
    Entries.get? (keptEntries keeps fields) key = if keeps key then some value.value else none := by
  by_cases hkey : keeps key = true
  · rw [if_pos hkey]
    have hkept : (key, value) ∈ fields.filter fun field => keeps field.1 :=
      List.mem_filter.mpr ⟨hmem, hkey⟩
    obtain ⟨front, behind, hsplit⟩ := List.append_of_mem hkept
    have hsub := (List.filter_sublist (p := fun field => keeps field.1) (l := fields)).map Prod.fst
    have hkeys := hnodup.sublist hsub
    rw [hsplit, List.map_append, List.map_cons, List.nodup_append] at hkeys
    have hfront : key ∉ front.map Prod.fst :=
      fun h => hkeys.2.2 key h key List.mem_cons_self rfl
    rw [keptEntries, hsplit, entriesOf, List.map_append, List.map_cons]
    exact Entries.get?_append_of_get?_eq_none (get?_entriesOf_eq_none hfront) _ _
  · rw [if_neg hkey]
    refine get?_entriesOf_eq_none fun hmem => hkey ?_
    obtain ⟨field, hfield, rfl⟩ := List.mem_map.mp hmem
    exact (List.mem_filter.mp hfield).2

/-- **A field is its own or the standard one.** -/
theorem readField?_keptEntries {α : Type} (h : Writable fields) (keeps : String → Bool)
    {key : String} {value : WrittenValue} (hmem : (key, value) ∈ fields) {read : Value → Option α}
    {own : α} (hread : read value.value = some own) (standard : α) :
    readField? read standard (Entries.get? (keptEntries keeps fields) key)
      = some (if keeps key then own else standard) := by
  rw [get?_keptEntries h.nodup hmem]
  by_cases hkey : keeps key = true
  · rw [if_pos hkey, if_pos hkey]
    exact hread
  · rw [if_neg hkey, if_neg hkey]
    rfl

/-- A table without other keys is looked at as it is. -/
theorem fields?_keptEntries {keys : List String} (hkeys : ∀ key ∈ fields.map Prod.fst, key ∈ keys)
    (keeps : String → Bool) :
    fields? keys (.table .header (keptEntries keeps fields))
      = some (Entries.get? (keptEntries keeps fields)) := by
  have hnone : (keptEntries keeps fields).filter (fun entry => !keys.contains entry.1) = [] := by
    refine List.filter_eq_nil_iff.mpr fun entry hentry => ?_
    obtain ⟨field, hfield, rfl⟩ := List.mem_map.mp hentry
    have hmem := hkeys field.1 (List.mem_map_of_mem (List.mem_of_mem_filter hfield))
    simpa using hmem
  rw [fields?, hnone]
  rfl

theorem wordValue?_value (n : UInt64) : wordValue? (WrittenValue.word n).value = some n := by
  have hlt : n.toNat < UInt64.size := n.toNat_lt
  have hrange : (0 : Int) ≤ n.toNat ∧ (n.toNat : Int) < UInt64.size := by omega
  rw [WrittenValue.value, wordValue?, if_pos hrange]
  simp

theorem truthValue?_value (b : Bool) : truthValue? (WrittenValue.truth b).value = some b := rfl

theorem textsValue?_value (items : List String) :
    textsValue? (WrittenValue.texts items).value = some items := by
  have hitems : (items.map Value.string).mapM textValue? = some items := by
    induction items with
    | nil => rfl
    | cons item items ih => simp [ih, textValue?]
  exact hitems

theorem readField?_word (h : Writable fields) (keeps : String → Bool) (key : String) (n : UInt64)
    (hmem : (key, .word n) ∈ fields) (standard : UInt64) :
    readField? wordValue? standard (Entries.get? (keptEntries keeps fields) key)
      = some (if keeps key then n else standard) :=
  readField?_keptEntries h keeps hmem (wordValue?_value n) standard

theorem readField?_truth (h : Writable fields) (keeps : String → Bool) (key : String) (b : Bool)
    (hmem : (key, .truth b) ∈ fields) (standard : Bool) :
    readField? truthValue? standard (Entries.get? (keptEntries keeps fields) key)
      = some (if keeps key then b else standard) :=
  readField?_keptEntries h keeps hmem (truthValue?_value b) standard

theorem readField?_texts (h : Writable fields) (keeps : String → Bool) (key : String)
    (items : List String) (hmem : (key, .texts items) ∈ fields) (standard : List String) :
    readField? textsValue? standard (Entries.get? (keptEntries keeps fields) key)
      = some (if keeps key then items else standard) :=
  readField?_keptEntries h keeps hmem (textsValue?_value items) standard

end Fields

/-! ## Tables -/

variable (keeps : String → String → Bool)

theorem writable_editorFields (s : EditorSettings) : Writable (editorFields s) :=
  writable_of_keys editorKeys rfl (by decide) (by decide)

theorem writable_lintFields (s : LintSettings) : Writable (lintFields s) :=
  writable_of_keys lintKeys rfl (by decide) (by decide)

theorem writable_gasFields (w : GasWeights) : Writable (gasFields w) :=
  writable_of_keys gasKeys rfl (by decide) (by decide)

theorem editorSettings?_keptEntries (s : Settings) :
    editorSettings? (.table .header (keptEntries (keeps "editor") (editorFields s.editor)))
      = some (overlaid keeps s).editor := by
  have hword := readField?_word (writable_editorFields s.editor) (keeps "editor")
  have htruth := readField?_truth (writable_editorFields s.editor) (keeps "editor")
  rw [editorSettings?, fields?_keptEntries (by simp [editorFields, editorKeys])]
  simp only [Option.bind_eq_bind, Option.bind_some]
  rw [hword "tab_size" s.editor.tabSize (by simp [editorFields]),
    hword "indent_width" s.editor.indentWidth (by simp [editorFields]),
    htruth "trim_trailing_whitespace" s.editor.trimTrailing (by simp [editorFields])]
  rfl

theorem lintSettings?_keptEntries (s : Settings) :
    lintSettings? (.table .header (keptEntries (keeps "lint") (lintFields s.lint)))
      = some (overlaid keeps s).lint := by
  have hword := readField?_word (writable_lintFields s.lint) (keeps "lint")
  have htexts := readField?_texts (writable_lintFields s.lint) (keeps "lint")
  rw [lintSettings?, fields?_keptEntries (by simp [lintFields, lintKeys])]
  simp only [Option.bind_eq_bind, Option.bind_some]
  rw [htexts "disabled_rules" s.lint.disabledRules (by simp [lintFields]),
    hword "header_scan_lines" s.lint.headerLines (by simp [lintFields]),
    htexts "magic_number_allowlist" s.lint.allowedNumbers (by simp [lintFields])]
  rfl

theorem gasWeights?_keptEntries (s : Settings) :
    gasWeights? (.table .header (keptEntries (keeps "gas") (gasFields s.gas)))
      = some (overlaid keeps s).gas := by
  have hword := readField?_word (writable_gasFields s.gas) (keeps "gas")
  rw [gasWeights?, fields?_keptEntries (by simp [gasFields, gasKeys])]
  simp only [Option.bind_eq_bind, Option.bind_some]
  rw [hword "base" s.gas.base (by simp [gasFields]),
    hword "view_base" s.gas.viewBase (by simp [gasFields]),
    hword "storage_write" s.gas.storageWrite (by simp [gasFields]),
    hword "memory_write" s.gas.memoryWrite (by simp [gasFields]),
    hword "loop_cost" s.gas.loop (by simp [gasFields]),
    hword "unbounded_loop_penalty" s.gas.unboundedLoop (by simp [gasFields]),
    hword "external_call" s.gas.externalCall (by simp [gasFields]),
    hword "event" s.gas.event (by simp [gasFields]),
    hword "contract_creation" s.gas.creation (by simp [gasFields])]
  rfl

/-! ## Files -/

/-- The entries of a settings file. -/
def keptTables (s : Settings) : Entries :=
  [("editor", .table .header (keptEntries (keeps "editor") (editorFields s.editor))),
   ("lint", .table .header (keptEntries (keeps "lint") (lintFields s.lint))),
   ("gas", .table .header (keptEntries (keeps "gas") (gasFields s.gas)))]

/-- Three tables with empty lines between them are read one by one. -/
theorem lines?_tables {editor lint gas : List (String × WrittenValue)} (heditor : Writable editor)
    (hlint : Writable lint) (hgas : Writable gas) :
    let text := writeTable "editor" editor ++ '\n' :: writeTable "lint" lint
      ++ '\n' :: writeTable "gas" gas
    (Document.start.lines? (text.length + 1) text).map (·.entries)
      = some [("editor", .table .header (entriesOf editor)),
          ("lint", .table .header (entriesOf lint)), ("gas", .table .header (entriesOf gas))] := by
  intro text
  have hlength := Document.length_lt_length_writeTable "editor" editor
  have hlength' := Document.length_lt_length_writeTable "lint" lint
  have hlength'' := Document.length_lt_length_writeTable "gas" gas
  have htext : text = writeTable "editor" editor ++ '\n' :: (writeTable "lint" lint
      ++ '\n' :: (writeTable "gas" gas ++ [])) := by
    simp [text]
  -- a step for each header, each field and each empty line
  obtain ⟨left, hleft⟩ : ∃ left, text.length + 1
      = left + gas.length + 1 + 1 + lint.length + 1 + 1 + editor.length + 1 := by
    have hcount : text.length = (writeTable "editor" editor).length
        + ((writeTable "lint" lint).length + ((writeTable "gas" gas).length + 1) + 1) := by
      rw [htext]
      simp
    exact ⟨text.length - gas.length - lint.length - editor.length - 4, by omega⟩
  rw [hleft, htext, Document.start, Document.lines?_writeTable rfl (by decide) heditor,
    Document.lines?_of_line (Document.line?_newline _ _) (List.cons_ne_nil _ _),
    Document.lines?_writeTable rfl (by decide) hlint,
    Document.lines?_of_line (Document.line?_newline _ _) (List.cons_ne_nil _ _),
    Document.lines?_writeTable rfl (by decide) hgas, Document.lines?_nil]
  rfl

theorem toml_read?_writeSelected (s : Settings) :
    Toml.read? (writeSelected keeps s) = some (keptTables keeps s) := by
  have htables := lines?_tables
    ((writable_editorFields s.editor).filter fun field => keeps "editor" field.1)
    ((writable_lintFields s.lint).filter fun field => keeps "lint" field.1)
    ((writable_gasFields s.gas).filter fun field => keeps "gas" field.1)
  rw [writeSelected, Toml.read?, String.toList_ofList]
  exact htables

theorem read?_writeSelected (s : Settings) :
    read? (writeSelected keeps s) = some (overlaid keeps s) := by
  have hfields : fields? tableKeys (.table .header (keptTables keeps s))
      = some (Entries.get? (keptTables keeps s)) := rfl
  have heditor : readField? editorSettings? Settings.standard.editor
      (Entries.get? (keptTables keeps s) "editor") = some (overlaid keeps s).editor :=
    editorSettings?_keptEntries keeps s
  have hlint : readField? lintSettings? Settings.standard.lint
      (Entries.get? (keptTables keeps s) "lint") = some (overlaid keeps s).lint :=
    lintSettings?_keptEntries keeps s
  have hgas : readField? gasWeights? Settings.standard.gas
      (Entries.get? (keptTables keeps s) "gas") = some (overlaid keeps s).gas :=
    gasWeights?_keptEntries keeps s
  rw [read?, toml_read?_writeSelected, Option.bind_eq_bind, Option.bind_some, ofEntries?, hfields]
  simp only [Option.bind_eq_bind, Option.bind_some, heditor, hlint, hgas]

/-- **Settings come back from a file.** Of a file with some of the fields these fields are read and
the others take their defaults, and what is written to a path is what is loaded from there. -/
theorem loaded_as_written :
    (∀ (keeps : String → String → Bool) (s : Settings),
        read? (writeSelected keeps s) = some (overlaid keeps s))
      ∧ ∀ (tree tree' : FileTree) (path : String) (s : Settings),
        tree.write? path s.write = some tree' →
          Command.loadSettings tree' path (tree'.place? path) = .ok s := by
  constructor
  · exact read?_writeSelected
  · intro tree tree' path s h
    have htext : (tree'.place? path).bind tree'.textAt? = some s.write := FileTree.read?_of_write? h
    rw [Command.loadSettings, htext]
    simp only [write, read?_writeSelected, overlaid_all]

/-- Settings with a large number and with strings that need all sorts of quotes. -/
def strange : Settings :=
  { Settings.standard with
    editor := { EditorSettings.standard with tabSize := 18446744073709551615 }
    lint :=
      { LintSettings.standard with
        disabledRules := ["a\"b\\c", "\x01\n", "'é'"]
        allowedNumbers := [""] } }

/-- An empty tree, in which the root is the working folder. -/
def emptyTree : FileTree := ⟨[], [], [], []⟩

theorem loaded_as_written_strange :
    (emptyTree.write? "a.toml" strange.write).isSome = true
      ∧ ∀ tree' ∈ emptyTree.write? "a.toml" strange.write,
        Command.loadSettings tree' "a.toml" (tree'.place? "a.toml") = .ok strange := by
  constructor
  · have hplace : emptyTree.place? "a.toml" = some ["a.toml"] := by decide
    rw [FileTree.write?, hplace]
    rfl
  · intro tree' h
    exact loaded_as_written.2 emptyTree tree' "a.toml" strange h

end Settings

end SolidityTools

import SolidityTools.Settings
import SolidityTools.Toml.Reader

set_option autoImplicit false

/-! # Settings read from a file

A settings file has three tables, and whatever it leaves out keeps its default. What has no meaning
here is ignored, but its numbers must not be too large to be read. In the place of a table an array
may stand, which gives the fields in their order and whose further elements nobody looks at. A
moment in that place gives no fields. Numbers must be whole, not negative and fit into a word.
-/

namespace SolidityTools

open Toml

/-! ## Fields -/

abbrev Fields := String → Option Value

/-- The fields with the given keys that a table, an array or a moment has. -/
def fields? (keys : List String) : Value → Option Fields
  | .table _ entries =>
    if entriesReadable (entries.filter fun entry => !keys.contains entry.1) then
      some (Entries.get? entries)
    else none
  | .array _ items => some fun key => items[keys.idxOf key]?
  | .moment => some fun _ => none
  | _ => none

def wordValue? : Value → Option UInt64
  | .integer n => if 0 ≤ n ∧ n < UInt64.size then some (UInt64.ofNat n.toNat) else none
  | _ => none

def truthValue? : Value → Option Bool
  | .boolean b => some b
  | _ => none

def textValue? : Value → Option String
  | .string text => some text
  | _ => none

def textsValue? : Value → Option (List String)
  | .array _ items => items.mapM textValue?
  | _ => none

/-- The value of a field, or its default if the file does not give it. A value of another sort is
refused. -/
def readField? {α : Type} (read : Value → Option α) (standard : α) : Option Value → Option α
  | none => some standard
  | some value => read value

/-! ## Tables -/

/-- The keys of the layout settings. -/
def editorKeys : List String := ["tab_size", "indent_width", "trim_trailing_whitespace"]

def editorSettings? (value : Value) : Option EditorSettings := do
  let fields ← fields? editorKeys value
  let d := EditorSettings.standard
  let tabSize ← readField? wordValue? d.tabSize (fields "tab_size")
  let indentWidth ← readField? wordValue? d.indentWidth (fields "indent_width")
  let trimTrailing ← readField? truthValue? d.trimTrailing (fields "trim_trailing_whitespace")
  some { tabSize, indentWidth, trimTrailing }

def lintKeys : List String := ["disabled_rules", "header_scan_lines", "magic_number_allowlist"]

def lintSettings? (value : Value) : Option LintSettings := do
  let fields ← fields? lintKeys value
  let d := LintSettings.standard
  let disabledRules ← readField? textsValue? d.disabledRules (fields "disabled_rules")
  let headerLines ← readField? wordValue? d.headerLines (fields "header_scan_lines")
  let allowedNumbers ← readField? textsValue? d.allowedNumbers (fields "magic_number_allowlist")
  some { disabledRules, headerLines, allowedNumbers }

def gasKeys : List String :=
  ["base", "view_base", "storage_write", "memory_write", "loop_cost", "unbounded_loop_penalty",
   "external_call", "event", "contract_creation"]

def gasWeights? (value : Value) : Option GasWeights := do
  let fields ← fields? gasKeys value
  let d := GasWeights.standard
  let base ← readField? wordValue? d.base (fields "base")
  let viewBase ← readField? wordValue? d.viewBase (fields "view_base")
  let storageWrite ← readField? wordValue? d.storageWrite (fields "storage_write")
  let memoryWrite ← readField? wordValue? d.memoryWrite (fields "memory_write")
  let loop ← readField? wordValue? d.loop (fields "loop_cost")
  let unboundedLoop ← readField? wordValue? d.unboundedLoop (fields "unbounded_loop_penalty")
  let externalCall ← readField? wordValue? d.externalCall (fields "external_call")
  let event ← readField? wordValue? d.event (fields "event")
  let creation ← readField? wordValue? d.creation (fields "contract_creation")
  some { base, viewBase, storageWrite, memoryWrite, loop, unboundedLoop, externalCall, event,
         creation }

namespace Settings

/-- The tables of a settings file. -/
def tableKeys : List String := ["editor", "lint", "gas"]

def ofEntries? (entries : Entries) : Option Settings := do
  let fields ← fields? tableKeys (.table .header entries)
  let d := Settings.standard
  let editor ← readField? editorSettings? d.editor (fields "editor")
  let lint ← readField? lintSettings? d.lint (fields "lint")
  let gas ← readField? gasWeights? d.gas (fields "gas")
  some { editor, lint, gas }

/-- The settings in the text of a file; `none` if the text is malformed or a setting has a value
of the wrong sort. -/
def read? (text : String) : Option Settings := Toml.read? text >>= ofEntries?

/-- What is said about a file whose settings cannot be read. -/
def readFailure : String := "Failed to parse config file as TOML"

end Settings

end SolidityTools

import SolidityTools.Settings
import SolidityTools.Toml.Quoted

set_option autoImplicit false

/-! # Settings written to a file

All settings are written, each on a line of its own under the header of its table, with an empty
line between the tables. A list of two or more strings takes one line for each.
-/

namespace SolidityTools

open Toml

inductive WrittenValue where
  | word (n : UInt64)
  | truth (b : Bool)
  | texts (items : List String)
deriving DecidableEq, Repr

def WrittenValue.text : WrittenValue → List Char
  | .word n => (toString n.toNat).toList
  | .truth b => if b then "true".toList else "false".toList
  | .texts [] => ['[', ']']
  | .texts [item] => '[' :: writeString item ++ [']']
  | .texts items =>
    ['[', '\n'] ++ items.flatMap (fun item => "    ".toList ++ writeString item ++ [',', '\n']) ++
      [']']

def writeField (key : String) (value : WrittenValue) : List Char :=
  key.toList ++ " = ".toList ++ value.text ++ ['\n']

/-- A table under its header. -/
def writeTable (name : String) (fields : List (String × WrittenValue)) : List Char :=
  '[' :: name.toList ++ [']', '\n'] ++ fields.flatMap fun (key, value) => writeField key value

namespace Settings

def editorFields (s : EditorSettings) : List (String × WrittenValue) :=
  [("tab_size", .word s.tabSize), ("indent_width", .word s.indentWidth),
   ("trim_trailing_whitespace", .truth s.trimTrailing)]

def lintFields (s : LintSettings) : List (String × WrittenValue) :=
  [("disabled_rules", .texts s.disabledRules), ("header_scan_lines", .word s.headerLines),
   ("magic_number_allowlist", .texts s.allowedNumbers)]

def gasFields (w : GasWeights) : List (String × WrittenValue) :=
  [("base", .word w.base), ("view_base", .word w.viewBase),
   ("storage_write", .word w.storageWrite), ("memory_write", .word w.memoryWrite),
   ("loop_cost", .word w.loop), ("unbounded_loop_penalty", .word w.unboundedLoop),
   ("external_call", .word w.externalCall), ("event", .word w.event),
   ("contract_creation", .word w.creation)]

/-- The tables of a settings file with the fields that `keeps` selects by table and key. -/
def writeSelected (keeps : String → String → Bool) (s : Settings) : String :=
  let select (name : String) (fields : List (String × WrittenValue)) :=
    writeTable name (fields.filter fun field => keeps name field.1)
  String.ofList <|
    select "editor" (editorFields s.editor) ++ '\n' ::
    select "lint" (lintFields s.lint) ++ '\n' ::
    select "gas" (gasFields s.gas)

def write (s : Settings) : String := writeSelected (fun _ _ => true) s

end Settings

end SolidityTools

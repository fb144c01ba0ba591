import SolidityTools.Text.Blank
import SolidityTools.Text.Line
import SolidityTools.Settings

set_option autoImplicit false

/-! # Laying out source text

Formatting works line by line and never looks at the code. The leading spaces and tabs of a line
are measured in columns, rounded down to whole indentation levels and written as spaces; trailing
blanks are dropped if the settings say so. A line without content becomes empty.

Formatting a formatted text changes nothing, because its indentation is made of spaces and is a
whole number of levels already.
-/

namespace SolidityTools

open Text

namespace Layout

def isIndent (c : Char) : Bool := c == ' ' || c == '\t'

/-- The columns of one indentation level, of which there is at least one. -/
def unit (settings : EditorSettings) : UInt64 := max settings.indentWidth 1

/-- The columns that a text in front of a line's content takes: a tab counts as the settings
say, any other character as one. -/
def columns (settings : EditorSettings) (indent : List Char) : UInt64 :=
  indent.foldl (fun n c => n + if c == '\t' then settings.tabSize else 1) 0

/-- An indentation of whole levels in place of the given one. -/
def reindent (settings : EditorSettings) (indent : List Char) : List Char :=
  let level := unit settings
  List.replicate (columns settings indent / level * level).toNat ' '

/-- The content of a line: what stands behind its indentation. -/
def content (settings : EditorSettings) (line : List Char) : List Char :=
  let rest := line.dropWhile isIndent
  if settings.trimTrailing then trimEnd rest else rest

/-- A line laid out anew. -/
def formatLine (settings : EditorSettings) (line : List Char) : List Char :=
  let text := content settings line
  if text.isEmpty then [] else reindent settings (line.takeWhile isIndent) ++ text

/-- A text laid out anew. -/
def formatText (settings : EditorSettings) (text : List Char) : List Char :=
  joinLines ((splitLines text).map (formatLine settings))

end Layout

/-- A source text laid out anew. -/
def format (settings : EditorSettings) (source : String) : String :=
  String.ofList (Layout.formatText settings source.toList)

end SolidityTools

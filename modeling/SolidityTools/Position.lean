import SolidityTools.Text.Offset
import SolidityTools.Text.Line
import SolidityTools.Text.Padding

set_option autoImplicit false

/-! # Positions in a source text

Reports name a place by its line and column, both counted from one, the column in characters.
The position of a byte offset is found by walking over the characters that start before the
offset: a line feed moves to the next line, any other character to the next column. An offset
past the end stands for the end, and one inside a character for the place behind that character.

A report shows the lines around a position with a caret below the place meant.
-/

namespace SolidityTools

open Text

/-- A line and a column, both counted from one. -/
structure Position where
  line : Nat
  column : Nat
deriving DecidableEq, Repr, Inhabited

namespace Position

/-- The first place of a text. -/
def first : Position := ⟨1, 1⟩

/-- The place behind one more character. -/
def advance (p : Position) (c : Char) : Position :=
  if c == '\n' then ⟨p.line + 1, 1⟩ else ⟨p.line, p.column + 1⟩

/-- The place behind some characters that begin at a place. -/
def past (p : Position) (cs : List Char) : Position := cs.foldl advance p

/-- The place behind a text. -/
def after (cs : List Char) : Position := first.past cs

end Position

/-- The position of a byte offset. -/
def positionAt (source : String) (offset : Nat) : Position :=
  Position.after (takeBytes offset source.toList)

def sourceLines (source : String) : List String :=
  (splitLines source.toList).map String.ofList

/-- The number of lines; an empty text has one. -/
def lineCount (source : String) : Nat := (sourceLines source).length

/-- The line with a number, counted from one. -/
def lineAt? (source : String) (line : Nat) : Option String :=
  if line = 0 then none else (sourceLines source)[line - 1]?

/-! ## The context of a position -/

/-- Why the lines around a position cannot be shown. -/
inductive ContextFailure where
  /-- A sum does not fit in a machine word. -/
  | overflow
  /-- A row is longer than a text can be. -/
  | capacity
deriving DecidableEq, Repr

/-- What is said about a failure. -/
def ContextFailure.message : ContextFailure → String
  | .overflow => "attempt to add with overflow"
  | .capacity => "capacity overflow"

def wordSum (a b : Nat) : Except ContextFailure Nat :=
  if a + b < UInt64.size then .ok (a + b) else .error .overflow

/-- The first line shown around a line: `reach` lines above it, but never before line one. -/
def contextFirst (line reach : Nat) : Nat := max (line - reach) 1

/-- The last line shown around a line: `reach` lines below it, but never past the last line. The
sum comes first, so it fails even where only existing lines are asked for. -/
def contextLast (line reach count : Nat) : Except ContextFailure Nat :=
  (wordSum line reach).map (min · count)

/-- The row of a numbered line: the number in a gutter, then the text. -/
def contextRow (width line : Nat) (text : String) : String :=
  "  " ++ padLeft width (toString line) ++ " | " ++ text ++ "\n"

/-- The row below a line with a caret under the given column. A text has less than half as many
bytes as there are machine words. -/
def caretRow (width column : Nat) : Except ContextFailure String := do
  let cells ← wordSum (width + 5) (column - 1)
  if cells < UInt64.size / 2 then .ok (spaces cells ++ "^\n") else .error .capacity

/-- The row of a line, with a caret row below the line of the position. -/
def contextRows (width : Nat) (position : Position) (line : Nat) (text : String) :
    Except ContextFailure String :=
  let row := contextRow width line text
  if line = position.line then (caretRow width position.column).map (row ++ ·) else .ok row

/-- The lines around a position, with a caret row below the line of the position. The gutter is
as wide as the largest line number shown. -/
def codeContext (source : String) (position : Position) (reach : Nat) :
    Except ContextFailure String := do
  let lines := sourceLines source
  let low := contextFirst position.line reach
  let high ← contextLast position.line reach lines.length
  let width := (toString high).length
  let shown := (lines.zipIdx 1).filter fun (_, line) => low ≤ line && line ≤ high
  let rows ← shown.mapM fun (text, line) => contextRows width position line text
  return String.join rows

end SolidityTools

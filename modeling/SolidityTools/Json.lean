import SolidityTools.StableOrder

set_option autoImplicit false

/-! # Machine-readable output

Reports for machines are JSON, laid out with one value per line and two spaces for each level.
Characters outside ASCII are written as they are, and control characters as escapes.
-/

namespace SolidityTools

/-- A value for machines. -/
inductive Json where
  | boolean (b : Bool)
  | natural (n : Nat)
  /-- A number given by its text. -/
  | number (text : String)
  | string (text : String)
  | array (items : List Json)
  /-- Named values, written in the order given. -/
  | object (fields : List (String × Json))

namespace Json

/-- Named values in ascending order of their names. -/
def record (fields : List (String × Json)) : Json :=
  .object (StableOrder.sort (fun a b => a.1 ≤ b.1) fields)

/-- An array of values of one sort. -/
def list {α : Type} (f : α → Json) (items : List α) : Json := .array (items.map f)

/-- A character inside quotes. -/
def writeCharacter (c : Char) : List Char :=
  if c == '"' then ['\\', '"']
  else if c == '\\' then ['\\', '\\']
  else if c == '\x08' then ['\\', 'b']
  else if c == '\x0c' then ['\\', 'f']
  else if c == '\n' then ['\\', 'n']
  else if c == '\r' then ['\\', 'r']
  else if c == '\t' then ['\\', 't']
  else if c.toNat < 0x10 then ['\\', 'u', '0', '0', '0'] ++ Nat.toDigits 16 c.toNat
  else if c.toNat < 0x20 then ['\\', 'u', '0', '0'] ++ Nat.toDigits 16 c.toNat
  else [c]

/-- A string inside quotes. -/
def writeString (text : String) : String :=
  String.ofList ('"' :: text.toList.flatMap writeCharacter ++ ['"'])

def lineStart (level : Nat) : String := "\n" ++ String.ofList (List.replicate (2 * level) ' ')

mutual

/-- A value whose first line has begun at a level. -/
def write (level : Nat) : Json → String
  | .boolean b => if b then "true" else "false"
  | .natural n => toString n
  | .number text => text
  | .string text => writeString text
  | .array [] => "[]"
  | .array (item :: items) =>
    "[" ++ lineStart (level + 1) ++ write (level + 1) item ++ writeItems (level + 1) items ++
      lineStart level ++ "]"
  | .object [] => "\x7b\x7d"
  | .object ((name, value) :: fields) =>
    "\x7b" ++ lineStart (level + 1) ++ writeString name ++ ": " ++ write (level + 1) value ++
      writeFields (level + 1) fields ++ lineStart level ++ "\x7d"

/-- The items of an array behind the first. -/
def writeItems (level : Nat) : List Json → String
  | [] => ""
  | item :: items => "," ++ lineStart level ++ write level item ++ writeItems level items

/-- The fields of an object behind the first. -/
def writeFields (level : Nat) : List (String × Json) → String
  | [] => ""
  | (name, value) :: fields =>
    "," ++ lineStart level ++ writeString name ++ ": " ++ write level value ++
      writeFields level fields

end

/-- The text of a report: the value and a line end. -/
def document (value : Json) : String := write 0 value ++ "\n"

end Json

end SolidityTools

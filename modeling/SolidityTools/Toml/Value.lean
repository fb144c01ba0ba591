set_option autoImplicit false

/-! # Values of a settings file

Settings are kept in TOML files. A file is a table of named values, and values may be tables and
arrays in turn. Floating-point numbers and dates are read but never used by any setting, so no more
is kept than that they are there.

Numbers may be too large to be represented. That is no fault of the file as long as nobody looks at
them, so it is kept apart from the form of the file and told by `Value.isReadable`.

A table also remembers how it came about, because the format forbids to define a table twice or to
add to a table by other means than those by which it was made.
-/

namespace SolidityTools.Toml

/-- How a table came about. -/
inductive Origin where
  /-- On the way to a table whose header names a longer path. -/
  | implied
  /-- By a dotted key. -/
  | dotted
  /-- By a header of its own; the table of the whole file counts as well. -/
  | header
  /-- Between braces. -/
  | inline
deriving DecidableEq, Repr

inductive Value where
  | string (text : String)
  | integer (n : Int)
  /-- A floating-point number; `finite` tells whether it is in the range of double precision. -/
  | float (finite : Bool)
  | boolean (b : Bool)
  | moment
  /-- An array; `growing` tells an array of tables, which further headers extend. -/
  | array (growing : Bool) (items : List Value)
  | table (origin : Origin) (entries : List (String × Value))

/-- The entries of a table, in the order of the file. -/
abbrev Entries := List (String × Value)

/-! ## Numbers out of range -/

/-- The number of values of a word of 128 bits. -/
def wideSize : Nat := UInt64.size * UInt64.size

/-- Whether a number fits into a word of 128 bits, with or without a sign. -/
def inRange (n : Int) : Bool := -(wideSize / 2 : Nat) ≤ n && n < wideSize

mutual

/-- Whether all numbers in a value can be represented. -/
def Value.isReadable : Value → Bool
  | .integer n => inRange n
  | .float finite => finite
  | .array _ items => itemsReadable items
  | .table _ entries => entriesReadable entries
  | _ => true

/-- Whether all numbers in some values can be represented. -/
def itemsReadable : List Value → Bool
  | [] => true
  | item :: items => item.isReadable && itemsReadable items

/-- Whether all numbers in some entries can be represented. -/
def entriesReadable : List (String × Value) → Bool
  | [] => true
  | (_, value) :: entries => value.isReadable && entriesReadable entries

end

namespace Entries

def get? (entries : Entries) (key : String) : Option Value :=
  (entries.find? (·.1 == key)).map (·.2)

def replace (entries : Entries) (key : String) (value : Value) : Entries :=
  entries.map fun entry => if entry.1 == key then (key, value) else entry

/-- The entries with a new one at the end. -/
def add (entries : Entries) (key : String) (value : Value) : Entries := entries ++ [(key, value)]

end Entries

/-! ## Growing a table -/

/-- A change to a table, which may be forbidden. -/
abbrev Change := Origin → Entries → Option Entries

/-- The last element of an array and the elements before it. -/
def splitLast? (items : List Value) : Option (List Value × Value) :=
  items.getLast?.map fun last => (items.dropLast, last)

/-- Makes a change to the table at the end of a path. Tables that are missing on the way are
made. An array of tables stands for its last table. Tables between braces are closed to changes,
and dotted keys do not lead through tables with a header. -/
def changeAlong (dotted : Bool) (change : Change) : List String → Change
  | [], origin, entries => change origin entries
  | key :: path, _, entries =>
    match entries.get? key with
    | none => do
      let origin := if dotted then Origin.dotted else Origin.implied
      let inner ← changeAlong dotted change path origin []
      some (entries.add key (.table origin inner))
    | some (.table origin inner) =>
      if origin = .inline ∨ (dotted ∧ origin = .header) then none
      else do
        let inner ← changeAlong dotted change path origin inner
        some (entries.replace key (.table origin inner))
    | some (.array true items) =>
      match splitLast? items with
      | some (front, .table origin inner) => do
        let inner ← changeAlong dotted change path origin inner
        some (entries.replace key (.array true (front ++ [.table origin inner])))
      | _ => none
    | some _ => none

/-- Gives a key a value. A key has one value only, and what dotted keys add to must be a table
made by dotted keys. -/
def assign (path : List String) (key : String) (value : Value) : Change :=
  changeAlong true (fun origin entries =>
    if (origin == .dotted) == path.isEmpty then none
    else if (entries.get? key).isSome then none
    else some (entries.add key value)) path

/-- Opens the table of a header. A table that is already there may only have been implied. -/
def openTable (path : List String) (key : String) : Change :=
  changeAlong false (fun _ entries =>
    match entries.get? key with
    | none => some (entries.add key (.table .header []))
    | some (.table .implied inner) => some (entries.replace key (.table .header inner))
    | some _ => none) path

/-- Opens a new table at the end of an array of tables. -/
def openElement (path : List String) (key : String) : Change :=
  changeAlong false (fun _ entries =>
    match entries.get? key with
    | none => some (entries.add key (.array true [.table .header []]))
    | some (.array true items) =>
      some (entries.replace key (.array true (items ++ [.table .header []])))
    | some _ => none) path

/-- Makes a change to the table that a header has opened. -/
def changeOpened (change : Change) : List String → Change
  | [], origin, entries => change origin entries
  | key :: path, _, entries =>
    match entries.get? key with
    | some (.table origin inner) => do
      let inner ← changeOpened change path origin inner
      some (entries.replace key (.table origin inner))
    | some (.array true items) =>
      match splitLast? items with
      | some (front, .table origin inner) => do
        let inner ← changeOpened change path origin inner
        some (entries.replace key (.array true (front ++ [.table origin inner])))
      | _ => none
    | _ => none

end SolidityTools.Toml

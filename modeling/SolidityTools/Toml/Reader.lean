import SolidityTools.Toml.Scalar

set_option autoImplicit false

/-! # Reading a settings file

A file is a sequence of lines with keys and values, under headers that say which table they
belong to. Readers yield what they have read and the text behind it, or nothing if the text is
malformed. Arrays and tables nest up to a fixed depth. The readers of values take the number of
*levels* that may still be opened and a number of *steps*; every second step reads a character, and
the length of the text bounds the steps that are needed.
-/

namespace SolidityTools.Toml

/-- How deep arrays and tables in braces may nest, and how many parts a key may have. -/
def depthLimit : Nat := 80

/-! ## White space and comments -/

/-- The text behind spaces and tabs. -/
def skipBlanks (cs : List Char) : List Char := cs.dropWhile fun c => c == ' ' || c == '\t'

/-- The text behind blanks, line ends and comments. `inComment` tells that a comment has begun.
-/
def skipFiller? (inComment : Bool) : List Char → Option (List Char)
  | [] => some []
  | '\r' :: '\n' :: cs => skipFiller? false cs
  | c :: cs =>
    if c == '\n' then skipFiller? false cs
    else if inComment then if isControl c then none else skipFiller? true cs
    else if c == '#' then skipFiller? true cs
    else if c == ' ' || c == '\t' then skipFiller? false cs
    else some (c :: cs)

/-- The text of the next line, if nothing but blanks and a comment is left on this one. -/
def nextLine? (inComment : Bool) : List Char → Option (List Char)
  | [] => some []
  | '\r' :: '\n' :: cs => some cs
  | c :: cs =>
    if c == '\n' then some cs
    else if inComment then if isControl c then none else nextLine? true cs
    else if c == '#' then nextLine? true cs
    else if c == ' ' || c == '\t' then nextLine? false cs
    else none

/-! ## Keys -/

def isKeyCharacter (c : Char) : Bool := c.isAlphanum || c == '_' || c == '-'

def keyPart? (cs : List Char) : Option (String × List Char) :=
  match cs.takeWhile isKeyCharacter with
  | [] => (shortString? cs).map fun (content, rest) => (String.ofList content, rest)
  | part => some (String.ofList part, cs.drop part.length)

/-- Reads the parts of a key, which are separated by dots. Blanks may stand around the dots and
the key. -/
def key? : Nat → List Char → Option (List String × List Char)
  | 0, _ => none
  | steps + 1, cs => do
    let (part, cs) ← keyPart? (skipBlanks cs)
    match skipBlanks cs with
    | '.' :: cs => do
      let (parts, cs) ← key? steps cs
      some (part :: parts, cs)
    | cs => some ([part], cs)

/-- A key as the path to a table and the last part. Keys with too many parts are refused. -/
def splitKey? (parts : List String) : Option (List String × String) :=
  if depthLimit < parts.length then none
  else parts.getLast?.map fun last => (parts.dropLast, last)

/-! ## Values -/

mutual

/-- Reads a value. Without a level left, brackets and braces open nothing. -/
def value? (levels : Nat) : Nat → List Char → Option (Value × List Char)
  | 0, _ => none
  | steps + 1, cs =>
    match cs, levels with
    | '"' :: _, _ => (string? cs).map fun (content, rest) => (.string (String.ofList content), rest)
    | '\'' :: _, _ =>
      (string? cs).map fun (content, rest) => (.string (String.ofList content), rest)
    | '[' :: cs, levels + 1 =>
      (items? levels steps cs).map fun (items, rest) => (.array false items, rest)
    | '\x7b' :: cs, levels + 1 =>
      (fields? levels steps true [] cs).map fun (es, rest) => (.table .inline es, rest)
    | _, _ => bareValue? cs

/-- Reads the rest of an array. -/
def items? (levels : Nat) : Nat → List Char → Option (List Value × List Char)
  | 0, _ => none
  | steps + 1, cs => do
    match ← skipFiller? false cs with
    | ']' :: cs => some ([], cs)
    | cs => do
      let (value, cs) ← value? levels steps cs
      match ← skipFiller? false cs with
      | ',' :: cs => do
        let (values, cs) ← items? levels steps cs
        some (value :: values, cs)
      | ']' :: cs => some ([value], cs)
      | _ => none

/-- Reads the rest of a table between braces, which stands on one line and has no comma at its
end. `first` tells that no entry has been read yet. -/
def fields? (levels : Nat) :
    Nat → Bool → Entries → List Char → Option (Entries × List Char)
  | 0, _, _, _ => none
  | steps + 1, first, entries, cs =>
    match first, skipBlanks cs with
    | true, '\x7d' :: cs => some (entries, cs)
    | _, cs => do
      let (parts, cs) ← key? (cs.length + 1) cs
      let (path, key) ← splitKey? parts
      match cs with
      | '=' :: cs => do
        let (value, cs) ← value? levels steps (skipBlanks cs)
        let entries ← assign path key value .inline entries
        match skipBlanks cs with
        | ',' :: cs => fields? levels steps false entries cs
        | '\x7d' :: cs => some (entries, cs)
        | _ => none
      | _ => none

end

/-! ## Documents -/

/-- A file read up to some line. -/
structure Document where
  entries : Entries
  /-- The path of the last header. -/
  current : List String

namespace Document

/-- The file before its first line. -/
def start : Document := ⟨[], []⟩

def header? (closing : List Char) (cs : List Char) : Option (List String × List Char) := do
  let (parts, cs) ← key? (cs.length + 1) cs
  if closing.isPrefixOf cs then some (parts, cs.drop closing.length) else none

/-- Reads what stands on a line, up to blanks and a comment at its end. -/
def line? (document : Document) (cs : List Char) : Option (Document × List Char) :=
  match skipBlanks cs with
  | '[' :: '[' :: cs => do
    let (parts, cs) ← header? [']', ']'] cs
    let (path, key) ← splitKey? parts
    let entries ← openElement path key .header document.entries
    some (⟨entries, parts⟩, cs)
  | '[' :: cs => do
    let (parts, cs) ← header? [']'] cs
    let (path, key) ← splitKey? parts
    let entries ← openTable path key .header document.entries
    some (⟨entries, parts⟩, cs)
  | cs =>
    if (nextLine? false cs).isSome then some (document, cs)
    else do
      let (parts, cs) ← key? (cs.length + 1) cs
      let (path, key) ← splitKey? parts
      match cs with
      | '=' :: cs => do
        let (value, cs) ← value? depthLimit (2 * cs.length + 2) (skipBlanks cs)
        let entries ← changeOpened (assign path key value) document.current .header
          document.entries
        some (⟨entries, document.current⟩, cs)
      | _ => none

/-- Reads lines up to the end of the file. -/
def lines? (document : Document) : Nat → List Char → Option Document
  | _, [] => some document
  | 0, _ => none
  | steps + 1, cs => do
    let (document, cs) ← document.line? cs
    let cs ← nextLine? false cs
    document.lines? steps cs

end Document

/-- The entries of a file. A byte order mark may stand in front. -/
def read? (text : String) : Option Entries :=
  let cs := match text.toList with
    | '\uFEFF' :: cs => cs
    | cs => cs
  (Document.start.lines? (cs.length + 1) cs).map (·.entries)

end SolidityTools.Toml

import SolidityTools.Text.Blank
import SolidityTools.Text.LetterOrNumber
import SolidityTools.Text.Split

set_option autoImplicit false

/-! # Files with variables

A file named `.env` can set variables for a command. It is read line by line. A line holds a name,
an equals sign and a value; a value may be quoted, may go on over several lines inside quotes, and
may refer to variables set before. Reading ends at the first malformed line, also one that is not
encoded properly, and what was set before stays set. A variable that is already set is not set
again.
-/

namespace SolidityTools.Variables

open Text

/-! ## Joining lines -/

/-- Where a line stands at its end. -/
inductive LineState where
  /-- Outside quotes. -/
  | complete
  /-- Behind a backslash outside quotes. -/
  | escape
  /-- Inside single quotes, and behind a backslash there. -/
  | single
  | singleEscape
  /-- Inside double quotes, and behind a backslash there. -/
  | double
  | doubleEscape
  /-- Behind a blank. -/
  | blank
  /-- In a comment. -/
  | comment
deriving DecidableEq, Repr

/-- The state that a character outside quotes leads to. -/
def LineState.outside (c : Char) : LineState :=
  if c == '\\' then .escape
  else if c == '"' then .double
  else if c == '\'' then .single
  else .complete

def LineState.next (state : LineState) (c : Char) : LineState :=
  match state with
  | .blank => if c == '#' then .comment else .outside c
  | .escape => .complete
  | .complete => if isBlank c && c != '\n' && c != '\r' then .blank else .outside c
  | .double => if c == '\\' then .doubleEscape else if c == '"' then .complete else .double
  | .doubleEscape => .double
  | .single => if c == '\\' then .singleEscape else if c == '\'' then .complete else .single
  | .singleEscape => .single
  | .comment => .comment

/-- The state at the end of a line, and the line up to a comment. -/
def scanLine (state : LineState) : List Char → LineState × List Char
  | [] => (state, [])
  | c :: cs =>
    match state.next c with
    | .comment => (.comment, [])
    | state =>
      let (last, kept) := scanLine state cs
      (last, c :: kept)

def dropLineEnd (cs : List Char) : List Char :=
  match cs.reverse with
  | '\n' :: '\r' :: rest => rest.reverse
  | '\n' :: rest => rest.reverse
  | _ => cs

/-- The bytes of the lines of a file, each with its line end. -/
def linesWithEnds (bytes : List UInt8) : List (List UInt8) :=
  match bytes with
  | [] => []
  | b :: bytes =>
    if b == 10 then [b] :: linesWithEnds bytes
    else match linesWithEnds bytes with
      | [] => [[b]]
      | line :: lines => (b :: line) :: lines

/-- The characters of a line, if it is encoded properly. -/
def decoded? (line : List UInt8) : Option (List Char) :=
  (String.fromUTF8? ⟨line.toArray⟩).map String.toList

/-- Joins lines that belong together and drops comments. `begun` is the text of the line begun so
far. A last line that does not come to its end is malformed, and so is a line that is not encoded
properly. -/
def joinedLines (begun : List Char) (state : LineState) :
    List (Option (List Char)) → List (Option (List Char))
  | [] => if state = .complete then [] else [none]
  | none :: _ => [none]
  | some line :: lines =>
    let text := begun ++ line
    if (trimStart text).head? = some '#' then some [] :: joinedLines [] .complete lines
    else
      let (last, kept) := scanLine state line
      if last = .complete then some (dropLineEnd text) :: joinedLines [] .complete lines
      else if last = .comment then
        some (begun ++ kept) :: joinedLines [] .complete lines
      else joinedLines text last lines

/-! ## Values -/

/-- Variables with their values, in the order in which they were set. -/
abbrev Bindings := List (String × String)

/-- The value of a variable, if it is set. -/
def Bindings.get? (bindings : Bindings) (name : String) : Option String :=
  (bindings.find? (·.1 == name)).map (·.2)

/-- The characters of the value of a variable, none if it is not set. -/
def Bindings.value (bindings : Bindings) (name : List Char) : List Char :=
  ((bindings.get? (String.ofList name)).getD "").toList

/-- What the reader of a value is in the middle of. -/
inductive ValueState where
  /-- Outside quotes. -/
  | bare
  /-- Inside double quotes. -/
  | double
  /-- Inside single quotes. -/
  | single
  /-- Behind a backslash; tells whether inside double quotes. -/
  | escape (inDouble : Bool)
  /-- In the name of a variable behind a dollar sign, latest character first. -/
  | name (inDouble : Bool) (name : List Char)
  /-- In the name of a variable between braces, latest character first. -/
  | braced (inDouble : Bool) (name : List Char)
  /-- Behind the value. -/
  | done

/-- The state outside or inside double quotes. -/
def ValueState.plain (inDouble : Bool) : ValueState := if inDouble then .double else .bare

/-- The characters that a backslash stands for. -/
def escaped? (c : Char) : Option Char :=
  if c == 'n' then some '\n'
  else if c == '\\' || c == '\'' || c == '"' || c == '$' || c == ' ' then some c
  else none

/-- Reads a value. Blanks outside quotes end it, and only a comment may follow them. A value must
not end inside quotes or braces. -/
def value? (bindings : Bindings) (state : ValueState) : List Char → Option (List Char)
  | [] =>
    match state with
    | .bare | .done => some []
    | .escape inDouble => if inDouble then none else some []
    | .name inDouble name => if inDouble then none else some (bindings.value name.reverse)
    | _ => none
  | c :: cs =>
    match state with
    | .done =>
      if c == ' ' || c == '\t' then value? bindings .done cs
      else if c == '#' then some []
      else none
    | .escape inDouble =>
      match escaped? c with
      | some c => (value? bindings (.plain inDouble) cs).map (c :: ·)
      | none => none
    | .single =>
      if c == '\'' then value? bindings .bare cs
      else (value? bindings .single cs).map (c :: ·)
    | .name inDouble name =>
      if isLetterOrNumber c then value? bindings (.name inDouble (c :: name)) cs
      else if c == '\x7b' && name.isEmpty then value? bindings (.braced inDouble []) cs
      else if c == '$' then
        (value? bindings (.name inDouble []) cs).map (bindings.value name.reverse ++ ·)
      else
        (value? bindings (.plain inDouble) cs).map
          (bindings.value name.reverse ++ c :: ·)
    | .braced inDouble name =>
      if c == '\x7d' then
        (value? bindings (.plain inDouble) cs).map (bindings.value name.reverse ++ ·)
      else value? bindings (.braced inDouble (c :: name)) cs
    | .double =>
      if c == '$' then value? bindings (.name true []) cs
      else if c == '"' then value? bindings .bare cs
      else if c == '\\' then value? bindings (.escape true) cs
      else (value? bindings .double cs).map (c :: ·)
    | .bare =>
      if c == '$' then value? bindings (.name false []) cs
      else if c == '\'' then value? bindings .single cs
      else if c == '"' then value? bindings .double cs
      else if c == '\\' then value? bindings (.escape false) cs
      else if c == ' ' || c == '\t' then value? bindings .done cs
      else (value? bindings .bare cs).map (c :: ·)

/-! ## Lines -/

/-- Reads the name of a variable. -/
def name? (cs : List Char) : Option (List Char × List Char) :=
  let isPart (c : Char) : Bool := c.isAlphanum || c == '_' || c == '.'
  if cs.head?.any fun c => c.isAlpha || c == '_' then
    some (cs.takeWhile isPart, trimStart (cs.dropWhile isPart))
  else none

/-- The text behind an equals sign. -/
def behindEquals? : List Char → Option (List Char)
  | '=' :: cs => some (trimStart cs)
  | _ => none

/-- Reads the name of a variable and the equals sign. The word `export` may stand in front. -/
def assigned? (cs : List Char) : Option (List Char × List Char) := do
  let (name, rest) ← name? cs
  match behindEquals? rest with
  | some value => some (name, value)
  | none =>
    if name = "export".toList then do
      let (name, rest) ← name? rest
      let value ← behindEquals? rest
      some (name, value)
    else none

/-- The bindings with a variable set, unless it is set already. -/
def Bindings.set (bindings : Bindings) (name value : String) : Bindings :=
  if bindings.any (·.1 == name) then bindings else bindings ++ [(name, value)]

/-- Reads a line. Empty lines and comments set nothing. -/
def line? (bindings : Bindings) (line : List Char) : Option Bindings :=
  let cs := trim line
  if cs.isEmpty || cs.head? == some '#' then some bindings
  else do
    let (name, text) ← assigned? cs
    let value ← if text.isEmpty || text.head? == some '#' then some []
      else value? bindings .bare text
    some (bindings.set (String.ofList name) (String.ofList value))

/-- Reads lines until one is malformed. -/
def readLines (bindings : Bindings) : List (Option (List Char)) → Bindings
  | [] => bindings
  | none :: _ => bindings
  | some line :: lines =>
    match line? bindings line with
    | some bindings => readLines bindings lines
    | none => bindings

/-- The bytes of a file without the mark that tells its encoding. -/
def dropMark : List UInt8 → List UInt8
  | 0xEF :: 0xBB :: 0xBF :: bytes => bytes
  | bytes => bytes

/-- The variables set by a file, `bindings` being set before. -/
def read (bindings : Bindings) (file : ByteArray) : Bindings :=
  let lines := (linesWithEnds (dropMark file.data.toList)).map decoded?
  readLines bindings (joinedLines [] .complete lines)

/-- The names of variables that a file may refer to: all runs of the characters of which names
consist, with underscores and dots and without. -/
def mentioned (file : ByteArray) : List String :=
  let cs := ((linesWithEnds file.data.toList).filterMap decoded?).flatten
  let plain := splitWhere (fun c => !isLetterOrNumber c) cs
  let dotted := splitWhere (fun c => !(isLetterOrNumber c || c == '_' || c == '.')) cs
  (plain ++ dotted).map String.ofList

end SolidityTools.Variables

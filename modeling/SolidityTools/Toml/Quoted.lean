set_option autoImplicit false

/-! # Strings in a settings file

A string is written in one of four ways: between single or double quotes, and on one line or, with
the quotes tripled, on several. Escapes are known between double quotes only. The readers here
start behind the opening quotes and yield the content together with the text behind the closing
quotes.
-/

namespace SolidityTools.Toml

/-- Control characters other than the tab must not stand in a file, save for line ends. -/
def isControl (c : Char) : Bool := (c.toNat < 0x20 && c != '\t') || c.toNat == 0x7F

/-! ## Reading -/

/-- The value of a hexadecimal digit. -/
def hexValue? (c : Char) : Option Nat :=
  if c.isDigit then some (c.toNat - '0'.toNat)
  else if 'a' ≤ c ∧ c ≤ 'f' then some (c.toNat - 'a'.toNat + 10)
  else if 'A' ≤ c ∧ c ≤ 'F' then some (c.toNat - 'A'.toNat + 10)
  else none

/-- The character whose code point is written in hexadecimal. -/
def scalar? (digits : List Char) : Option Char := do
  let values ← digits.mapM hexValue?
  let n := values.foldl (fun n d => 16 * n + d) 0
  if n.isValidChar then some (Char.ofNat n) else none

def escaped? : Char → Option Char
  | 'b' => some '\x08'
  | 't' => some '\t'
  | 'n' => some '\n'
  | 'f' => some '\x0c'
  | 'r' => some '\r'
  | '"' => some '"'
  | '\\' => some '\\'
  | _ => none

/-- What has been read with one more piece of content in front of it. -/
def pushContent (cs : List Char) :
    Option (List Char × List Char) → Option (List Char × List Char)
  | some (content, rest) => some (cs ++ content, rest)
  | none => none

def behindEscape (c : Option Char) (read : Option (List Char × List Char)) :
    Option (List Char × List Char) :=
  match c with
  | some c => pushContent [c] read
  | none => none

/-- Reads a string between double quotes. -/
def basicString? : List Char → Option (List Char × List Char)
  | [] => none
  | '\\' :: 'u' :: a :: b :: c :: d :: rest =>
    behindEscape (scalar? [a, b, c, d]) (basicString? rest)
  | '\\' :: 'U' :: a :: b :: c :: d :: e :: f :: g :: h :: rest =>
    behindEscape (scalar? [a, b, c, d, e, f, g, h]) (basicString? rest)
  | '\\' :: c :: rest => behindEscape (escaped? c) (basicString? rest)
  | c :: rest =>
    if c == '"' then some ([], rest)
    else if c == '\\' || isControl c then none
    else pushContent [c] (basicString? rest)

/-- Reads a string between single quotes. -/
def literalString? : List Char → Option (List Char × List Char)
  | [] => none
  | c :: rest =>
    if c == '\'' then some ([], rest)
    else if isControl c then none
    else pushContent [c] (literalString? rest)

/-- Whether only blanks are left on the line. -/
def endsLine : List Char → Bool
  | [] => false
  | ' ' :: cs => endsLine cs
  | '\t' :: cs => endsLine cs
  | '\n' :: _ => true
  | '\r' :: '\n' :: _ => true
  | _ => false

/-- Reads a string between tripled double quotes. `skipping` tells that a backslash at the end of
a line has been passed, which swallows blanks and line ends up to the next other character. One or
two quotes right before the closing ones belong to the content. -/
def longBasicString? (skipping : Bool) : List Char → Option (List Char × List Char)
  | [] => none
  | '"' :: '"' :: '"' :: '"' :: '"' :: rest => some (['"', '"'], rest)
  | '"' :: '"' :: '"' :: '"' :: rest => some (['"'], rest)
  | '"' :: '"' :: '"' :: rest => some ([], rest)
  | '\r' :: '\n' :: rest =>
    if skipping then longBasicString? true rest
    else pushContent ['\r', '\n'] (longBasicString? false rest)
  | '\\' :: 'u' :: a :: b :: c :: d :: rest =>
    behindEscape (scalar? [a, b, c, d]) (longBasicString? false rest)
  | '\\' :: 'U' :: a :: b :: c :: d :: e :: f :: g :: h :: rest =>
    behindEscape (scalar? [a, b, c, d, e, f, g, h]) (longBasicString? false rest)
  | '\\' :: c :: rest =>
    if endsLine (c :: rest) then
      if c == '\r' then longBasicString? true rest else longBasicString? true (c :: rest)
    else behindEscape (escaped? c) (longBasicString? false rest)
  | c :: rest =>
    if skipping && (c == ' ' || c == '\t' || c == '\n') then longBasicString? true rest
    else if c == '\n' then pushContent [c] (longBasicString? false rest)
    else if c == '\\' || isControl c then none
    else pushContent [c] (longBasicString? false rest)

/-- Reads a string between tripled single quotes. -/
def longLiteralString? : List Char → Option (List Char × List Char)
  | [] => none
  | '\'' :: '\'' :: '\'' :: '\'' :: '\'' :: rest => some (['\'', '\''], rest)
  | '\'' :: '\'' :: '\'' :: '\'' :: rest => some (['\''], rest)
  | '\'' :: '\'' :: '\'' :: rest => some ([], rest)
  | '\r' :: '\n' :: rest => pushContent ['\r', '\n'] (longLiteralString? rest)
  | c :: rest =>
    if c == '\n' then pushContent [c] (longLiteralString? rest)
    else if isControl c then none
    else pushContent [c] (longLiteralString? rest)

/-- The text behind a line end that directly follows tripled quotes and is not part of the
string. -/
def dropLineEnd : List Char → List Char
  | '\n' :: rest => rest
  | '\r' :: '\n' :: rest => rest
  | rest => rest

/-- Reads a string with its quotes, on one line. -/
def shortString? : List Char → Option (List Char × List Char)
  | '"' :: rest => basicString? rest
  | '\'' :: rest => literalString? rest
  | _ => none

/-- Reads a string with its quotes. -/
def string? : List Char → Option (List Char × List Char)
  | '"' :: '"' :: '"' :: rest => longBasicString? false (dropLineEnd rest)
  | '\'' :: '\'' :: '\'' :: rest => longLiteralString? (dropLineEnd rest)
  | cs => shortString? cs

/-! ## Writing -/

/-- The four ways to write a string. -/
inductive Quoting where
  | basic
  | literal
  | longBasic
  | longLiteral
deriving DecidableEq, Repr

/-- The length of the longest run of a character, `run` of them standing in front. -/
def longestRun (quote : Char) (run : Nat) : List Char → Nat
  | [] => run
  | c :: cs =>
    if c == quote then longestRun quote (run + 1) cs else max run (longestRun quote 0 cs)

def needsEscape (c : Char) : Bool := isControl c && c != '\n'

/-- The way in which a string is written: the first of the four that needs no escapes, and
otherwise double quotes, tripled if the string has several lines. Tripled quotes may hold runs of
at most two quotes. -/
def quotingOf (cs : List Char) : Quoting :=
  let plain := !cs.any needsEscape
  let lines := cs.contains '\n'
  let backslash := cs.contains '\\'
  if plain && !backslash && !cs.contains '"' && !lines then .basic
  else if plain && !cs.contains '\'' && !lines then .literal
  else if plain && !backslash && longestRun '"' 0 cs ≤ 2 then .longBasic
  else if plain && longestRun '\'' 0 cs ≤ 2 then .longLiteral
  else if lines then .longBasic
  else .basic

/-- The four hexadecimal digits of a small code point, in capitals. -/
def fourDigits (n : Nat) : List Char :=
  let digits := (Nat.toDigits 16 n).map Char.toUpper
  List.replicate (4 - digits.length) '0' ++ digits

/-- A character between double quotes, `quotes` of which stand directly before it unescaped.
Tripled quotes admit two of them in a row, and line feeds. -/
def writeCharacter (long : Bool) (quotes : Nat) (c : Char) : List Char :=
  if c == '"' then if quotes < (if long then 2 else 0) then ['"'] else ['\\', '"']
  else if c == '\\' then ['\\', '\\']
  else if c == '\x08' then ['\\', 'b']
  else if c == '\t' then ['\\', 't']
  else if c == '\n' then if long then ['\n'] else ['\\', 'n']
  else if c == '\x0c' then ['\\', 'f']
  else if c == '\r' then ['\\', 'r']
  else if isControl c then '\\' :: 'u' :: fourDigits c.toNat
  else [c]

def writeCharacters (long : Bool) (quotes : Nat) : List Char → List Char
  | [] => []
  | c :: cs =>
    let written := writeCharacter long quotes c
    written ++ writeCharacters long (if written = ['"'] then quotes + 1 else 0) cs

/-- A string as it is written. Tripled quotes are followed by a line end if the string has
several lines. -/
def writeString (text : String) : List Char :=
  let cs := text.toList
  let lineEnd := if cs.contains '\n' then ['\n'] else []
  match quotingOf cs with
  | .basic => '"' :: writeCharacters false 0 cs ++ ['"']
  | .literal => '\'' :: cs ++ ['\'']
  | .longBasic => ['"', '"', '"'] ++ lineEnd ++ writeCharacters true 0 cs ++ ['"', '"', '"']
  | .longLiteral => ['\'', '\'', '\''] ++ lineEnd ++ cs ++ ['\'', '\'', '\'']

end SolidityTools.Toml

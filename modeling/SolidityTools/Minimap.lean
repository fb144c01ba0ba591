import SolidityTools.Token.Style
import SolidityTools.Text.Line
import SolidityTools.Text.Padding

set_option autoImplicit false

/-! # The minimap

A minimap shows a whole file as one thin bar per line: its colour is the style that stands for
the line, its length the share of the line that is not blank and its place the indentation. Each
line is summarised on its own, without regard to what the lines around it say.
-/

namespace SolidityTools

open Text

structure MinimapLine where
  /-- The style that stands for the line. -/
  style : TokenStyle
  /-- How many of the first hundred characters are not blank: the density in hundredths. -/
  filled : Nat
  /-- The number of leading blanks. -/
  indent : Nat
deriving DecidableEq, Repr

namespace Minimap

/-- The number of columns that fill a row of the map. -/
def columns : Nat := 100

/-- The keywords that mark a whole line as a declaration when they come first. -/
def declarationKeywords : List String :=
  ["pragma", "import", "contract", "interface", "library", "abstract", "function", "modifier",
   "constructor", "event", "error", "struct", "enum"]

/-- Whether a line, its indentation removed, reads as a comment. The asterisk stands for the
inner lines of a block comment. -/
def readsAsComment : List Char → Bool
  | '/' :: '/' :: _ => true
  | '/' :: '*' :: _ => true
  | '*' :: _ => true
  | _ => false

/-- Adds a weight to the entry of a style, or a new entry at the end. -/
def addWeight (style : TokenStyle) (weight : Nat) :
    List (TokenStyle × Nat) → List (TokenStyle × Nat)
  | [] => [(style, weight)]
  | (s, w) :: rest =>
    if s = style then (s, w + weight) :: rest else (s, w) :: addWeight style weight rest

/-- The bytes that each style covers, white space left out, in order of first appearance. -/
def weights (tokens : List Token) : List (TokenStyle × Nat) :=
  (tokens.filter (·.kind != .whitespace)).foldl
    (fun entries t => addWeight t.style (byteLength t.text.toList) entries) []

/-- The style of the greatest weight, and of two with the same weight the earlier one. -/
def heaviest? : List (TokenStyle × Nat) → Option (TokenStyle × Nat)
  | entries => entries.foldl (fun best entry =>
      match best with
      | some b => if entry.2 ≤ b.2 then some b else some entry
      | none => some entry) none

/-- The style that stands for a line: that of a comment or of a declaration if it reads as one,
and otherwise the style that covers most of it. -/
def lineStyle (line : List Char) : TokenStyle :=
  let text := trimStart line
  if readsAsComment text then .comment
  else match Lexer.tokensFrom 0 text with
    | [] => .plain
    | first :: rest =>
      if first.kind = .keyword ∧ first.text ∈ declarationKeywords then .keyword
      else match heaviest? (weights (first :: rest)) with
        | some (style, _) => style
        | none => .plain

def summarise (line : List Char) : MinimapLine where
  style := lineStyle line
  filled := ((line.take columns).filter (!isBlank ·)).length
  indent := (line.takeWhile isBlank).length

/-- The density of a line as a decimal fraction without trailing zeros. -/
def densityText (filled : Nat) : String :=
  if filled % 100 = 0 then toString (filled / 100)
  else if filled % 10 = 0 then toString (filled / 100) ++ "." ++ toString (filled % 100 / 10)
  else toString (filled / 100) ++ "." ++ (if filled % 100 < 10 then "0" else "") ++
    toString (filled % 100)

/-! ## Bars -/

/-- The width of a full bar in terminal cells. -/
def barWidth : Nat := 40

/-- The cells left of a bar: two for every five columns of indentation, rounded down. -/
def barOffset (indent : Nat) : Nat := min indent columns * barWidth / columns

/-- The cells that a bar would like to fill, rounded up. -/
def barLength (filled : Nat) : Nat := (filled * barWidth + columns - 1) / columns

/-- The bar of one line as it is shown on a terminal: it never reaches past the width of the
map. -/
def bar (row : MinimapLine) : String :=
  let offset := barOffset row.indent
  let length := min (barLength row.filled) (barWidth - offset)
  spaces offset ++ rendition row.style.ansi ++ String.ofList (List.replicate length '▆') ++
    rendition TokenStyle.plain.ansi

end Minimap

def isEmptyLine (line : String) : Bool := isBlankText line.toList

/-- The minimap of a source text, one summary per line. -/
def minimap (source : String) : List MinimapLine :=
  (splitLines source.toList).map Minimap.summarise

end SolidityTools

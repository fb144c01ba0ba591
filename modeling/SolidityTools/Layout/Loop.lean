import SolidityTools.Layout
import SolidityTools.StableOrder
import SolidityTools.Token.Group
import SolidityTools.Token.Lexer
import SolidityTools.Text.Padding

set_option autoImplicit false

/-! # Unchecked increments

A loop of the shape `for (uintN i = 0; i < bound; i++)` checks on every turn that its counter
does not overflow, although the condition rules that out. Optimising a text moves the increment
of such *counted loops* from the header into an `unchecked` block at the end of the body. A body
that has an `unchecked` block already or skips its end with `continue` is left alone.

Both changes to a loop are edits of the formatted text: the increment is deleted behind the last
semicolon of the header, and the block is inserted before the closing brace, on a line of its own
if the brace begins its line. The edits are applied from the end of the text towards its
beginning, so that none moves the place of another, and the result is formatted again.
-/

namespace SolidityTools

open Text

namespace Layout

/-! ## Counted loops -/

/-- A loop whose increment can be moved. -/
structure CountedLoop where
  /-- The name of the counter. -/
  counter : String
  /-- The semicolon before the increment. -/
  semicolon : Token
  /-- The parenthesis that closes the header. -/
  paren : Token
  /-- The brace that closes the body. -/
  brace : Token
deriving DecidableEq, Repr

/-- The counter that the first tokens of a header declare: an unsigned integer that begins at
zero. Also yields the rest of the header. -/
def declaredCounter? : List Token → Option (String × List Token)
  | type :: counter :: assign :: zero :: semicolon :: rest =>
    if type.kind = .type ∧ "uint".toList.isPrefixOf type.text.toList ∧
        counter.kind = .identifier ∧ assign.isOperator "=" ∧
        zero.kind = .number ∧ zero.text = "0" ∧ semicolon.isOperator ";" then
      some (counter.text, rest)
    else none
  | _ => none

/-- Whether a condition keeps the counter below a bound. -/
def isBound (counter : String) : List Token → Bool
  | left :: operator :: _ :: _ =>
    left.text == counter && operator.isOperatorIn ["<", "<="]
  | _ => false

def isIncrement (counter : String) : List Token → Bool
  | [a, b] =>
    (a.text == counter && b.isOperator "++") || (a.isOperator "++" && b.text == counter)
  | _ => false

/-- The counter of a header and the semicolon before its increment. -/
def countedHeader? (header : List Token) : Option (String × Token) := do
  let (counter, rest) ← declaredCounter? header
  match rest.dropWhile (!·.isOperator ";") with
  | semicolon :: increment =>
    if isBound counter (rest.takeWhile (!·.isOperator ";")) && isIncrement counter increment then
      some (counter, semicolon)
    else none
  | [] => none

/-- Whether a token in the body keeps its loop from being changed. -/
def blocksMove (t : Token) : Bool := t.isKeyword "unchecked" || t.isKeyword "continue"

/-- The counted loop that begins a list of tokens, if one does. -/
def countedLoop? : List Token → Option CountedLoop
  | keyword :: opener :: tokens =>
    if keyword.isKeyword "for" && opener.isOperator "(" then do
      let header ← Group.parentheses? tokens
      let (counter, semicolon) ← countedHeader? header.inside
      match header.rest with
      | brace :: tokens =>
        if brace.isOperator "\x7b" then do
          let body ← Group.braces? tokens
          if body.inside.any blocksMove then none
          else some ⟨counter, semicolon, header.closer, body.closer⟩
        else none
      | [] => none
    else none
  | _ => none

/-- The counted loops among the tokens, in source order. -/
def countedLoops : List Token → List CountedLoop
  | [] => []
  | t :: ts => (countedLoop? (t :: ts)).toList ++ countedLoops ts

/-! ## Edits -/

/-- A piece of text to be replaced. -/
structure Edit where
  /-- The byte offset of the piece. -/
  start : Nat
  /-- The byte offset just past the piece. -/
  stop : Nat
  /-- The new text. -/
  text : List Char
deriving DecidableEq, Repr

/-- The `unchecked` block that increments a counter. -/
def uncheckedBlock (counter : String) : List Char :=
  ("unchecked \x7b ++" ++ counter ++ "; \x7d").toList

/-- The text between the beginning of a line and an offset in it. -/
def lineBefore (text : List Char) (offset : Nat) : List Char :=
  ((takeBytes offset text).reverse.takeWhile (· != '\n')).reverse

/-- The insertion of the block before the closing brace. -/
def insertion (settings : EditorSettings) (text : List Char) (loop : CountedLoop) : Edit :=
  let before := lineBefore text loop.brace.start
  if isBlankText before then
    let place := loop.brace.start - byteLength before
    let indent := List.replicate (columns settings before + unit settings).toNat ' '
    ⟨place, place, indent ++ uncheckedBlock loop.counter ++ ['\n']⟩
  else ⟨loop.brace.start, loop.brace.start, uncheckedBlock loop.counter ++ [' ']⟩

def deletion (loop : CountedLoop) : Edit := ⟨loop.semicolon.stop, loop.paren.start, []⟩

def loopEdits (settings : EditorSettings) (text : List Char) (loop : CountedLoop) : List Edit :=
  [insertion settings text loop, deletion loop]

/-- Applies edits, the one furthest back first. -/
def applyEdits (text : List Char) (edits : List Edit) : List Char :=
  (StableOrder.sort (fun a b => b.start ≤ a.start) edits).foldl
    (fun text edit => replaceBytes text edit.start edit.stop edit.text) text

/-- A text laid out anew, with the increments of its counted loops moved. -/
def optimizeText (settings : EditorSettings) (text : List Char) : List Char :=
  let formatted := formatText settings text
  let loops := countedLoops (significantTokens (Lexer.tokensFrom 0 formatted))
  if loops.isEmpty then formatted
  else formatText settings (applyEdits formatted (loops.flatMap (loopEdits settings formatted)))

end Layout

/-- A source text laid out anew, with the increments of its counted loops moved. -/
def optimize (settings : EditorSettings) (source : String) : String :=
  String.ofList (Layout.optimizeText settings source.toList)

end SolidityTools

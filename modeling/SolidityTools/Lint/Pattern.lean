import SolidityTools.Text.Blank
import SolidityTools.Text.WordCharacter
import SolidityTools.Text.Offset

set_option autoImplicit false

/-! # Text patterns

Several lint rules search the masked text for short phrases such as `tx . origin`. A *pattern*
recognises a phrase at the front of a text and yields something captured from it together with
the text behind it. It also sees the character before, because many phrases must begin at a word
boundary.

`Pattern.hits` lists the places where a pattern fits, from left to right and without overlap: the
search goes on behind the phrase just found.
-/

namespace SolidityTools.Lint

open Text

/-- Recognises a phrase at the front of a text, given the character before it. -/
abbrev Pattern (α : Type) := Option Char → List Char → Option (α × List Char)

/-- A place where a pattern fits. -/
structure Hit (α : Type) where
  /-- The text before the phrase, nearest character first. -/
  before : List Char
  /-- What was captured. -/
  value : α
  /-- The phrase. -/
  phrase : List Char
  /-- The text behind the phrase. -/
  behind : List Char

/-- The byte offset at which the phrase begins, in the text searched. -/
def Hit.start {α : Type} (hit : Hit α) : Nat := byteLength hit.before

namespace Pattern

/-- The places where a pattern fits, `before` being the text already passed. -/
def hitsFrom {α : Type} (pattern : Pattern α) (before : List Char) : List Char → List (Hit α)
  | [] => []
  | c :: cs =>
    match pattern before.head? (c :: cs) with
    | none => pattern.hitsFrom (c :: before) cs
    | some (value, rest) =>
      let n := cs.length - rest.length
      ⟨before, value, c :: cs.take n, cs.drop n⟩ ::
        pattern.hitsFrom ((cs.take n).reverse ++ c :: before) (cs.drop n)
termination_by cs => cs.length
decreasing_by
  · simp
  · simp only [List.length_drop, List.length_cons]; omega

/-- The places where a pattern fits in a text. -/
def hits {α : Type} (pattern : Pattern α) (text : List Char) : List (Hit α) :=
  pattern.hitsFrom [] text

/-! ## Parts of phrases -/

/-- Whether a word may begin behind the given character. -/
def atBoundary (before : Option Char) : Bool := !before.any isWordCharacter

/-- The text behind a fixed text. -/
def text? (text : String) (cs : List Char) : Option (List Char) :=
  if text.toList.isPrefixOf cs then some (cs.drop text.length) else none

/-- The text behind a fixed text that ends at a word boundary. -/
def word? (word : String) (cs : List Char) : Option (List Char) :=
  (text? word cs).filter fun rest => !rest.head?.any isWordCharacter

/-- The first of some texts that fits, and the text behind it. -/
def oneOf? (texts : List String) (cs : List Char) : Option (String × List Char) :=
  texts.findSome? fun text => (text? text cs).map fun rest => (text, rest)

/-- The text behind any blanks. -/
def blanks (cs : List Char) : List Char := cs.dropWhile isBlank

/-- The text behind at least one blank. -/
def someBlanks? (cs : List Char) : Option (List Char) :=
  if cs.head?.any isBlank then some (blanks cs) else none

/-- The text behind an opening parenthesis that blanks may precede. -/
def opening? (cs : List Char) : Option (List Char) := text? "(" (blanks cs)

/-- The text behind a dot and one of some members, with blanks around the dot. -/
def member? (members : List String) (cs : List Char) : Option (List Char) := do
  let cs ← text? "." (blanks cs)
  members.findSome? fun member => word? member (blanks cs)

/-! ## The phrases -/

/-- `pragma solidity`, both whole words. -/
def pragmaDirective : Pattern Unit := fun before cs => do
  guard (atBoundary before)
  let cs ← text? "pragma" cs
  let cs ← someBlanks? cs
  let cs ← word? "solidity" cs
  some ((), cs)

/-- `pragma solidity` with the version behind it, up to the semicolon. The version is captured.
-/
def pragmaVersion : Pattern (List Char) := fun before cs => do
  guard (atBoundary before)
  let cs ← text? "pragma" cs
  let cs ← someBlanks? cs
  let cs ← text? "solidity" cs
  let cs ← someBlanks? cs
  some (cs.takeWhile (· != ';'), cs.dropWhile (· != ';'))

/-- The text behind call options in braces, where there are any. -/
def callOptions? (cs : List Char) : Option (List Char) :=
  match cs with
  | '\x7b' :: cs => text? "\x7d" (cs.dropWhile (· != '\x7d'))
  | _ => some cs

/-- The members that make a low-level call whose success must be checked. -/
def lowLevelMembers : List String := ["call", "delegatecall", "staticcall", "send"]

/-- A low-level call up to its opening parenthesis. Captures the text before the name of the
member, and that name. -/
def lowLevelCall : Pattern (List Char × String) := fun _ cs => do
  let rest ← text? "." cs
  let lead := '.' :: rest.takeWhile isBlank
  let (member, rest) ← oneOf? lowLevelMembers (blanks rest)
  let rest ← callOptions? (blanks rest)
  let rest ← opening? rest
  some ((lead, member), rest)

/-- One of some words with an opening parenthesis behind it. The word is captured. -/
def headerOf (words : List String) : Pattern String := fun before cs => do
  guard (atBoundary before)
  let (word, cs) ← oneOf? words cs
  let cs ← opening? cs
  some (word, cs)

/-- What decides which way control goes: conditions and assertions. -/
def condition : Pattern String := headerOf ["if", "require", "assert", "while"]

/-- The head of a loop. -/
def loopHeader : Pattern String := headerOf ["for", "while"]

/-- A call of the hash function. -/
def hashing : Pattern String := headerOf ["keccak256"]

/-- `tx.origin`. -/
def transactionOrigin : Pattern Unit := fun before cs => do
  guard (atBoundary before)
  let cs ← text? "tx" cs
  let cs ← member? ["origin"] cs
  some ((), cs)

/-- The time of the block: `block.timestamp` or `now`. -/
def blockTime : Pattern Unit := fun before cs => do
  guard (atBoundary before)
  let cs ← (text? "block" cs >>= member? ["timestamp"]) <|> word? "now" cs
  some ((), cs)

/-- A block value that is mistaken for randomness: `block.difficulty`, `block.prevrandao` or
`blockhash`. -/
def blockRandomness : Pattern Unit := fun before cs => do
  guard (atBoundary before)
  let cs ← (text? "block" cs >>= member? ["difficulty", "prevrandao"]) <|>
    (text? "blockhash" cs >>= opening?)
  some ((), cs)

/-- The length of a collection. -/
def lengthMember : Pattern Unit := fun _ cs => do
  let cs ← text? "." cs
  let cs ← word? "length" (blanks cs)
  some ((), cs)

/-- Whether a text begins with `return`, blanks aside. -/
def startsReturn (cs : List Char) : Bool := (word? "return" (blanks cs)).isSome

end Pattern

/-! ## Groups of parentheses in text -/

/-- The text of a group of parentheses, through the parenthesis that closes it; everything if
none does. `depth` groups are open. -/
def groupText (depth : Nat) : List Char → List Char
  | [] => []
  | c :: cs =>
    if c == '(' then c :: groupText (depth + 1) cs
    else if c == ')' then
      if depth ≤ 1 then [c] else c :: groupText (depth - 1) cs
    else c :: groupText depth cs

namespace Hit

/-- The group that the opening parenthesis at the end of a header begins. -/
def group {α : Type} (hit : Hit α) : List Char := groupText 0 ('(' :: hit.behind)

/-- The byte offset of that opening parenthesis. -/
def groupStart {α : Type} (hit : Hit α) : Nat := hit.start + byteLength hit.phrase - 1

end Hit

end SolidityTools.Lint

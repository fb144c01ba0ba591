import SolidityTools.Token
import SolidityTools.Token.Vocabulary
import SolidityTools.Text.Blank

set_option autoImplicit false

/-! # Cutting a text into tokens

At each place the lexer looks at the next character `c` and at the text `cs` behind it, and
decides what kind of token begins there and *how many characters of `cs`* belong to it. Since `c`
itself always belongs to the token, a token is never empty, the rest of the text is shorter, and
the pieces laid end to end are the text. No text is rejected: what nothing else wants becomes a
token of one character, and a literal without its closing delimiter runs to the end of the text.

The kinds are tried in a fixed order: comment, string, number, word, operator, white space.
-/

namespace SolidityTools.Lexer

open Text

/-- The length of the longest run of characters at the front that satisfy `p`. -/
def runLength (p : Char → Bool) (cs : List Char) : Nat := (cs.takeWhile p).length

/-! ## Comments and strings -/

/-- The length of a block comment's text behind its opening delimiter: through the first closing
delimiter, or everything if there is none. -/
def blockCommentLength : List Char → Nat
  | [] => 0
  | '*' :: '/' :: _ => 2
  | _ :: cs => blockCommentLength cs + 1

/-- A line comment ends before the line feed, a block comment with its closing delimiter. -/
def commentLength? (c : Char) (cs : List Char) : Option Nat :=
  match c, cs with
  | '/', '/' :: cs => some (runLength (· != '\n') cs + 1)
  | '/', '*' :: cs => some (blockCommentLength cs + 1)
  | _, _ => none

/-- The length of a string literal's text behind its opening quote: through the first quote of
the same sort that no backslash stands before, or everything. A backslash takes the next
character with it, whatever that is. -/
def stringLength (quote : Char) : List Char → Nat
  | [] => 0
  | ['\\'] => 1
  | '\\' :: _ :: cs => stringLength quote cs + 2
  | c :: cs => if c == quote then 1 else stringLength quote cs + 1

/-- Both sorts of quote open a string literal. -/
def stringLength? (c : Char) (cs : List Char) : Option Nat :=
  if c == '"' || c == '\'' then some (stringLength c cs) else none

/-! ## Numbers -/

def isHexDigit (c : Char) : Bool :=
  c.isDigit || ('a' ≤ c && c ≤ 'f') || ('A' ≤ c && c ≤ 'F')

/-- A digit or the separator `_`. -/
def isDecimalPart (c : Char) : Bool := c.isDigit || c == '_'

/-- A hexadecimal digit or the separator `_`. -/
def isHexPart (c : Char) : Bool := isHexDigit c || c == '_'

/-- The length of a fraction: a point with a digit behind it. -/
def fractionLength : List Char → Nat
  | '.' :: d :: cs => if d.isDigit then runLength isDecimalPart (d :: cs) + 1 else 0
  | _ => 0

/-- The length of a run of digits, if a digit comes first. -/
def digitsLength? : List Char → Option Nat
  | d :: cs => if d.isDigit then some (runLength isDecimalPart (d :: cs)) else none
  | [] => none

/-- The length of an exponent: `e`, perhaps a sign, and a digit. -/
def exponentLength : List Char → Nat
  | [] => 0
  | e :: cs =>
    if e == 'e' || e == 'E' then
      match cs with
      | [] => 0
      | sign :: ds =>
        if sign == '+' || sign == '-' then ((digitsLength? ds).map (· + 2)).getD 0
        else ((digitsLength? (sign :: ds)).map (· + 1)).getD 0
    else 0

/-- The length of a decimal number behind its first digit. -/
def decimalLength (cs : List Char) : Nat :=
  let whole := runLength isDecimalPart cs
  let mantissa := whole + fractionLength (cs.drop whole)
  mantissa + exponentLength (cs.drop mantissa)

/-- A number is hexadecimal if `0x` and a hexadecimal digit come first, and decimal otherwise. -/
def numberLength (c : Char) (cs : List Char) : Nat :=
  match c, cs with
  | '0', x :: h :: ds =>
    if (x == 'x' || x == 'X') && isHexDigit h then runLength isHexPart (h :: ds) + 1
    else decimalLength cs
  | _, _ => decimalLength cs

/-- A number begins with a digit. -/
def numberLength? (c : Char) (cs : List Char) : Option Nat :=
  if c.isDigit then some (numberLength c cs) else none

/-! ## Words and operators -/

def isWordStart (c : Char) : Bool := c.isAlpha || c == '_' || c == '$'

def isWordPart (c : Char) : Bool := c.isAlphanum || c == '_' || c == '$'

/-- Whether an opening parenthesis comes next, ASCII blanks aside. -/
def opensCall (cs : List Char) : Bool := (cs.dropWhile isAsciiBlank).head? == some '('

/-- The kind of a word, given the text behind it. -/
def wordKind (word : List Char) (behind : List Char) : TokenKind :=
  let text := String.ofList word
  if isKeywordText text then .keyword
  else if isTypeText text then .type
  else if opensCall behind then .function
  else .identifier

/-- The kind of a word and the number of characters behind its first. -/
def word? (c : Char) (cs : List Char) : Option (TokenKind × Nat) :=
  if isWordStart c then
    let n := runLength isWordPart cs
    some (wordKind (c :: cs.take n) (cs.drop n), n)
  else none

/-- The first listed operator that fits, else an operator of one character. -/
def operatorLength? (c : Char) (cs : List Char) : Option Nat :=
  match longOperators.find? (·.isPrefixOf (c :: cs)) with
  | some operator => some (operator.length - 1)
  | none => if operatorCharacters.contains c then some 0 else none

/-- A run of ASCII blanks. -/
def whitespaceLength? (c : Char) (cs : List Char) : Option Nat :=
  if isAsciiBlank c then some (runLength isAsciiBlank cs) else none

/-! ## The lexer -/

/-- The kind of the token that begins with `c`, and how many of the characters `cs` behind `c`
belong to it. -/
def lexeme (c : Char) (cs : List Char) : TokenKind × Nat :=
  if let some n := commentLength? c cs then (.comment, n)
  else if let some n := stringLength? c cs then (.string, n)
  else if let some n := numberLength? c cs then (.number, n)
  else if let some word := word? c cs then word
  else if let some n := operatorLength? c cs then (.operator, n)
  else if let some n := whitespaceLength? c cs then (.whitespace, n)
  else (.other, 0)

/-- The tokens of a text that stands at a byte offset. -/
def tokensFrom (start : Nat) : List Char → List Token
  | [] => []
  | c :: cs =>
    let (kind, n) := lexeme c cs
    let text := c :: cs.take n
    ⟨kind, String.ofList text, start⟩ :: tokensFrom (start + byteLength text) (cs.drop n)
termination_by cs => cs.length
decreasing_by simp only [List.length_drop, List.length_cons]; omega

end SolidityTools.Lexer

namespace SolidityTools

def tokenize (source : String) : List Token := Lexer.tokensFrom 0 source.toList

def tokenizeSignificant (source : String) : List Token := significantTokens (tokenize source)

end SolidityTools

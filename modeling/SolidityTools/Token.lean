import SolidityTools.Text.Offset

set_option autoImplicit false

/-! # Tokens

A source text is cut into *tokens*: classified pieces that follow one another without a gap, so
that nothing of the text is lost. A token remembers its text and the byte offset at which it
starts.

White space and comments are *trivia*: they separate the *significant* tokens, which are all
that the analyses look at.
-/

namespace SolidityTools

inductive TokenKind where
  /-- A reserved word, modifier, literal word or unit suffix. -/
  | keyword
  /-- A built-in elementary type such as `uint256` or `address`. -/
  | type
  /-- An identifier with an opening parenthesis behind it. -/
  | function
  /-- A string literal, closed or not. -/
  | string
  /-- A line comment or a block comment, closed or not. -/
  | comment
  /-- A numeric literal. -/
  | number
  /-- An operator or a punctuation mark. -/
  | operator
  /-- Any other identifier. -/
  | identifier
  /-- A run of ASCII blanks. -/
  | whitespace
  /-- A single character that belongs to nothing else. -/
  | other
deriving DecidableEq, Repr, Inhabited

def TokenKind.name : TokenKind → String
  | .keyword => "keyword"
  | .type => "type"
  | .function => "function"
  | .string => "string"
  | .comment => "comment"
  | .number => "number"
  | .operator => "operator"
  | .identifier => "variable"
  | .whitespace => "whitespace"
  | .other => "other"

/-- A classified piece of a source text. -/
structure Token where
  kind : TokenKind
  text : String
  /-- The byte offset of the first character. -/
  start : Nat
deriving DecidableEq, Repr, Inhabited

namespace Token

/-- The byte offset just past the token. -/
def stop (t : Token) : Nat := t.start + Text.byteLength t.text.toList

/-- White space and comments carry no syntax. -/
def isTrivia (t : Token) : Bool := t.kind == .whitespace || t.kind == .comment

/-- Keywords, elementary types and identifiers. -/
def isWord (t : Token) : Bool :=
  t.kind == .keyword || t.kind == .type || t.kind == .function || t.kind == .identifier

/-- Identifiers, whether or not a parenthesis follows. -/
def isName (t : Token) : Bool := t.kind == .identifier || t.kind == .function

def isOperator (t : Token) (text : String) : Bool := t.kind == .operator && t.text == text

def isOperatorIn (t : Token) (texts : List String) : Bool :=
  t.kind == .operator && texts.contains t.text

def isKeyword (t : Token) (text : String) : Bool := t.kind == .keyword && t.text == text

/-- Whether a string literal ends with its own quote. The closing quote must not be escaped, and
it is escaped exactly when an odd number of backslashes stands before it. -/
def closesString : List Char → Bool
  | [] => false
  | quote :: body =>
    match body.reverse with
    | [] => false
    | last :: inner => last == quote && (inner.takeWhile (· == '\\')).length % 2 == 0

/-- Whether a block comment ends with a closing delimiter that does not share its asterisk with
the opening one. -/
def closesBlockComment : List Char → Bool
  | '/' :: '*' :: body => 2 ≤ body.length && ['/', '*'].isPrefixOf body.reverse
  | _ => true

/-- Whether the token has the closing delimiter it needs. Only string literals and block comments
need one. -/
def isTerminated (t : Token) : Bool :=
  match t.kind with
  | .string => closesString t.text.toList
  | .comment => closesBlockComment t.text.toList
  | _ => true

end Token

/-- The tokens that carry syntax, in source order. -/
def significantTokens (tokens : List Token) : List Token := tokens.filter (!·.isTrivia)

end SolidityTools

import SolidityTools.Token.Lexer

set_option autoImplicit false

/-! # Presentation styles

For display, kinds of tokens are grouped into a few *styles*. A style has a name for machines, a
style sheet class for web pages and graphic rendition parameters for terminals. Tokens of the
plain style are shown bare; every other token is wrapped in its own pair of escape sequences,
so that no colour reaches past a token.
-/

namespace SolidityTools

inductive TokenStyle where
  | keyword
  | type
  | function
  | string
  | comment
  | number
  | operator
  | plain
deriving DecidableEq, Repr, Inhabited

/-- The style of a kind of token. Identifiers, white space and stray characters have none of
their own. -/
def TokenKind.style : TokenKind → TokenStyle
  | .keyword => .keyword
  | .type => .type
  | .function => .function
  | .string => .string
  | .comment => .comment
  | .number => .number
  | .operator => .operator
  | .identifier | .whitespace | .other => .plain

namespace TokenStyle

/-- The name of a style in machine-readable output. -/
def name : TokenStyle → String
  | .keyword => "keyword"
  | .type => "type"
  | .function => "function"
  | .string => "string"
  | .comment => "comment"
  | .number => "number"
  | .operator => "operator"
  | .plain => "default"

def className : TokenStyle → String
  | .keyword => "text-keyword"
  | .type => "text-type-keyword"
  | .function => "text-function"
  | .string => "text-string"
  | .comment => "text-comment"
  | .number => "text-number"
  | .operator => "text-operator"
  | .plain => "text-foreground"

/-- The parameters of the terminal's graphic rendition sequence. -/
def ansi : TokenStyle → String
  | .keyword => "35"
  | .type => "36"
  | .function => "33"
  | .string => "32"
  | .comment => "2;37"
  | .number => "38;5;208"
  | .operator => "37"
  | .plain => "0"

end TokenStyle

def Token.style (t : Token) : TokenStyle := t.kind.style

/-- The terminal sequence that sets the rendition given by its parameters. -/
def rendition (parameters : String) : String := "\x1b[" ++ parameters ++ "m"

/-- A token as it is shown on a terminal. -/
def Token.highlighted (t : Token) : String :=
  if t.style = .plain then t.text
  else rendition t.style.ansi ++ t.text ++ rendition TokenStyle.plain.ansi

/-- A source text with terminal colours. -/
def highlight (source : String) : String :=
  String.join ((tokenize source).map Token.highlighted)

end SolidityTools

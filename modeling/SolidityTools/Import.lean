import SolidityTools.Import.Path
import SolidityTools.Token.Lexer
import SolidityTools.Position

set_option autoImplicit false

/-! # Import statements

An import statement begins with its keyword and names a file in a string literal. What stands
between the two, such as a list of imported names, does not matter. A statement without a closed
string literal before its semicolon imports nothing.
-/

namespace SolidityTools

/-- Where the path of an import points. -/
inductive ImportKind where
  /-- Next to the importing file. -/
  | relative
  /-- Into an installed package. -/
  | package
  /-- Anywhere else. -/
  | absolute
deriving DecidableEq, Repr

namespace ImportKind

/-- The kind of a path, told by how it begins. -/
def of (path : String) : ImportKind :=
  let begins (start : String) := start.toList.isPrefixOf path.toList
  if begins "./" || begins "../" then .relative
  else if begins "@" || begins "node_modules/" then .package
  else .absolute

def name : ImportKind → String
  | .relative => "relative"
  | .package => "package"
  | .absolute => "absolute"

end ImportKind

structure Import where
  /-- The path without its quotes. -/
  path : String
  kind : ImportKind
  /-- The line of the keyword. -/
  line : Nat
deriving DecidableEq, Repr

namespace Import

def ofPath (path : String) (line : Nat) : Import := ⟨path, .of path, line⟩

/-- The final segment of the path. -/
def fileName (i : Import) : String := ImportPath.fileName i.path

/-- The text of a string literal between its quotes. -/
def unquoted (t : Token) : String := String.ofList t.text.toList.tail.dropLast

/-- The path named by an import statement, given the tokens behind its keyword. -/
def path? (tokens : List Token) : Option String :=
  ((tokens.takeWhile (!·.isOperator ";")).find? fun t =>
    t.kind == .string && t.isTerminated).map unquoted

/-- The imports among significant tokens of a source text. -/
def ofTokens (source : String) : List Token → List Import
  | [] => []
  | t :: ts =>
    let rest := ofTokens source ts
    if t.isKeyword "import" then
      match path? ts with
      | some path => ofPath path (positionAt source t.start).line :: rest
      | none => rest
    else rest

end Import

/-- The imports of a source text, in source order. -/
def importsOf (source : String) : List Import :=
  Import.ofTokens source (tokenizeSignificant source)

end SolidityTools

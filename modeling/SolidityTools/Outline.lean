import SolidityTools.Token.Lexer
import SolidityTools.Outline.TypeDeclaration
import SolidityTools.Outline.StateVariable
import SolidityTools.Outline.FunctionDeclaration
import SolidityTools.Outline.Write
import SolidityTools.Ascending

set_option autoImplicit false

/-! # The outline of a file

The outline lists what a file declares. There is no parser behind it: declarations are found by
their leading keywords and bodies by matching braces, so that any text has an outline.
-/

namespace SolidityTools

/-- The declarations of a file. -/
structure Outline where
  /-- The significant tokens of the file. -/
  tokens : List Token
  types : List TypeDeclaration
  stateVariables : List StateVariable
  functions : List FunctionDeclaration
deriving Repr

namespace Outline

/-- The outline of a file of `sourceLength` bytes, given its tokens. -/
def ofTokens (sourceLength : Nat) (tokens : List Token) : Outline :=
  let tokens := significantTokens tokens
  { tokens
    types := typeDeclarations tokens
    stateVariables := SolidityTools.stateVariables tokens
    functions := functionDeclarations sourceLength 0 tokens }

def ofSource (source : String) : Outline :=
  ofTokens (Text.byteLength source.toList) (tokenize source)

/-- The state variables that can be written after construction. -/
def mutableVariables (o : Outline) : List StateVariable :=
  o.stateVariables.filter fun v => !v.isConstant && !v.isImmutable

def isMutableState (o : Outline) (name : String) : Bool :=
  (o.mutableVariables.map (·.name)).contains name

/-- The names of the mutable state variables, each once, in ascending order. -/
def mutableNames (o : Outline) : List String :=
  Ascending.ofList (fun a b => a < b) (o.mutableVariables.map (·.name))

end Outline

end SolidityTools

import SolidityTools.Lint.Mask
import SolidityTools.Outline
import SolidityTools.Settings

set_option autoImplicit false

/-! # Findings

A lint rule looks at one file and returns *findings*: byte offsets with a message each. All
rules look at the same prepared file, the *subject*.
-/

namespace SolidityTools.Lint

/-- Something a rule objects to. -/
structure Finding where
  /-- The byte offset of the place. -/
  offset : Nat
  message : String
deriving DecidableEq, Repr

/-- A file prepared for the rules. -/
structure Subject where
  source : String
  settings : LintSettings
  /-- All tokens, trivia included. -/
  tokens : List Token
  /-- The source with comments and strings blanked out. -/
  masked : List Char
  outline : Outline

/-- Prepares a file. -/
def Subject.ofSource (settings : LintSettings) (source : String) : Subject :=
  let tokens := tokenize source
  { source, settings, tokens
    masked := mask tokens
    outline := Outline.ofTokens (Text.byteLength source.toList) tokens }

/-- How urgent an issue is. -/
inductive Severity where
  /-- Code that is broken. -/
  | error
  /-- Code that is likely wrong or risky. -/
  | warning
  /-- A matter of style or good practice. -/
  | info
deriving DecidableEq, Repr

def Severity.name : Severity → String
  | .error => "error"
  | .warning => "warning"
  | .info => "info"

end SolidityTools.Lint

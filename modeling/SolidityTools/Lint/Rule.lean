import SolidityTools.Lint.Delimiter
import SolidityTools.Lint.Header
import SolidityTools.Lint.Call
import SolidityTools.Lint.Environment
import SolidityTools.Lint.Style

set_option autoImplicit false

/-! # The rules

The set of rules is fixed. Each has a code by which it is disabled and reported, a severity and a
description. Their order decides which of two issues at one place comes first.
-/

namespace SolidityTools.Lint

/-- The lint rules. -/
inductive Rule where
  | unterminatedLiteral
  | unbalancedBraces
  | missingLicence
  | missingPragma
  | floatingPragma
  | uncheckedCall
  | reentrancy
  | transactionOrigin
  | blockValue
  | unboundedLoop
  | magicNumber
  | namingConvention
deriving DecidableEq, Repr

namespace Rule

/-- All rules, in the order of reports. -/
def all : List Rule :=
  [.unterminatedLiteral, .unbalancedBraces, .missingLicence, .missingPragma, .floatingPragma,
   .uncheckedCall, .reentrancy, .transactionOrigin, .blockValue, .unboundedLoop, .magicNumber,
   .namingConvention]

def code : Rule → String
  | .unterminatedLiteral => "unterminated-literal"
  | .unbalancedBraces => "unbalanced-braces"
  | .missingLicence => "missing-spdx"
  | .missingPragma => "missing-pragma"
  | .floatingPragma => "floating-pragma"
  | .uncheckedCall => "unchecked-call"
  | .reentrancy => "reentrancy"
  | .transactionOrigin => "tx-origin"
  | .blockValue => "timestamp-dependence"
  | .unboundedLoop => "unbounded-loop"
  | .magicNumber => "magic-number"
  | .namingConvention => "naming-convention"

def severity : Rule → Severity
  | .unterminatedLiteral => .error
  | .unbalancedBraces => .error
  | .missingLicence => .info
  | .missingPragma => .warning
  | .floatingPragma => .info
  | .uncheckedCall => .warning
  | .reentrancy => .warning
  | .transactionOrigin => .warning
  | .blockValue => .warning
  | .unboundedLoop => .warning
  | .magicNumber => .info
  | .namingConvention => .info

/-- A short description for listings. -/
def description : Rule → String
  | .unterminatedLiteral => "String literal or block comment without a closing delimiter"
  | .unbalancedBraces => "Unmatched `\x7b` or `\x7d`"
  | .missingLicence => "No SPDX license identifier near the top of the file"
  | .missingPragma => "No `pragma solidity` near the top of the file"
  | .floatingPragma => "Compiler version is not pinned"
  | .uncheckedCall => "Result of a low-level call is ignored"
  | .reentrancy => "State written after an external call"
  | .transactionOrigin => "`tx.origin` used"
  | .blockValue => "Block timestamp or randomness source drives control flow"
  | .unboundedLoop => "Loop bounded by a collection length"
  | .magicNumber => "Unnamed numeric literal in a comparison"
  | .namingConvention => "Declaration name breaks Solidity naming conventions"

def findings : Rule → Subject → List Finding
  | .unterminatedLiteral => unterminatedLiterals
  | .unbalancedBraces => SolidityTools.Lint.unbalancedBraces
  | .missingLicence => SolidityTools.Lint.missingLicence
  | .missingPragma => SolidityTools.Lint.missingPragma
  | .floatingPragma => floatingPragmas
  | .uncheckedCall => uncheckedCalls
  | .reentrancy => reentrantWrites
  | .transactionOrigin => transactionOrigins
  | .blockValue => blockValues
  | .unboundedLoop => unboundedLoops
  | .magicNumber => magicNumbers
  | .namingConvention => unconventionalNames

/-- The word for a severity in the summary of a rule. -/
def severityTitle : Severity → String
  | .error => "Error"
  | .warning => "Warning"
  | .info => "Info"

def summary (rule : Rule) : String :=
  "Detector \x7b code: \"" ++ rule.code ++ "\", severity: " ++ severityTitle rule.severity ++
    ", check: \"<fn>\" \x7d"

end Rule

end SolidityTools.Lint

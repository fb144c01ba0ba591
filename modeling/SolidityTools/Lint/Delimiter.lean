import SolidityTools.Lint.Finding

set_option autoImplicit false

/-! # Missing delimiters

Two rules find text that cannot be Solidity at all: literals that run to the end of the file, and
braces without a partner.
-/

namespace SolidityTools.Lint

/-- String literals and block comments without their closing delimiter. -/
def unterminatedLiterals (s : Subject) : List Finding :=
  (s.tokens.filter (!·.isTerminated)).map fun t =>
    ⟨t.start, "Unterminated " ++
      (if t.kind = .string then "string literal" else "block comment")⟩

/-- The braces without a partner: the closing ones, then the opening ones, each in source order.
`opened` are the braces open so far, latest first. -/
def unmatchedBraces (opened : List Token) : List Token → List Token × List Token
  | [] => ([], opened.reverse)
  | t :: ts =>
    if t.isOperator "\x7b" then unmatchedBraces (t :: opened) ts
    else if t.isOperator "\x7d" then
      match opened with
      | [] =>
        let (closers, openers) := unmatchedBraces [] ts
        (t :: closers, openers)
      | _ :: opened => unmatchedBraces opened ts
    else unmatchedBraces opened ts

/-- Braces without a partner. -/
def unbalancedBraces (s : Subject) : List Finding :=
  let (closers, openers) := unmatchedBraces [] s.outline.tokens
  closers.map (fun t => ⟨t.start, "Unmatched closing brace"⟩) ++
    openers.map fun t => ⟨t.start, "Unclosed brace"⟩

end SolidityTools.Lint

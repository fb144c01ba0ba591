import SolidityTools.Lint.Rule
import SolidityTools.Position
import SolidityTools.StableOrder

set_option autoImplicit false

/-! # Linting a file

Every enabled rule runs on the file by itself. The issues are then put into the order of their
positions; at one position the order of the rules decides, and findings of one rule at one
position stay in the order in which the rule returned them.
-/

namespace SolidityTools.Lint

/-- A finding as it is reported. -/
structure Issue where
  rule : Rule
  position : Position
  message : String
deriving DecidableEq, Repr

/-- The place of a rule in the order of the rules. -/
def Rule.rank (rule : Rule) : Nat := Rule.all.idxOf rule

/-- Whether one issue may stand before another: by line, then by column, then by rule. -/
def Issue.le (a b : Issue) : Bool :=
  a.position.line < b.position.line ||
    (a.position.line == b.position.line &&
      (a.position.column < b.position.column ||
        (a.position.column == b.position.column && a.rule.rank ≤ b.rule.rank)))

def Rule.issues (rule : Rule) (subject : Subject) : List Issue :=
  (rule.findings subject).map fun f => ⟨rule, positionAt subject.source f.offset, f.message⟩

/-- The rules that run under the given settings. -/
def enabledRules (settings : LintSettings) : List Rule :=
  Rule.all.filter fun rule => settings.isEnabled rule.code

end SolidityTools.Lint

namespace SolidityTools

/-- The issues of a source text, in the order of reports. -/
def lint (settings : LintSettings) (source : String) : List Lint.Issue :=
  let subject := Lint.Subject.ofSource settings source
  StableOrder.sort Lint.Issue.le ((Lint.enabledRules settings).flatMap (·.issues subject))

end SolidityTools

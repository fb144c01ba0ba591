import SolidityTools.Json
import SolidityTools.Lint

set_option autoImplicit false

/-! # Lint reports -/

namespace SolidityTools.Report

open SolidityTools.Lint

def severitySign : Severity → String
  | .error => "❌"
  | .warning => "⚠\uFE0F "
  | .info => "ℹ\uFE0F "

/-- The line above an issue. -/
def issueTitle (issue : Issue) : String :=
  severitySign issue.rule.severity ++ " " ++ issue.rule.severity.name ++ " [" ++ issue.rule.code ++
    "] " ++ issue.message ++ " (Line " ++ toString issue.position.line ++ ", Column " ++
    toString issue.position.column ++ ")\n"

/-- An issue with the lines around it. They can be shown for every issue of a text that leaves room
for a gutter in front of its lines. -/
def issueText (source : String) (issue : Issue) : String :=
  issueTitle issue ++ (codeContext source issue.position 1).toOption.getD ""

def countOf (severity : Severity) (issues : List Issue) : Nat :=
  issues.countP (·.rule.severity == severity)

/-- The issues of a file for people, with a summary behind them. -/
def lint (file source : String) (issues : List Issue) : String :=
  if issues.isEmpty then "✅ " ++ file ++ ": no issues found\n"
  else
    "📄 " ++ file ++ "\n" ++ String.join (issues.map (issueText source)) ++ file ++ ": " ++
      toString (countOf .error issues) ++ " error(s), " ++
      toString (countOf .warning issues) ++ " warning(s), " ++
      toString (countOf .info issues) ++ " info\n"

def issueJson (issue : Issue) : Json :=
  .record [("severity", .string issue.rule.severity.name), ("message", .string issue.message),
    ("line", .natural issue.position.line), ("column", .natural issue.position.column),
    ("code", .string issue.rule.code)]

def lintJson (file : String) (issues : List Issue) : Json :=
  .record [("file", .string file), ("issues", .list issueJson issues)]

end SolidityTools.Report

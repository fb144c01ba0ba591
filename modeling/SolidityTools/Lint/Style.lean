import SolidityTools.Lint.Finding
import SolidityTools.Lint.Pattern

set_option autoImplicit false

/-! # Loops, numbers and names

Rules about code that works but invites trouble: loops that grow with a collection, numbers whose
meaning nobody wrote down, and names that break the conventions of the language.
-/

namespace SolidityTools.Lint

/-! ## Loops -/

/-- Loops with the length of a collection in their header. -/
def unboundedLoops (s : Subject) : List Finding :=
  (Pattern.loopHeader.hits s.masked).filterMap fun hit =>
    if (Pattern.lengthMember.hits hit.group).isEmpty then none
    else some ⟨hit.start, "`" ++ hit.value ++
      "` loop is bounded by a collection length and may run out of gas"⟩

/-! ## Numbers -/

def comparisonOperators : List String := ["<", ">", "<=", ">=", "==", "!="]

def isComparison (t : Token) : Bool := t.isOperatorIn comparisonOperators

def withoutSeparators (literal : String) : String :=
  String.ofList (literal.toList.filter (· != '_'))

/-- The numbers next to a comparison, outside directives. `inPragma` tells whether a directive
has begun, `before` is the token before. -/
def comparedNumbers (inPragma : Bool) (before : Option Token) : List Token → List Token
  | [] => []
  | t :: ts =>
    let inPragma := if t.isKeyword "pragma" then true
      else if t.isOperator ";" then false else inPragma
    let rest := comparedNumbers inPragma (some t) ts
    if !inPragma && t.kind == .number && (before.any isComparison || ts.head?.any isComparison)
    then t :: rest else rest

/-- Numbers in comparisons that are not on the list of allowed ones. -/
def magicNumbers (s : Subject) : List Finding :=
  ((comparedNumbers false none s.outline.tokens).filter fun t =>
      !s.settings.allowedNumbers.contains (withoutSeparators t.text)).map fun t =>
    ⟨t.start, "Magic number `" ++ t.text ++ "` in comparison; consider a named constant"⟩

/-! ## Names -/

/-- The word for a kind of declaration in messages. -/
def kindTitle : TypeKind → String
  | .contract => "Contract"
  | .interface => "Interface"
  | .library => "Library"
  | .struct => "Struct"
  | .enum => "Enum"
  | .event => "Event"
  | .error => "Error"

/-- The names of types begin with a capital letter. -/
def typeNameFinding? (d : TypeDeclaration) : Option Finding :=
  if d.name.toList.head?.any Char.isUpper then none
  else some ⟨d.offset, kindTitle d.kind ++ " name `" ++ d.name ++ "` should use CapWords"⟩

/-- Whether a name is written in capitals, digits and underscores. -/
def isUpperCase (name : String) : Bool :=
  name.toList.all fun c => c.isUpper || c.isDigit || c == '_'

/-- Constants are written in capitals; other private variables begin with an underscore. -/
def variableNameFinding? (v : StateVariable) : Option Finding :=
  if v.isConstant then
    if isUpperCase v.name then none
    else some ⟨v.offset, "Constant `" ++ v.name ++ "` should be UPPER_CASE"⟩
  else if v.visibility = some .privately ∧ v.name.toList.head? ≠ some '_' then
    some ⟨v.offset, "Private state variable `" ++ v.name ++
      "` should start with an underscore"⟩
  else none

/-- Names that break the conventions: types first, then variables. -/
def unconventionalNames (s : Subject) : List Finding :=
  s.outline.types.filterMap typeNameFinding? ++
    s.outline.stateVariables.filterMap variableNameFinding?

end SolidityTools.Lint

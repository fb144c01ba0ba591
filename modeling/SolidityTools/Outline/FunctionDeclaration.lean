import SolidityTools.Token.Group

set_option autoImplicit false

/-! # Declared functions

A function-like declaration is recognised by its keyword and the closed parameter list behind it.
What follows up to the body or the semicolon are its attributes, of which only the state
mutability is kept. The body is found by matching braces; a body that is never closed reaches to
the end of the file.
-/

namespace SolidityTools

/-- The keywords that declare something with a parameter list and a body. -/
inductive FunctionKind where
  | function
  | constructor
  | receive
  | fallback
deriving DecidableEq, Repr

namespace FunctionKind

def keyword : FunctionKind → String
  | .function => "function"
  | .constructor => "constructor"
  | .receive => "receive"
  | .fallback => "fallback"

def all : List FunctionKind := [.function, .constructor, .receive, .fallback]

def announced? (t : Token) : Option FunctionKind := all.find? fun kind => t.isKeyword kind.keyword

end FunctionKind

/-- What a function may do to the state. -/
inductive Mutability where
  | nonpayable
  | payable
  | view
  | pure
deriving DecidableEq, Repr

namespace Mutability

def name : Mutability → String
  | .nonpayable => "nonpayable"
  | .payable => "payable"
  | .view => "view"
  | .pure => "pure"

/-- A `view` or `pure` function writes no state. -/
def isReadOnly : Mutability → Bool
  | .view | .pure => true
  | .nonpayable | .payable => false

end Mutability

structure FunctionBody where
  /-- The position of the first token of the body among the significant tokens. -/
  first : Nat
  /-- The tokens between the braces. -/
  tokens : List Token
  /-- The byte offset of the opening brace. -/
  start : Nat
  /-- The byte offset just past the closing brace, or the end of the file. -/
  stop : Nat
  /-- Whether the closing brace is there. -/
  closed : Bool
deriving DecidableEq, Repr

/-- A declared function, constructor, `receive` or `fallback`. -/
structure FunctionDeclaration where
  kind : FunctionKind
  /-- The declared name; the keyword itself where there is no name. -/
  name : String
  /-- The byte offset of the name. -/
  offset : Nat
  /-- The types of the parameters. -/
  paramTypes : List String
  mutability : Mutability
  /-- The body, absent where the declaration ends with a semicolon. -/
  body : Option FunctionBody
deriving DecidableEq, Repr

namespace FunctionDeclaration

/-- The name with the types of the parameters, such as `transfer(address,uint256)`. -/
def signature (f : FunctionDeclaration) : String :=
  f.name ++ "(" ++ String.intercalate "," f.paramTypes ++ ")"

/-- The tokens of the body; none without a body. -/
def bodyTokens (f : FunctionDeclaration) : List Token := (f.body.map (·.tokens)).getD []

end FunctionDeclaration

/-! ## Parameters -/

/-- The tokens of each parameter: the pieces between the commas outside brackets, of which
`depth` are open. -/
def splitParameters (depth : Nat) : List Token → List (List Token)
  | [] => [[]]
  | t :: ts =>
    if depth == 0 && t.isOperator "," then [] :: splitParameters 0 ts
    else
      let depth := if t.isOperatorIn ["(", "["] then depth + 1
        else if t.isOperatorIn [")", "]"] then depth - 1 else depth
      match splitParameters depth ts with
      | [] => [[t]]
      | parameter :: parameters => (t :: parameter) :: parameters

/-- The tokens of a type behind its first token: bracket groups, dotted names and `payable`.
The type ends where none of these continues it. -/
def typeTail (depth : Nat) (behindDot : Bool) : List Token → List Token
  | [] => []
  | t :: ts =>
    let opens := t.isOperatorIn ["(", "["]
    let closes := t.isOperatorIn [")", "]"]
    if depth != 0 || behindDot || opens || t.isOperator "." || t.isKeyword "payable" then
      let depth := if opens then depth + 1 else if closes then depth - 1 else depth
      t :: typeTail depth (t.isOperator ".") ts
    else []

/-- The tokens of the type that begins a parameter. The first token always belongs to it. -/
def typeTokens : List Token → List Token
  | [] => []
  | t :: ts => t :: typeTail (if t.isOperatorIn ["(", "["] then 1 else 0) (t.isOperator ".") ts

/-- The type of a parameter as it stands in signatures, where `address payable` is `address`. -/
def parameterType (parameter : List Token) : String :=
  String.join (((typeTokens parameter).filter (!·.isKeyword "payable")).map (·.text))

def parameterTypes (tokens : List Token) : List String :=
  ((splitParameters 0 tokens).filter (!·.isEmpty)).map parameterType

/-! ## Attributes and body -/

/-- The mutability after one more attribute token, `parens` parentheses being open before it. -/
def Mutability.attribute (m : Mutability) (parens : Nat) (t : Token) : Mutability :=
  if t.isKeyword "view" then .view
  else if t.isKeyword "pure" then .pure
  else if t.isKeyword "payable" && parens == 0 then .payable
  else m

/-- The body whose opening brace has been passed. -/
def bodyFrom (sourceLength : Nat) (first : Nat) (brace : Token) (ts : List Token) : FunctionBody :=
  match Group.braces? ts with
  | some group => ⟨first, group.inside, brace.start, group.closer.stop, true⟩
  | none => ⟨first, ts, brace.start, sourceLength, false⟩

/-- Reads the attributes behind a parameter list, up to the body or the semicolon outside
parentheses. `index` is the position of the next token among the significant tokens. -/
def attributes (sourceLength : Nat) (index parens : Nat) (m : Mutability) :
    List Token → Mutability × Option FunctionBody
  | [] => (m, none)
  | t :: ts =>
    if parens == 0 && t.isOperator ";" then (m, none)
    else if parens == 0 && t.isOperator "\x7b" then
      (m, some (bodyFrom sourceLength (index + 1) t ts))
    else
      let parens' := if t.isOperator "(" then parens + 1
        else if t.isOperator ")" then parens - 1 else parens
      attributes sourceLength (index + 1) parens' (m.attribute parens t) ts

/-! ## Declarations -/

/-- The declaration whose name stands at `index` and whose parameter list `ts` follows. -/
def functionWith (sourceLength : Nat) (kind : FunctionKind) (index : Nat) (name : Token) :
    List Token → Option FunctionDeclaration
  | [] => none
  | paren :: ts =>
    if paren.isOperator "(" then
      match Group.parentheses? ts with
      | none => none
      | some group =>
        let (mutability, body) :=
          attributes sourceLength (index + 2 + group.inside.length + 1) 0 .nonpayable group.rest
        some {
          kind, name := name.text, offset := name.start,
          paramTypes := parameterTypes group.inside, mutability, body }
    else none

/-- The declaration that begins a list of tokens, if one does. Only functions have a name of
their own. -/
def functionDeclaration? (sourceLength : Nat) (index : Nat) :
    List Token → Option FunctionDeclaration
  | [] => none
  | t :: ts =>
    match FunctionKind.announced? t, ts with
    | none, _ => none
    | some .function, name :: ts =>
      if name.isName then functionWith sourceLength .function (index + 1) name ts else none
    | some .function, [] => none
    | some kind, ts => functionWith sourceLength kind index t ts

/-- The functions declared by the tokens from `index` on, in source order. -/
def functionDeclarations (sourceLength : Nat) (index : Nat) :
    List Token → List FunctionDeclaration
  | [] => []
  | t :: ts =>
    (functionDeclaration? sourceLength index (t :: ts)).toList ++
      functionDeclarations sourceLength (index + 1) ts

end SolidityTools

import SolidityTools.Outline.TypeDeclaration

set_option autoImplicit false

/-! # State variables

A state variable is a statement that stands directly between the braces of a contract, interface
or library. One pass over the tokens keeps just enough to recognise such statements: how many
braces are open, which of them belong to a container, and the tokens of the statement begun so
far. Everything inside deeper braces (functions, structs, modifiers) is passed over.

The pass also has to survive text that is not a contract at all. A closing brace too many is
ignored, and a statement is given up when braces open or close outside parentheses.
-/

namespace SolidityTools

/-- The declared visibility of a member. -/
inductive Visibility where
  | publicly
  | privately
  | internally
  | externally
deriving DecidableEq, Repr

namespace Visibility

def keyword : Visibility → String
  | .publicly => "public"
  | .privately => "private"
  | .internally => "internal"
  | .externally => "external"

def all : List Visibility := [.publicly, .privately, .internally, .externally]

def declared? (t : Token) : Option Visibility := all.find? fun v => t.isKeyword v.keyword

end Visibility

/-- A variable declared directly in a contract, interface or library. -/
structure StateVariable where
  name : String
  /-- The byte offset of the name. -/
  offset : Nat
  /-- The last visibility that is declared, if any. -/
  visibility : Option Visibility
  /-- Whether it is declared `constant`. -/
  isConstant : Bool
  /-- Whether it is declared `immutable`. -/
  isImmutable : Bool
deriving DecidableEq, Repr

/-! ## One statement -/

/-- The tokens of a statement before its initial value: up to the first `=` outside
parentheses, of which `parens` are open. -/
def declarator (parens : Nat) : List Token → List Token
  | [] => []
  | t :: ts =>
    let parens := if t.isOperator "(" then parens + 1
      else if t.isOperator ")" then parens - 1 else parens
    if parens == 0 && t.isOperator "=" then [] else t :: declarator parens ts

/-- Whether a statement that begins with this token may declare a variable. -/
def startsType (t : Token) : Bool :=
  t.kind == .type || t.isKeyword "mapping" || t.kind == .identifier

/-- The variable that a statement declares: the last identifier before the initial value, which
must not be the first token, since that belongs to the type. -/
def stateVariable? : List Token → Option StateVariable
  | [] => none
  | first :: rest =>
    if startsType first then
      let tokens := declarator 0 (first :: rest)
      match (tokens.tail.filter (·.kind == .identifier)).getLast? with
      | none => none
      | some name => some {
          name := name.text
          offset := name.start
          visibility := (tokens.filterMap Visibility.declared?).getLast?
          isConstant := tokens.any (·.isKeyword "constant")
          isImmutable := tokens.any (·.isKeyword "immutable") }
    else none

/-! ## The pass over a file -/

/-- What the pass knows at a place between two tokens. -/
structure MemberScan where
  /-- The number of open braces. -/
  depth : Nat
  /-- The number of open parentheses. -/
  parens : Nat
  /-- The depths inside the open containers, innermost first. -/
  containers : List Nat
  /-- Whether a container has been announced whose brace is still to come. -/
  pending : Bool
  /-- The tokens of the statement that has begun, latest first. -/
  statement : Option (List Token)
deriving DecidableEq, Repr

namespace MemberScan

/-- The beginning of a file. -/
def start : MemberScan := ⟨0, 0, [], false, none⟩

/-- Whether the innermost open brace is that of a container. -/
def inContainer (s : MemberScan) : Bool := s.containers.head? == some s.depth

/-- Behind an opening brace. A pending container takes it as its own. Directly in a container and
outside parentheses the statement was no variable. -/
def openBrace (s : MemberScan) (t : Token) : MemberScan :=
  { s with
    depth := s.depth + 1
    containers := if s.pending then (s.depth + 1) :: s.containers else s.containers
    pending := false
    statement := if s.inContainer && s.parens == 0 then none else s.statement.map (t :: ·) }

/-- Behind a closing brace, which ends the statement outside parentheses. -/
def closeBrace (s : MemberScan) (t : Token) : MemberScan :=
  { s with
    depth := s.depth - 1
    containers := if s.inContainer then s.containers.tail else s.containers
    statement := if s.parens == 0 then none else s.statement.map (t :: ·) }

/-- The number of open parentheses behind a token. -/
def parensBehind (s : MemberScan) (t : Token) : Nat :=
  if t.isOperator "(" then s.parens + 1
  else if t.isOperator ")" then s.parens - 1 else s.parens

/-- The statement behind a token that is no brace: directly in a container a semicolon ends it
and any other token begins it; a statement that has begun takes every token. -/
def statementBehind (s : MemberScan) (t : Token) : Option (List Token) :=
  match s.statement with
  | some tokens => if s.inContainer && t.isOperator ";" then none else some (t :: tokens)
  | none => if s.inContainer && !t.isOperator ";" then some [t] else none

def step (s : MemberScan) (t : Token) : MemberScan :=
  if t.isOperator "\x7b" then s.openBrace t
  else if t.isOperator "\x7d" then s.closeBrace t
  else
    { s with
      parens := s.parensBehind t
      pending := s.pending || (TypeKind.announced? t).any (·.isContainer)
      statement := s.statementBehind t }

def declared? (s : MemberScan) (t : Token) : Option StateVariable :=
  if s.inContainer && t.isOperator ";" then
    s.statement.bind fun tokens => stateVariable? tokens.reverse
  else none

def allDeclared (s : MemberScan) : List Token → List StateVariable
  | [] => []
  | t :: ts => (s.declared? t).toList ++ (s.step t).allDeclared ts

end MemberScan

/-- The state variables among the tokens of a file, in source order. -/
def stateVariables (tokens : List Token) : List StateVariable := MemberScan.start.allDeclared tokens

end SolidityTools

import SolidityTools.Token

set_option autoImplicit false

/-! # Writes and external calls

A body is examined token by token with both directions in view: the tokens `before` the present
one, nearest first, and the tokens behind it. A *write* is an assignment, an increment, a
decrement or a `delete`. What it writes is a location such as `balances[to].total`, and the
analyses care about the *root* of the location, here `balances`: it tells a state variable from
anything else.
-/

namespace SolidityTools

/-- The operators that store into what stands on their left. -/
def assignmentOperators : List String :=
  ["=", "+=", "-=", "*=", "/=", "%=", "|=", "&=", "^=", "<<=", ">>="]

def Token.isAssignment (t : Token) : Bool := t.isOperatorIn assignmentOperators

/-- Whether a token is an increment or a decrement. -/
def Token.isStepOperator (t : Token) : Bool := t.isOperatorIn ["++", "--"]

def Token.isWrite (t : Token) : Bool :=
  t.isAssignment || t.isStepOperator || t.isKeyword "delete"

/-- The root of the location that ends right before a write, read backwards. `root` is the
leftmost name found so far, and `depth` counts the index groups that are being passed over. A
name in front of a dot takes the place of the name behind it; index groups may follow any name.
-/
def accessRoot (root : Option Token) : Nat → List Token → Option Token
  | _, [] => root
  | depth + 1, t :: before =>
    if t.isOperator "]" then accessRoot root (depth + 2) before
    else if t.isOperator "[" then accessRoot root depth before
    else accessRoot root (depth + 1) before
  | 0, [t] =>
    if t.isOperator "]" then root else if t.isWord then some t else root
  | 0, t :: dot :: before =>
    if t.isOperator "]" then accessRoot root 1 (dot :: before)
    else if t.isWord then
      if dot.isOperator "." then accessRoot (some t) 0 before else some t
    else root

/-- Whether the token before an increment or decrement ends a location, so that the operator
belongs to what stands on its left. -/
def endsLocation : List Token → Bool
  | [] => false
  | t :: _ => (t.isWord && t.kind != .keyword) || t.isOperator "]"

/-- The root of the location that a token writes; `none` if the token writes nothing or the
location has no name at its root. -/
def writeTarget? (before : List Token) (t : Token) (behind : List Token) : Option Token :=
  if t.isAssignment || (t.isStepOperator && endsLocation before) then accessRoot none 0 before
  else if t.isWrite then behind.head?.filter (·.isWord)
  else none

/-- The members whose call hands control to another contract. -/
def externalMembers : List String := ["call", "delegatecall", "staticcall", "send", "transfer"]

/-- Whether a list of tokens begins with an external member call: a dot and the member. -/
def startsExternalCall : List Token → Bool
  | dot :: member :: _ =>
    dot.isOperator "." && member.isWord && externalMembers.contains member.text
  | _ => false

end SolidityTools

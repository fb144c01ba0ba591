import SolidityTools.Gas.Amount
import SolidityTools.Outline.Write
import SolidityTools.Token.Group
import SolidityTools.Settings

set_option autoImplicit false

/-! # What a function body does

The estimate of a function is a weighted count of the costly things in its body. Each token
contributes on its own, with the tokens around it in view, and the counts of a body are the sums
of what its tokens contribute.
-/

namespace SolidityTools.Gas

/-- How often each costly thing occurs in a body. -/
structure Breakdown where
  /-- Writes whose root is a mutable state variable. -/
  storageWrites : Nat
  /-- All other writes. -/
  memoryWrites : Nat
  /-- Loops. -/
  loops : Nat
  /-- Loops whose header compares nothing with a number. -/
  unboundedLoops : Nat
  /-- Calls that hand control to another contract. -/
  externalCalls : Nat
  /-- Emitted events. -/
  events : Nat
  /-- Created contracts. -/
  creations : Nat
deriving DecidableEq, Repr

namespace Breakdown

/-- Nothing at all. -/
def zero : Breakdown := ⟨0, 0, 0, 0, 0, 0, 0⟩

/-- The counts of two pieces together. -/
def add (a b : Breakdown) : Breakdown where
  storageWrites := a.storageWrites + b.storageWrites
  memoryWrites := a.memoryWrites + b.memoryWrites
  loops := a.loops + b.loops
  unboundedLoops := a.unboundedLoops + b.unboundedLoops
  externalCalls := a.externalCalls + b.externalCalls
  events := a.events + b.events
  creations := a.creations + b.creations

/-- The weighted sum of the counts on top of the cost of the call itself, which is lower for a
function that only reads. -/
def total (weights : GasWeights) (readOnly : Bool) (b : Breakdown) : UInt64 :=
  [times b.storageWrites weights.storageWrite, times b.memoryWrites weights.memoryWrite,
   times b.loops weights.loop, times b.unboundedLoops weights.unboundedLoop,
   times b.externalCalls weights.externalCall, times b.events weights.event,
   times b.creations weights.creation].foldl Gas.add
    (if readOnly then weights.viewBase else weights.base)

end Breakdown

/-! ## Loops -/

/-- The operators that bound a loop when a number stands next to them. -/
def boundOperators : List String := ["<", ">", "<=", ">=", "!="]

/-- Whether a number stands next to a bounding operator. -/
def hasLiteralBound : List Token → Bool
  | a :: b :: ts =>
    (a.isOperatorIn boundOperators && b.kind == .number) ||
      (a.kind == .number && b.isOperatorIn boundOperators) || hasLiteralBound (b :: ts)
  | _ => false

/-- The header of a loop, given the tokens behind its keyword; empty if no parenthesis follows.
The closing parenthesis is not part of it, and a header that is never closed reaches to the end.
-/
def loopHeader : List Token → List Token
  | [] => []
  | paren :: ts =>
    if paren.isOperator "(" then
      paren :: match Group.parentheses? ts with
        | some group => group.inside
        | none => ts
    else []

/-! ## Contributions -/

/-- What a token contributes as a write. -/
def writeCounts (isState : String → Bool) (before : List Token) (t : Token)
    (behind : List Token) : Breakdown :=
  if t.isWrite then
    if (writeTarget? before t behind).any (fun target => isState target.text) then
      { Breakdown.zero with storageWrites := 1 }
    else { Breakdown.zero with memoryWrites := 1 }
  else .zero

/-- Whether a contract is created: its name follows, which is not an elementary type and begins
with a capital letter. -/
def namesContract (behind : List Token) : Bool :=
  behind.head?.any fun t => t.kind != .type && t.text.toList.head?.any Char.isUpper

/-- What a token contributes as a loop, an event, a creation or a call. -/
def flowCounts (t : Token) (behind : List Token) : Breakdown :=
  if t.isKeyword "for" || t.isKeyword "while" then
    { Breakdown.zero with
      loops := 1
      unboundedLoops := if hasLiteralBound (loopHeader behind) then 0 else 1 }
  else if t.isKeyword "emit" then { Breakdown.zero with events := 1 }
  else if t.isKeyword "new" && namesContract behind then { Breakdown.zero with creations := 1 }
  else if startsExternalCall (t :: behind) then { Breakdown.zero with externalCalls := 1 }
  else .zero

/-- The counts of the tokens that follow `before`. -/
def countsFrom (isState : String → Bool) (before : List Token) : List Token → Breakdown
  | [] => .zero
  | t :: ts =>
    ((writeCounts isState before t ts).add (flowCounts t ts)).add
      (countsFrom isState (t :: before) ts)

/-- The counts of a body, `isState` telling the names of mutable state variables. -/
def bodyCounts (isState : String → Bool) (body : List Token) : Breakdown :=
  countsFrom isState [] body

end SolidityTools.Gas

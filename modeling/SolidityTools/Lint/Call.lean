import SolidityTools.Lint.Finding
import SolidityTools.Lint.Pattern

set_option autoImplicit false

/-! # Calls to other contracts

Two rules watch calls that leave the contract. A low-level call reports failure by its return
value, which must not be dropped. And state that is written after such a call can be exploited by
a callee that calls back.
-/

namespace SolidityTools.Lint

open Text

/-! ## Unchecked calls -/

/-- How many characters of a statement's text a guard reaches over, its parentheses included.
`beyond` is the text behind the statement's text, into which the group may extend. -/
def guardReach (beyond : List Char) (guard : Hit String) : Nat :=
  guard.before.length + (guard.phrase.length - 1) +
    (groupText 0 ('(' :: (guard.behind ++ beyond))).length

/-- Whether a call is checked, `statement` being the text of its statement before it and `beyond`
the text from the call on. It is if it stands inside the parentheses of a guard; or else if the
text behind the guards, up to the call, assigns, negates or returns the result. -/
def isChecked (statement beyond : List Char) : Bool :=
  let reaches := (Pattern.condition.hits statement).map (guardReach beyond)
  reaches.any (statement.length < ·) ||
    let lead := statement.drop (reaches.foldl max 0)
    lead.contains '=' || lead.contains '!' || Pattern.startsReturn lead

def endsStatement (c : Char) : Bool := c == ';' || c == '\x7b' || c == '\x7d'

/-- Low-level calls whose result is dropped. -/
def uncheckedCalls (s : Subject) : List Finding :=
  (Pattern.lowLevelCall.hits s.masked).filterMap fun hit =>
    let statement := (hit.before.takeWhile (!endsStatement ·)).reverse
    if isChecked statement (hit.phrase ++ hit.behind) then none
    else some ⟨hit.start + byteLength hit.value.1,
      "Return value of low-level `" ++ hit.value.2 ++ "` is not checked"⟩

/-! ## Reentrancy -/

/-- Splits a body at its first external call: the tokens through the call's member, latest
first, and the tokens behind. -/
def behindExternalCall? (before : List Token) : List Token → Option (List Token × List Token)
  | dot :: member :: rest =>
    if startsExternalCall (dot :: member :: rest) then some (member :: dot :: before, rest)
    else behindExternalCall? (dot :: before) (member :: rest)
  | _ => none

/-- The root of the first write whose root satisfies `p`. -/
def firstWrite? (p : Token → Bool) (before : List Token) : List Token → Option Token
  | [] => none
  | t :: ts =>
    match (writeTarget? before t ts).filter p with
    | some target => some target
    | none => firstWrite? p (t :: before) ts

/-- The state variable that a body writes after its first external call. -/
def lateWrite? (isState : String → Bool) (body : List Token) : Option Token :=
  match behindExternalCall? [] body with
  | none => none
  | some (before, rest) => firstWrite? (fun t => isState t.text) before rest

/-- Functions that write state after an external call. -/
def reentrantWrites (s : Subject) : List Finding :=
  (s.outline.functions.filter (!·.mutability.isReadOnly)).filterMap fun f =>
    (lateWrite? s.outline.isMutableState f.bodyTokens).map fun target =>
      ⟨target.start, "State variable `" ++ target.text ++
        "` is written after an external call in `" ++ f.name ++
        "`; update state before calling out"⟩

end SolidityTools.Lint

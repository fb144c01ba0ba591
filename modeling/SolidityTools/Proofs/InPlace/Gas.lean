import SolidityTools.Gas.Estimate
import SolidityTools.Proofs.InPlace.Lexer
import SolidityTools.Proofs.InPlace.Outline
import SolidityTools.Proofs.InPlace.Position
import SolidityTools.Proofs.InPlace.Write

set_option autoImplicit false

/-! # The gas estimate in place

A body is examined at every index. Both what a write stores into and the header of a loop are found
from the index in the whole body. A header is cut out of the body between the indices of its
parentheses, or up to the end of the body if it is never closed.
-/

namespace SolidityTools

open Text Gas

namespace InPlace

/-! ## Bodies -/

/-- Whether the header that opens at an index compares something with a number. -/
def hasLiteralBound? (body : List Token) (paren : Nat) : Option Bool :=
  if body[paren]?.any (·.isOperator "(") then do
    let header ← sublist? body paren ((matchingIndex? body paren "(" ")").getD body.length)
    some (hasLiteralBound header)
  else some false

/-- What the token at an index contributes as a write. -/
def writeCounts? (isState : String → Bool) (body : List Token) (idx : Nat) (t : Token) :
    Option Breakdown :=
  if t.isWrite then do
    let target ← writeTarget? body idx
    some (if target.any fun target => isState target.text then
        { Breakdown.zero with storageWrites := 1 }
      else { Breakdown.zero with memoryWrites := 1 })
  else some .zero

/-- What the token at an index contributes as a loop, an event, a creation or a call. -/
def flowCounts? (body : List Token) (idx : Nat) (t : Token) : Option Breakdown :=
  if t.isKeyword "for" || t.isKeyword "while" then do
    let bounded ← hasLiteralBound? body (idx + 1)
    some { Breakdown.zero with loops := 1, unboundedLoops := if bounded then 0 else 1 }
  else if t.isKeyword "emit" then some { Breakdown.zero with events := 1 }
  else if t.isKeyword "new" && namesContract (body.drop (idx + 1)) then
    some { Breakdown.zero with creations := 1 }
  else if startsExternalCall (body.drop idx) then some { Breakdown.zero with externalCalls := 1 }
  else some .zero

def countsFrom? (isState : String → Bool) (body : List Token) (idx : Nat) : Option Breakdown :=
  if idx < body.length then do
    let t ← body[idx]?
    let writes ← writeCounts? isState body idx t
    let flow ← flowCounts? body idx t
    let counts ← countsFrom? isState body (idx + 1)
    some ((writes.add flow).add counts)
  else some .zero
termination_by body.length - idx

theorem hasLiteralBound?_append (before ts : List Token) :
    hasLiteralBound? (before ++ ts) before.length = some (hasLiteralBound (loopHeader ts)) := by
  cases ts with
  | nil =>
      rw [hasLiteralBound?, if_neg (by simp)]
      rfl
  | cons paren ts =>
      rw [hasLiteralBound?, getElem?_append_cons, loopHeader]
      by_cases hparen : paren.isOperator "(" = true
      · rw [if_pos (by simpa using hparen), if_pos hparen, matchingIndex?_append hparen,
          Group.parentheses?]
        cases hgroup : Group.close? "(" ")" 0 ts with
        | none =>
            -- a header that is never closed reaches to the end of the body
            have hheader : sublist? (before ++ paren :: ts) before.length
                (before ++ paren :: ts).length = some (paren :: ts) := tail?_append before _
            simp only [Option.map_none, Option.getD_none, hheader, Option.bind_eq_bind,
              Option.bind_some]
        | some group =>
            have hheader := sublist?_append before (paren :: group.inside)
              (group.closer :: group.rest)
            rw [List.cons_append, Group.inside_append_of_close? hgroup, List.length_cons,
              Nat.add_comm group.inside.length, ← Nat.add_assoc] at hheader
            simp only [Option.map_some, Option.getD_some, hheader, Option.bind_eq_bind,
              Option.bind_some]
      · rw [if_neg (by simpa using hparen), if_neg hparen]
        rfl

theorem writeCounts?_append (isState : String → Bool) (before : List Token) (t : Token)
    (ts : List Token) :
    writeCounts? isState (before.reverse ++ t :: ts) before.length t
      = some (writeCounts isState before t ts) := by
  rw [writeCounts?, writeTarget?_append, writeCounts]
  split
  · rfl
  · rfl

theorem flowCounts?_append (before : List Token) (t : Token) (ts : List Token) :
    flowCounts? (before ++ t :: ts) before.length t = some (flowCounts t ts) := by
  have hbehind : (before ++ t :: ts).drop (before.length + 1) = ts := by
    rw [List.drop_append, List.drop_of_length_le (Nat.le_succ _), Nat.add_sub_cancel_left]
    rfl
  have hbound : hasLiteralBound? (before ++ t :: ts) (before.length + 1)
      = some (hasLiteralBound (loopHeader ts)) := by
    have h := hasLiteralBound?_append (before ++ [t]) ts
    rwa [List.append_assoc, List.length_append] at h
  rw [flowCounts?, flowCounts, hbehind, hbound, List.drop_left]
  simp only [Option.bind_eq_bind, Option.bind_some, apply_ite some]

theorem countsFrom?_append (isState : String → Bool) (before ts : List Token) :
    countsFrom? isState (before.reverse ++ ts) before.length
      = some (countsFrom isState before ts) := by
  induction ts generalizing before with
  | nil =>
      rw [countsFrom?, if_neg (by simp)]
      rfl
  | cons t ts ih =>
      have hget := getElem?_reverse_append t before ts
      have hnext := ih (t :: before)
      have hflow := flowCounts?_append before.reverse t ts
      rw [reverse_cons_append, List.length_cons] at hnext
      rw [List.length_reverse] at hflow
      rw [countsFrom?, if_pos (by simp), hget]
      simp only [Option.bind_eq_bind, Option.bind_some, writeCounts?_append, hflow, hnext]
      rfl

theorem countsFrom?_eq (isState : String → Bool) (body : List Token) :
    countsFrom? isState body 0 = some (bodyCounts isState body) :=
  countsFrom?_append isState [] body

/-! ## Files -/

def entryOf? (weights : GasWeights) (source : String) (outline : Outline)
    (f : FunctionDeclaration) : Option FunctionGas := do
  let breakdown ← countsFrom? outline.isMutableState f.bodyTokens 0
  let position ← positionAt? source f.offset
  some {
    name := keyOf (estimated outline) f
    gas := breakdown.total weights f.mutability.isReadOnly
    line := position.line
    readOnly := f.mutability.isReadOnly
    breakdown }

def estimate? (weights : GasWeights) (source : String) : Option Estimate := do
  let tokens ← tokenize? source
  let outline ← outline? (byteLength source.toList) tokens
  (estimated outline).foldlM (fun entries f => do
    let entry ← entryOf? weights source outline f
    some (entries.insert entry)) []

theorem entryOf?_eq (weights : GasWeights) (source : String) (outline : Outline)
    (f : FunctionDeclaration) :
    entryOf? weights source outline f = some (entryOf weights source outline f) := by
  rw [entryOf?, countsFrom?_eq, positionAt?_eq]
  rfl

/-- **Every source has an estimate.** -/
theorem estimate?_eq (weights : GasWeights) (source : String) :
    estimate? weights source = some (estimate weights source) := by
  rw [estimate?, tokenize?_eq]
  simp only [Option.bind_eq_bind, Option.bind_some, outline?_eq, entryOf?_eq]
  exact List.foldlM_pure

end InPlace

end SolidityTools

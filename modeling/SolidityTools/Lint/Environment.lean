import SolidityTools.Lint.Finding
import SolidityTools.Lint.Pattern

set_option autoImplicit false

/-! # Values of the transaction and the block

The origin of a transaction is no proof of who calls, and the values of a block can be foreseen
or bent by whoever makes the block. These rules report their use where it matters.
-/

namespace SolidityTools.Lint

open Text

def transactionOrigins (s : Subject) : List Finding :=
  (Pattern.transactionOrigin.hits s.masked).map fun hit =>
    ⟨hit.start, "Avoid `tx.origin`; use `msg.sender` for authorization"⟩

/-- The places inside a header's group where a pattern fits. -/
def placesInGroup (pattern : Pattern Unit) (header : Hit String) : List Nat :=
  (pattern.hits header.group).map fun hit => header.groupStart + hit.start

/-- Keeps the first finding at each offset, `seen` being the offsets already taken. -/
def firstAtEachOffset (seen : List Nat) : List Finding → List Finding
  | [] => []
  | f :: fs =>
    if seen.contains f.offset then firstAtEachOffset seen fs
    else f :: firstAtEachOffset (f.offset :: seen) fs

/-- Block values in one condition: the time first, then the randomness. -/
def conditionFindings (header : Hit String) : List Finding :=
  (placesInGroup Pattern.blockTime header).map
      (fun o => ⟨o, "Control flow depends on the block timestamp, which miners can skew"⟩) ++
    (placesInGroup Pattern.blockRandomness header).map
      fun o => ⟨o, "Control flow depends on a predictable block value"⟩

/-- Block values in one call of the hash function. -/
def hashFindings (header : Hit String) : List Finding :=
  (placesInGroup Pattern.blockTime header ++ placesInGroup Pattern.blockRandomness header).map
    fun o => ⟨o, "Block values are not a source of randomness"⟩

/-- Block values that drive control flow or are hashed. A place is reported once, as part of a
condition if it is in one. -/
def blockValues (s : Subject) : List Finding :=
  firstAtEachOffset [] <|
    (Pattern.condition.hits s.masked).flatMap conditionFindings ++
      (Pattern.hashing.hits s.masked).flatMap hashFindings

end SolidityTools.Lint

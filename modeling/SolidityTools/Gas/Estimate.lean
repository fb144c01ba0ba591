import SolidityTools.Gas.Breakdown
import SolidityTools.Outline
import SolidityTools.Position

set_option autoImplicit false

/-! # The gas estimate of a file

Every function with a body gets an entry. Entries have different keys: a function is known by its
name, or by its signature when functions of that name have different signatures. When a key comes
up again, the later function takes the place of the earlier one.
-/

namespace SolidityTools.Gas

structure FunctionGas where
  /-- The key: a name or a signature. -/
  name : String
  gas : UInt64
  /-- The line of the function's name. -/
  line : Nat
  /-- Whether the function only reads. -/
  readOnly : Bool
  breakdown : Breakdown
deriving DecidableEq, Repr

def FunctionGas.band (f : FunctionGas) : Band := .of f.gas

abbrev Estimate := List FunctionGas

namespace Estimate

/-- The amount of the entry with a key. -/
def get? (estimate : Estimate) (name : String) : Option UInt64 :=
  (estimate.find? (·.name == name)).map (·.gas)

/-- The sum of all amounts. -/
def total (estimate : Estimate) : UInt64 := (estimate.map (·.gas)).foldl Gas.add 0

/-- Puts an entry in the place of the one with its key, or at the end. -/
def insert (entry : FunctionGas) : Estimate → Estimate
  | [] => [entry]
  | f :: fs => if f.name == entry.name then entry :: fs else f :: insert entry fs

end Estimate

def isOverloaded (functions : List FunctionDeclaration) (name : String) : Bool :=
  match (functions.filter (·.name == name)).map (·.signature) with
  | [] => false
  | signature :: signatures => signatures.any (· != signature)

/-- The key of a function among all functions with a body. -/
def keyOf (functions : List FunctionDeclaration) (f : FunctionDeclaration) : String :=
  if isOverloaded functions f.name then f.signature else f.name

def estimated (outline : Outline) : List FunctionDeclaration :=
  outline.functions.filter (·.body.isSome)

def entryOf (weights : GasWeights) (source : String) (outline : Outline)
    (f : FunctionDeclaration) : FunctionGas :=
  let breakdown := bodyCounts outline.isMutableState f.bodyTokens
  { name := keyOf (estimated outline) f
    gas := breakdown.total weights f.mutability.isReadOnly
    line := (positionAt source f.offset).line
    readOnly := f.mutability.isReadOnly
    breakdown }

def estimate (weights : GasWeights) (source : String) : Estimate :=
  let outline := Outline.ofSource source
  (estimated outline).foldl (fun entries f => entries.insert (entryOf weights source outline f)) []

end SolidityTools.Gas

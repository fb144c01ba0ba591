import SolidityTools.Json
import SolidityTools.Gas.Estimate

set_option autoImplicit false

/-! # Gas reports -/

namespace SolidityTools.Report

open SolidityTools.Gas Text

def gasRow (width : Nat) (f : FunctionGas) : String :=
  "  " ++ padRight width f.name ++ "  " ++ padLeft 10 (toString f.gas.toNat) ++ "  " ++
    f.band.name ++ "  line " ++ toString f.line ++ "\n"

/-- The width of the column of names, which goes by bytes and has room for the word `total`. -/
def nameWidth (estimate : Estimate) : Nat :=
  (estimate.map fun f => byteLength f.name.toList).foldl max 5

def gas (file : String) (estimate : Estimate) : String :=
  if estimate.isEmpty then "No functions with a body in " ++ file ++ "\n"
  else
    let width := nameWidth estimate
    "⛽ Gas estimates for " ++ file ++ "\n" ++ String.join (estimate.map (gasRow width)) ++
      "  " ++ padRight width "total" ++ "  " ++ padLeft 10 (toString estimate.total.toNat) ++ "\n"

/-- The counts of a function for machines. -/
def breakdownJson (f : FunctionGas) : Json :=
  .record [("read_only", .boolean f.readOnly),
    ("storage_writes", .natural f.breakdown.storageWrites),
    ("memory_writes", .natural f.breakdown.memoryWrites),
    ("loops", .natural f.breakdown.loops),
    ("unbounded_loops", .natural f.breakdown.unboundedLoops),
    ("external_calls", .natural f.breakdown.externalCalls),
    ("events", .natural f.breakdown.events),
    ("contract_creations", .natural f.breakdown.creations)]

def functionGasJson (f : FunctionGas) : Json :=
  .record [("name", .string f.name), ("gas", .natural f.gas.toNat), ("band", .string f.band.name),
    ("line", .natural f.line), ("breakdown", breakdownJson f)]

/-- The estimate of a file for machines. -/
def gasJson (estimate : Estimate) : Json :=
  .record [("functions", .list functionGasJson estimate),
    ("total", .natural estimate.total.toNat)]

end SolidityTools.Report

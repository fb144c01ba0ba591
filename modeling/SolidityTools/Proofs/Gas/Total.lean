import SolidityTools.Gas.Estimate
import Mathlib.Algebra.BigOperators.Group.List.Basic
import Mathlib.Algebra.Order.Ring.Nat
import Mathlib.Tactic.GCongr

set_option autoImplicit false

/-! # Totals are clipped once

A total is computed in 64-bit words that stop at the largest one, both in each product and after
each addition. No amount is negative, so once a sum has stopped it stays where it is, and clipping
at each step comes to the same as clipping the exact sum at the end (`toNat_foldl_add`). So a total
has nothing to do with the order of its parts, and does not get less when a count or a weight gets
more.
-/

namespace SolidityTools.Gas

/-! ## Clipping -/

theorem toNat_le_largest (a : UInt64) : a.toNat ≤ largest := Nat.le_sub_one_of_lt a.toNat_lt_size

/-- Clipping the parts of a sum changes nothing if the sum is clipped. -/
theorem min_add_sum_map_min (n : Nat) (ns : List Nat) :
    min (n + (ns.map fun m => min m largest).sum) largest = min (n + ns.sum) largest := by
  induction ns generalizing n with
  | nil => rfl
  | cons m ns ih =>
      have hrest := ih (n + m)
      rw [List.map_cons, List.sum_cons, List.sum_cons]
      omega

/-- **Adding amounts one after the other clips their exact sum.** -/
theorem toNat_foldl_add (a : UInt64) (as : List UInt64) :
    (as.foldl add a).toNat = min (a.toNat + (as.map UInt64.toNat).sum) largest := by
  induction as generalizing a with
  | nil => exact (Nat.min_eq_left (toNat_le_largest a)).symm
  | cons b as ih =>
      rw [List.foldl_cons, ih, toNat_add, List.map_cons, List.sum_cons]
      -- a clipped sum stays clipped, whatever is added
      omega

/-! ## The total of a function -/

/-- The exact cost of a function: what calling it costs, and every count at its weight. -/
def Breakdown.cost (weights : GasWeights) (readOnly : Bool) (b : Breakdown) : Nat :=
  (if readOnly then weights.viewBase else weights.base).toNat +
    (b.storageWrites * weights.storageWrite.toNat + b.memoryWrites * weights.memoryWrite.toNat +
      b.loops * weights.loop.toNat + b.unboundedLoops * weights.unboundedLoop.toNat +
      b.externalCalls * weights.externalCall.toNat + b.events * weights.event.toNat +
      b.creations * weights.creation.toNat)

/-- The total of a function is its exact cost, clipped. -/
theorem toNat_breakdownTotal (weights : GasWeights) (readOnly : Bool) (b : Breakdown) :
    (b.total weights readOnly).toNat = min (b.cost weights readOnly) largest := by
  have hclipped := min_add_sum_map_min (if readOnly then weights.viewBase else weights.base).toNat
    [b.storageWrites * weights.storageWrite.toNat, b.memoryWrites * weights.memoryWrite.toNat,
      b.loops * weights.loop.toNat, b.unboundedLoops * weights.unboundedLoop.toNat,
      b.externalCalls * weights.externalCall.toNat, b.events * weights.event.toNat,
      b.creations * weights.creation.toNat]
  rw [Breakdown.total, toNat_foldl_add, Breakdown.cost]
  simpa only [List.map_cons, List.map_nil, toNat_times, List.sum_cons, List.sum_nil, Nat.add_assoc,
    Nat.add_zero] using hclipped

/-- One breakdown has at most the counts of another one. -/
instance : LE Breakdown where
  le a b := a.storageWrites ≤ b.storageWrites ∧ a.memoryWrites ≤ b.memoryWrites ∧
    a.loops ≤ b.loops ∧ a.unboundedLoops ≤ b.unboundedLoops ∧
    a.externalCalls ≤ b.externalCalls ∧ a.events ≤ b.events ∧ a.creations ≤ b.creations

instance (a b : Breakdown) : Decidable (a ≤ b) := inferInstanceAs (Decidable (_ ∧ _))

/-- One table of weights has at most the weights of another one. -/
instance : LE GasWeights where
  le v w := v.base ≤ w.base ∧ v.viewBase ≤ w.viewBase ∧ v.storageWrite ≤ w.storageWrite ∧
    v.memoryWrite ≤ w.memoryWrite ∧ v.loop ≤ w.loop ∧ v.unboundedLoop ≤ w.unboundedLoop ∧
    v.externalCall ≤ w.externalCall ∧ v.event ≤ w.event ∧ v.creation ≤ w.creation

instance (v w : GasWeights) : Decidable (v ≤ w) := inferInstanceAs (Decidable (_ ∧ _))

/-- More counts and more weights cost more. -/
theorem cost_le_cost {v w : GasWeights} {a b : Breakdown} (hweights : v ≤ w) (hcounts : a ≤ b)
    (readOnly : Bool) : a.cost v readOnly ≤ b.cost w readOnly := by
  obtain ⟨hbase, hview, hstorage, hmemory, hloop, hunbounded, hcall, hevent, hcreation⟩ := hweights
  obtain ⟨astorage, amemory, aloops, aunbounded, acalls, aevents, acreations⟩ := hcounts
  have hcalling : (if readOnly then v.viewBase else v.base).toNat
      ≤ (if readOnly then w.viewBase else w.base).toNat := by
    cases readOnly with
    | false => exact hbase
    | true => exact hview
  unfold Breakdown.cost
  gcongr <;> assumption

/-! ## Totals -/

/-- The total of an estimate is the exact sum of its amounts, clipped. -/
theorem toNat_estimateTotal (entries : Estimate) :
    entries.total.toNat = min (entries.map (·.gas.toNat)).sum largest := by
  rw [Estimate.total, toNat_foldl_add, List.map_map, UInt64.toNat_zero, Nat.zero_add]
  rfl

/-- **Totals are exact up to the largest word.** The total of a function is the exact weighted sum
of its counts on top of the cost of the call, clipped once at the largest word, so it does not get
less when counts or weights get more. The total of an estimate is the exact sum of its amounts,
clipped once, and does not depend on the order of the functions. -/
theorem totals_exact :
    (∀ (weights : GasWeights) (readOnly : Bool) (b : Breakdown),
        (b.total weights readOnly).toNat = min (2 ^ 64 - 1) (b.cost weights readOnly)) ∧
      (∀ (v w : GasWeights) (a b : Breakdown) (readOnly : Bool), v ≤ w → a ≤ b →
        a.total v readOnly ≤ b.total w readOnly) ∧
      (∀ entries : Estimate,
        entries.total.toNat = min (2 ^ 64 - 1) (entries.map (·.gas.toNat)).sum) ∧
      ∀ entries entries' : Estimate, entries.Perm entries' → entries.total = entries'.total := by
  refine ⟨fun weights readOnly b => ?_, fun v w a b readOnly hweights hcounts => ?_,
    fun entries => ?_, fun entries entries' hperm => ?_⟩
  · rw [toNat_breakdownTotal, Nat.min_comm]
    rfl
  · have hcost := cost_le_cost hweights hcounts readOnly
    rw [UInt64.le_iff_toNat_le, toNat_breakdownTotal, toNat_breakdownTotal]
    omega
  · rw [toNat_estimateTotal, Nat.min_comm]
    rfl
  · rw [← UInt64.toNat_inj, toNat_estimateTotal, toNat_estimateTotal,
      (hperm.map (·.gas.toNat)).sum_eq]

/-- Two counts at the largest weight do not fit, and neither do two amounts of which one is the
largest word. -/
theorem totals_exact_overflow :
    let v : GasWeights := .standard
    let w : GasWeights := { v with event := 18446744073709551615 }
    let a : Breakdown := ⟨1, 0, 0, 0, 0, 2, 0⟩
    let f : FunctionGas := ⟨"f", 18446744073709551615, 1, false, a⟩
    let g : FunctionGas := ⟨"g", 7, 2, true, a⟩
    (v ≤ w ∧ a ≤ a ∧ a.total v false ≤ a.total w false ∧
        (a.total w false).toNat = 18446744073709551615) ∧
      ([f, g].Perm [g, f] ∧ Estimate.total [f, g] = Estimate.total [g, f]) := by
  intro v w a f g
  have hweights : v ≤ w := by decide
  have hcounts : a ≤ a := by decide
  have hperm : [f, g].Perm [g, f] := List.Perm.swap g f []
  obtain ⟨hexact, hmono, -, horder⟩ := totals_exact
  refine ⟨⟨hweights, hcounts, hmono v w a a false hweights hcounts, ?_⟩, hperm,
    horder [f, g] [g, f] hperm⟩
  rw [hexact w false a]
  decide

end SolidityTools.Gas

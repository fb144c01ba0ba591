set_option autoImplicit false

/-! # Amounts of gas

Amounts are 64-bit words. Sums and products that do not fit stop at the largest word instead of
wrapping around. Since every amount is at least zero, clipping at each step gives the same result
as clipping once at the end.
-/

namespace SolidityTools.Gas

def largest : Nat := UInt64.size - 1

/-- The word nearest to a number: the number itself, or the largest word. -/
def clip (n : Nat) : UInt64 := UInt64.ofNat (min n largest)

@[simp] theorem toNat_clip (n : Nat) : (clip n).toNat = min n largest := by
  have h : min n largest < UInt64.size := by simp only [largest, UInt64.size]; omega
  simp only [clip, UInt64.toNat_ofNat']
  exact Nat.mod_eq_of_lt h

/-- The sum of two amounts. -/
def add (a b : UInt64) : UInt64 := clip (a.toNat + b.toNat)

/-- A number of times an amount. -/
def times (n : Nat) (a : UInt64) : UInt64 := clip (n * a.toNat)

@[simp] theorem toNat_add (a b : UInt64) : (add a b).toNat = min (a.toNat + b.toNat) largest :=
  toNat_clip _

@[simp] theorem toNat_times (n : Nat) (a : UInt64) :
    (times n a).toNat = min (n * a.toNat) largest :=
  toNat_clip _

/-! ## Bands -/

/-- The bands in which amounts are displayed. -/
inductive Band where
  | low
  | medium
  | high
  | veryHigh
deriving DecidableEq, Repr

/-- The band of an amount: each band begins above its threshold. -/
def Band.of (amount : UInt64) : Band :=
  if amount > 100000 then .veryHigh
  else if amount > 50000 then .high
  else if amount > 30000 then .medium
  else .low

def Band.name : Band → String
  | .low => "low"
  | .medium => "medium"
  | .high => "high"
  | .veryHigh => "very-high"

end SolidityTools.Gas

set_option autoImplicit false

/-! # Sets of characters given as ranges

A Unicode property is stored as the list of its code point ranges, both ends included, in
ascending order. Membership is a plain search: the tables are only consulted outside ASCII.
-/

namespace SolidityTools.Text

/-- A set of characters as inclusive ranges of code points. -/
abbrev Ranges := List (Nat × Nat)

def Ranges.contains (ranges : Ranges) (c : Char) : Bool :=
  ranges.any fun range => range.1 ≤ c.toNat && c.toNat ≤ range.2

end SolidityTools.Text

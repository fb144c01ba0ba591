set_option autoImplicit false

/-! # Columns of a listing

Listings align their columns by padding with spaces. Widths count characters. A text that is too
long is never cut.
-/

namespace SolidityTools.Text

def spaces (n : Nat) : String := String.ofList (List.replicate n ' ')

def padLeft (width : Nat) (text : String) : String := spaces (width - text.length) ++ text

def padRight (width : Nat) (text : String) : String := text ++ spaces (width - text.length)

end SolidityTools.Text

import SolidityTools.Text.Printable

set_option autoImplicit false

/-! # Quoted text

Messages and listings show source text and the names of files between double quotes, on one line
and without any invisible character: the usual short escapes where there is one, `\u` with the
code point in lower-case hexadecimal for everything else that has no glyph of its own. A single
quote stands for itself.
-/

namespace SolidityTools.Text

/-- The digits of a number in lower-case hexadecimal. -/
def hexadecimal (n : Nat) : List Char := Nat.toDigits 16 n

def quoteCharacter (c : Char) : List Char :=
  if c == '\x00' then ['\\', '0']
  else if c == '\t' then ['\\', 't']
  else if c == '\r' then ['\\', 'r']
  else if c == '\n' then ['\\', 'n']
  else if c == '\\' then ['\\', '\\']
  else if c == '"' then ['\\', '"']
  else if isPrintable c then [c]
  else ['\\', 'u', '\x7b'] ++ hexadecimal c.toNat ++ ['\x7d']

def quote (text : String) : String :=
  String.ofList ('"' :: text.toList.flatMap quoteCharacter ++ ['"'])

end SolidityTools.Text

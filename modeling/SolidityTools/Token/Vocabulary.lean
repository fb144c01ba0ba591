set_option autoImplicit false

/-! # The vocabulary of the language

The fixed words of Solidity: reserved words, elementary types and operators. A word is a keyword
before it is a type, and a type before it is an identifier.
-/

namespace SolidityTools

/-- The reserved words, modifiers, literal words and unit suffixes. -/
def keywords : List String :=
  ["abstract", "anonymous", "as", "assembly", "assert", "break", "calldata", "case", "catch",
   "constant", "constructor", "continue", "contract", "default", "delete", "do", "else", "emit",
   "enum", "error", "event", "experimental", "external", "fallback", "false", "for", "from",
   "function", "if", "immutable", "import", "indexed", "interface", "internal", "is", "leave",
   "let", "library", "mapping", "memory", "modifier", "new", "override", "payable", "pragma",
   "private", "public", "pure", "receive", "require", "return", "returns", "revert", "solidity",
   "storage", "struct", "super", "switch", "this", "throw", "true", "try", "type", "unchecked",
   "using", "view", "virtual", "while",
   "wei", "gwei", "ether", "seconds", "minutes", "hours", "days", "weeks", "years"]

def isKeywordText (word : String) : Bool := keywords.contains word

/-- The elementary types that carry no width. -/
def plainTypes : List String :=
  ["address", "bool", "string", "bytes", "byte", "uint", "int", "fixed", "ufixed"]

/-- The number written by a run of decimal digits without a leading zero; `none` for any other
text. -/
def width? (digits : List Char) : Option Nat :=
  if digits.isEmpty || digits.head? == some '0' || !digits.all Char.isDigit then none
  else some (digits.foldl (fun n c => 10 * n + (c.toNat - '0'.toNat)) 0)

/-- Whether a word names an elementary type: a plain one, an integer of a whole number of bytes
up to 256 bits, or a fixed byte array of 1 to 32 bytes. -/
def isTypeText (word : String) : Bool :=
  plainTypes.contains word ||
    match word.toList with
    | 'u' :: 'i' :: 'n' :: 't' :: digits => isBitWidth digits
    | 'i' :: 'n' :: 't' :: digits => isBitWidth digits
    | 'b' :: 'y' :: 't' :: 'e' :: 's' :: digits =>
      (width? digits).any fun n => 1 ≤ n && n ≤ 32
    | _ => false
where
  /-- Multiples of eight from 8 to 256. -/
  isBitWidth (digits : List Char) : Bool :=
    (width? digits).any fun n => n % 8 == 0 && 8 ≤ n && n ≤ 256

/-- The operators of more than one character. Where one operator begins with another, the longer
one stands first. -/
def longOperators : List (List Char) :=
  ["<<=", ">>=", ">>>", "**", "++", "--", "==", "!=", "<=", ">=", "&&", "||", "=>", "->", "+=",
   "-=", "*=", "/=", "%=", "|=", "&=", "^=", "<<", ">>", ":="].map String.toList

def operatorCharacters : List Char := "+-*/%&|^~<>=!?:;,.()\x7b\x7d[]".toList

end SolidityTools

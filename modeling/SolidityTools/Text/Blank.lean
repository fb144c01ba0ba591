set_option autoImplicit false

/-! # Blank characters

Two notions of white space live side by side in the program. The *lexer* only knows the five
ASCII blanks that separate Solidity tokens. Everything that looks at *lines of text* (trimming,
the minimap, the textual lint patterns) goes by the Unicode property `White_Space`, so that a
no-break space or an ideographic space counts as well. The vertical tab is the one ASCII
character on which the two differ.
-/

namespace SolidityTools.Text

/-- The ASCII blanks: space, tab, line feed, form feed and carriage return. -/
def isAsciiBlank (c : Char) : Bool :=
  c == ' ' || c == '\t' || c == '\n' || c == '\x0c' || c == '\r'

/-- The characters with the Unicode property `White_Space`. -/
def isBlank (c : Char) : Bool :=
  let n := c.toNat
  (0x09 ≤ n && n ≤ 0x0D) || n == 0x20 || n == 0x85 || n == 0xA0 || n == 0x1680 ||
    (0x2000 ≤ n && n ≤ 0x200A) || n == 0x2028 || n == 0x2029 || n == 0x202F || n == 0x205F ||
    n == 0x3000

theorem isBlank_of_isAsciiBlank {c : Char} (h : isAsciiBlank c = true) : isBlank c = true := by
  simp only [isAsciiBlank, Bool.or_eq_true, beq_iff_eq] at h
  rcases h with (((rfl | rfl) | rfl) | rfl) | rfl <;> decide

/-- The text without its leading blanks. -/
def trimStart (cs : List Char) : List Char := cs.dropWhile isBlank

/-- The text without its trailing blanks. -/
def trimEnd (cs : List Char) : List Char := (cs.reverse.dropWhile isBlank).reverse

/-- The text without its leading and trailing blanks. -/
def trim (cs : List Char) : List Char := trimEnd (trimStart cs)

def isBlankText (cs : List Char) : Bool := cs.all isBlank

end SolidityTools.Text

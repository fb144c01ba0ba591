import SolidityTools.Text.Split

set_option autoImplicit false

/-! # Lines

A text is split at its line feeds, so that a text with `n` line feeds has `n + 1` lines and the
empty text has one empty line. Joining the lines gives the text back. A carriage return before
the line feed belongs to the line.
-/

namespace SolidityTools.Text

/-- The lines of a text, without their line feeds. -/
def splitLines (cs : List Char) : List (List Char) := splitWhere (· == '\n') cs

/-- The text whose lines are given. -/
def joinLines (lines : List (List Char)) : List Char := joinWith '\n' lines

theorem splitLines_ne_nil (cs : List Char) : splitLines cs ≠ [] := splitWhere_ne_nil _ cs

@[simp] theorem splitLines_newline (cs : List Char) :
    splitLines ('\n' :: cs) = [] :: splitLines cs := by
  simp [splitLines, splitWhere]

/-- Joining the lines of a text gives the text back. -/
theorem joinLines_splitLines (cs : List Char) : joinLines (splitLines cs) = cs :=
  joinWith_splitWhere '\n' cs

theorem newline_not_mem_of_mem_splitLines {cs line : List Char} (h : line ∈ splitLines cs) :
    '\n' ∉ line := fun hc => by
  simpa using not_of_mem_splitWhere h hc

/-- The text of the first `n` lines: everything before the `n`-th line feed. -/
def takeLines (n : Nat) (cs : List Char) : List Char := joinLines ((splitLines cs).take n)

/-- Whether `part` occurs in a text. -/
def containsText (part : List Char) : List Char → Bool
  | [] => part.isEmpty
  | c :: cs => part.isPrefixOf (c :: cs) || containsText part cs

end SolidityTools.Text

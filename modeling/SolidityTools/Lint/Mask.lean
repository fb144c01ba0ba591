import SolidityTools.Token

set_option autoImplicit false

/-! # Masking comments and strings

Text patterns should see code alone. The masked text has every character of a comment or string
blanked out by as many spaces as the character has bytes, line feeds excepted. Offsets and lines
are therefore the same in the masked text and in the source.
-/

namespace SolidityTools.Lint

/-- The blanks that stand for a character. -/
def maskCharacter (c : Char) : List Char :=
  if c == '\n' then ['\n'] else List.replicate c.utf8Size ' '

/-- Whether a token's text is hidden from text patterns. -/
def isMasked (t : Token) : Bool := t.kind == .comment || t.kind == .string

/-- The text that text patterns see in the place of a token. -/
def maskToken (t : Token) : List Char :=
  if isMasked t then t.text.toList.flatMap maskCharacter else t.text.toList

/-- The masked text of a list of tokens. -/
def mask (tokens : List Token) : List Char := tokens.flatMap maskToken

theorem byteLength_replicate_space (n : Nat) :
    Text.byteLength (List.replicate n ' ') = n := by
  induction n with
  | zero => rfl
  | succ n ih =>
    have h : (' ' : Char).utf8Size = 1 := by decide
    simp [List.replicate_succ, ih, h]; omega

theorem byteLength_maskCharacter (c : Char) :
    Text.byteLength (maskCharacter c) = c.utf8Size := by
  unfold maskCharacter
  split
  · next h => simp only [beq_iff_eq] at h; subst h; rfl
  · exact byteLength_replicate_space _

theorem byteLength_maskToken (t : Token) :
    Text.byteLength (maskToken t) = Text.byteLength t.text.toList := by
  unfold maskToken
  split
  · induction t.text.toList with
    | nil => rfl
    | cons c cs ih => simp [byteLength_maskCharacter, ih]
  · rfl

end SolidityTools.Lint

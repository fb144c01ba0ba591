import SolidityTools.Lint.Mask
import SolidityTools.Proofs.Token.Mapped

set_option autoImplicit false

/-! # Tokens without the texts of comments and strings

`Token.redacted` takes the text away from a comment or a string and leaves every other token as it
is. It keeps the code (`keepsCode_redacted`), and a token that is known to be code is its own
redaction.
-/

namespace SolidityTools

namespace Token

/-- The token, without its text if it is a comment or a string. -/
def redacted (t : Token) : Token := if Lint.isMasked t then { t with text := "" } else t

variable {t : Token}

theorem redacted_of_isMasked_eq_false (h : Lint.isMasked t = false) : t.redacted = t := by
  rw [redacted, if_neg (by simp [h])]

theorem redacted_of_isMasked (h : Lint.isMasked t = true) :
    t.redacted = { t with text := "" } := by
  rw [redacted, if_pos h]

theorem redacted_of_kind {kind : TokenKind} (h : t.kind = kind) (hcomment : kind ≠ .comment)
    (hstring : kind ≠ .string) : t.redacted = t := by
  refine redacted_of_isMasked_eq_false ?_
  simp [Lint.isMasked, h, hcomment, hstring]

theorem redacted_of_isWord (h : t.isWord = true) : t.redacted = t := by
  simp only [isWord, Bool.or_eq_true, beq_iff_eq] at h
  rcases h with ((h | h) | h) | h
  · exact redacted_of_kind h (by decide) (by decide)
  · exact redacted_of_kind h (by decide) (by decide)
  · exact redacted_of_kind h (by decide) (by decide)
  · exact redacted_of_kind h (by decide) (by decide)

theorem redacted_of_isOperator {text : String} (h : t.isOperator text = true) : t.redacted = t := by
  rw [isOperator, Bool.and_eq_true, beq_iff_eq] at h
  exact redacted_of_kind h.1 (by decide) (by decide)

/-! ## The code of a redacted token -/

@[simp] theorem kind_redacted (t : Token) : t.redacted.kind = t.kind := by
  unfold redacted
  split
  · rfl
  · rfl

@[simp] theorem start_redacted (t : Token) : t.redacted.start = t.start := by
  unfold redacted
  split
  · rfl
  · rfl

/-- Redaction keeps the code, and every token where it stands. -/
theorem keepsCode_redacted : KeepsCode id redacted where
  kind := kind_redacted
  text t hcomment hstring := by rw [redacted_of_kind rfl hcomment hstring]
  start := start_redacted

@[simp] theorem isOperator_redacted (t : Token) (text : String) :
    t.redacted.isOperator text = t.isOperator text :=
  keepsCode_redacted.isOperator t text

@[simp] theorem isOperatorIn_redacted (t : Token) (texts : List String) :
    t.redacted.isOperatorIn texts = t.isOperatorIn texts :=
  keepsCode_redacted.isOperatorIn t texts

@[simp] theorem isKeyword_redacted (t : Token) (text : String) :
    t.redacted.isKeyword text = t.isKeyword text :=
  keepsCode_redacted.isKeyword t text

@[simp] theorem redacted_redacted (t : Token) : t.redacted.redacted = t.redacted := by
  cases h : Lint.isMasked t with
  | false => rw [redacted_of_isMasked_eq_false h, redacted_of_isMasked_eq_false h]
  | true =>
      rw [redacted_of_isMasked h]
      exact redacted_of_isMasked h

end Token

end SolidityTools

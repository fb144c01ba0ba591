import SolidityTools.Token.Group

set_option autoImplicit false

/-! # Changes of tokens that keep the code

`Token.KeepsCode f φ` says that the change `φ` leaves the kinds of tokens and the texts of all but
comments and strings, and moves each place by `f`. A test that asks for a kind first gives the same
answer after such a change. So a function that copies tokens and looks at texts only behind such
tests commutes with it; here the search for the end of a group. The plainest change of this sort is
to move tokens to other places (`Token.moved`).
-/

namespace SolidityTools

namespace Token

theorem isWord_of_isName {t : Token} (ht : t.isName = true) : t.isWord = true := by
  rw [isName, Bool.or_eq_true] at ht
  rcases ht with ht | ht
  · simp [isWord, ht]
  · simp [isWord, ht]

/-- A change of tokens that keeps kinds, and texts where they are code. -/
structure KeepsCode (f : Nat → Nat) (φ : Token → Token) : Prop where
  kind : ∀ t, (φ t).kind = t.kind
  text : ∀ t, t.kind ≠ .comment → t.kind ≠ .string → (φ t).text = t.text
  start : ∀ t, (φ t).start = f t.start

namespace KeepsCode

variable {f : Nat → Nat} {φ : Token → Token} (h : KeepsCode f φ) (t : Token)

include h

theorem isTrivia : (φ t).isTrivia = t.isTrivia := by
  rw [Token.isTrivia, Token.isTrivia, h.kind]

theorem isWord : (φ t).isWord = t.isWord := by
  simp only [Token.isWord, h.kind]

theorem isName : (φ t).isName = t.isName := by
  simp only [Token.isName, h.kind]

theorem text_of_isWord (ht : t.isWord = true) : (φ t).text = t.text := by
  apply h.text
  · intro hkind
    simp [Token.isWord, hkind] at ht
  · intro hkind
    simp [Token.isWord, hkind] at ht

theorem test {kind : TokenKind} (hcomment : kind ≠ .comment) (hstring : kind ≠ .string)
    (p : String → Bool) :
    ((φ t).kind == kind && p (φ t).text) = (t.kind == kind && p t.text) := by
  rw [h.kind]
  by_cases hkind : t.kind = kind
  · rw [h.text t (hkind ▸ hcomment) (hkind ▸ hstring)]
  · rw [beq_eq_false_iff_ne.mpr hkind, Bool.false_and, Bool.false_and]

theorem isOperator (text : String) : (φ t).isOperator text = t.isOperator text :=
  h.test t (by decide) (by decide) (· == text)

theorem isOperatorIn (texts : List String) : (φ t).isOperatorIn texts = t.isOperatorIn texts :=
  h.test t (by decide) (by decide) (texts.contains ·)

theorem isKeyword (text : String) : (φ t).isKeyword text = t.isKeyword text :=
  h.test t (by decide) (by decide) (· == text)

end KeepsCode

/-! ## Other places -/

/-- The token at another place. -/
def moved (f : Nat → Nat) (t : Token) : Token := { t with start := f t.start }

theorem keepsCode_moved (f : Nat → Nat) : KeepsCode f (moved f) :=
  ⟨fun _ => rfl, fun _ _ _ => rfl, fun _ => rfl⟩

end Token

/-! ## Lists of tokens -/

open Token

variable {f : Nat → Nat} {φ : Token → Token}

theorem significantTokens_map (h : KeepsCode f φ) (ts : List Token) :
    significantTokens (ts.map φ) = (significantTokens ts).map φ := by
  rw [significantTokens, significantTokens, List.filter_map]
  refine congrArg _ (List.filter_congr fun t _ => ?_)
  rw [Function.comp_apply, h.isTrivia]

namespace Group

/-- The group, its tokens changed. -/
def mapped (φ : Token → Token) (g : Group) : Group :=
  ⟨g.inside.map φ, φ g.closer, g.rest.map φ⟩

theorem close?_map (h : KeepsCode f φ) (opener closer : String) (depth : Nat) (ts : List Token) :
    close? opener closer depth (ts.map φ) = (close? opener closer depth ts).map (mapped φ) := by
  have hpush : ∀ (t : Token) (g : Option Group),
      (g.map (mapped φ)).map (push (φ t)) = (g.map (push t)).map (mapped φ) := by
    intro t g
    cases g with
    | none => rfl
    | some g => rfl
  induction ts generalizing depth with
  | nil => rfl
  | cons t ts ih =>
      simp only [List.map_cons, close?, h.isOperator, ih]
      split
      · exact hpush t _
      · split
        · cases depth with
          | zero => rfl
          | succ depth => exact hpush t _
        · exact hpush t _

end Group

end SolidityTools

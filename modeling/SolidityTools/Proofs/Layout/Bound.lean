import SolidityTools.Outline.Write
import SolidityTools.Proofs.Layout.Increment
import Mathlib.Algebra.Group.Nat.Defs

set_option autoImplicit false

/-! # What the condition of a counted loop rules out

The increment of a counted loop is moved out of the checked arithmetic, which is right only if the
condition keeps the counter below the greatest value of its type. The loops are known exactly from
their tokens (`mem_countedLoops_iff`). Here the width of the type is read off (`unsignedBits?`), and
what the condition says is compared with what it ought to say.

The documented shape of a condition is the counter, then `<`, then a bound without `||`, `?` and
assignments (`Documented`). But the condition is looked at as far as its third token. So the
comparison may be `<=`, and one of these operators may stand in the bound, in parentheses or not.
What is claimed of the condition is what its shape alone promises (`Admits`): with `<=` the counter
may be as great as the bound, and a bound with one of these operators promises nothing. In both
cases the counter can be at its greatest value when it is incremented, and in no other case
(`cannotWrap_iff`). Operators that the shape allows are not looked into: `==` and `!=` bind less
tightly than a comparison as well.
-/

namespace SolidityTools.Layout

open Text Lexer

/-! ## Types -/

/-- The number of bits of an unsigned integer type. Without a number it has 256. -/
def unsignedBits? (word : String) : Option Nat :=
  match word.toList with
  | ['u', 'i', 'n', 't'] => some 256
  | 'u' :: 'i' :: 'n' :: 't' :: digits => width? digits
  | _ => none

/-- A type that begins with `uint` has a whole number of bytes, and 32 of them at most. -/
theorem exists_unsignedBits {word : String} (htype : isTypeText word = true)
    (huint : "uint".toList <+: word.toList) :
    ∃ bits, unsignedBits? word = some bits ∧ bits % 8 = 0 ∧ 8 ≤ bits ∧ bits ≤ 256 := by
  obtain ⟨digits, hword⟩ : ∃ digits, 'u' :: 'i' :: 'n' :: 't' :: digits = word.toList := huint
  rw [isTypeText, Bool.or_eq_true] at htype
  rcases htype with hplain | hwidth
  · -- of the types without a width only one begins so
    have hall : ∀ plain ∈ plainTypes, "uint".toList <+: plain.toList → plain = "uint" := by decide
    obtain rfl := hall word (by simpa using hplain) ⟨digits, hword⟩
    exact ⟨256, rfl, by decide, by decide, by decide⟩
  · -- the width is written behind the name, and `isTypeText` has checked its range
    rw [← hword] at hwidth
    obtain ⟨bits, hbits, hrange⟩ : ∃ bits, width? digits = some bits ∧
        (bits % 8 = 0 ∧ 8 ≤ bits) ∧ bits ≤ 256 := by
      simpa [isTypeText.isBitWidth, Option.any_eq_true] using hwidth
    refine ⟨bits, ?_, hrange.1.1, hrange.1.2, hrange.2⟩
    rw [unsignedBits?, ← hword]
    cases digits with
    | nil => cases hbits
    | cons d digits => exact hbits

theorem isTypeText_of_mem {ts : List Token} {offset : Nat} {cs : List Char}
    (hreads : Reads offset cs ts) {t : Token} (ht : t ∈ ts) (hkind : t.kind = .type) :
    isTypeText t.text = true := by
  obtain ⟨c, w, rest, htext, -, hlex⟩ := hreads.exists_lexeme ht
  have hstart : isWordStart c = true :=
    isWordStart_of_isWord (by simp [Token.isWord, hkind]) hlex
  have hword := wordKind_of_lexeme hstart hlex
  rw [hkind, ← htext] at hword
  simp only [wordKind, String.ofList_toList] at hword
  split at hword
  · cases hword
  · split at hword
    · assumption
    · split at hword
      · cases hword
      · cases hword

/-! ## Conditions -/

/-- Whether a token is one of the operators that the documented shape keeps out of the bound. -/
def loosens (t : Token) : Bool := t.isOperatorIn ["||", "?"] || t.isAssignment

namespace Header

/-- Whether the shape of the condition lets it be true with these values of the counter and the
bound. Then the comparison holds, unless one of the operators that the documented shape rules out
stands in the bound. -/
def Admits (header : Header) (i b : Nat) : Prop :=
  (∃ t ∈ header.bound, loosens t = true) ∨ (header.comparison.isOperator "<" = true ∧ i < b) ∨
    (header.comparison.isOperator "<=" = true ∧ i ≤ b)

/-- Whether the counter can be incremented whenever the shape of the condition lets it be true. -/
def CannotWrap (header : Header) (bits : Nat) : Prop :=
  ∀ i b, i < 2 ^ bits → b < 2 ^ bits → header.Admits i b → i + 1 < 2 ^ bits

/-- The documented shape: the condition compares the counter by `<`, with a bound behind it that has
no `||`, no `?` and no assignment. -/
structure Documented (header : Header) : Prop where
  comparison : header.comparison.isOperator "<" = true
  bound : ∀ t ∈ header.bound, loosens t = false

end Header

/-- At the greatest value of the counter only `<` fails. -/
theorem cannotWrap_iff {header : Header} (bits : Nat) (hcounts : header.Counts) :
    header.CannotWrap bits ↔ header.Documented := by
  constructor
  · intro h
    have hpos : 0 < 2 ^ bits := Nat.two_pow_pos bits
    -- at the greatest value of both nothing but the comparison `<` rules the condition out
    have hgreatest : ¬header.Admits (2 ^ bits - 1) (2 ^ bits - 1) := by
      intro hadmits
      have := h (2 ^ bits - 1) (2 ^ bits - 1) (by omega) (by omega) hadmits
      omega
    refine ⟨hcounts.comparison.resolve_right fun hatMost => ?_, fun t ht => ?_⟩
    · exact hgreatest (.inr (.inr ⟨hatMost, Nat.le_refl _⟩))
    · rw [← Bool.not_eq_true]
      exact fun hloosens => hgreatest (.inl ⟨t, ht, hloosens⟩)
  · rintro ⟨hless, hbound⟩ i b hi hb (⟨t, ht, hloosens⟩ | ⟨-, hlt⟩ | ⟨hatMost, -⟩)
    · rw [hbound t ht] at hloosens
      cases hloosens
    · omega
    · rw [Token.isOperator_iff] at hless hatMost
      rw [hless] at hatMost
      exact absurd hatMost (by decide)

/-! ## Rewritten loops -/

theorem Stands.counts {loop : CountedLoop} {header : Header} {ts : List Token}
    (h : Stands loop header ts) : header.Counts := by
  obtain ⟨_, _, -, hbegins⟩ := h
  exact hbegins.counts

theorem Stands.comparison_mem {loop : CountedLoop} {header : Header} {ts : List Token}
    (h : Stands loop header ts) : header.comparison ∈ ts := by
  obtain ⟨front, back, rfl, hbegins⟩ := h
  obtain ⟨_, _, _, _, _, -, -, -, rfl, -⟩ := hbegins.tokens
  simp [Header.tokens, Header.condition]

theorem Stands.type_mem {loop : CountedLoop} {header : Header} {ts : List Token}
    (h : Stands loop header ts) : header.type ∈ ts := by
  obtain ⟨front, back, rfl, hbegins⟩ := h
  obtain ⟨_, _, _, _, _, -, -, -, rfl, -⟩ := hbegins.tokens
  simp [Header.tokens]

/-- **Which moved increments can wrap.** The loops whose increments are moved are exactly those with
a header `uintN i = 0; i < bound; i++`, where the comparison may be `<=` as well, the bound is
anything but a semicolon, and the increment may be `++i`. The shape of the condition of such a loop
rules out that the increment wraps exactly if it is the documented one: the comparison is `<`, and
the bound has no `||`, no `?` and no assignment. -/
theorem moved_cannotWrap_iff (settings : EditorSettings) (source : String) (loop : CountedLoop) :
    (loop ∈ countedLoops (formattedTokens settings source) ↔
        ∃ header, Stands loop header (formattedTokens settings source)) ∧
      ∀ header, Stands loop header (formattedTokens settings source) →
        header.Counts ∧ ∃ bits, unsignedBits? header.type.text = some bits ∧
          (bits % 8 = 0 ∧ 8 ≤ bits ∧ bits ≤ 256) ∧
          (header.CannotWrap bits ↔ header.Documented) := by
  refine ⟨mem_countedLoops_iff, fun header hstands => ?_⟩
  have hreads : Reads 0 (formatText settings source.toList) (formattedTokens settings source) :=
    significantTokens_formatText settings source ▸ reads_significantTokens 0 _
  have hcounts := hstands.counts
  have htype := isTypeText_of_mem hreads hstands.type_mem hcounts.type_kind
  obtain ⟨bits, hbits, hrange⟩ := exists_unsignedBits htype hcounts.type_text
  exact ⟨hcounts, bits, hbits, hrange, cannotWrap_iff bits hcounts⟩

/-- What stands behind the comparison is not looked at. -/
example :
    optimize .standard "for (uint8 i = 0; i < n || p; i++) \x7b x; \x7d"
      = "for (uint8 i = 0; i < n || p;) \x7b x; unchecked \x7b ++i; \x7d \x7d" := by
  decide +kernel

/-- A loop is rewritten although its counter can be 255 when the condition is true. -/
theorem optimize_atMost :
    let source := "for (uint8 i = 0; i <= n; i++) \x7b x; \x7d"
    optimize .standard source
        = "for (uint8 i = 0; i <= n;) \x7b x; unchecked \x7b ++i; \x7d \x7d" ∧
      ∃ loop ∈ countedLoops (formattedTokens .standard source), ∀ header,
        Stands loop header (formattedTokens .standard source) →
          ¬header.Documented ∧ ¬header.CannotWrap 8 := by
  intro source
  refine ⟨by decide +kernel, ?_⟩
  have hloops : countedLoops (formattedTokens .standard source) ≠ [] := by decide +kernel
  obtain ⟨loop, hloop⟩ := List.exists_mem_of_ne_nil _ hloops
  refine ⟨loop, hloop, fun header hstands => ?_⟩
  -- there is no `<` in the whole text
  have hnone : ∀ t ∈ formattedTokens .standard source, t.isOperator "<" = false := by
    decide +kernel
  have hundocumented : ¬header.Documented := by
    intro hdocumented
    have := hdocumented.comparison
    rw [hnone _ hstands.comparison_mem] at this
    cases this
  exact ⟨hundocumented, fun h => hundocumented ((cannotWrap_iff 8 hstands.counts).mp h)⟩

end SolidityTools.Layout

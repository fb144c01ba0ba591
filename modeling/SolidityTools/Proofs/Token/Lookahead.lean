import SolidityTools.Token.Lexer
import Mathlib.Data.List.Find

set_option autoImplicit false

/-! # How far a token looks ahead

Whether a token ends somewhere may depend on the text behind its end: on one character for a
word, on up to three for a number (`1e+5`), on everything up to the next character that is not
blank for the kind of an identifier. When a text is edited, the tokens in front of the edit stay
as they are if the edit begins with a character at which every scan gives up anyway.

Such a character is *neutral*. For numbers and operators it need not be more than *inert*, and then
it is as good as the end of the text (`numberLength_append`, `operatorLength?_append`). The main
statement is `lexeme_append_change`: a significant token that ends in front of a place ends there
before another text, too, except that a word must not run on into it; and only the kind of a word
depends on the text behind. Before two texts that are *alike* it is the same token
(`lexeme_append_congr`).
-/

namespace SolidityTools.Lexer

open Text

/-! ## Runs -/

theorem runLength_le (p : Char → Bool) (cs : List Char) : runLength p cs ≤ cs.length :=
  (List.takeWhile_sublist p).length_le

/-- A run ends at a character outside the class. -/
theorem runLength_append_cons {p : Char → Bool} (w : List Char) {d : Char} (Y : List Char)
    (hd : p d = false) : runLength p (w ++ d :: Y) = runLength p w := by
  induction w with
  | nil => simp [runLength, hd]
  | cons c w ih =>
      rw [runLength, runLength] at ih
      by_cases hc : p c = true
      · simp [runLength, hc, ih]
      · simp [runLength, hc]

/-- A run that ends inside a text does not depend on what follows the text. -/
theorem runLength_append_congr {p : Char → Bool} (w X X' : List Char) (hw : w.all p = false) :
    runLength p (w ++ X') = runLength p (w ++ X) := by
  induction w with
  | nil => simp at hw
  | cons c w ih =>
      by_cases hc : p c = true
      · have := ih (by simpa [hc] using hw)
        rw [runLength, runLength] at this
        simp [runLength, hc, this]
      · simp [runLength, hc]

/-- A run through a whole text goes on behind it. -/
theorem runLength_append_of_all {p : Char → Bool} (w X : List Char) (hw : w.all p = true) :
    runLength p (w ++ X) = w.length + runLength p X := by
  rw [runLength, runLength, List.takeWhile_append_of_pos (by simpa using hw), List.length_append]

/-! ## Inert and neutral characters -/

/-- The characters that neither a number nor an operator goes on with. -/
def isInert (c : Char) : Bool :=
  !(isHexPart c || "xX.+-<>=*&|".toList.contains c)

/-- The characters that neither a number nor an operator goes on with, that open no comment
behind a slash and no argument list behind a word. -/
def isNeutral (c : Char) : Bool :=
  !(isHexPart c || "xX.+-<>=*&|/(".toList.contains c)

theorem isInert_of_isNeutral {d : Char} (h : isNeutral d = true) : isInert d = true := by
  simp only [isNeutral, Bool.not_eq_true', Bool.or_eq_false_iff] at h
  obtain ⟨hhex, hmem⟩ := h
  have hmem' : "xX.+-<>=*&|".toList.contains d = false := by
    simp at hmem
    simp [hmem]
  rw [isInert, hhex, hmem']
  rfl

theorem not_isHexPart_of_isInert {d : Char} (h : isInert d = true) : isHexPart d = false := by
  simp only [isInert, Bool.not_eq_true', Bool.or_eq_false_iff] at h
  exact h.1

theorem not_isDecimalPart_of_isInert {d : Char} (h : isInert d = true) :
    isDecimalPart d = false := by
  have := not_isHexPart_of_isInert h
  simp only [isHexPart, isHexDigit, Bool.or_eq_false_iff] at this
  simp [isDecimalPart, this]

theorem not_isDigit_of_isInert {d : Char} (h : isInert d = true) : d.isDigit = false := by
  have := not_isDecimalPart_of_isInert h
  rw [isDecimalPart, Bool.or_eq_false_iff] at this
  exact this.1

theorem ne_of_isInert {d e : Char} (h : isInert d = true) (he : isInert e = false) : d ≠ e := by
  rintro rfl
  rw [h] at he
  cases he

theorem ne_of_isNeutral {d e : Char} (h : isNeutral d = true)
    (he : isNeutral e = false) : d ≠ e := by
  rintro rfl
  rw [h] at he
  cases he

/-! ## Numbers -/

theorem fractionLength_le (cs : List Char) : fractionLength cs ≤ cs.length := by
  unfold fractionLength
  split
  · next d cs =>
      have := runLength_le isDecimalPart (d :: cs)
      split
      · rw [List.length_cons]
        omega
      · omega
  · omega

theorem fractionLength_append_cons (w : List Char) {d : Char} (Y : List Char)
    (hd : isInert d = true) : fractionLength (w ++ d :: Y) = fractionLength w := by
  match w with
  | [] =>
      have hpoint : d ≠ '.' := ne_of_isInert hd (by decide)
      unfold fractionLength
      split
      · next heq => exact absurd (List.cons.inj heq).1 hpoint
      · rfl
  | [c] =>
      simp only [List.cons_append, List.nil_append, fractionLength]
      split
      · next heq =>
          obtain ⟨-, hrest⟩ := List.cons.inj heq
          obtain ⟨rfl, -⟩ := List.cons.inj hrest
          simp [not_isDigit_of_isInert hd]
      · rfl
  | c :: e :: w =>
      simp only [List.cons_append, fractionLength]
      have := runLength_append_cons (e :: w) Y (not_isDecimalPart_of_isInert hd)
      rw [List.cons_append] at this
      split
      · next heq =>
          obtain ⟨rfl, hrest⟩ := List.cons.inj heq
          obtain ⟨rfl, rfl⟩ := List.cons.inj hrest
          simp only [this]
      · next hne =>
          split
          · next heq =>
              obtain ⟨rfl, hrest⟩ := List.cons.inj heq
              exact absurd rfl (hne _ _)
          · rfl

theorem digitsLength?_append_cons (w : List Char) {d : Char} (Y : List Char)
    (hd : isInert d = true) : digitsLength? (w ++ d :: Y) = digitsLength? w := by
  cases w with
  | nil => simp [digitsLength?, not_isDigit_of_isInert hd]
  | cons c w =>
      have := runLength_append_cons (c :: w) Y (not_isDecimalPart_of_isInert hd)
      rw [List.cons_append] at this
      simp only [List.cons_append, digitsLength?, this]

theorem digitsLength?_le {cs : List Char} : (digitsLength? cs).getD 0 ≤ cs.length := by
  cases cs with
  | nil => simp [digitsLength?]
  | cons c cs =>
      have := runLength_le isDecimalPart (c :: cs)
      rw [digitsLength?]
      split
      · simpa using this
      · simp

theorem exponentLength_append_cons (w : List Char) {d : Char} (Y : List Char)
    (hd : isInert d = true) : exponentLength (w ++ d :: Y) = exponentLength w := by
  have hsmall : d ≠ 'e' := ne_of_isInert hd (by decide)
  have hlarge : d ≠ 'E' := ne_of_isInert hd (by decide)
  have hplus : d ≠ '+' := ne_of_isInert hd (by decide)
  have hminus : d ≠ '-' := ne_of_isInert hd (by decide)
  match w with
  | [] => simp [exponentLength, hsmall, hlarge]
  | [c] =>
      simp [exponentLength, hplus, hminus, digitsLength?, not_isDigit_of_isInert hd]
  | c :: s :: w =>
      have hrest := digitsLength?_append_cons w Y hd
      have hsign := digitsLength?_append_cons (s :: w) Y hd
      rw [List.cons_append] at hsign
      simp only [List.cons_append, exponentLength, hrest, hsign]

theorem exponentLength_le (cs : List Char) : exponentLength cs ≤ cs.length := by
  match cs with
  | [] => simp [exponentLength]
  | [e] => simp [exponentLength]
  | e :: s :: ds =>
      have hds : (digitsLength? ds).getD 0 ≤ ds.length := digitsLength?_le
      have hsds : (digitsLength? (s :: ds)).getD 0 ≤ (s :: ds).length := digitsLength?_le
      have hmap : ∀ (o : Option Nat) (k : Nat), ((o.map (· + k)).getD 0) ≤ o.getD 0 + k := by
        intro o k
        cases o <;> simp
      have h1 := hmap (digitsLength? ds) 2
      have h2 := hmap (digitsLength? (s :: ds)) 1
      simp only [List.length_cons] at *
      rw [exponentLength]
      split
      · split <;> omega
      · omega

theorem decimalLength_append_cons (w : List Char) {d : Char} (Y : List Char)
    (hd : isInert d = true) : decimalLength (w ++ d :: Y) = decimalLength w := by
  have hwhole := runLength_append_cons w Y (not_isDecimalPart_of_isInert hd)
  have hle := runLength_le isDecimalPart w
  have hfraction : fractionLength ((w ++ d :: Y).drop (runLength isDecimalPart w))
      = fractionLength (w.drop (runLength isDecimalPart w)) := by
    rw [List.drop_append_of_le_length hle, fractionLength_append_cons _ _ hd]
  have hle' : runLength isDecimalPart w
      + fractionLength (w.drop (runLength isDecimalPart w)) ≤ w.length := by
    have := fractionLength_le (w.drop (runLength isDecimalPart w))
    rw [List.length_drop] at this
    omega
  simp only [decimalLength, hwhole, hfraction]
  rw [List.drop_append_of_le_length hle', exponentLength_append_cons _ _ hd]

theorem decimalLength_le (cs : List Char) : decimalLength cs ≤ cs.length := by
  have h1 := runLength_le isDecimalPart cs
  have h2 := fractionLength_le (cs.drop (runLength isDecimalPart cs))
  have h3 := exponentLength_le (cs.drop (runLength isDecimalPart cs
    + fractionLength (cs.drop (runLength isDecimalPart cs))))
  rw [List.length_drop] at h2 h3
  simp only [decimalLength]
  omega

/-- For a number, an inert character is as good as the end of the text. -/
theorem numberLength_append_cons (c : Char) (w : List Char) {d : Char} (Y : List Char)
    (hd : isInert d = true) : numberLength c (w ++ d :: Y) = numberLength c w := by
  have hdecimal := decimalLength_append_cons w Y hd
  have hx : d ≠ 'x' := ne_of_isInert hd (by decide)
  have hX : d ≠ 'X' := ne_of_isInert hd (by decide)
  have hhex : isHexDigit d = false := by
    have := not_isHexPart_of_isInert hd
    rw [isHexPart, Bool.or_eq_false_iff] at this
    exact this.1
  by_cases hc : c = '0'
  · subst hc
    match w with
    | [] =>
        cases Y with
        | nil => simpa [numberLength] using hdecimal
        | cons e Y => simpa [numberLength, hx, hX] using hdecimal
    | [x] => simpa [numberLength, hhex] using hdecimal
    | x :: h :: ds =>
        have hrun := runLength_append_cons (h :: ds) Y (not_isHexPart_of_isInert hd)
        simp only [List.cons_append] at hrun hdecimal
        simp only [List.cons_append, numberLength, hrun, hdecimal]
  · have hne : ∀ cs, numberLength c cs = decimalLength cs := by
      intro cs
      unfold numberLength
      split
      · next h => exact absurd rfl hc
      · rfl
    rw [hne, hne, hdecimal]

/-- A number does not depend on a text that begins with an inert character, or with nothing. -/
theorem numberLength_append (c : Char) (w : List Char) {X : List Char}
    (hX : ∀ d ∈ X.head?, isInert d = true) : numberLength c (w ++ X) = numberLength c w := by
  cases X with
  | nil => rw [List.append_nil]
  | cons d Y => exact numberLength_append_cons c w Y (hX d rfl)

theorem numberLength_le (c : Char) (cs : List Char) : numberLength c cs ≤ cs.length := by
  have hdecimal := decimalLength_le cs
  unfold numberLength
  split
  · next x h ds =>
      have := runLength_le isHexPart (h :: ds)
      split
      · simp only [List.length_cons] at *
        omega
      · exact hdecimal
  · exact hdecimal

/-! ## Operators -/

/-- A pattern without an inert character ends before one. -/
theorem isPrefixOf_append_cons {pattern : List Char} (w : List Char) {d : Char} (Y : List Char)
    (hd : d ∉ pattern) : pattern.isPrefixOf (w ++ d :: Y) = pattern.isPrefixOf w := by
  induction pattern generalizing w with
  | nil => simp
  | cons p pattern ih =>
      rw [List.mem_cons, not_or] at hd
      obtain ⟨hdp, hdpattern⟩ := hd
      cases w with
      | nil => simp [List.isPrefixOf, Ne.symm hdp]
      | cons c w => simp only [List.cons_append, List.isPrefixOf, ih w hdpattern]

theorem not_mem_tail_of_isInert {operator : List Char} (hop : operator ∈ longOperators)
    {d : Char} (hd : isInert d = true) : d ∉ operator.tail := by
  have hall : ∀ operator ∈ longOperators, operator.tail.all (!isInert ·) = true := by decide
  intro hmem
  have hnot := List.all_eq_true.mp (hall operator hop) d hmem
  rw [hd] at hnot
  cases hnot

/-- For an operator, an inert character is as good as the end of the text. -/
theorem operatorLength?_append_cons (c : Char) (w : List Char) {d : Char} (Y : List Char)
    (hd : isInert d = true) : operatorLength? c (w ++ d :: Y) = operatorLength? c w := by
  have hfind : longOperators.find? (·.isPrefixOf (c :: (w ++ d :: Y)))
      = longOperators.find? (·.isPrefixOf (c :: w)) := by
    refine List.find?_congr fun operator hop => ?_
    cases operator with
    | nil => rfl
    | cons o operator =>
        have htail := not_mem_tail_of_isInert hop hd
        rw [List.tail_cons] at htail
        simp only [List.isPrefixOf, isPrefixOf_append_cons w Y htail]
  simp only [operatorLength?, hfind]

/-- An operator does not depend on a text that begins with an inert character, or with nothing. -/
theorem operatorLength?_append (c : Char) (w : List Char) {X : List Char}
    (hX : ∀ d ∈ X.head?, isInert d = true) : operatorLength? c (w ++ X) = operatorLength? c w := by
  cases X with
  | nil => rw [List.append_nil]
  | cons d Y => exact operatorLength?_append_cons c w Y (hX d rfl)

theorem operatorLength?_le {c : Char} {cs : List Char} {n : Nat}
    (h : operatorLength? c cs = some n) : n ≤ cs.length := by
  unfold operatorLength? at h
  split at h
  · next operator hfind =>
      have hfront := List.find?_some hfind
      have := (List.isPrefixOf_iff_prefix.mp hfront).length_le
      rw [List.length_cons] at this
      rw [Option.some.injEq] at h
      omega
  · split at h
    · rw [Option.some.injEq] at h
      omega
    · cases h

/-! ## Comments and strings -/

theorem blockCommentLength_le (cs : List Char) : blockCommentLength cs ≤ cs.length := by
  fun_induction blockCommentLength cs with
  | case1 => simp
  | case2 => simp
  | case3 c cs hne ih =>
      rw [List.length_cons]
      omega

theorem stringLength_le (quote : Char) (cs : List Char) :
    stringLength quote cs ≤ cs.length := by
  fun_induction stringLength quote cs with
  | case1 => simp
  | case2 => simp
  | case3 d cs ih =>
      simp only [List.length_cons]
      omega
  | case4 => simp
  | case5 c cs hone htwo hc ih =>
      rw [List.length_cons]
      omega

theorem stringLength_cons_of_ne {quote c : Char} (cs : List Char) (hc : c ≠ '\\') :
    stringLength quote (c :: cs) = if c == quote then 1 else stringLength quote cs + 1 := by
  rw [stringLength.eq_def]
  split
  · next heq => cases heq
  · next heq => exact absurd (List.cons.inj heq).1 hc
  · next heq => exact absurd (List.cons.inj heq).1 hc
  · next heq =>
      obtain ⟨rfl, rfl⟩ := List.cons.inj heq
      rfl

/-- Something of a text that is not empty belongs to the string. -/
theorem stringLength_cons_pos (quote d : Char) (Y : List Char) :
    0 < stringLength quote (d :: Y) := by
  rw [stringLength.eq_def]
  split
  · next heq => cases heq
  · omega
  · omega
  · split <;> omega

/-- What fits neither of the two patterns with a backslash begins with something else. -/
theorem ne_backslash {c : Char} {cs : List Char} (hone : c = '\\' → cs = [] → False)
    (htwo : ∀ d ds, c = '\\' → cs = d :: ds → False) : c ≠ '\\' := by
  intro hc
  cases cs with
  | nil => exact hone hc rfl
  | cons d ds => exact htwo d ds hc rfl

/-- A string that is closed inside a text does not depend on what follows the text. -/
theorem stringLength_append_congr (quote : Char) (w X X' : List Char) (hX : X ≠ [])
    (h : stringLength quote (w ++ X) ≤ w.length) :
    stringLength quote (w ++ X') = stringLength quote (w ++ X) := by
  fun_induction stringLength quote w with
  | case1 =>
      obtain ⟨d, Y, rfl⟩ := List.exists_cons_of_ne_nil hX
      have := stringLength_cons_pos quote d Y
      rw [List.nil_append, List.length_nil] at h
      omega
  | case2 =>
      -- the backslash would take a character from behind the text
      obtain ⟨d, Y, rfl⟩ := List.exists_cons_of_ne_nil hX
      simp [stringLength] at h
  | case3 d w ih =>
      simp only [List.cons_append, List.length_cons, stringLength] at h ⊢
      rw [ih (by omega)]
  | case4 c w hone htwo hc =>
      have hne : c ≠ '\\' := ne_backslash hone htwo
      rw [List.cons_append, List.cons_append, stringLength_cons_of_ne _ hne,
        stringLength_cons_of_ne _ hne, if_pos hc, if_pos hc]
  | case5 c w hone htwo hc ih =>
      have hne : c ≠ '\\' := ne_backslash hone htwo
      rw [List.cons_append, stringLength_cons_of_ne _ hne, if_neg hc, List.length_cons] at h
      rw [List.cons_append, List.cons_append, stringLength_cons_of_ne _ hne,
        stringLength_cons_of_ne _ hne, if_neg hc, if_neg hc, ih (by omega)]

/-- Whether a comment begins is decided by two characters. -/
theorem commentLength?_append_eq_none {c : Char} {w X X' : List Char}
    (h : commentLength? c (w ++ X) = none) (hneutral : ∀ d ∈ X'.head?, isNeutral d = true) :
    commentLength? c (w ++ X') = none := by
  cases w with
  | nil =>
      unfold commentLength?
      split
      · next heq =>
          rw [List.nil_append] at heq
          exact absurd rfl (ne_of_isNeutral (hneutral '/' (by rw [heq]; rfl)) (by decide))
      · next heq =>
          rw [List.nil_append] at heq
          exact absurd rfl (ne_of_isNeutral (hneutral '*' (by rw [heq]; rfl)) (by decide))
      · rfl
  | cons e w =>
      rw [List.cons_append] at h ⊢
      unfold commentLength? at h ⊢
      split
      · next heq =>
          obtain ⟨rfl, rfl⟩ := List.cons.inj heq
          simp at h
      · next heq =>
          obtain ⟨rfl, rfl⟩ := List.cons.inj heq
          simp at h
      · rfl

/-! ## Words -/

/-- Behind more text, too, both or none of two texts open an argument list. -/
theorem opensCall_append_congr (u : List Char) {X X' : List Char}
    (h : opensCall X' = opensCall X) : opensCall (u ++ X') = opensCall (u ++ X) := by
  induction u with
  | nil => exact h
  | cons c u ih =>
      rw [opensCall, opensCall] at ih
      by_cases hc : isAsciiBlank c = true
      · simpa [opensCall, hc] using ih
      · simp [opensCall, hc]

/-! ## Which scan fits

Whether a text begins with a string, a number, a word or white space is seen from its first
character. For a comment two are needed. -/

section FirstCharacter

variable {c : Char} {cs w rest : List Char} {kind : TokenKind} {n : Nat}

theorem commentLength?_eq_some_iff : commentLength? c cs = some n ↔ c = '/' ∧
    ((∃ body, cs = '/' :: body ∧ runLength (· != '\n') body + 1 = n) ∨
      ∃ body, cs = '*' :: body ∧ blockCommentLength body + 1 = n) := by
  unfold commentLength?
  split
  · next body => simp
  · next body => simp
  · next hline hblock =>
      refine iff_of_false (Option.some_ne_none n).symm ?_
      rintro ⟨rfl, ⟨body, rfl, -⟩ | ⟨body, rfl, -⟩⟩
      · exact hline body rfl rfl
      · exact hblock body rfl rfl

/-- Only a slash begins a comment. -/
theorem commentLength?_of_ne (hc : c ≠ '/') : commentLength? c cs = none := by
  rw [Option.eq_none_iff_forall_ne_some]
  intro n h
  exact hc (commentLength?_eq_some_iff.mp h).1

/-- A comment that is cut off where it ends has its delimiter and a body in front of the cut. -/
theorem commentLength?_append_eq_some_iff : commentLength? c (w ++ rest) = some w.length ↔
    c = '/' ∧ ((∃ body, w = '/' :: body ∧ runLength (· != '\n') (body ++ rest) = body.length) ∨
      ∃ body, w = '*' :: body ∧ blockCommentLength (body ++ rest) = body.length) := by
  rw [commentLength?_eq_some_iff]
  cases w with
  | nil => simp
  | cons d body => simp

theorem stringLength?_eq_some_iff : stringLength? c cs = some n ↔
    (c = '"' ∨ c = '\'') ∧ stringLength c cs = n := by
  rw [stringLength?, Option.ite_none_right_eq_some, Option.some.injEq, Bool.or_eq_true, beq_iff_eq,
    beq_iff_eq]

theorem stringLength?_eq_none_iff : stringLength? c cs = none ↔ ¬(c = '"' ∨ c = '\'') := by
  rw [Option.eq_none_iff_forall_ne_some]
  simp [stringLength?_eq_some_iff]

theorem numberLength?_eq_some_iff : numberLength? c cs = some n ↔
    c.isDigit = true ∧ numberLength c cs = n := by
  rw [numberLength?, Option.ite_none_right_eq_some, Option.some.injEq]

theorem numberLength?_eq_none_iff : numberLength? c cs = none ↔ ¬c.isDigit = true := by
  rw [Option.eq_none_iff_forall_ne_some]
  simp [numberLength?_eq_some_iff]

theorem word?_eq_some_iff : word? c cs = some (kind, n) ↔ isWordStart c = true ∧
    wordKind (c :: cs.take n) (cs.drop n) = kind ∧ runLength isWordPart cs = n := by
  rw [word?, Option.ite_none_right_eq_some, Option.some.injEq, Prod.mk.injEq]
  refine and_congr_right fun _ => ⟨?_, ?_⟩
  · rintro ⟨hkind, rfl⟩
    exact ⟨hkind, rfl⟩
  · rintro ⟨hkind, rfl⟩
    exact ⟨hkind, rfl⟩

theorem word?_eq_none_iff : word? c cs = none ↔ ¬isWordStart c = true := by
  rw [word?, ite_eq_right_iff]
  simp

theorem whitespaceLength?_eq_some_iff : whitespaceLength? c cs = some n ↔
    isAsciiBlank c = true ∧ runLength isAsciiBlank cs = n := by
  rw [whitespaceLength?, Option.ite_none_right_eq_some, Option.some.injEq]

theorem whitespaceLength?_eq_none_iff :
    whitespaceLength? c cs = none ↔ ¬isAsciiBlank c = true := by
  rw [Option.eq_none_iff_forall_ne_some]
  simp [whitespaceLength?_eq_some_iff]

end FirstCharacter

/-- A word that ends inside a text ends there before another text, too, if it does not run on into
it. What kind of word it is may change. -/
theorem word?_append_change {c : Char} {w X X' : List Char} {kind : TokenKind} {n : Nat}
    (h : word? c (w ++ X) = some (kind, n)) (hn : n ≤ w.length)
    (hword : w.all isWordPart = true → runLength isWordPart X' = 0) :
    kind = wordKind (c :: w.take n) (w.drop n ++ X) ∧
      word? c (w ++ X') = some (wordKind (c :: w.take n) (w.drop n ++ X'), n) := by
  obtain ⟨hc, hkind, hrun⟩ := word?_eq_some_iff.mp h
  -- the run ends in `w`, or it covers `w` and nothing of the text behind it
  have hrun' : runLength isWordPart (w ++ X') = n := by
    by_cases hw : w.all isWordPart = true
    · rw [runLength_append_of_all w X hw] at hrun
      rw [runLength_append_of_all w X' hw, hword hw]
      omega
    · rw [runLength_append_congr w X X' (by simpa using hw), hrun]
  constructor
  · rw [← hkind, List.take_append_of_le_length hn, List.drop_append_of_le_length hn]
  · refine word?_eq_some_iff.mpr ⟨hc, ?_, hrun'⟩
    rw [List.take_append_of_le_length hn, List.drop_append_of_le_length hn]

/-! ## Tokens -/

/-- How a token comes about: the scans are tried in the lexer's order, and the first one that fits
decides. -/
inductive Scanned (c : Char) (cs : List Char) : TokenKind → Nat → Prop
  | comment {n : Nat} (h : commentLength? c cs = some n) : Scanned c cs .comment n
  | string {n : Nat} (hcomment : commentLength? c cs = none) (h : stringLength? c cs = some n) :
      Scanned c cs .string n
  | number {n : Nat} (hcomment : commentLength? c cs = none) (hstring : stringLength? c cs = none)
      (h : numberLength? c cs = some n) : Scanned c cs .number n
  | word {kind : TokenKind} {n : Nat} (hcomment : commentLength? c cs = none)
      (hstring : stringLength? c cs = none) (hnumber : numberLength? c cs = none)
      (h : word? c cs = some (kind, n)) : Scanned c cs kind n
  | operator {n : Nat} (hcomment : commentLength? c cs = none)
      (hstring : stringLength? c cs = none) (hnumber : numberLength? c cs = none)
      (hword : word? c cs = none) (h : operatorLength? c cs = some n) : Scanned c cs .operator n
  | whitespace {n : Nat} (hcomment : commentLength? c cs = none)
      (hstring : stringLength? c cs = none) (hnumber : numberLength? c cs = none)
      (hword : word? c cs = none) (hoperator : operatorLength? c cs = none)
      (h : whitespaceLength? c cs = some n) : Scanned c cs .whitespace n
  | other (hcomment : commentLength? c cs = none) (hstring : stringLength? c cs = none)
      (hnumber : numberLength? c cs = none) (hword : word? c cs = none)
      (hoperator : operatorLength? c cs = none) (h : whitespaceLength? c cs = none) :
      Scanned c cs .other 0

theorem scanned_lexeme (c : Char) (cs : List Char) :
    Scanned c cs (lexeme c cs).1 (lexeme c cs).2 := by
  unfold lexeme
  cases hcomment : commentLength? c cs with
  | some n => exact .comment hcomment
  | none =>
      cases hstring : stringLength? c cs with
      | some n => exact .string hcomment hstring
      | none =>
          cases hnumber : numberLength? c cs with
          | some n => exact .number hcomment hstring hnumber
          | none =>
              cases hword : word? c cs with
              | some word => exact .word hcomment hstring hnumber hword
              | none =>
                  cases hoperator : operatorLength? c cs with
                  | some n => exact .operator hcomment hstring hnumber hword hoperator
                  | none =>
                      cases h : whitespaceLength? c cs with
                      | some n => exact .whitespace hcomment hstring hnumber hword hoperator h
                      | none => exact .other hcomment hstring hnumber hword hoperator h

theorem Scanned.lexeme_eq {c : Char} {cs : List Char} {kind : TokenKind} {n : Nat}
    (h : Scanned c cs kind n) : lexeme c cs = (kind, n) := by
  cases h with
  | comment h => simp [lexeme, h]
  | string hcomment h => simp [lexeme, hcomment, h]
  | number hcomment hstring h => simp [lexeme, hcomment, hstring, h]
  | word hcomment hstring hnumber h => simp [lexeme, hcomment, hstring, hnumber, h]
  | operator hcomment hstring hnumber hword h =>
      simp [lexeme, hcomment, hstring, hnumber, hword, h]
  | whitespace hcomment hstring hnumber hword hoperator h =>
      simp [lexeme, hcomment, hstring, hnumber, hword, hoperator, h]
  | other hcomment hstring hnumber hword hoperator h =>
      simp [lexeme, hcomment, hstring, hnumber, hword, hoperator, h]

/-- A token stays inside its text. -/
theorem Scanned.le {c : Char} {cs : List Char} {kind : TokenKind} {n : Nat}
    (h : Scanned c cs kind n) : n ≤ cs.length := by
  cases h with
  | comment h =>
      obtain ⟨-, ⟨body, rfl, rfl⟩ | ⟨body, rfl, rfl⟩⟩ := commentLength?_eq_some_iff.mp h
      · have := runLength_le (· != '\n') body
        rw [List.length_cons]
        omega
      · have := blockCommentLength_le body
        rw [List.length_cons]
        omega
  | string _ h =>
      obtain ⟨-, rfl⟩ := stringLength?_eq_some_iff.mp h
      exact stringLength_le c cs
  | number _ _ h =>
      obtain ⟨-, rfl⟩ := numberLength?_eq_some_iff.mp h
      exact numberLength_le c cs
  | word _ _ _ h =>
      obtain ⟨-, -, rfl⟩ := word?_eq_some_iff.mp h
      exact runLength_le isWordPart cs
  | operator _ _ _ _ h => exact operatorLength?_le h
  | whitespace _ _ _ _ _ h =>
      obtain ⟨-, rfl⟩ := whitespaceLength?_eq_some_iff.mp h
      exact runLength_le isAsciiBlank cs
  | other => exact Nat.zero_le _

/-- The token that a text begins with, and what stands behind it. -/
theorem exists_lexeme (c : Char) (cs : List Char) :
    ∃ kind w rest, cs = w ++ rest ∧ lexeme c (w ++ rest) = (kind, w.length) := by
  have hle := (scanned_lexeme c cs).le
  refine ⟨(lexeme c cs).1, cs.take (lexeme c cs).2, cs.drop (lexeme c cs).2,
    (List.take_append_drop _ cs).symm, ?_⟩
  rw [List.take_append_drop, List.length_take_of_le hle]

/-- What two texts `d :: Y` and `d' :: Y'` must have in common so that no significant token which
ends in front of the one can tell it from the other. -/
structure Alike (d : Char) (Y : List Char) (d' : Char) (Y' : List Char) : Prop where
  neutral : isNeutral d = true
  neutral' : isNeutral d' = true
  /-- A word in front of them names a function before both or before none. -/
  call : opensCall (d' :: Y') = opensCall (d :: Y)

section Stability

variable {c : Char} {w : List Char}

/-- **How far a token depends on what follows it.** A significant token that ends in front of a text
ends there before another text, too, if it is not a word that runs on into it. Its kind stays as
well, unless it is that of a word, which is classified by what follows. -/
theorem lexeme_append_change {X X' : List Char} (hX : X ≠ [])
    (hinert : ∀ d ∈ X.head?, isInert d = true) (hneutral : ∀ d ∈ X'.head?, isNeutral d = true)
    {kind : TokenKind} {n : Nat} (hc : isAsciiBlank c = false) (hk : kind ≠ .comment)
    (hlex : lexeme c (w ++ X) = (kind, n)) (hn : n ≤ w.length)
    (hword : isWordStart c = true → w.all isWordPart = true → runLength isWordPart X' = 0) :
    ∃ kind', lexeme c (w ++ X') = (kind', n) ∧
      (kind' = kind ∧ kind ≠ .identifier ∨
        kind = wordKind (c :: w.take n) (w.drop n ++ X) ∧
          kind' = wordKind (c :: w.take n) (w.drop n ++ X')) := by
  have hinert' : ∀ d ∈ X'.head?, isInert d = true := fun d hd =>
    isInert_of_isNeutral (hneutral d hd)
  have hcomment' : commentLength? c (w ++ X) = none → commentLength? c (w ++ X') = none :=
    fun hnone => commentLength?_append_eq_none hnone hneutral
  have hstring' : stringLength? c (w ++ X) = none → stringLength? c (w ++ X') = none := by
    rw [stringLength?_eq_none_iff, stringLength?_eq_none_iff]
    exact id
  have hnumber' : numberLength? c (w ++ X') = numberLength? c (w ++ X) := by
    rw [numberLength?, numberLength?, numberLength_append c w hinert,
      numberLength_append c w hinert']
  have hword' : word? c (w ++ X) = none → word? c (w ++ X') = none := by
    rw [word?_eq_none_iff, word?_eq_none_iff]
    exact id
  have hoperator' : operatorLength? c (w ++ X') = operatorLength? c (w ++ X) := by
    rw [operatorLength?_append c w hinert, operatorLength?_append c w hinert']
  -- the scans that fail before the one text fail before the other, too, so the same one decides
  have hscanned := scanned_lexeme c (w ++ X)
  rw [hlex] at hscanned
  cases hscanned with
  | comment => exact absurd rfl hk
  | string hcomment hs =>
      refine ⟨.string, (Scanned.string (hcomment' hcomment) ?_).lexeme_eq,
        Or.inl ⟨rfl, by decide⟩⟩
      obtain ⟨hquote, hlength⟩ := stringLength?_eq_some_iff.mp hs
      refine stringLength?_eq_some_iff.mpr ⟨hquote, ?_⟩
      exact (stringLength_append_congr c w X X' hX (le_of_eq_of_le hlength hn)).trans hlength
  | number hcomment hstring hnum =>
      exact ⟨.number, (Scanned.number (hcomment' hcomment) (hstring' hstring)
        (hnumber'.trans hnum)).lexeme_eq, Or.inl ⟨rfl, by decide⟩⟩
  | word hcomment hstring hnumber hw =>
      have hstart : isWordStart c = true := (word?_eq_some_iff.mp hw).1
      obtain ⟨hkind, hnext⟩ := word?_append_change hw hn (hword hstart)
      exact ⟨_, (Scanned.word (hcomment' hcomment) (hstring' hstring) (hnumber'.trans hnumber)
        hnext).lexeme_eq, Or.inr ⟨hkind, rfl⟩⟩
  | operator hcomment hstring hnumber hwd hop =>
      exact ⟨.operator, (Scanned.operator (hcomment' hcomment) (hstring' hstring)
        (hnumber'.trans hnumber) (hword' hwd) (hoperator'.trans hop)).lexeme_eq,
        Or.inl ⟨rfl, by decide⟩⟩
  | whitespace _ _ _ _ _ hws => simp [whitespaceLength?, hc] at hws
  | other hcomment hstring hnumber hwd hop hws =>
      refine ⟨.other, (Scanned.other (hcomment' hcomment) (hstring' hstring)
        (hnumber'.trans hnumber) (hword' hwd) (hoperator'.trans hop) ?_).lexeme_eq,
        Or.inl ⟨rfl, by decide⟩⟩
      simp [whitespaceLength?, hc]

/-- **Stability of tokens.** A significant token that ends in front of a text is the same before a
text that is alike, if it is not a word that runs on into it. -/
theorem lexeme_append_congr {d : Char} {Y : List Char} {d' : Char} {Y' : List Char}
    (h : Alike d Y d' Y') {kind : TokenKind} {n : Nat} (hc : isAsciiBlank c = false)
    (hk : kind ≠ .comment) (hlex : lexeme c (w ++ d :: Y) = (kind, n)) (hn : n ≤ w.length)
    (hword : isWordStart c = true → w.all isWordPart = true → isWordPart d' = false) :
    lexeme c (w ++ d' :: Y') = (kind, n) := by
  have hinert : ∀ e ∈ (d :: Y).head?, isInert e = true := by
    simpa using isInert_of_isNeutral h.neutral
  have hneutral : ∀ e ∈ (d' :: Y').head?, isNeutral e = true := by
    simpa using h.neutral'
  obtain ⟨kind', hlex', hkind⟩ := lexeme_append_change (List.cons_ne_nil d Y) hinert hneutral hc hk
    hlex hn fun hstart hall => by simp [runLength, hword hstart hall]
  rcases hkind with ⟨rfl, -⟩ | ⟨hkind, rfl⟩
  · exact hlex'
  · rw [hlex', hkind]
    simp only [wordKind, opensCall_append_congr _ h.call]

end Stability

end SolidityTools.Lexer

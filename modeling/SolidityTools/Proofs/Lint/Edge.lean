import SolidityTools.Proofs.Lint.Floating
import SolidityTools.Proofs.Lint.Place

set_option autoImplicit false

/-! # The edges of tokens

Text patterns look at the masked text character by character, and have notions of their own of what
belongs to a word and of what is blank. Here both are told by the tokens.

A word of the text begins where a word of the tokens does, unless the token in front looks like a
word: numbers end with word characters, operators and white space have none, and any other token is
one character (`atBoundary_mask_iff`, `head?_mask_iff`). Words of the tokens have one character more
than text patterns know, the dollar sign (`Lexer.eq_dollar_of_isWordPart`). Blanks of the masked
text are the tokens that look blank, and what is visible behind them begins a token
(`exists_token_of_blanks`).
-/

namespace SolidityTools

open Text

namespace Lexer

/-! ## Characters -/

theorem isWordCharacter_of_isWordPart {c : Char} (h : isWordPart c = true) (hc : c ≠ '$') :
    isWordCharacter c = true := by
  have hpart : c.isAlphanum = true ∨ c = '_' := by simpa [isWordPart, hc] using h
  have hascii : c.toNat < 0x80 := by
    rcases hpart with hpart | rfl
    · rw [Char.isAlphanum, Bool.or_eq_true] at hpart
      rcases hpart with hpart | hpart
      · have := toNat_of_isAlpha hpart
        omega
      · have := toNat_of_isDigit hpart
        omega
    · decide
  rw [isWordCharacter, if_pos hascii]
  simpa using hpart

theorem eq_dollar_of_isWordPart {c : Char} (h : isWordPart c = true)
    (hc : isWordCharacter c = false) : c = '$' := by
  by_contra hne
  rw [isWordCharacter_of_isWordPart h hne] at hc
  cases hc

theorem isWordCharacter_of_isHexPart {c : Char} (h : isHexPart c = true) :
    isWordCharacter c = true := by
  have hpart : isWordPart c = true := by
    simp only [isHexPart, isHexDigit, Bool.or_eq_true, Bool.and_eq_true, decide_eq_true_eq,
      beq_iff_eq, Char.le_def, UInt32.le_iff_toNat_le] at h
    simp only [isWordPart, Char.isAlphanum, Bool.or_eq_true, beq_iff_eq, isAlpha_iff_toNat]
    rcases h with ((hdigit | ⟨hge, hle⟩) | ⟨hge, hle⟩) | rfl
    · exact Or.inl (Or.inl (Or.inr hdigit))
    · exact Or.inl (Or.inl (Or.inl (Or.inr ⟨hge, hle.trans (by decide)⟩)))
    · exact Or.inl (Or.inl (Or.inl (Or.inl ⟨hge, hle.trans (by decide)⟩)))
    · exact Or.inl (Or.inr rfl)
  refine isWordCharacter_of_isWordPart hpart ?_
  rintro rfl
  cases h

/-! ## Numbers -/

/-- Nothing is taken, or the last character is part of a number. -/
def EndsWithPart (taken : List Char) : Prop := ∀ d ∈ taken.getLast?, isHexPart d = true

theorem EndsWithPart.append {as bs : List Char} (has : EndsWithPart as) (hbs : EndsWithPart bs) :
    EndsWithPart (as ++ bs) := by
  intro d hd
  rw [List.getLast?_append, Option.mem_def, Option.or_eq_some_iff] at hd
  rcases hd with hd | ⟨-, hd⟩
  · exact hbs d hd
  · exact has d hd

/-- Something else may come in front, if a part follows. -/
theorem EndsWithPart.append_left {as : List Char} (has : EndsWithPart as) (hne : as ≠ [])
    (front : List Char) : EndsWithPart (front ++ as) := by
  intro d hd
  rw [List.getLast?_append_of_ne_nil _ hne] at hd
  exact has d hd

theorem endsWithPart_of_all {taken : List Char} (h : ∀ d ∈ taken, isHexPart d = true) :
    EndsWithPart taken := fun d hd => h d (List.mem_of_getLast? hd)

theorem isHexPart_of_isDecimalPart {c : Char} (h : isDecimalPart c = true) :
    isHexPart c = true := by
  rw [isDecimalPart, Bool.or_eq_true] at h
  rcases h with h | h
  · rw [isHexPart, isHexDigit, h]
    rfl
  · rw [isHexPart, h, Bool.or_true]

theorem endsWithPart_take_runLength (cs : List Char) :
    EndsWithPart (cs.take (runLength isDecimalPart cs)) := by
  rw [take_runLength]
  exact endsWithPart_of_all fun d hd => isHexPart_of_isDecimalPart (List.mem_takeWhile_imp hd)

/-- A run of digits has a digit, and ends with part of a number. -/
theorem endsWithPart_take_digits {cs : List Char} {k : Nat} (h : digitsLength? cs = some k) :
    EndsWithPart (cs.take k) ∧ cs.take k ≠ [] := by
  cases cs with
  | nil => cases h
  | cons d cs =>
      rw [digitsLength?] at h
      split at h
      · next hd =>
          obtain rfl := Option.some.inj h
          refine ⟨endsWithPart_take_runLength _, ?_⟩
          rw [take_runLength, List.takeWhile_cons_of_pos (isDecimalPart_of_isDigit hd)]
          exact List.cons_ne_nil _ _
      · cases h

theorem endsWithPart_nil : EndsWithPart [] := by
  intro d hd
  cases hd

theorem EndsWithDigits.endsWithPart_take {cs : List Char} {n : Nat} (h : EndsWithDigits cs n) :
    EndsWithPart (cs.take n) := by
  obtain ⟨front, ds, k, rfl, hdigits, rfl⟩ := h
  obtain ⟨hends, hne⟩ := endsWithPart_take_digits hdigits
  rw [List.take_length_add_append]
  exact hends.append_left hne front

theorem endsWithPart_take_fractionLength (cs : List Char) :
    EndsWithPart (cs.take (fractionLength cs)) := by
  rcases fractionLength_cases cs with hzero | hdigits
  · rw [hzero]
    exact endsWithPart_nil
  · exact hdigits.endsWithPart_take

theorem endsWithPart_take_exponentLength (cs : List Char) :
    EndsWithPart (cs.take (exponentLength cs)) := by
  rcases exponentLength_cases cs with hzero | hdigits
  · rw [hzero]
    exact endsWithPart_nil
  · exact hdigits.endsWithPart_take

/-- A number ends with part of a number, not with a point or a sign. -/
theorem endsWithPart_number {c : Char} (hc : c.isDigit = true) (cs : List Char) :
    EndsWithPart (c :: cs.take (numberLength c cs)) := by
  have hfirst : EndsWithPart [c] := endsWithPart_of_all fun d hd => by
    rw [List.mem_singleton.mp hd]
    exact isHexPart_of_isDecimalPart (isDecimalPart_of_isDigit hc)
  refine hfirst.append ?_
  by_cases hhex : c = '0' ∧ beginsWithHex cs = true
  · obtain ⟨rfl, hhex⟩ := hhex
    obtain ⟨x, h, ds, rfl⟩ := exists_of_beginsWithHex hhex
    have hdigit : isHexDigit h = true := (Bool.and_eq_true_iff.mp hhex).2
    have hpart : isHexPart h = true := by rw [isHexPart, hdigit, Bool.true_or]
    rw [numberLength_hex hhex, List.take_succ_cons, take_runLength]
    refine (endsWithPart_of_all fun d hd => List.mem_takeWhile_imp hd).append_left ?_ [x]
    rw [List.takeWhile_cons_of_pos hpart]
    exact List.cons_ne_nil _ _
  · rw [numberLength_decimal (by simpa using hhex)]
    simp only [decimalLength]
    rw [List.take_add, List.take_add]
    exact ((endsWithPart_take_runLength cs).append (endsWithPart_take_fractionLength _)).append
      (endsWithPart_take_exponentLength _)

/-! ## Operators -/

theorem isWordCharacter_eq_false_of_operator {c : Char} {w rest : List Char}
    (hlex : lexeme c (w ++ rest) = (.operator, w.length)) :
    ∀ e ∈ c :: w, isWordCharacter e = false := by
  have hoperator : operatorLength? c (w ++ rest) = some w.length := by
    have hscanned := scanned_lexeme c (w ++ rest)
    rw [hlex] at hscanned
    generalize hn : w.length = n at hscanned
    cases hscanned with
    | word _ _ _ hword => rcases word?_kind_cases hword with hk | hk | hk | hk <;> cases hk
    | operator _ _ _ _ hoperator => exact hoperator
  have hlong : ∀ operator ∈ longOperators, operator ≠ [] ∧
      operator.all (!isWordCharacter ·) = true := by decide
  have hshort : operatorCharacters.all (!isWordCharacter ·) = true := by decide
  unfold operatorLength? at hoperator
  split at hoperator
  · next operator hfind =>
      obtain ⟨hne, hall⟩ := hlong operator (List.mem_of_find?_eq_some hfind)
      have hfront := List.find?_some hfind
      rw [List.isPrefixOf_iff_prefix] at hfront
      have hlength : operator.length = (c :: w).length := by
        have hpos := List.length_pos_iff.mpr hne
        have hrest := Option.some.inj hoperator
        rw [List.length_cons]
        omega
      have hsame : operator = c :: w := by
        rw [List.prefix_iff_eq_take.mp hfront, hlength, ← List.cons_append, List.take_left]
      intro e he
      rw [← hsame] at he
      simpa using List.all_eq_true.mp hall e he
  · split at hoperator
    · next hmem =>
        obtain rfl : w = [] := List.eq_nil_of_length_eq_zero (Option.some.inj hoperator).symm
        intro e he
        rw [List.mem_singleton.mp he]
        simpa using List.all_eq_true.mp hshort c (List.contains_iff_mem.mp hmem)
    · cases hoperator

/-- What belongs to nothing else is one character. -/
theorem eq_nil_of_lexeme_other {c : Char} {w rest : List Char}
    (hlex : lexeme c (w ++ rest) = (.other, w.length)) : w = [] := by
  have hscanned := scanned_lexeme c (w ++ rest)
  rw [hlex] at hscanned
  generalize hn : w.length = n at hscanned
  cases hscanned with
  | word _ _ _ hword => rcases word?_kind_cases hword with hk | hk | hk | hk <;> cases hk
  | other => exact List.eq_nil_of_length_eq_zero hn

end Lexer

/-! ## Tokens that are no words -/

/-- To a text pattern a word goes on in this token, though the token is none: it is a number, or a
letter that words of the language do not have. -/
def Token.LooksWord (t : Token) : Prop :=
  t.kind = .number ∨ t.kind = .other ∧ t.text.toList.all isWordCharacter = true

/-- To a text pattern nothing but blanks stands in the place of this token: it is white space, a
comment or a string, or a blank that does not separate tokens. -/
def Token.LooksBlank (t : Token) : Prop :=
  t.isTrivia = true ∨ t.kind = .string ∨ t.kind = .other ∧ t.text.toList.all isBlank = true

instance (t : Token) : Decidable t.LooksWord := inferInstanceAs (Decidable (_ ∨ _))

instance (t : Token) : Decidable t.LooksBlank := inferInstanceAs (Decidable (_ ∨ _))

namespace Lint

section Edges

variable {source : String} {t u : Token} {front back : List Token}

/-- What looks like a word does so from both sides. -/
theorem edges_of_looksWord (ht : t ∈ tokenize source) (h : t.LooksWord) :
    (maskToken t).head?.any isWordCharacter = true ∧
      (maskToken t).getLast?.any isWordCharacter = true := by
  obtain ⟨_, c, w, rest, htext, hlex, -⟩ := Lexer.exists_tokensFrom_of_mem ht
  have hvisible : isMasked t = false := by
    rcases h with hkind | ⟨hkind, -⟩ <;> simp [isMasked, hkind]
  rw [maskToken_of_visible hvisible, htext]
  rcases h with hkind | ⟨-, hall⟩
  · rw [hkind] at hlex
    obtain ⟨hc, hlength⟩ := Lexer.numberLength_of_lexeme hlex
    have hends := Lexer.endsWithPart_number hc (w ++ rest)
    rw [hlength, List.take_left] at hends
    have hfirst := Lexer.isHexPart_of_isDecimalPart (Lexer.isDecimalPart_of_isDigit hc)
    refine ⟨Lexer.isWordCharacter_of_isHexPart hfirst, ?_⟩
    have hlast := List.getLast?_eq_some_getLast (List.cons_ne_nil c w)
    rw [hlast]
    exact Lexer.isWordCharacter_of_isHexPart (hends _ hlast)
  · rw [htext] at hall
    have hmem := List.all_eq_true.mp hall
    rw [List.getLast?_eq_some_getLast (List.cons_ne_nil c w)]
    exact ⟨hmem c List.mem_cons_self, hmem _ (List.getLast_mem _)⟩

theorem isWordCharacter_eq_false_of_mem_maskToken (ht : t ∈ tokenize source)
    (hword : t.isWord = false) (hlooks : ¬t.LooksWord) :
    ∀ c ∈ maskToken t, isWordCharacter c = false := by
  obtain ⟨_, c, w, rest, htext, hlex, -⟩ := Lexer.exists_tokensFrom_of_mem ht
  by_cases hhidden : t.kind = .whitespace ∨ isMasked t = true
  · intro e he
    have hall := all_isAsciiBlank_maskToken_of_lexeme htext hlex hhidden
    have hblank := List.all_eq_true.mp hall e he
    exact isWordCharacter_eq_false_of_isBlank (isBlank_of_isAsciiBlank hblank)
  · rw [not_or, Bool.not_eq_true] at hhidden
    rw [maskToken_of_visible hhidden.2, htext]
    cases hkind : t.kind with
    | operator =>
        rw [hkind] at hlex
        exact Lexer.isWordCharacter_eq_false_of_operator hlex
    | other =>
        rw [hkind] at hlex
        obtain rfl := Lexer.eq_nil_of_lexeme_other hlex
        intro e he
        rw [List.mem_singleton.mp he]
        by_contra hc
        refine hlooks (Or.inr ⟨hkind, ?_⟩)
        rw [htext]
        simpa using hc
    | number => exact absurd (Or.inl hkind) hlooks
    | whitespace => exact absurd hkind hhidden.1
    | comment => simp [isMasked, hkind] at hhidden
    | string => simp [isMasked, hkind] at hhidden
    | keyword => simp [Token.isWord, hkind] at hword
    | type => simp [Token.isWord, hkind] at hword
    | function => simp [Token.isWord, hkind] at hword
    | identifier => simp [Token.isWord, hkind] at hword

/-- A token that is no word is taken for one from both sides or from none. -/
theorem looksWord_iff (ht : t ∈ tokenize source) (hword : t.isWord = false) :
    ((maskToken t).head?.any isWordCharacter = true ↔ t.LooksWord) ∧
      ((maskToken t).getLast?.any isWordCharacter = true ↔ t.LooksWord) := by
  have hnone : ¬t.LooksWord → ∀ {o : Option Char}, (∀ c ∈ o, c ∈ maskToken t) →
      ¬o.any isWordCharacter = true := by
    intro hlooks o hmem hany
    obtain ⟨c, rfl, hc⟩ := (Option.any_eq_true _ _).mp hany
    rw [isWordCharacter_eq_false_of_mem_maskToken ht hword hlooks c (hmem c rfl)] at hc
    cases hc
  by_cases hlooks : t.LooksWord
  · have hedges := edges_of_looksWord ht hlooks
    exact ⟨iff_of_true hedges.1 hlooks, iff_of_true hedges.2 hlooks⟩
  · exact ⟨iff_of_false (hnone hlooks fun _ => List.mem_of_mem_head?) hlooks,
      iff_of_false (hnone hlooks fun _ => List.mem_of_getLast?) hlooks⟩

theorem isWord_eq_false_of_next (h : tokenize source = front ++ t :: u :: back) :
    (u.isWord = true → t.isWord = false) ∧ (t.isWord = true → u.isWord = false) := by
  have hchain := Lexer.isChain_tokensFrom 0 source.toList
  rw [List.isChain_iff_forall_rel_of_append_cons_cons] at hchain
  have hwords := (hchain h).words
  cases ht : t.isWord <;> cases hu : u.isWord <;> simp_all

/-- Masking leaves the first character of a token, or puts a blank in its place. -/
theorem exists_cons_maskToken (ht : t ∈ tokenize source) {c : Char} {w : List Char}
    (htext : t.text.toList = c :: w) :
    ∃ d v, maskToken t = d :: v ∧ (d = c ∨ isBlank d = true) := by
  obtain ⟨d, v, hmask⟩ := List.exists_cons_of_ne_nil (maskToken_ne_nil ht)
  refine ⟨d, v, hmask, ?_⟩
  by_cases hmasked : isMasked t = true
  · have hall := List.all_eq_true.mp (all_isAsciiBlank_maskToken hmasked)
    exact Or.inr (isBlank_of_isAsciiBlank (hall d (by rw [hmask]; exact List.mem_cons_self)))
  · rw [maskToken_of_visible (by simpa using hmasked), htext] at hmask
    exact Or.inl (List.cons.inj hmask).1.symm

/-- **Where a word begins for a text pattern.** In front of a word stands a word character exactly
if the token in front looks like a word. -/
theorem atBoundary_mask_iff (h : tokenize source = front ++ t :: back) (ht : t.isWord = true) :
    Pattern.atBoundary (mask front).getLast? = true ↔ ∀ u ∈ front.getLast?, ¬u.LooksWord := by
  rcases List.eq_nil_or_concat front with rfl | ⟨front, u, rfl⟩
  · simp [mask, Pattern.atBoundary]
  · rw [List.concat_eq_append] at h ⊢
    have hu : u ∈ tokenize source := by simp [h]
    have hnext : tokenize source = front ++ u :: t :: back := by simpa using h
    have hword := (isWord_eq_false_of_next hnext).1 ht
    have hlast : (mask (front ++ [u])).getLast? = (maskToken u).getLast? := by
      rw [mask_append, mask_cons, List.getLast?_append_of_ne_nil _ (by simp [maskToken_ne_nil hu])]
      simp [mask]
    rw [hlast, List.getLast?_concat, Pattern.atBoundary, Bool.not_eq_true', ← Bool.not_eq_true,
      (looksWord_iff hu hword).2]
    simp

/-- **Where a word ends for a text pattern.** Behind a word stands a word character exactly if the
token behind looks like a word. -/
theorem head?_mask_iff (h : tokenize source = front ++ t :: back) (ht : t.isWord = true) :
    (mask back).head?.any isWordCharacter = false ↔ ∀ u ∈ back.head?, ¬u.LooksWord := by
  cases back with
  | nil => simp [mask]
  | cons u back =>
      have hu : u ∈ tokenize source := by simp [h]
      have hword := (isWord_eq_false_of_next h).2 ht
      obtain ⟨c, w, hmask⟩ := List.exists_cons_of_ne_nil (maskToken_ne_nil hu)
      have hhead : (mask (u :: back)).head? = (maskToken u).head? := by
        rw [mask_cons, hmask]
        rfl
      rw [hhead, List.head?_cons, ← Bool.not_eq_true, (looksWord_iff hu hword).1]
      simp

/-- Behind a word no part of a word follows, masked or not. -/
theorem isWordPart_eq_false_of_mem_head? (h : tokenize source = front ++ t :: back)
    (ht : t.isWord = true) {c : Char} (hc : c ∈ (mask back).head?) :
    Lexer.isWordPart c = false := by
  obtain ⟨d, w, rest, htext, hlex, hback⟩ := Lexer.exists_of_tokensFrom_eq_append h
  have hrun := (Lexer.runLength_of_lexeme (Lexer.isWordStart_of_isWord ht hlex) hlex).2
  cases rest with
  | nil =>
      rw [hback] at hc
      simp [Lexer.tokensFrom, mask] at hc
  | cons e rest =>
      have he : Lexer.isWordPart e = false := by
        by_contra hpart
        rw [Bool.not_eq_false] at hpart
        simp [Lexer.runLength, hpart] at hrun
      rw [Lexer.tokensFrom_cons] at hback
      cases back with
      | nil => cases hc
      | cons u back =>
          have hu : u ∈ tokenize source := by simp [h]
          obtain ⟨hu', -⟩ := List.cons.inj hback
          have htext' : u.text.toList = e :: rest.take (Lexer.lexeme e rest).2 := by
            rw [hu', String.toList_ofList]
          obtain ⟨f, v, hmask, hf⟩ := exists_cons_maskToken hu htext'
          rw [mask_cons, hmask] at hc
          obtain rfl : f = c := Option.some.inj hc
          rcases hf with rfl | hblank
          · exact he
          · exact Lexer.isWordPart_eq_false_of_isBlank hblank

end Edges

/-! ## Words in the masked text -/

section Words

variable {source : String} {t : Token}

theorem isWordPart_of_isWord (ht : t ∈ tokenize source) (hword : t.isWord = true) :
    t.text.toList.all Lexer.isWordPart = true := by
  obtain ⟨_, c, w, rest, htext, hlex, -⟩ := Lexer.exists_tokensFrom_of_mem ht
  have hstart := Lexer.isWordStart_of_isWord hword hlex
  rw [htext, List.all_cons, Lexer.isWordPart_of_isWordStart hstart,
    (Lexer.runLength_of_lexeme hstart hlex).1]
  rfl

/-- Letters that numbers do not have stand in words, unless they are hidden. -/
theorem isWord_of_mem_text (ht : t ∈ tokenize source) (hvisible : isMasked t = false) {e : Char}
    (he : e ∈ t.text.toList) (hstart : Lexer.isWordStart e = true)
    (hinert : Lexer.isInert e = true) : t.isWord = true := by
  obtain ⟨_, c, w, rest, htext, hlex, -⟩ := Lexer.exists_tokensFrom_of_mem ht
  have hliteral : t.kind ≠ .comment ∧ t.kind ≠ .string := by simpa [isMasked] using hvisible
  have he' : isAsciiBlank e = false := by
    by_contra hblank
    rw [Bool.not_eq_false] at hblank
    have hpart := Lexer.isWordPart_of_isWordStart hstart
    rw [Lexer.isWordPart_eq_false_of_isBlank (isBlank_of_isAsciiBlank hblank)] at hpart
    cases hpart
  rw [htext] at he
  rcases List.mem_cons.mp he with rfl | hmem
  · exact Lexer.isWord_of_lexeme hstart hlex
  · have hc : isAsciiBlank c = false := by
      by_contra hc
      rw [Bool.not_eq_false] at hc
      rw [Lexer.isAsciiBlank_of_mem hlex hc he] at he'
      cases he'
    exact Lexer.isWord_of_lexeme
      (Lexer.isWordStart_of_mem hlex hc hliteral.1 hliteral.2 hinert hmem) hlex

end Words

/-! ## Tokens that are blank -/

section Blank

variable {source : String} {t : Token}

/-- A text pattern sees blanks exactly where a token looks blank. -/
theorem looksBlank_iff (ht : t ∈ tokenize source) :
    t.LooksBlank ↔ (maskToken t).all isBlank = true := by
  obtain ⟨_, c, w, rest, htext, hlex, -⟩ := Lexer.exists_tokensFrom_of_mem ht
  by_cases hhidden : t.kind = .whitespace ∨ isMasked t = true
  · refine iff_of_true ?_ ?_
    · rcases hhidden with hspace | hmasked
      · exact Or.inl (by simp [Token.isTrivia, hspace])
      · rw [isMasked, Bool.or_eq_true, beq_iff_eq, beq_iff_eq] at hmasked
        rcases hmasked with hcomment | hstring
        · exact Or.inl (by simp [Token.isTrivia, hcomment])
        · exact Or.inr (Or.inl hstring)
    · have hall := all_isAsciiBlank_maskToken_of_lexeme htext hlex hhidden
      rw [List.all_eq_true] at hall ⊢
      exact fun e he => isBlank_of_isAsciiBlank (hall e he)
  · rw [not_or, Bool.not_eq_true] at hhidden
    obtain ⟨hspace, hvisible⟩ := hhidden
    have hliteral : t.kind ≠ .comment ∧ t.kind ≠ .string := by simpa [isMasked] using hvisible
    rw [maskToken_of_visible hvisible, Token.LooksBlank, Token.isTrivia]
    simp only [hspace, hliteral.1, hliteral.2, beq_iff_eq, Bool.or_eq_true, false_or, or_self,
      and_iff_right_iff_imp]
    -- a visible token with a blank at its front is that blank alone
    intro hall
    rw [htext, List.all_cons, Bool.and_eq_true] at hall
    have hc : isAsciiBlank c = false := by
      by_contra hc
      rw [Bool.not_eq_false] at hc
      rw [Lexer.lexeme_of_blank hc, Prod.mk.injEq] at hlex
      exact hspace hlex.1.symm
    rw [Lexer.lexeme_of_isBlank hall.1 hc, Prod.mk.injEq] at hlex
    exact hlex.1.symm

theorem looksBlank_mask_iff {ts : List Token} (hts : ∀ t ∈ ts, t ∈ tokenize source) :
    (∀ t ∈ ts, t.LooksBlank) ↔ (mask ts).all isBlank = true := by
  rw [mask, List.all_flatMap, List.all_eq_true]
  exact forall_congr' fun t => forall_congr' fun ht => looksBlank_iff (hts t ht)

/-- Behind blanks a visible character begins a token. -/
theorem exists_token_of_blanks {ts : List Token} (hts : ∀ t ∈ ts, t ∈ tokenize source)
    {gap Y : List Char} {c : Char} (h : mask ts = gap ++ c :: Y) (hgap : gap.all isBlank = true)
    (hc : isBlank c = false) :
    ∃ front t back tail, ts = front ++ t :: back ∧ (∀ u ∈ front, u.LooksBlank) ∧
      t.text.toList = c :: tail ∧ gap = mask front ∧ Y = tail ++ mask back := by
  have hc' : isAsciiBlank c = false := by
    by_contra hblank
    rw [Bool.not_eq_false] at hblank
    rw [isBlank_of_isAsciiBlank hblank] at hc
    cases hc
  obtain ⟨front, t, back, lead, tail, rfl, hvisible, htext, rfl, rfl⟩ := exists_token_of_mask h hc'
  have ht := hts t (by simp)
  have hlead : lead = [] := by
    cases lead with
    | nil => rfl
    | cons d lead =>
        -- a token with a blank at its front would be white space or that blank alone
        have hd : isBlank d = true := List.all_eq_true.mp hgap d (by simp)
        obtain ⟨_, e, w, rest, htext', hlex, -⟩ := Lexer.exists_tokensFrom_of_mem ht
        rw [htext] at htext'
        obtain ⟨rfl, rfl⟩ := List.cons.inj htext'
        by_cases hascii : isAsciiBlank d = true
        · rw [Lexer.isAsciiBlank_of_mem hlex hascii (by simp)] at hc'
          cases hc'
        · rw [Lexer.lexeme_of_isBlank hd (by simpa using hascii), Prod.mk.injEq] at hlex
          simp at hlex
  subst hlead
  rw [List.append_nil] at hgap
  refine ⟨front, t, back, tail, rfl, ?_, htext, List.append_nil _, rfl⟩
  exact (looksBlank_mask_iff fun u hu => hts u (by simp [hu])).mpr hgap

end Blank

end Lint

end SolidityTools

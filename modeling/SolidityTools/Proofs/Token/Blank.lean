import SolidityTools.Proofs.Token.Word

set_option autoImplicit false

/-! # Blanks between tokens

White space only separates tokens: which tokens follow a run of blanks does not depend on how the
run is cut (`visibleTokens_blanks_append`). No other token has a blank in it, strings and comments
apart, and a blank that does not separate tokens is a token of its own (`lexeme_of_isBlank`).
-/

namespace SolidityTools

open Text

/-- The tokens that are not white space, in source order. -/
def visibleTokens (tokens : List Token) : List Token := tokens.filter (·.kind != .whitespace)

theorem mem_visibleTokens {tokens : List Token} {t : Token} :
    t ∈ visibleTokens tokens ↔ t ∈ tokens ∧ t.kind ≠ .whitespace := by
  rw [visibleTokens, List.mem_filter, bne_iff_ne]

theorem visibleTokens_cons {t : Token} (ht : t.kind ≠ .whitespace) (ts : List Token) :
    visibleTokens (t :: ts) = t :: visibleTokens ts :=
  List.filter_cons_of_pos (bne_iff_ne.mpr ht)

theorem visibleTokens_whitespace {t : Token} (ht : t.kind = .whitespace) (ts : List Token) :
    visibleTokens (t :: ts) = visibleTokens ts :=
  List.filter_cons_of_neg (by simp [ht])

def opensGroup (ts : List Token) : Bool := ts.head?.any (·.isOperator "(")

namespace Lexer

/-! ## Runs of blanks -/

theorem take_runLength (p : Char → Bool) (cs : List Char) :
    cs.take (runLength p cs) = cs.takeWhile p :=
  (List.prefix_iff_eq_take.mp (List.takeWhile_prefix p)).symm

theorem drop_runLength (p : Char → Bool) (cs : List Char) :
    cs.drop (runLength p cs) = cs.dropWhile p := by
  have hcut : cs.takeWhile p ++ cs.drop (runLength p cs) = cs.takeWhile p ++ cs.dropWhile p := by
    rw [← take_runLength, List.take_append_drop, take_runLength, List.takeWhile_append_dropWhile]
  exact List.append_cancel_left hcut

/-- White space reaches from its first blank to the next character that is not blank. -/
theorem tokensFrom_blank (offset : Nat) {c : Char} (hc : isAsciiBlank c = true) (cs : List Char) :
    tokensFrom offset (c :: cs)
      = ⟨.whitespace, String.ofList (c :: cs.takeWhile isAsciiBlank), offset⟩
          :: tokensFrom (offset + byteLength (c :: cs.takeWhile isAsciiBlank))
              (cs.dropWhile isAsciiBlank) := by
  rw [tokensFrom_cons, lexeme_of_blank hc, take_runLength, drop_runLength]

/-- White space consists of blanks. -/
theorem all_isAsciiBlank_of_lexeme {c : Char} {cs : List Char} {n : Nat}
    (hlex : lexeme c cs = (.whitespace, n)) : (c :: cs.take n).all isAsciiBlank = true := by
  have hc : isAsciiBlank c = true := by
    by_contra hc
    rw [Bool.not_eq_true] at hc
    exact lexeme_ne_whitespace hc cs (by rw [hlex])
  rw [lexeme_of_blank hc, Prod.mk.injEq] at hlex
  rw [← hlex.2, take_runLength, List.all_cons, hc, List.all_takeWhile]
  rfl

theorem isAsciiBlank_of_mem {c : Char} {w rest : List Char} {kind : TokenKind}
    (hlex : lexeme c (w ++ rest) = (kind, w.length)) (hc : isAsciiBlank c = true) {e : Char}
    (he : e ∈ c :: w) : isAsciiBlank e = true := by
  have hspace := hlex
  rw [lexeme_of_blank hc, Prod.mk.injEq] at hspace
  rw [← hspace.1] at hlex
  have hall := all_isAsciiBlank_of_lexeme hlex
  rw [List.take_left] at hall
  exact List.all_eq_true.mp hall e he

/-- A blank in front of a text is passed over. -/
theorem visibleTokens_blank (offset : Nat) {c : Char} (hc : isAsciiBlank c = true)
    (cs : List Char) :
    visibleTokens (tokensFrom offset (c :: cs))
      = visibleTokens (tokensFrom (offset + c.utf8Size) cs) := by
  rw [tokensFrom_blank offset hc, visibleTokens_whitespace rfl]
  cases cs with
  | nil => simp [tokensFrom]
  | cons e cs =>
      by_cases he : isAsciiBlank e = true
      · -- the run goes on, and it ends at the same place
        rw [tokensFrom_blank _ he, visibleTokens_whitespace rfl, List.takeWhile_cons_of_pos he,
          List.dropWhile_cons_of_pos he, byteLength_cons, Nat.add_assoc]
      · rw [List.takeWhile_cons_of_neg he, List.dropWhile_cons_of_neg he]
        rfl

/-- Blanks in front of a text are passed over. -/
theorem visibleTokens_blanks_append (offset : Nat) {blanks : List Char}
    (hblanks : blanks.all isAsciiBlank = true) (cs : List Char) :
    visibleTokens (tokensFrom offset (blanks ++ cs))
      = visibleTokens (tokensFrom (offset + byteLength blanks) cs) := by
  induction blanks generalizing offset with
  | nil => rfl
  | cons c blanks ih =>
      rw [List.all_cons, Bool.and_eq_true] at hblanks
      rw [List.cons_append, visibleTokens_blank offset hblanks.1, ih _ hblanks.2, byteLength_cons,
        Nat.add_assoc]

/-! ## Argument lists -/

theorem opensCall_blank {c : Char} (hc : isAsciiBlank c = true) (cs : List Char) :
    opensCall (c :: cs) = opensCall cs := by
  rw [opensCall, opensCall, List.dropWhile_cons_of_pos hc]

/-- Whether an argument list begins is seen from the next token. -/
theorem opensCall_eq_opensGroup (offset : Nat) (cs : List Char) :
    opensCall cs = opensGroup (visibleTokens (tokensFrom offset cs)) := by
  induction cs generalizing offset with
  | nil => simp [opensCall, tokensFrom, visibleTokens, opensGroup]
  | cons c cs ih =>
      by_cases hc : isAsciiBlank c = true
      · rw [opensCall_blank hc, visibleTokens_blank offset hc, ih]
      · rw [Bool.not_eq_true] at hc
        rw [tokensFrom_cons, visibleTokens_cons (lexeme_ne_whitespace hc cs), opensCall, opensGroup,
          List.dropWhile_cons_of_neg (by simp [hc])]
        by_cases hparen : c = '('
        · subst hparen
          rw [lexeme_punctuation (by decide)]
          rfl
        · have htext : String.ofList (c :: cs.take (lexeme c cs).2) ≠ "(" := by
            intro htext
            have hlist := congrArg String.toList htext
            rw [String.toList_ofList] at hlist
            exact hparen (List.cons.inj hlist).1
          have hfirst : (some c == some '(') = false := by simpa using hparen
          rw [List.head?_cons, hfirst, List.head?_cons, Option.any_some, Token.isOperator,
            beq_eq_false_iff_ne.mpr htext, Bool.and_false]

/-! ## Other blanks -/

theorem operatorLength?_of_isBlank {c : Char} (hblank : isBlank c = true) (cs : List Char) :
    operatorLength? c cs = none := by
  have hlong : ∀ operator ∈ longOperators, operator ≠ [] ∧
      operator.all (!isBlank ·) = true := by decide
  have hnone : longOperators.find? (·.isPrefixOf (c :: cs)) = none := by
    rw [List.find?_eq_none]
    intro operator hop hfront
    obtain ⟨hne, hall⟩ := hlong operator hop
    obtain ⟨e, operator, rfl⟩ := List.exists_cons_of_ne_nil hne
    rw [List.isPrefixOf_iff_prefix, List.cons_prefix_cons] at hfront
    rw [hfront.1, List.all_cons, hblank] at hall
    cases hall
  have hshort : operatorCharacters.all (!isBlank ·) = true := by decide
  have hmem : ¬operatorCharacters.contains c = true := by
    intro hmem
    have hnot := List.all_eq_true.mp hshort c (List.contains_iff_mem.mp hmem)
    rw [hblank] at hnot
    cases hnot
  rw [operatorLength?, hnone]
  exact if_neg hmem

/-- A blank that does not separate tokens is a token of its own. -/
theorem lexeme_of_isBlank {c : Char} (hblank : isBlank c = true) (hc : isAsciiBlank c = false)
    (cs : List Char) : lexeme c cs = (.other, 0) := by
  have hne : ∀ e, isBlank e = false → c ≠ e := by
    rintro e he rfl
    rw [hblank] at he
    cases he
  have hslash : c ≠ '/' := hne '/' (by decide)
  have hdouble : c ≠ '"' := hne '"' (by decide)
  have hsingle : c ≠ '\'' := hne '\'' (by decide)
  have hdigit := not_isDigit_of_isInert (isInert_of_isNeutral (isNeutral_of_isBlank hblank))
  have hstart : ¬isWordStart c = true := by
    intro hstart
    have hpart := isWordPart_of_isWordStart hstart
    rw [isWordPart_eq_false_of_isBlank hblank] at hpart
    cases hpart
  have hcomment : commentLength? c cs = none := commentLength?_of_ne hslash
  have hstring : stringLength? c cs = none := by simp [stringLength?, hdouble, hsingle]
  have hnumber : numberLength? c cs = none := by simp [numberLength?, hdigit]
  have hword : word? c cs = none := if_neg hstart
  have hspace : whitespaceLength? c cs = none := by simp [whitespaceLength?, hc]
  exact (Scanned.other hcomment hstring hnumber hword (operatorLength?_of_isBlank hblank cs)
    hspace).lexeme_eq

/-- Apart from strings and comments, only words have behind their first character what neither a
number nor an operator goes on with. -/
theorem isWordStart_of_mem {c : Char} {w rest : List Char} {kind : TokenKind}
    (hlex : lexeme c (w ++ rest) = (kind, w.length)) (hc : isAsciiBlank c = false)
    (hcomment : kind ≠ .comment) (hstring : kind ≠ .string) {e : Char} (hinert : isInert e = true)
    (he : e ∈ w) : isWordStart c = true := by
  obtain ⟨u, v, rfl⟩ := List.append_of_mem he
  have hsplit : u ++ e :: v ++ rest = u ++ e :: (v ++ rest) := by simp
  have hscanned := scanned_lexeme c (u ++ e :: v ++ rest)
  rw [hlex] at hscanned
  generalize hn : (u ++ e :: v).length = n at hscanned
  have hlt : u.length < n := by
    rw [← hn, List.length_append, List.length_cons]
    omega
  cases hscanned with
  | comment => exact absurd rfl hcomment
  | string => exact absurd rfl hstring
  | number _ _ hnumber =>
      -- a number would end in front of the character
      obtain ⟨-, hlength⟩ := numberLength?_eq_some_iff.mp hnumber
      rw [hsplit, numberLength_append_cons c u _ hinert] at hlength
      have := numberLength_le c u
      omega
  | word _ _ _ hword => exact (word?_eq_some_iff.mp hword).1
  | operator _ _ _ _ hoperator =>
      rw [hsplit, operatorLength?_append_cons c u _ hinert] at hoperator
      have := operatorLength?_le hoperator
      omega
  | whitespace _ _ _ _ _ hspace => simp [whitespaceLength?, hc] at hspace
  | other => exact absurd hlt (Nat.not_lt_zero _)

/-- Apart from strings and comments, a token goes on behind its first character with word characters
and with what numbers and operators go on with. -/
theorem not_mem_of_isInert {c : Char} {w rest : List Char} {kind : TokenKind}
    (hlex : lexeme c (w ++ rest) = (kind, w.length)) (hc : isAsciiBlank c = false)
    (hcomment : kind ≠ .comment) (hstring : kind ≠ .string) {e : Char} (hinert : isInert e = true)
    (hpart : isWordPart e = false) : e ∉ w := by
  intro he
  have hstart := isWordStart_of_mem hlex hc hcomment hstring hinert he
  rw [List.all_eq_true.mp (runLength_of_lexeme hstart hlex).1 e he] at hpart
  cases hpart

/-- Apart from strings and comments, no token has a blank behind its first character. -/
theorem isBlank_eq_false_of_mem {c : Char} {w rest : List Char} {kind : TokenKind}
    (hlex : lexeme c (w ++ rest) = (kind, w.length)) (hc : isAsciiBlank c = false)
    (hcomment : kind ≠ .comment) (hstring : kind ≠ .string) {e : Char} (he : e ∈ w) :
    isBlank e = false := by
  by_contra hblank
  rw [Bool.not_eq_false] at hblank
  have hinert : isInert e = true := isInert_of_isNeutral (isNeutral_of_isBlank hblank)
  have hpart : isWordPart e = false := isWordPart_eq_false_of_isBlank hblank
  exact not_mem_of_isInert hlex hc hcomment hstring hinert hpart he

/-- Punctuation marks are no part of anything longer. -/
theorem inert_of_mem_punctuation {e : Char} (h : e ∈ punctuation) :
    isAsciiBlank e = false ∧ isInert e = true ∧ isWordPart e = false := by
  have hall : punctuation.all (fun e => !isAsciiBlank e && isInert e && !isWordPart e) = true := by
    decide
  simpa [and_assoc] using List.all_eq_true.mp hall e h

/-- **A punctuation mark is a token of its own**, unless it stands in a string or in a comment. -/
theorem eq_of_mem_punctuation {c : Char} {w rest : List Char} {kind : TokenKind}
    (hlex : lexeme c (w ++ rest) = (kind, w.length)) (hcomment : kind ≠ .comment)
    (hstring : kind ≠ .string) {e : Char} (hmark : e ∈ punctuation) (he : e ∈ c :: w) :
    c = e ∧ w = [] ∧ kind = .operator := by
  obtain ⟨hblank, hinert, hpart⟩ := inert_of_mem_punctuation hmark
  rcases List.mem_cons.mp he with rfl | he
  · rw [lexeme_punctuation hmark, Prod.mk.injEq] at hlex
    exact ⟨rfl, List.eq_nil_of_length_eq_zero hlex.2.symm, hlex.1.symm⟩
  · by_cases hc : isAsciiBlank c = true
    · rw [isAsciiBlank_of_mem hlex hc (List.mem_cons_of_mem c he)] at hblank
      cases hblank
    · rw [Bool.not_eq_true] at hc
      exact absurd he (not_mem_of_isInert hlex hc hcomment hstring hinert hpart)

end Lexer

end SolidityTools

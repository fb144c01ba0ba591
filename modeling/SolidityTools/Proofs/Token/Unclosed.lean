import SolidityTools.Proofs.Token.Reading

set_option autoImplicit false

/-! # Literals that are not closed

A string literal or a block comment without its closing delimiter runs to the end of the text, so a
token with another one behind it is closed (`isTerminated_of_mem_dropLast`). What it means to be
closed is said of the text behind the opening delimiter: for a string, that a quote stands in it
which no backslash takes (`ClosesString`); for a block comment, that a closing delimiter stands in
it at all.

Whether a token is terminated is decided from its two ends, by looking at the backslashes in front
of its last character. For the tokens that the lexer cuts this is the same
(`isTerminated_eq_false_iff`).
-/

namespace SolidityTools

open Text

/-! ## String literals -/

/-- The texts that may stand between the quotes of a string literal: no quote of its sort stands by
itself, and each backslash takes a character with it. -/
inductive Enclosed (quote : Char) : List Char → Prop
  | nil : Enclosed quote []
  | character {c : Char} {cs : List Char} (hquote : c ≠ quote) (hescape : c ≠ '\\')
      (h : Enclosed quote cs) : Enclosed quote (c :: cs)
  | escape {c : Char} {cs : List Char} (h : Enclosed quote cs) : Enclosed quote ('\\' :: c :: cs)

/-- Whether the text behind an opening quote has a closing one. -/
def ClosesString (quote : Char) (body : List Char) : Prop :=
  ∃ inner rest, Enclosed quote inner ∧ body = inner ++ quote :: rest

section Enclosed

variable {quote : Char} {inner body : List Char}

/-- The lexer passes what may stand between quotes. -/
theorem Enclosed.stringLength_append (h : Enclosed quote inner) (cs : List Char) :
    Lexer.stringLength quote (inner ++ cs) = inner.length + Lexer.stringLength quote cs := by
  induction h with
  | nil => simp
  | @character c inner hquote hescape _ ih =>
      rw [List.cons_append, Lexer.stringLength_cons_of_ne _ hescape, if_neg (by simpa using hquote),
        ih, List.length_cons]
      omega
  | @escape c inner _ ih =>
      rw [List.cons_append, List.cons_append, Lexer.stringLength, ih, List.length_cons,
        List.length_cons]
      omega

/-- The backslashes at the end of a text that may stand between quotes come in pairs. -/
theorem Enclosed.even_backslashes (h : Enclosed quote inner) :
    Lexer.runLength (· == '\\') inner.reverse % 2 = 0 := by
  induction h with
  | nil => rfl
  | @character c inner _ hescape _ ih =>
      rw [List.reverse_cons, Lexer.runLength_append_cons _ _ (by simpa using hescape)]
      exact ih
  | @escape c inner _ ih =>
      -- read from the end, the two characters stand behind what `inner` ends with
      by_cases hc : c = '\\'
      · subst hc
        rw [List.reverse_cons, List.reverse_cons, List.append_assoc]
        by_cases hall : inner.reverse.all (· == '\\') = true
        · -- the two new backslashes stand in front of nothing but backslashes
          rw [Lexer.runLength_append_of_all _ _ hall]
          have hrun := Lexer.runLength_append_of_all inner.reverse [] hall
          rw [List.append_nil] at hrun
          rw [hrun] at ih
          have htwo : Lexer.runLength (· == '\\') (['\\'] ++ ['\\']) = 2 := by decide
          have hnone : Lexer.runLength (· == '\\') [] = 0 := rfl
          omega
        · rw [Bool.not_eq_true] at hall
          rw [Lexer.runLength_append_congr _ [] _ hall, List.append_nil]
          exact ih
      · rw [List.reverse_cons, List.reverse_cons, List.append_assoc, List.singleton_append,
          Lexer.runLength_append_cons _ _ (by simpa using hc)]
        exact ih

/-- A text has a closing quote, or it may stand between quotes, perhaps but for a backslash at its
end. -/
theorem closesString_or_enclosed (quote : Char) (body : List Char) :
    ClosesString quote body ∨ Enclosed quote body ∨
      ∃ inner, Enclosed quote inner ∧ body = inner ++ ['\\'] := by
  fun_induction Lexer.stringLength quote body with
  | case1 => exact .inr (.inl .nil)
  | case2 => exact .inr (.inr ⟨[], .nil, rfl⟩)
  | case3 c cs ih =>
      rcases ih with ⟨inner, rest, henclosed, rfl⟩ | henclosed | ⟨inner, henclosed, rfl⟩
      · exact .inl ⟨_, rest, henclosed.escape, rfl⟩
      · exact .inr (.inl henclosed.escape)
      · exact .inr (.inr ⟨_, henclosed.escape, rfl⟩)
  | case4 c cs _ _ hc =>
      obtain rfl : c = quote := by simpa using hc
      exact .inl ⟨[], cs, .nil, rfl⟩
  | case5 c cs hone htwo hc ih =>
      have hquote : c ≠ quote := by simpa using hc
      have hescape : c ≠ '\\' := Lexer.ne_backslash hone htwo
      rcases ih with ⟨inner, rest, henclosed, rfl⟩ | henclosed | ⟨inner, henclosed, rfl⟩
      · exact .inl ⟨_, rest, henclosed.character hquote hescape, rfl⟩
      · exact .inr (.inl (henclosed.character hquote hescape))
      · exact .inr (.inr ⟨_, henclosed.character hquote hescape, rfl⟩)

/-- A string literal ends with its closing quote. -/
theorem Enclosed.stringLength_eq (h : Enclosed quote inner) (hquote : quote ≠ '\\')
    (rest : List Char) :
    Lexer.stringLength quote (inner ++ quote :: rest) = inner.length + 1 := by
  rw [h.stringLength_append, Lexer.stringLength_cons_of_ne _ hquote, if_pos (beq_self_eq_true quote)]

/-- Without a closing quote a string literal takes the whole text. -/
theorem stringLength_of_not_closesString (h : ¬ClosesString quote body) :
    Lexer.stringLength quote body = body.length := by
  rcases closesString_or_enclosed quote body with hcloses | henclosed | ⟨inner, henclosed, rfl⟩
  · exact absurd hcloses h
  · have := henclosed.stringLength_append []
    rwa [List.append_nil] at this
  · rw [henclosed.stringLength_append, List.length_append]
    rfl

/-- A text that may stand between quotes is closed by a quote behind it. -/
theorem Enclosed.closesString (h : Enclosed quote inner) :
    Token.closesString (quote :: (inner ++ [quote])) = true := by
  have := h.even_backslashes
  rw [Lexer.runLength] at this
  simp [Token.closesString, this]

/-- A literal that ends with its quote has a closing quote, if an even number of backslashes stands
before the last one. -/
theorem closesString_of_closed (h : Token.closesString (quote :: body) = true) :
    ClosesString quote body := by
  rcases List.eq_nil_or_concat' body with rfl | ⟨inner, last, rfl⟩
  · cases h
  · obtain ⟨rfl, heven⟩ : last = quote ∧
        Lexer.runLength (· == '\\') inner.reverse % 2 = 0 := by
      simpa [Token.closesString, Lexer.runLength] using h
    rcases closesString_or_enclosed last inner with ⟨front, rest, henclosed, rfl⟩ | henclosed |
      ⟨front, henclosed, rfl⟩
    · exact ⟨front, rest ++ [last], henclosed, by simp⟩
    · exact ⟨inner, [], henclosed, rfl⟩
    · -- one backslash more than an even number stands before the last character
      have hfront := henclosed.even_backslashes
      rw [List.reverse_append] at heven
      have hone := Lexer.runLength_append_of_all (p := (· == '\\')) ['\\'] front.reverse rfl
      rw [List.reverse_singleton, hone, List.length_singleton] at heven
      omega

end Enclosed

/-! ## Block comments -/

/-- A comment that ends with a closing delimiter contains it. -/
theorem infix_of_closesBlockComment {body : List Char}
    (h : Token.closesBlockComment ('/' :: '*' :: body) = true) : ['*', '/'] <:+: body := by
  rw [Token.closesBlockComment, Bool.and_eq_true] at h
  have hback := List.isPrefixOf_iff_prefix.mp h.2
  exact (List.reverse_prefix.mp (by simpa using hback)).isInfix

/-! ## Tokens -/

/-- A string literal or a block comment whose closing delimiter is missing. -/
inductive Token.Unclosed (t : Token) : Prop
  | string {quote : Char} {body : List Char} (hkind : t.kind = .string)
      (htext : t.text.toList = quote :: body) (hclosed : ¬ClosesString quote body)
  | blockComment {body : List Char} (hkind : t.kind = .comment)
      (htext : t.text.toList = '/' :: '*' :: body) (hclosed : ¬['*', '/'] <:+: body)

namespace Lexer

section FirstToken

variable {c : Char} {w rest body : List Char}

/-- A string literal is cut behind its closing quote, or it has none and takes all that is left. -/
theorem string_of_lexeme (h : lexeme c (w ++ rest) = (.string, w.length)) :
    (∃ inner, Enclosed c inner ∧ w = inner ++ [c]) ∨ (¬ClosesString c w ∧ rest = []) := by
  obtain ⟨hquote, hlength⟩ := stringLength_of_lexeme h
  have hc : c ≠ '\\' := by rcases hquote with rfl | rfl <;> decide
  by_cases hcloses : ClosesString c (w ++ rest)
  · obtain ⟨inner, behind, henclosed, hsplit⟩ := hcloses
    rw [hsplit, henclosed.stringLength_eq hc] at hlength
    have hcut : w ++ rest = (inner ++ [c]) ++ behind := by rw [hsplit]; simp
    obtain ⟨rfl, -⟩ := List.append_inj hcut (by simp [← hlength])
    exact .inl ⟨inner, henclosed, rfl⟩
  · rw [stringLength_of_not_closesString hcloses, List.length_append] at hlength
    obtain rfl : rest = [] := List.eq_nil_of_length_eq_zero (by omega)
    rw [List.append_nil] at hcloses
    exact .inr ⟨hcloses, rfl⟩

/-- A comment is a line comment, or a block comment that is cut behind its closing delimiter or has
none and takes all that is left. -/
theorem comment_of_lexeme (h : lexeme c (w ++ rest) = (.comment, w.length)) :
    c = '/' ∧ ((∃ body, w = '/' :: body) ∨ (∃ inner, w = '*' :: (inner ++ ['*', '/'])) ∨
      ∃ body, w = '*' :: body ∧ ¬['*', '/'] <:+: body ∧ rest = []) := by
  have hlength := commentLength?_of_lexeme h
  obtain ⟨rfl, ⟨body, rfl, -⟩ | ⟨body, rfl, hbody⟩⟩ :=
    commentLength?_append_eq_some_iff.mp hlength
  · exact ⟨rfl, .inl ⟨body, rfl⟩⟩
  · refine ⟨rfl, .inr ?_⟩
    rcases blockCommentLength_cases (body ++ rest) with ⟨inner, behind, hsplit, hcut⟩ |
      ⟨hnone, hall⟩
    · have hparts : body ++ rest = (inner ++ ['*', '/']) ++ behind := by rw [hsplit]; simp
      obtain ⟨rfl, -⟩ := List.append_inj hparts (by simp [← hbody, hsplit, hcut])
      exact .inl ⟨inner, rfl⟩
    · rw [hbody, List.length_append] at hall
      obtain rfl : rest = [] := List.eq_nil_of_length_eq_zero (by omega)
      rw [List.append_nil] at hnone
      exact .inr ⟨body, rfl, hnone, rfl⟩

/-- A first token is terminated, or its closing delimiter is missing and it takes all that is
left. -/
theorem terminated_or_unclosed {t : Token} (htext : t.text.toList = c :: w)
    (h : lexeme c (w ++ rest) = (t.kind, w.length)) :
    (t.isTerminated = true ∧ ¬t.Unclosed) ∨
      (t.isTerminated = false ∧ t.Unclosed ∧ rest = []) := by
  by_cases hstring : t.kind = .string
  · have hterminated : t.isTerminated = Token.closesString (c :: w) := by
      rw [Token.isTerminated, hstring, htext]
    rw [hstring] at h
    rcases string_of_lexeme h with ⟨inner, henclosed, rfl⟩ | ⟨hopen, hrest⟩
    · refine .inl ⟨hterminated.trans henclosed.closesString, fun hunclosed => ?_⟩
      cases hunclosed with
      | string _ htext' hopen =>
          obtain ⟨rfl, rfl⟩ := List.cons.inj (htext.symm.trans htext')
          exact hopen ⟨inner, [], henclosed, rfl⟩
      | blockComment hkind => rw [hstring] at hkind; cases hkind
    · refine .inr ⟨?_, .string hstring htext hopen, hrest⟩
      rw [hterminated, ← Bool.not_eq_true]
      exact fun hclosed => hopen (closesString_of_closed hclosed)
  · by_cases hcomment : t.kind = .comment
    · have hterminated : t.isTerminated = Token.closesBlockComment (c :: w) := by
        rw [Token.isTerminated, hcomment, htext]
      rw [hcomment] at h
      obtain ⟨rfl, ⟨body, rfl⟩ | ⟨inner, rfl⟩ | ⟨body, rfl, hopen, hrest⟩⟩ := comment_of_lexeme h
      · refine .inl ⟨hterminated, fun hunclosed => ?_⟩
        cases hunclosed with
        | string hkind => rw [hcomment] at hkind; cases hkind
        | blockComment _ htext' => rw [htext] at htext'; simp at htext'
      · refine .inl ⟨hterminated.trans (by simp [Token.closesBlockComment]), fun hunclosed => ?_⟩
        cases hunclosed with
        | string hkind => rw [hcomment] at hkind; cases hkind
        | blockComment _ htext' hopen =>
            obtain rfl : inner ++ ['*', '/'] = _ := by simpa [htext] using htext'
            exact hopen (List.suffix_append inner _).isInfix
      · refine .inr ⟨?_, .blockComment hcomment htext hopen, hrest⟩
        rw [hterminated, ← Bool.not_eq_true]
        exact fun hclosed => hopen (infix_of_closesBlockComment hclosed)
    · refine .inl ⟨?_, fun hunclosed => ?_⟩
      · rw [Token.isTerminated]
        split
        · contradiction
        · contradiction
        · rfl
      · cases hunclosed with
        | string hkind => exact hstring hkind
        | blockComment hkind => exact hcomment hkind

end FirstToken

variable {start : Nat} {cs : List Char} {t : Token}

/-- A token is terminated unless its closing delimiter is missing. -/
theorem isTerminated_eq_false_iff (h : t ∈ tokensFrom start cs) :
    t.isTerminated = false ↔ t.Unclosed := by
  obtain ⟨_, c, w, rest, htext, hlex, -⟩ := exists_tokensFrom_of_mem h
  rcases terminated_or_unclosed htext hlex with ⟨hterminated, hclosed⟩ | ⟨hterminated, hopen, -⟩
  · simp [hterminated, hclosed]
  · simp [hterminated, hopen]

theorem isTerminated_of_mem_dropLast (h : t ∈ (tokensFrom start cs).dropLast) :
    t.isTerminated = true := by
  obtain ⟨before, behind, hfront⟩ := List.append_of_mem h
  obtain ⟨last, hlast⟩ : ∃ last, (tokensFrom start cs).getLast? = some last := by
    cases htokens : tokensFrom start cs with
    | nil => simp [htokens] at h
    | cons u us => exact ⟨_, List.getLast?_cons⟩
  have hsplit : tokensFrom start cs = before ++ t :: (behind ++ [last]) := by
    rw [List.getLast?_eq_some_iff] at hlast
    obtain ⟨front, htokens⟩ := hlast
    rw [htokens, List.dropLast_concat] at hfront
    rw [htokens, hfront, List.append_assoc, List.cons_append]
  obtain ⟨c, w, rest, htext, hlex, hbehind⟩ := exists_of_tokensFrom_eq_append hsplit
  rcases terminated_or_unclosed htext hlex with ⟨hterminated, -⟩ | ⟨-, -, rfl⟩
  · exact hterminated
  · simp [tokensFrom] at hbehind

end Lexer

end SolidityTools

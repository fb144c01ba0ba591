import SolidityTools.Position
import SolidityTools.Proofs.Text.Line
import SolidityTools.Proofs.Token.Blank
import SolidityTools.Proofs.Token.Mapped

set_option autoImplicit false

/-! # Lines by themselves

The minimap cuts every line into tokens by itself, without regard to the lines around it. It finds
the tokens of the file that way if no comment and no string goes on over the end of a line: every
other scan stops at a line feed as it does at the end of a text. Only one thing is looked for behind
a line feed. An identifier at the end of its line names a function if the next token is an opening
parenthesis, and on the line by itself there is none (`SameLine`).
-/

namespace SolidityTools

open Text

namespace Lexer

/-! ## Comments in front of a line feed -/

/-- A block comment goes on to its closing delimiter or to the end of what is there. -/
theorem blockCommentLength_front (A B : List Char) :
    blockCommentLength A = min (blockCommentLength (A ++ '\n' :: B)) A.length := by
  fun_induction blockCommentLength A with
  | case1 => simp
  | case2 A => simp [blockCommentLength]
  | case3 c A hne ih =>
      have hstep : blockCommentLength (c :: A ++ '\n' :: B)
          = blockCommentLength (A ++ '\n' :: B) + 1 := by
        rw [List.cons_append, blockCommentLength.eq_def]
        split
        · next heq => cases heq
        · next heq =>
            -- the line feed is no part of a delimiter
            obtain ⟨rfl, hA⟩ := List.cons.inj heq
            cases A with
            | nil => cases hA
            | cons d A =>
                obtain ⟨rfl, -⟩ := List.cons.inj hA
                exact absurd rfl (hne _ rfl)
        · next heq =>
            obtain ⟨-, rfl⟩ := List.cons.inj heq
            rfl
      rw [hstep, ih, List.length_cons]
      omega

/-- A comment that begins in front of a line feed does so without the text behind. -/
theorem commentLength?_front {c : Char} {A B : List Char} {n : Nat}
    (h : commentLength? c (A ++ '\n' :: B) = some n) :
    commentLength? c A = some (min n A.length) := by
  obtain ⟨rfl, hbody⟩ := commentLength?_eq_some_iff.mp h
  cases A with
  | nil => simp at hbody
  | cons d A =>
      simp only [List.cons_append, List.cons.injEq] at hbody
      rw [commentLength?_eq_some_iff, List.length_cons]
      rcases hbody with ⟨body, ⟨rfl, rfl⟩, rfl⟩ | ⟨body, ⟨rfl, rfl⟩, rfl⟩
      · have hrun : runLength (· != '\n') (A ++ '\n' :: B) = runLength (· != '\n') A :=
          runLength_append_cons A B (by decide)
        have hle := runLength_le (· != '\n') A
        exact ⟨rfl, .inl ⟨A, rfl, by omega⟩⟩
      · have hfront := blockCommentLength_front A B
        exact ⟨rfl, .inr ⟨A, rfl, by omega⟩⟩

/-! ## Tokens in front of a line feed -/

/-- Behind blanks, a text opens an argument list or not whatever stood in front of them. -/
theorem opensCall_append_of_all {blanks : List Char} (h : blanks.all isAsciiBlank = true)
    (X : List Char) : opensCall (blanks ++ X) = opensCall X := by
  induction blanks with
  | nil => rfl
  | cons c blanks ih =>
      rw [List.all_cons, Bool.and_eq_true] at h
      rw [List.cons_append, opensCall_blank h.1, ih h.2]

theorem opensCall_append_of_not_all {cs : List Char} (h : cs.all isAsciiBlank = false)
    (X : List Char) : opensCall (cs ++ X) = opensCall cs := by
  induction cs with
  | nil => cases h
  | cons c cs ih =>
      by_cases hc : isAsciiBlank c = true
      · rw [List.all_cons, hc, Bool.true_and] at h
        rw [List.cons_append, opensCall_blank hc, opensCall_blank hc, ih h]
      · simp [opensCall, hc]

/-- How the text behind a line feed makes a function of a word. -/
theorem wordKind_line (word cs X : List Char) :
    wordKind word cs = wordKind word (cs ++ X) ∨
      wordKind word cs = .identifier ∧ wordKind word (cs ++ X) = .function ∧
        cs.all isAsciiBlank = true := by
  by_cases hall : cs.all isAsciiBlank = true
  · have hcall : opensCall cs = false := by
      have hblank := opensCall_append_of_all hall []
      rwa [List.append_nil] at hblank
    simp only [wordKind, hcall, opensCall_append_of_all hall]
    split
    · exact Or.inl rfl
    · split
      · exact Or.inl rfl
      · cases opensCall X with
        | true => exact Or.inr ⟨rfl, rfl, hall⟩
        | false => exact Or.inl rfl
  · rw [Bool.not_eq_true] at hall
    refine Or.inl ?_
    rw [wordKind, wordKind, opensCall_append_of_not_all hall]

/-- A token that ends in front of a line feed is the same without the text behind, except that a
word at the end of the text is then no function. -/
theorem exists_lexeme_line {c : Char} {w A B : List Char} {kind : TokenKind}
    (hc : isAsciiBlank c = false) (hlex : lexeme c (w ++ (A ++ '\n' :: B)) = (kind, w.length)) :
    ∃ kind', lexeme c (w ++ A) = (kind', w.length) ∧ (kind' = kind ∨
      kind' = .identifier ∧ kind = .function ∧ A.all isAsciiBlank = true) := by
  by_cases hk : kind = .comment
  · subst hk
    have hcomment := commentLength?_of_lexeme hlex
    rw [← List.append_assoc] at hcomment
    have hline := commentLength?_front hcomment
    rw [List.length_append, Nat.min_eq_left (Nat.le_add_right _ _)] at hline
    exact ⟨.comment, (Scanned.comment hline).lexeme_eq, Or.inl rfl⟩
  · have hparts : Parts ('\n' :: B) [] :=
      .here (List.cons_ne_nil _ _) (by simp; decide) (by simp)
    obtain ⟨kind', hlex', hkind⟩ := (hparts.append_left A).exists_lexeme hc hk hlex
    rw [List.append_nil] at hlex' hkind
    refine ⟨kind', hlex', ?_⟩
    rcases hkind with ⟨rfl, -⟩ | ⟨rfl, rfl⟩
    · exact Or.inl rfl
    · exact wordKind_line _ A _

/-- No token but a comment or a string goes on over the end of a line. -/
theorem newline_notMem_of_lexeme {c : Char} {w rest : List Char} {kind : TokenKind}
    (hc : isAsciiBlank c = false) (hlex : lexeme c (w ++ rest) = (kind, w.length))
    (hliteral : kind = .comment ∨ kind = .string → '\n' ∉ c :: w) : '\n' ∉ c :: w := by
  by_cases hkind : kind = .comment ∨ kind = .string
  · exact hliteral hkind
  · rw [not_or] at hkind
    intro hmem
    rcases List.mem_cons.mp hmem with rfl | hmem
    · exact absurd hc (by decide)
    · have hblank := isBlank_eq_false_of_mem hlex hc hkind.1 hkind.2 hmem
      exact absurd hblank (by decide)

end Lexer

/-! ## Tokens of a line -/

/-- The tokens of a line by itself, and those of the file on that line. The last one may be an
identifier here and a function there, and otherwise they are the same. -/
inductive SameLine : List Token → List Token → Prop
  | same (ts : List Token) : SameLine ts ts
  | call (front : List Token) {name : Token} (h : name.kind = .identifier) :
      SameLine (front ++ [name]) (front ++ [{ name with kind := .function }])

namespace SameLine

variable {ts us : List Token}

theorem cons (t : Token) (h : SameLine ts us) : SameLine (t :: ts) (t :: us) := by
  cases h with
  | same => exact .same (t :: ts)
  | call front hname => exact .call (t :: front) hname

theorem length_eq (h : SameLine ts us) : us.length = ts.length := by
  cases h with
  | same => rfl
  | call => simp

theorem eq_nil (h : SameLine [] us) : us = [] := List.eq_nil_of_length_eq_zero h.length_eq

/-- Comments are not looked at. -/
theorem significantTokens (h : SameLine ts us) :
    SameLine (significantTokens ts) (significantTokens us) := by
  cases h with
  | same => exact .same _
  | @call front name hname =>
      have hlast : ∀ t : Token, t.kind = .identifier ∨ t.kind = .function →
          SolidityTools.significantTokens (front ++ [t])
            = SolidityTools.significantTokens front ++ [t] := by
        intro t ht
        have htrivia : t.isTrivia = false := by
          rcases ht with ht | ht <;> simp [Token.isTrivia, ht]
        rw [SolidityTools.significantTokens, List.filter_append,
          List.filter_cons_of_pos (by simp [htrivia])]
        rfl
      rw [hlast _ (Or.inl hname), hlast _ (Or.inr rfl)]
      exact .call _ hname

end SameLine

/-- No comment and no string goes on over the end of a line. -/
def LiteralsOnLines (tokens : List Token) : Prop :=
  ∀ t ∈ tokens, t.kind = .comment ∨ t.kind = .string → '\n' ∉ t.text.toList

namespace Lexer

theorem significantTokens_visibleTokens (ts : List Token) :
    significantTokens (visibleTokens ts) = significantTokens ts := by
  rw [significantTokens, significantTokens, visibleTokens, List.filter_filter]
  refine List.filter_congr fun t _ => ?_
  cases hkind : t.kind <;> simp [Token.isTrivia, hkind]

/-- A blank in front of a text is passed over. -/
theorem significantTokens_blank (offset : Nat) {c : Char} (hc : isAsciiBlank c = true)
    (cs : List Char) :
    significantTokens (tokensFrom offset (c :: cs))
      = significantTokens (tokensFrom (offset + c.utf8Size) cs) := by
  rw [← significantTokens_visibleTokens, visibleTokens_blank offset hc,
    significantTokens_visibleTokens]

/-- Blanks in front of a text are passed over. -/
theorem significantTokens_blanks_append (offset : Nat) {blanks : List Char}
    (hblanks : blanks.all isAsciiBlank = true) (cs : List Char) :
    significantTokens (tokensFrom offset (blanks ++ cs))
      = significantTokens (tokensFrom (offset + byteLength blanks) cs) := by
  rw [← significantTokens_visibleTokens, visibleTokens_blanks_append offset hblanks,
    significantTokens_visibleTokens]

/-- A comment is passed over. -/
theorem significantTokens_comment {t : Token} (ht : t.kind = .comment) (ts : List Token) :
    significantTokens (t :: ts) = significantTokens ts :=
  List.filter_cons_of_neg (by simp [Token.isTrivia, ht])

theorem significantTokens_token {offset : Nat} {c : Char} {w rest : List Char} {kind : TokenKind}
    (htrivia : Token.isTrivia ⟨kind, String.ofList (c :: w), offset⟩ = false)
    (hlex : lexeme c (w ++ rest) = (kind, w.length)) :
    significantTokens (tokensFrom offset (c :: (w ++ rest)))
      = ⟨kind, String.ofList (c :: w), offset⟩
          :: significantTokens (tokensFrom (offset + byteLength (c :: w)) rest) := by
  rw [tokensFrom_append hlex]
  exact List.filter_cons_of_pos (by rw [htrivia]; rfl)

/-- White space only is no token that can be seen. -/
theorem visibleTokens_of_all (offset : Nat) {blanks : List Char}
    (h : blanks.all isAsciiBlank = true) : visibleTokens (tokensFrom offset blanks) = [] := by
  have hblanks := visibleTokens_blanks_append offset h []
  rw [List.append_nil] at hblanks
  rw [hblanks]
  simp [tokensFrom, visibleTokens]

/-- **A line by itself.** The tokens in front of a line feed are those of the text in front of it.
The induction is on the length of that text, of which each token takes something off. -/
theorem exists_visibleTokens_line {offset : Nat} {line rest : List Char} (hline : '\n' ∉ line)
    (hliterals : LiteralsOnLines (visibleTokens (tokensFrom offset (line ++ '\n' :: rest)))) :
    ∃ row, visibleTokens (tokensFrom offset (line ++ '\n' :: rest))
        = row ++ visibleTokens (tokensFrom (offset + byteLength line + 1) rest) ∧
      SameLine (visibleTokens (tokensFrom offset line)) row := by
  induction hn : line.length using Nat.strongRecOn generalizing offset line with
  | _ n ih =>
      cases line with
      | nil =>
          refine ⟨[], ?_, ?_⟩
          · rw [List.nil_append, visibleTokens_blank offset (by decide)]
            rfl
          · rw [visibleTokens_of_all offset rfl]
            exact .same []
      | cons c line =>
          rw [List.mem_cons, not_or] at hline
          rw [List.cons_append] at hliterals ⊢
          rw [List.length_cons] at hn
          by_cases hc : isAsciiBlank c = true
          · rw [visibleTokens_blank offset hc] at hliterals ⊢
            rw [visibleTokens_blank offset hc, byteLength_cons, ← Nat.add_assoc]
            exact ih line.length (by omega) hline.2 hliterals rfl
          · rw [Bool.not_eq_true] at hc
            obtain ⟨kind, w, behind, hcut, hlex⟩ := exists_lexeme c (line ++ '\n' :: rest)
            have hspace : kind ≠ .whitespace := by
              have hspace := lexeme_ne_whitespace hc (w ++ behind)
              rwa [hlex] at hspace
            rw [hcut, tokensFrom_append hlex, visibleTokens_cons hspace] at hliterals ⊢
            have hfeed := newline_notMem_of_lexeme hc hlex fun hliteral => by
              simpa using hliterals _ List.mem_cons_self hliteral
            obtain ⟨A, rfl, rfl⟩ := exists_append_of_notMem hcut fun hmem =>
              hfeed (List.mem_cons_of_mem c hmem)
            rw [List.length_append] at hn
            obtain ⟨row, hrow, hsame⟩ := ih A.length (by omega)
              (fun hmem => hline.2 (List.mem_append_right w hmem))
              (fun t ht => hliterals t (List.mem_cons_of_mem _ ht)) rfl
            obtain ⟨kind', hlex', hkind⟩ := exists_lexeme_line hc hlex
            have hspace' : kind' ≠ .whitespace := by
              rcases hkind with rfl | ⟨rfl, -, -⟩
              · exact hspace
              · decide
            have hlength : offset + byteLength (c :: w) + byteLength A
                = offset + byteLength (c :: (w ++ A)) := by
              rw [← List.cons_append, byteLength_append, Nat.add_assoc]
            refine ⟨⟨kind, String.ofList (c :: w), offset⟩ :: row, ?_, ?_⟩
            · rw [hrow, hlength, List.cons_append]
            · rw [tokensFrom_append hlex', visibleTokens_cons hspace']
              rcases hkind with rfl | ⟨rfl, rfl, hblank⟩
              · exact hsame.cons _
              · -- nothing else is on the line
                rw [visibleTokens_of_all _ hblank] at hsame ⊢
                rw [hsame.eq_nil]
                exact .call [] rfl

/-- A text at another place has its tokens at other places. -/
theorem tokensFrom_add (offset start : Nat) (cs : List Char) :
    tokensFrom (offset + start) cs = (tokensFrom start cs).map (Token.moved (offset + ·)) := by
  induction hn : cs.length using Nat.strongRecOn generalizing start cs with
  | _ n ih =>
      cases cs with
      | nil => simp [tokensFrom]
      | cons c cs =>
          rw [tokensFrom_cons, tokensFrom_cons, List.map_cons, Nat.add_assoc,
            ih _ (hn ▸ length_drop_lexeme_lt c cs) _ _ rfl]
          rfl

end Lexer

open Lexer

/-- The significant tokens of some lines, each line cut into tokens by itself. The tokens have the
places that they have in a text in which the lines follow one another, the first one at an offset.
-/
def lineTokens (offset : Nat) : List String → List (List Token)
  | [] => []
  | line :: lines =>
    (tokenizeSignificant line).map (Token.moved (offset + ·)) ::
      lineTokens (offset + byteLength line.toList + 1) lines

theorem lineTokens_cons (offset : Nat) (line : List Char) (lines : List (List Char)) :
    lineTokens offset ((line :: lines).map String.ofList)
      = significantTokens (tokensFrom offset line) ::
          lineTokens (offset + byteLength line + 1) (lines.map String.ofList) := by
  rw [List.map_cons, lineTokens, tokenizeSignificant, tokenize, String.toList_ofList,
    ← significantTokens_map (Token.keepsCode_moved _), ← tokensFrom_add, Nat.add_zero]

/-- The lines of a text have its tokens, wherever it stands. -/
theorem exists_rows {lines : List (List Char)} (hne : lines ≠ [])
    (hlines : ∀ line ∈ lines, '\n' ∉ line) {offset : Nat}
    (hliterals : LiteralsOnLines (visibleTokens (tokensFrom offset (joinLines lines)))) :
    ∃ rows, significantTokens (tokensFrom offset (joinLines lines)) = rows.flatten ∧
      List.Forall₂ SameLine (lineTokens offset (lines.map String.ofList)) rows := by
  induction lines generalizing offset with
  | nil => exact absurd rfl hne
  | cons line lines ih =>
      rw [lineTokens_cons]
      cases lines with
      | nil => exact ⟨[_], by rw [List.flatten_singleton]; rfl, .cons (.same _) .nil⟩
      | cons next lines =>
          have hjoin : joinLines (line :: next :: lines)
              = line ++ '\n' :: joinLines (next :: lines) := rfl
          rw [hjoin] at hliterals ⊢
          obtain ⟨row, hrow, hsame⟩ :=
            exists_visibleTokens_line (hlines line List.mem_cons_self) hliterals
          rw [hrow] at hliterals
          obtain ⟨rows, hrows, hall⟩ := ih (List.cons_ne_nil _ _)
            (fun l hl => hlines l (List.mem_cons_of_mem line hl))
            (fun t ht => hliterals t (List.mem_append_right row ht))
          refine ⟨significantTokens row :: rows, ?_, .cons ?_ hall⟩
          · rw [← significantTokens_visibleTokens, hrow, List.flatten_cons, ← hrows,
              ← significantTokens_visibleTokens (tokensFrom _ (joinLines (next :: lines))),
              significantTokens, List.filter_append]
            rfl
          · rw [← significantTokens_visibleTokens]
            exact hsame.significantTokens

/-- **Lines have the tokens of the file.** If no comment and no string of a source goes on over the
end of a line, then the significant tokens of its lines, each line cut into tokens by itself, are in
order those of the source: with the same texts, at the same places, and of the same kinds, except
that an identifier at the end of its line may be a function in the source. -/
theorem tokenizeSignificant_lines (source : String) (h : LiteralsOnLines (tokenize source)) :
    ∃ rows, tokenizeSignificant source = rows.flatten ∧
      List.Forall₂ SameLine (lineTokens 0 (sourceLines source)) rows := by
  have hrows := @exists_rows (splitLines source.toList) (splitLines_ne_nil _)
    (fun line hline => newline_not_mem_of_mem_splitLines hline) 0
  rw [joinLines_splitLines] at hrows
  exact hrows fun t ht => h t (mem_visibleTokens.mp ht).1

/-- Two lines with identifiers at their ends, of which the second one is called. -/
theorem tokenizeSignificant_lines_call :
    LiteralsOnLines (tokenize "f // (\n(x) = \"\\\"\" + g\t\n\n (/* y */ 1e\n5)") ∧
      ∃ rows, tokenizeSignificant "f // (\n(x) = \"\\\"\" + g\t\n\n (/* y */ 1e\n5)" = rows.flatten ∧
        List.Forall₂ SameLine
          (lineTokens 0 (sourceLines "f // (\n(x) = \"\\\"\" + g\t\n\n (/* y */ 1e\n5)")) rows := by
  have h : LiteralsOnLines (tokenize "f // (\n(x) = \"\\\"\" + g\t\n\n (/* y */ 1e\n5)") := by
    unfold LiteralsOnLines
    decide +kernel
  exact ⟨h, tokenizeSignificant_lines _ h⟩

end SolidityTools

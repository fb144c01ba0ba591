import SolidityTools.Proofs.Token.Tiling
import SolidityTools.Proofs.Token.Lookahead
import Mathlib.Data.List.Basic

set_option autoImplicit false

/-! # Reading off the significant tokens

Layout does not keep the places of tokens, so texts are compared by the *shapes* of their
significant tokens: kind and text. `shapes` reads them off directly. It passes white space one
character at a time, which is what makes it insensitive to a cut in the middle of a run of
blanks; `map_shape_significantTokens` says that the lexer agrees.

`Reads offset cs tokens` takes the same reading apart: each significant token with the *gap* of
white space and closed comments in front of it. A gap can be read past whatever follows it
(`shapes_gap_append`), and what begins in the middle of a gap's last line is again a gap
(`Gap.of_append`).
-/

namespace SolidityTools

open Text

/-! ## Shapes -/

namespace Token

/-- What a token is, apart from its place. -/
def shape (t : Token) : TokenKind × String := (t.kind, t.text)

theorem isOperator_iff {t : Token} {text : String} :
    t.isOperator text = true ↔ t.shape = (.operator, text) := by
  rw [isOperator, Bool.and_eq_true, beq_iff_eq, beq_iff_eq, shape, Prod.mk.injEq]

theorem isKeyword_iff {t : Token} {text : String} :
    t.isKeyword text = true ↔ t.shape = (.keyword, text) := by
  rw [isKeyword, Bool.and_eq_true, beq_iff_eq, beq_iff_eq, shape, Prod.mk.injEq]

theorem kind_of_isOperator {t : Token} {text : String} (h : t.isOperator text = true) :
    t.kind = .operator :=
  congrArg Prod.fst (isOperator_iff.mp h)

theorem kind_of_isKeyword {t : Token} {text : String} (h : t.isKeyword text = true) :
    t.kind = .keyword :=
  congrArg Prod.fst (isKeyword_iff.mp h)

theorem isOperator_eq_decide (t : Token) (text : String) :
    t.isOperator text = decide (t.shape = (.operator, text)) := by
  rw [Bool.eq_iff_iff, isOperator_iff, decide_eq_true_iff]

theorem isKeyword_eq_decide (t : Token) (text : String) :
    t.isKeyword text = decide (t.shape = (.keyword, text)) := by
  rw [Bool.eq_iff_iff, isKeyword_iff, decide_eq_true_iff]

theorem shape_of_isOperator {t : Token} {text : String} (h : t.isOperator text = true) :
    t.shape = (.operator, text) :=
  isOperator_iff.mp h

theorem isOperator_congr {t u : Token} (h : t.shape = u.shape) (text : String) :
    t.isOperator text = u.isOperator text := by
  rw [isOperator_eq_decide, isOperator_eq_decide, h]

theorem isKeyword_congr {t u : Token} (h : t.shape = u.shape) (text : String) :
    t.isKeyword text = u.isKeyword text := by
  rw [isKeyword_eq_decide, isKeyword_eq_decide, h]

theorem text_of_isOperator {t : Token} {text : String} (h : t.isOperator text = true) :
    t.text = text :=
  congrArg Prod.snd (shape_of_isOperator h)

theorem isWord_eq_false_of_kind {t : Token} (h : t.kind = .operator) : t.isWord = false := by
  rw [isWord, h]
  rfl

theorem kind_ne_operator_of_isWord {t : Token} (h : t.isWord = true) : t.kind ≠ .operator := by
  intro hkind
  rw [isWord_eq_false_of_kind hkind] at h
  cases h

theorem isOperator_of_isWord {t : Token} (h : t.isWord = true) (text : String) :
    t.isOperator text = false := by
  simp [isOperator, kind_ne_operator_of_isWord h]

theorem isTrivia_of_isWord {t : Token} (h : t.isWord = true) : t.isTrivia = false := by
  cases hkind : t.kind <;> simp_all [isWord, isTrivia]

theorem toList_of_isOperator {t : Token} {c : Char}
    (h : t.isOperator (String.ofList [c]) = true) : t.text.toList = [c] := by
  rw [text_of_isOperator h, String.toList_ofList]

theorem ne_of_isOperator {t u : Token} {c e : Char} (ht : t.isOperator (String.ofList [c]) = true)
    (hu : u.isOperator (String.ofList [e]) = true) (hne : c ≠ e) : t ≠ u := by
  rintro rfl
  have htexts : [c] = [e] := (toList_of_isOperator ht).symm.trans (toList_of_isOperator hu)
  exact hne (List.cons.inj htexts).1

end Token

namespace Lexer

/-! ## Blanks and other first characters -/

/-- A blank begins white space. -/
theorem lexeme_of_blank {c : Char} (hc : isAsciiBlank c = true) (cs : List Char) :
    lexeme c cs = (.whitespace, runLength isAsciiBlank cs) := by
  have hcases : c = ' ' ∨ c = '\t' ∨ c = '\n' ∨ c = '\x0c' ∨ c = '\r' := by
    simpa [isAsciiBlank, or_assoc] using hc
  have hcomment : commentLength? c cs = none := commentLength?_of_ne (by
    rintro rfl
    simp at hcases)
  have hstring : stringLength? c cs = none := by
    rcases hcases with rfl | rfl | rfl | rfl | rfl <;> rfl
  have hnumber : numberLength? c cs = none := by
    rcases hcases with rfl | rfl | rfl | rfl | rfl <;> rfl
  have hword : word? c cs = none := by
    rcases hcases with rfl | rfl | rfl | rfl | rfl <;> rfl
  have hoperator : operatorLength? c cs = none := by
    rcases hcases with rfl | rfl | rfl | rfl | rfl <;> rfl
  exact (Scanned.whitespace hcomment hstring hnumber hword hoperator
    (by rw [whitespaceLength?, if_pos hc])).lexeme_eq

/-- A word is a keyword, a type or an identifier. -/
theorem wordKind_cases (word behind : List Char) :
    wordKind word behind = .keyword ∨ wordKind word behind = .type ∨
      wordKind word behind = .function ∨ wordKind word behind = .identifier := by
  simp only [wordKind]
  split
  · exact Or.inl rfl
  · split
    · exact Or.inr (Or.inl rfl)
    · split
      · exact Or.inr (Or.inr (Or.inl rfl))
      · exact Or.inr (Or.inr (Or.inr rfl))

theorem isWord_wordKind (word behind : List Char) (text : String) (start : Nat) :
    Token.isWord ⟨wordKind word behind, text, start⟩ = true := by
  rw [Token.isWord]
  rcases wordKind_cases word behind with h | h | h | h <;> simp [h]

theorem word?_kind_cases {c : Char} {cs : List Char} {kind : TokenKind} {n : Nat}
    (h : word? c cs = some (kind, n)) :
    kind = .keyword ∨ kind = .type ∨ kind = .function ∨ kind = .identifier := by
  obtain ⟨-, rfl, -⟩ := word?_eq_some_iff.mp h
  exact wordKind_cases _ _

/-- What is not blank begins something else than white space. -/
theorem lexeme_ne_whitespace {c : Char} (hc : isAsciiBlank c = false) (cs : List Char) :
    (lexeme c cs).1 ≠ .whitespace := by
  have hscanned := scanned_lexeme c cs
  generalize (lexeme c cs).1 = kind at *
  generalize (lexeme c cs).2 = n at *
  cases hscanned with
  | word _ _ _ h => rcases word?_kind_cases h with hk | hk | hk | hk <;> simp [hk]
  | whitespace _ _ _ _ _ h => simp [whitespaceLength?, hc] at h
  | comment => simp
  | string => simp
  | number => simp
  | operator => simp
  | other => simp

/-! ## Shapes -/

/-- The kinds and texts of the significant tokens of a text. -/
def shapes : List Char → List (TokenKind × String)
  | [] => []
  | c :: cs =>
    if isAsciiBlank c then shapes cs
    else
      let (kind, n) := lexeme c cs
      let rest := shapes (cs.drop n)
      if kind = .comment then rest else (kind, String.ofList (c :: cs.take n)) :: rest
termination_by cs => cs.length
decreasing_by
  · simp
  · simp only [List.length_drop, List.length_cons]
    omega

@[simp] theorem shapes_nil : shapes [] = [] := by
  rw [shapes]

theorem shapes_blank {c : Char} (hc : isAsciiBlank c = true) (cs : List Char) :
    shapes (c :: cs) = shapes cs := by
  rw [shapes, if_pos hc]

/-- A comment is passed over. -/
theorem shapes_comment {c : Char} {w rest : List Char} (hc : isAsciiBlank c = false)
    (h : lexeme c (w ++ rest) = (.comment, w.length)) :
    shapes (c :: (w ++ rest)) = shapes rest := by
  rw [shapes, h]
  simp [hc]

/-- A significant token comes first. -/
theorem shapes_token {c : Char} {w rest : List Char} {kind : TokenKind}
    (hc : isAsciiBlank c = false) (hk : kind ≠ .comment)
    (h : lexeme c (w ++ rest) = (kind, w.length)) :
    shapes (c :: (w ++ rest)) = (kind, String.ofList (c :: w)) :: shapes rest := by
  rw [shapes, h]
  simp [hc, hk]

/-! ## Gaps -/

/-- White space and comments between two significant tokens. Every comment in a gap is closed: a
line comment by the line feed behind it, a block comment by its own delimiter. -/
inductive Gap : List Char → Prop
  | nil : Gap []
  | blank {c : Char} {cs : List Char} (hc : isAsciiBlank c = true) (h : Gap cs) : Gap (c :: cs)
  | line {body cs : List Char} (hbody : '\n' ∉ body) (h : Gap ('\n' :: cs)) :
      Gap ('/' :: '/' :: (body ++ '\n' :: cs))
  | block {inner cs : List Char}
      (hinner : ∀ X, blockCommentLength (inner ++ '*' :: '/' :: X) = inner.length + 2)
      (h : Gap cs) : Gap ('/' :: '*' :: (inner ++ '*' :: '/' :: cs))

/-- A block comment ends with the first closing delimiter, whatever stands behind it, and takes the
whole text if there is none. -/
theorem blockCommentLength_cases (cs : List Char) :
    (∃ inner rest, cs = inner ++ '*' :: '/' :: rest ∧
      ∀ X, blockCommentLength (inner ++ '*' :: '/' :: X) = inner.length + 2) ∨
    (¬['*', '/'] <:+: cs ∧ blockCommentLength cs = cs.length) := by
  fun_induction blockCommentLength cs with
  | case1 => exact .inr ⟨by simp, rfl⟩
  | case2 cs => exact .inl ⟨[], cs, rfl, fun X => rfl⟩
  | case3 c cs hne ih =>
      rcases ih with ⟨inner, rest, rfl, hinner⟩ | ⟨hnone, hlength⟩
      · refine .inl ⟨c :: inner, rest, rfl, fun X => ?_⟩
        rw [List.cons_append, blockCommentLength.eq_def]
        split
        · next heq => cases heq
        · next heq =>
            -- the first character and the next one would have closed the comment already
            obtain ⟨rfl, hrest⟩ := List.cons.inj heq
            cases inner with
            | nil => cases hrest
            | cons e inner =>
                obtain ⟨rfl, -⟩ := List.cons.inj hrest
                exact absurd rfl (hne _ rfl)
        · next heq =>
            obtain ⟨-, rfl⟩ := List.cons.inj heq
            rw [hinner, List.length_cons]
      · refine .inr ⟨fun hinfix => ?_, by rw [hlength, List.length_cons]⟩
        rcases List.infix_cons_iff.mp hinfix with ⟨rest, heq⟩ | hinfix
        · obtain ⟨rfl, rfl⟩ := List.cons.inj heq
          exact hne rest rfl rfl
        · exact hnone hinfix

theorem lexeme_lineComment_append {body X : List Char} (hbody : '\n' ∉ body)
    (hX : runLength (· != '\n') X = 0) :
    lexeme '/' (('/' :: body) ++ X) = (.comment, ('/' :: body).length) := by
  have hall : body.all (· != '\n') = true := by
    simpa using fun c hc (heq : c = '\n') => hbody (heq ▸ hc)
  refine (Scanned.comment ?_).lexeme_eq
  rw [List.cons_append, commentLength?, runLength_append_of_all body X hall, hX, List.length_cons]

theorem lexeme_lineComment {body : List Char} (hbody : '\n' ∉ body) (X : List Char) :
    lexeme '/' (('/' :: body) ++ '\n' :: X) = (.comment, ('/' :: body).length) :=
  lexeme_lineComment_append hbody (by simp [runLength])

/-- A block comment ends with its closing delimiter. -/
theorem lexeme_blockComment {inner : List Char}
    (hinner : ∀ X, blockCommentLength (inner ++ '*' :: '/' :: X) = inner.length + 2)
    (X : List Char) : lexeme '/' (('*' :: (inner ++ ['*', '/'])) ++ X)
      = (.comment, ('*' :: (inner ++ ['*', '/'])).length) := by
  refine (Scanned.comment ?_).lexeme_eq
  have := hinner X
  simp only [List.cons_append, List.append_assoc, List.nil_append, commentLength?, this]
  simp

/-- A gap is read past, whatever follows it. -/
theorem shapes_gap_append {gap : List Char} (h : Gap gap) (X : List Char) :
    shapes (gap ++ X) = shapes X := by
  induction h with
  | nil => rfl
  | blank hc _ ih => rw [List.cons_append, shapes_blank hc, ih]
  | @line body cs hbody _ ih =>
      have := shapes_comment (by decide) (lexeme_lineComment hbody (cs ++ X))
      simp only [List.cons_append, List.append_assoc] at this ih ⊢
      rw [this, ih]
  | @block inner cs hinner _ ih =>
      have := shapes_comment (by decide) (lexeme_blockComment hinner (cs ++ X))
      simp only [List.cons_append, List.append_assoc, List.nil_append] at this ⊢
      rw [this, ih]

theorem Gap.all_isAsciiBlank {gap : List Char} (h : Gap gap) (hblank : gap.all isBlank = true) :
    gap.all isAsciiBlank = true := by
  induction h with
  | nil => rfl
  | blank hc _ ih =>
      rw [List.all_cons, Bool.and_eq_true] at hblank
      rw [List.all_cons, hc, ih hblank.2]
      rfl
  | line => simp [List.all_cons, show isBlank '/' = false by decide] at hblank
  | block => simp [List.all_cons, show isBlank '/' = false by decide] at hblank

theorem gap_of_all_isAsciiBlank {cs : List Char} (h : cs.all isAsciiBlank = true) : Gap cs := by
  induction cs with
  | nil => exact .nil
  | cons c cs ih =>
      rw [List.all_cons, Bool.and_eq_true] at h
      exact .blank h.1 (ih h.2)

/-- A gap can be cut at the beginning of its last line, if that line holds blanks only. -/
theorem Gap.of_append {gap : List Char} (h : Gap gap) {as bs : List Char} (hgap : gap = as ++ bs)
    (hblank : bs.all isBlank = true) (hline : '\n' ∉ bs) :
    Gap as ∧ bs.all isAsciiBlank = true := by
  induction h generalizing as with
  | nil =>
      obtain ⟨rfl, rfl⟩ := List.nil_eq_append_iff.mp hgap
      exact ⟨.nil, rfl⟩
  | @blank c cs hc h ih =>
      cases as with
      | nil =>
          rw [List.nil_append] at hgap
          subst hgap
          exact ⟨.nil, (Gap.blank hc h).all_isAsciiBlank hblank⟩
      | cons a as =>
          rw [List.cons_append] at hgap
          obtain ⟨rfl, hcs⟩ := List.cons.inj hgap
          obtain ⟨has, hbs⟩ := ih hcs
          exact ⟨.blank hc has, hbs⟩
  | @line body cs hbody h ih =>
      -- the line feed behind the comment belongs to the part that is cut off
      have hsplit : ('/' :: '/' :: body) ++ '\n' :: cs = as ++ bs := hgap
      rcases List.append_eq_append_iff.mp hsplit with ⟨m, rfl, hm⟩ | ⟨m, hm, rfl⟩
      · cases m with
        | nil =>
            rw [List.nil_append] at hm
            exact absurd (hm ▸ List.mem_cons_self) hline
        | cons e m =>
            rw [List.cons_append] at hm
            obtain ⟨rfl, hm⟩ := List.cons.inj hm
            have hrec := @ih ('\n' :: m) (by rw [hm, List.cons_append])
            exact ⟨.line hbody hrec.1, hrec.2⟩
      · exact absurd (List.mem_append_right _ List.mem_cons_self) hline
  | @block inner cs hinner h ih =>
      have hsplit : ('/' :: '*' :: (inner ++ ['*', '/'])) ++ cs = as ++ bs := by
        rw [← hgap]
        simp
      rcases List.append_eq_append_iff.mp hsplit with ⟨m, rfl, hm⟩ | ⟨m, hm, rfl⟩
      · obtain ⟨hm', hbs⟩ := ih hm
        refine ⟨?_, hbs⟩
        have := Gap.block hinner hm'
        simpa using this
      · cases m with
        | nil =>
            rw [List.append_nil] at hm
            rw [List.nil_append] at hblank ⊢
            refine ⟨?_, h.all_isAsciiBlank hblank⟩
            have := Gap.block hinner .nil
            rw [← hm]
            simpa using this
        | cons e m =>
            -- the last character of the comment is not blank
            have hlast := congrArg List.getLast? hm
            rw [List.getLast?_append_of_ne_nil _ (List.cons_ne_nil _ _)] at hlast
            have hslash : '/' ∈ e :: m := by
              refine List.mem_of_getLast? ?_
              rw [← hlast, show '/' :: '*' :: (inner ++ ['*', '/'])
                = ('/' :: '*' :: (inner ++ ['*'])) ++ ['/'] by simp, List.getLast?_concat]
            have := List.all_eq_true.mp hblank '/' (List.mem_append_left _ hslash)
            simp [show isBlank '/' = false by decide] at this

/-! ## Readings -/

/-- The significant tokens of a text that stands at a byte offset, each behind its gap. -/
inductive Reads : Nat → List Char → List Token → Prop
  /-- Nothing significant is left. -/
  | done {offset : Nat} {cs : List Char} (h : shapes cs = []) : Reads offset cs []
  /-- A gap, and a token that begins with a character that is not blank. -/
  | token {offset : Nat} {gap : List Char} {c : Char} {w rest : List Char} {kind : TokenKind}
      {ts : List Token} (hgap : Gap gap) (hc : isAsciiBlank c = false) (hk : kind ≠ .comment)
      (hlex : lexeme c (w ++ rest) = (kind, w.length))
      (h : Reads (offset + byteLength gap + byteLength (c :: w)) rest ts) :
      Reads offset (gap ++ c :: (w ++ rest))
        (⟨kind, String.ofList (c :: w), offset + byteLength gap⟩ :: ts)

/-- A blank in front of a text belongs to the first gap. -/
theorem Reads.blank {offset : Nat} {c : Char} (hc : isAsciiBlank c = true) {cs : List Char}
    {ts : List Token} (h : Reads (offset + c.utf8Size) cs ts) : Reads offset (c :: cs) ts := by
  cases h with
  | done h => exact .done (by rw [shapes_blank hc, h])
  | @token _ gap d w rest kind ts hgap hd hk hlex h =>
      have hnext : Reads (offset + byteLength (c :: gap) + byteLength (d :: w)) rest ts := by
        rwa [byteLength_cons, ← Nat.add_assoc]
      have := Reads.token (.blank hc hgap) hd hk hlex hnext
      rwa [byteLength_cons, ← Nat.add_assoc, List.cons_append] at this

theorem commentLength?_of_lexeme {c : Char} {cs : List Char} {n : Nat}
    (h : lexeme c cs = (.comment, n)) : commentLength? c cs = some n := by
  have hscanned := scanned_lexeme c cs
  rw [h] at hscanned
  cases hscanned with
  | comment hcomment => exact hcomment
  | word _ _ _ hword => rcases word?_kind_cases hword with hk | hk | hk | hk <;> cases hk

/-- A string begins with a quote, and only a string is read as one. -/
theorem stringLength_of_lexeme {c : Char} {cs : List Char} {n : Nat}
    (h : lexeme c cs = (.string, n)) : (c = '"' ∨ c = '\'') ∧ stringLength c cs = n := by
  have hscanned := scanned_lexeme c cs
  rw [h] at hscanned
  cases hscanned with
  | string _ hstring => exact stringLength?_eq_some_iff.mp hstring
  | word _ _ _ hword => rcases word?_kind_cases hword with hk | hk | hk | hk <;> cases hk

/-- A run that ends at a place has nothing else in front of the place. -/
theorem all_of_runLength_append {p : Char → Bool} {w X : List Char}
    (h : runLength p (w ++ X) = w.length) : w.all p = true ∧ runLength p X = 0 := by
  induction w with
  | nil => exact ⟨rfl, h⟩
  | cons c w ih =>
      by_cases hc : p c = true
      · have hrun : runLength p (w ++ X) = w.length := by
          simpa [runLength, hc] using h
        obtain ⟨hw, hX⟩ := ih hrun
        exact ⟨by rw [List.all_cons, hc, hw]; rfl, hX⟩
      · simp [runLength, hc] at h

theorem Gap.comment {c : Char} {w gap : List Char} {d : Char} {X : List Char}
    (h : commentLength? c (w ++ (gap ++ d :: X)) = some w.length) (hgap : Gap gap)
    (hd : isAsciiBlank d = false) : Gap (c :: (w ++ gap)) := by
  obtain ⟨rfl, ⟨body, rfl, hlen⟩ | ⟨body, rfl, hlen⟩⟩ := commentLength?_append_eq_some_iff.mp h
  · -- the comment ends where its line does, so the gap goes on with the line feed
    obtain ⟨hall, hhead⟩ := all_of_runLength_append hlen
    have hbody : '\n' ∉ body := by
      intro hmem
      simpa using List.all_eq_true.mp hall _ hmem
    cases gap with
    | nil =>
        have : d = '\n' := by
          by_contra hne
          simp [runLength, hne] at hhead
        rw [this] at hd
        cases hd
    | cons e gap =>
        have : e = '\n' := by
          by_contra hne
          simp [runLength, hne] at hhead
        subst this
        exact .line hbody hgap
  · have hlt : blockCommentLength (body ++ (gap ++ d :: X)) < (body ++ (gap ++ d :: X)).length := by
      rw [hlen, List.length_append, List.length_append, List.length_cons]
      omega
    obtain ⟨inner, rest, hcs, hinner⟩ :=
      (blockCommentLength_cases _).resolve_right fun h => absurd h.2 hlt.ne
    rw [hcs, hinner] at hlen
    have hsplit : body ++ (gap ++ d :: X) = (inner ++ ['*', '/']) ++ rest := by
      rw [hcs]
      simp
    obtain ⟨rfl, -⟩ := List.append_inj hsplit (by simp [← hlen])
    have := Gap.block hinner hgap
    simpa using this

/-- A comment in front of a text belongs to the first gap, if the text goes on behind it. -/
theorem Reads.comment {offset : Nat} {c : Char} {w rest : List Char} {ts : List Token}
    (hc : isAsciiBlank c = false) (hlex : lexeme c (w ++ rest) = (.comment, w.length))
    (h : Reads (offset + byteLength (c :: w)) rest ts) : Reads offset (c :: (w ++ rest)) ts := by
  cases h with
  | done h => exact .done (by rw [shapes_comment hc hlex, h])
  | @token _ gap d v rest kind ts hgap hd hk hlex' h =>
      have hgap' : Gap (c :: (w ++ gap)) := hgap.comment (commentLength?_of_lexeme hlex) hd
      have hnext : Reads (offset + byteLength (c :: (w ++ gap)) + byteLength (d :: v)) rest ts := by
        rwa [← List.cons_append, byteLength_append, ← Nat.add_assoc]
      have := Reads.token hgap' hd hk hlex' hnext
      rw [← List.cons_append, byteLength_append, ← Nat.add_assoc] at this
      simpa using this

/-- Blanks in front of a text belong to the first gap. -/
theorem Reads.blanks {offset : Nat} {cs rest : List Char} {ts : List Token}
    (hcs : cs.all isAsciiBlank = true) (h : Reads (offset + byteLength cs) rest ts) :
    Reads offset (cs ++ rest) ts := by
  induction cs generalizing offset with
  | nil => exact h
  | cons c cs ih =>
      rw [List.all_cons, Bool.and_eq_true] at hcs
      refine Reads.blank hcs.1 (ih hcs.2 ?_)
      rwa [Nat.add_assoc, ← byteLength_cons]

/-- The first token of a text, with the text taken apart at its end. -/
theorem tokensFrom_append {offset : Nat} {c : Char} {w rest : List Char} {kind : TokenKind}
    (hlex : lexeme c (w ++ rest) = (kind, w.length)) :
    tokensFrom offset (c :: (w ++ rest))
      = ⟨kind, String.ofList (c :: w), offset⟩
          :: tokensFrom (offset + byteLength (c :: w)) rest := by
  rw [tokensFrom_cons, hlex, List.take_left, List.drop_left]

/-- Each token is the first one of the text that begins with it, and the tokens behind it are those
of the text behind it. -/
theorem exists_of_tokensFrom_eq_append {start : Nat} {cs : List Char} {before behind : List Token}
    {t : Token} (h : tokensFrom start cs = before ++ t :: behind) :
    ∃ c w rest, t.text.toList = c :: w ∧ lexeme c (w ++ rest) = (t.kind, w.length) ∧
      behind = tokensFrom (t.start + byteLength (c :: w)) rest := by
  induction before generalizing start cs with
  | nil =>
      cases cs with
      | nil => simp [tokensFrom] at h
      | cons c cs =>
          obtain ⟨kind, w, rest, rfl, hlex⟩ := exists_lexeme c cs
          rw [tokensFrom_append hlex] at h
          obtain ⟨rfl, rfl⟩ := List.cons.inj h
          exact ⟨c, w, rest, String.toList_ofList, hlex, rfl⟩
  | cons u before ih =>
      cases cs with
      | nil => simp [tokensFrom] at h
      | cons c cs =>
          rw [tokensFrom_cons] at h
          exact ih (List.cons.inj h).2

theorem exists_tokensFrom_of_mem {start : Nat} {cs : List Char} {t : Token}
    (h : t ∈ tokensFrom start cs) :
    ∃ before c w rest, t.text.toList = c :: w ∧ lexeme c (w ++ rest) = (t.kind, w.length) ∧
      tokensFrom start cs = before ++ t :: tokensFrom (t.start + byteLength (c :: w)) rest := by
  obtain ⟨before, behind, hsplit⟩ := List.append_of_mem h
  obtain ⟨c, w, rest, htext, hlex, rfl⟩ := exists_of_tokensFrom_eq_append hsplit
  exact ⟨before, c, w, rest, htext, hlex, hsplit⟩

theorem reads_significantTokens (offset : Nat) (cs : List Char) :
    Reads offset cs (significantTokens (tokensFrom offset cs)) := by
  induction hn : cs.length using Nat.strongRecOn generalizing offset cs with
  | _ n ih =>
      cases cs with
      | nil =>
          rw [tokensFrom]
          exact .done shapes_nil
      | cons c cs =>
          obtain ⟨kind, w, rest, rfl, hlex⟩ := exists_lexeme c cs
          have hlt : rest.length < n := by
            rw [← hn, List.length_cons, List.length_append]
            omega
          have hrec := fun offset => ih _ hlt offset rest rfl
          simp only [significantTokens] at hrec
          rw [tokensFrom_append hlex, significantTokens, List.filter_cons]
          -- white space and comments go to the gap of the token behind them
          by_cases hc : isAsciiBlank c = true
          · rw [lexeme_of_blank hc, Prod.mk.injEq] at hlex
            obtain ⟨rfl, hrun⟩ := hlex
            rw [if_neg (by simp [Token.isTrivia])]
            refine Reads.blank hc (Reads.blanks (all_of_runLength_append hrun).1 ?_)
            simpa [Nat.add_assoc] using hrec _
          · rw [Bool.not_eq_true] at hc
            by_cases hk : kind = .comment
            · subst hk
              rw [if_neg (by simp [Token.isTrivia])]
              exact Reads.comment hc hlex (hrec _)
            · have hspace : kind ≠ .whitespace := by
                have hspace := lexeme_ne_whitespace hc (w ++ rest)
                rwa [hlex] at hspace
              rw [if_pos (by simp [Token.isTrivia, hk, hspace])]
              simpa using Reads.token .nil hc hk hlex (hrec _)

theorem Reads.shapes_eq {offset : Nat} {cs : List Char} {ts : List Token} (h : Reads offset cs ts) :
    shapes cs = ts.map Token.shape := by
  induction h with
  | done h => exact h
  | token hgap hc hk hlex _ ih => rw [shapes_gap_append hgap, shapes_token hc hk hlex, ih]; rfl

/-- The shapes are those of the lexer's significant tokens, wherever the text stands. -/
theorem map_shape_significantTokens (offset : Nat) (cs : List Char) :
    (significantTokens (tokensFrom offset cs)).map Token.shape = shapes cs :=
  (reads_significantTokens offset cs).shapes_eq.symm

end Lexer

end SolidityTools

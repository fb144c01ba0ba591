import SolidityTools.Proofs.Token.Blank
import SolidityTools.Proofs.Token.Reading
import SolidityTools.Proofs.Token.Word

set_option autoImplicit false

/-! # Reading off the comments

The comments of a text are read off beside its significant tokens. They lie in the gaps between
those: a gap has all its comments whatever follows it (`Gap.commentsFrom_append`), and a significant
token has none. Where the text stands matters for the places of its comments, but not for their
texts (`map_text_commentsFrom`).
-/

namespace SolidityTools

open Text

def commentTokens (tokens : List Token) : List Token := tokens.filter (·.kind == .comment)

theorem commentTokens_cons {t : Token} (ht : t.kind = .comment) (ts : List Token) :
    commentTokens (t :: ts) = t :: commentTokens ts :=
  List.filter_cons_of_pos (by simp [ht])

theorem commentTokens_cons_of_ne {t : Token} (ht : t.kind ≠ .comment) (ts : List Token) :
    commentTokens (t :: ts) = commentTokens ts :=
  List.filter_cons_of_neg (by simp [ht])

/-- White space is no comment. -/
theorem commentTokens_visibleTokens (ts : List Token) :
    commentTokens (visibleTokens ts) = commentTokens ts := by
  rw [commentTokens, visibleTokens, List.filter_filter]
  refine List.filter_congr fun t _ => ?_
  cases t.kind <;> rfl

namespace Lexer

/-- The comments of a text that stands at a byte offset. -/
def commentsFrom (offset : Nat) (cs : List Char) : List Token :=
  commentTokens (tokensFrom offset cs)

def comments (cs : List Char) : List String := (commentsFrom 0 cs).map (·.text)

/-! ## One token -/

theorem commentsFrom_blank (offset : Nat) {c : Char} (hc : isAsciiBlank c = true)
    (cs : List Char) :
    commentsFrom offset (c :: cs) = commentsFrom (offset + c.utf8Size) cs := by
  rw [commentsFrom, ← commentTokens_visibleTokens, visibleTokens_blank offset hc,
    commentTokens_visibleTokens]
  rfl

theorem commentsFrom_comment (offset : Nat) {c : Char} {w rest : List Char}
    (hlex : lexeme c (w ++ rest) = (.comment, w.length)) :
    commentsFrom offset (c :: (w ++ rest))
      = ⟨.comment, String.ofList (c :: w), offset⟩
          :: commentsFrom (offset + byteLength (c :: w)) rest := by
  rw [commentsFrom, tokensFrom_append hlex, commentTokens_cons rfl]
  rfl

theorem commentsFrom_token (offset : Nat) {c : Char} {w rest : List Char} {kind : TokenKind}
    (hk : kind ≠ .comment) (hlex : lexeme c (w ++ rest) = (kind, w.length)) :
    commentsFrom offset (c :: (w ++ rest)) = commentsFrom (offset + byteLength (c :: w)) rest := by
  rw [commentsFrom, tokensFrom_append hlex, commentTokens_cons_of_ne hk]
  rfl

theorem commentsFrom_punctuation (offset : Nat) {c : Char} (hc : c ∈ punctuation) (cs : List Char) :
    commentsFrom offset (c :: cs) = commentsFrom (offset + c.utf8Size) cs :=
  commentsFrom_token offset (w := []) (by decide) (lexeme_punctuation hc cs)

/-! ## Places -/

/-- A comment stands in its text. -/
theorem le_start_of_mem_commentsFrom {offset : Nat} {cs : List Char} {c : Token}
    (h : c ∈ commentsFrom offset cs) :
    offset ≤ c.start ∧ c.start < c.stop ∧ c.stop ≤ offset + byteLength cs := by
  have hmem := List.mem_of_mem_filter h
  obtain ⟨before, d, w, rest, htext, -, -⟩ := exists_tokensFrom_of_mem hmem
  obtain ⟨P, S, rfl, hstart⟩ := exists_append_of_mem_tokensFrom hmem
  have hpos : 0 < d.utf8Size := d.utf8Size_pos
  rw [Token.stop, hstart, htext, byteLength_append, byteLength_append, byteLength_cons]
  omega

/-- Where a text stands does not matter for the kinds and texts of its tokens. -/
theorem map_shape_tokensFrom (offset offset' : Nat) (cs : List Char) :
    (tokensFrom offset cs).map Token.shape = (tokensFrom offset' cs).map Token.shape := by
  induction hn : cs.length using Nat.strongRecOn generalizing offset offset' cs with
  | _ n ih =>
      cases cs with
      | nil => simp [tokensFrom]
      | cons c cs =>
          rw [tokensFrom_cons, tokensFrom_cons, List.map_cons, List.map_cons,
            ih _ (hn ▸ length_drop_lexeme_lt c cs) _ _ _ rfl]
          rfl

theorem map_text_commentsFrom (offset : Nat) (cs : List Char) :
    (commentsFrom offset cs).map (·.text) = comments cs := by
  have hshape : ∀ ts : List Token, (commentTokens ts).map (·.text)
      = ((ts.map Token.shape).filter (·.1 == .comment)).map (·.2) := by
    intro ts
    rw [List.filter_map, List.map_map]
    rfl
  rw [comments, commentsFrom, commentsFrom, hshape, hshape, map_shape_tokensFrom offset 0]

theorem comments_blank {c : Char} (hc : isAsciiBlank c = true) (cs : List Char) :
    comments (c :: cs) = comments cs := by
  rw [comments, commentsFrom_blank 0 hc, map_text_commentsFrom]

theorem comments_token {c : Char} {w rest : List Char} {kind : TokenKind} (hk : kind ≠ .comment)
    (hlex : lexeme c (w ++ rest) = (kind, w.length)) :
    comments (c :: (w ++ rest)) = comments rest := by
  rw [comments, commentsFrom_token 0 hk hlex, map_text_commentsFrom]

theorem comments_punctuation {c : Char} (hc : c ∈ punctuation) (cs : List Char) :
    comments (c :: cs) = comments cs := by
  rw [comments, commentsFrom_punctuation 0 hc, map_text_commentsFrom]

theorem comments_word {c : Char} {w X : List Char} (hc : isWordStart c = true)
    (hw : w.all isWordPart = true) (hX : runLength isWordPart X = 0) :
    comments (c :: (w ++ X)) = comments X :=
  comments_token (wordKind_ne_comment _ _) (lexeme_word hc hw hX)

/-- Nor has a word that runs on into the text behind it, which begins with a word as well. -/
theorem comments_word_append {c : Char} {w : List Char} {d : Char} {Z : List Char}
    (hc : isWordStart c = true) (hw : w.all isWordPart = true) (hd : isWordStart d = true) :
    comments (c :: (w ++ d :: Z)) = comments (d :: Z) := by
  have hall : (Z.takeWhile isWordPart).all isWordPart = true := List.all_takeWhile
  have hstop : runLength isWordPart (Z.dropWhile isWordPart) = 0 := by
    cases hrest : Z.dropWhile isWordPart with
    | nil => rfl
    | cons e rest =>
        have := List.head?_dropWhile_not isWordPart Z
        rw [hrest, List.head?_cons] at this
        simp [runLength, this]
  have hwhole : (w ++ d :: Z.takeWhile isWordPart).all isWordPart = true := by
    rw [List.all_append, List.all_cons, hw, isWordPart_of_isWordStart hd, hall]
    rfl
  have hlong := comments_word hc hwhole hstop
  have hshort := comments_word hd hall hstop
  rw [List.append_assoc, List.cons_append, List.takeWhile_append_dropWhile] at hlong
  rw [List.takeWhile_append_dropWhile] at hshort
  rw [hlong, hshort]

/-! ## Gaps -/

theorem Gap.commentsFrom_append {gap : List Char} (h : Gap gap) (offset : Nat) (X : List Char) :
    commentsFrom offset (gap ++ X)
      = commentsFrom offset gap ++ commentsFrom (offset + byteLength gap) X := by
  induction h generalizing offset with
  | nil => simp [commentsFrom, tokensFrom, commentTokens]
  | blank hc _ ih =>
      rw [List.cons_append, commentsFrom_blank _ hc, commentsFrom_blank _ hc, ih, byteLength_cons,
        Nat.add_assoc]
  | @line body cs hbody _ ih =>
      have hfirst : ∀ Y, commentsFrom offset ('/' :: '/' :: (body ++ '\n' :: Y))
          = ⟨.comment, String.ofList ('/' :: '/' :: body), offset⟩
            :: commentsFrom (offset + byteLength ('/' :: '/' :: body)) ('\n' :: Y) := fun Y =>
        commentsFrom_comment offset (lexeme_lineComment hbody Y)
      have htext : '/' :: '/' :: (body ++ '\n' :: cs) = ('/' :: '/' :: body) ++ '\n' :: cs := rfl
      rw [List.cons_append, List.cons_append, List.append_assoc, List.cons_append, hfirst, hfirst,
        ← List.cons_append, ih, htext, byteLength_append ('/' :: '/' :: body), List.cons_append,
        Nat.add_assoc]
  | @block inner cs hinner _ ih =>
      have hfirst : ∀ Y, commentsFrom offset ('/' :: '*' :: (inner ++ '*' :: '/' :: Y))
          = ⟨.comment, String.ofList ('/' :: '*' :: (inner ++ ['*', '/'])), offset⟩
            :: commentsFrom (offset + byteLength ('/' :: '*' :: (inner ++ ['*', '/']))) Y := by
        intro Y
        have := commentsFrom_comment offset (lexeme_blockComment hinner Y)
        simpa using this
      have htext : '/' :: '*' :: (inner ++ '*' :: '/' :: cs)
          = ('/' :: '*' :: (inner ++ ['*', '/'])) ++ cs := by simp
      have hlength : byteLength ('/' :: '*' :: (inner ++ '*' :: '/' :: cs))
          = byteLength ('/' :: '*' :: (inner ++ ['*', '/'])) + byteLength cs := by
        rw [htext, byteLength_append]
      rw [hfirst, hlength, List.cons_append, List.cons_append, List.append_assoc, List.cons_append,
        List.cons_append, hfirst, ih, List.cons_append, Nat.add_assoc]

theorem Gap.comments_append {gap : List Char} (h : Gap gap) (offset : Nat) (X : List Char) :
    comments (gap ++ X) = (commentsFrom offset gap).map (·.text) ++ comments X := by
  rw [← map_text_commentsFrom offset, h.commentsFrom_append, List.map_append,
    map_text_commentsFrom (offset + byteLength gap)]

theorem comments_replicate_append (n : Nat) (cs : List Char) :
    comments (List.replicate n ' ' ++ cs) = comments cs := by
  induction n with
  | zero => rfl
  | succ n ih => rw [List.replicate_succ, List.cons_append, comments_blank (by decide), ih]

end Lexer

end SolidityTools

import SolidityTools.Proofs.Lint.Mask
import SolidityTools.Proofs.Token.Line
import SolidityTools.Proofs.Token.Unclosed

set_option autoImplicit false

/-! # Masking the first lines

The first lines of the masked text are the masked text of the first lines of the source: nothing
behind a line feed changes what masking leaves in front of it. A token that goes on over a line feed
is white space, a comment or a string. White space is masked as it stands. A comment or a string that
is cut off at the line feed is not closed any more, so that without the text behind it takes all that
is left (`lexeme_literal_front`), and it has the same blanks there.
-/

namespace SolidityTools

open Text

namespace Lexer

/-! ## Literals in front of a line feed -/

/-- A string that goes on behind a text takes the whole text. -/
theorem stringLength_front {quote : Char} (hquote : quote ≠ '\\') {A X : List Char}
    (h : A.length < stringLength quote (A ++ X)) : stringLength quote A = A.length := by
  apply stringLength_of_not_closesString
  -- a quote in the text would have closed the string
  rintro ⟨inner, rest, henclosed, rfl⟩
  rw [List.append_assoc, List.cons_append, henclosed.stringLength_eq hquote, List.length_append,
    List.length_cons] at h
  omega

/-- A comment or a string that goes on over a line feed takes the whole text in front of it. -/
theorem lexeme_literal_front {c : Char} {A X : List Char} {kind : TokenKind} {n : Nat}
    (hk : kind = .comment ∨ kind = .string) (hlex : lexeme c (A ++ '\n' :: X) = (kind, n))
    (hn : A.length < n) : lexeme c A = (kind, A.length) := by
  rcases hk with rfl | rfl
  · have hcomment := commentLength?_front (commentLength?_of_lexeme hlex)
    rw [Nat.min_eq_right hn.le] at hcomment
    exact (Scanned.comment hcomment).lexeme_eq
  · obtain ⟨hc, hlength⟩ := stringLength_of_lexeme hlex
    have hquote : c ≠ '\\' := by
      rintro rfl
      simp at hc
    have hcomment : commentLength? c A = none := by
      rcases hc with rfl | rfl
      · rfl
      · rfl
    have hstring : stringLength? c A = some A.length :=
      stringLength?_eq_some_iff.mpr ⟨hc, stringLength_front hquote (hlength ▸ hn)⟩
    exact (Scanned.string hcomment hstring).lexeme_eq

/-- Only a comment or a string goes on over a line feed, white space aside. -/
theorem lexeme_front {c : Char} {A u behind : List Char} {kind : TokenKind}
    (hc : isAsciiBlank c = false)
    (hlex : lexeme c ((A ++ '\n' :: u) ++ behind) = (kind, (A ++ '\n' :: u).length)) :
    (kind = .comment ∨ kind = .string) ∧ lexeme c A = (kind, A.length) := by
  have hk : kind = .comment ∨ kind = .string := by
    by_contra hk
    have hfeed : '\n' ∈ c :: (A ++ '\n' :: u) := by simp
    exact newline_notMem_of_lexeme hc hlex (fun h => absurd h hk) hfeed
  rw [List.append_assoc, List.cons_append] at hlex
  exact ⟨hk, lexeme_literal_front hk hlex (by simp)⟩

/-- A token that takes the whole text is the only one. -/
theorem tokensFrom_eq_singleton {offset : Nat} {c : Char} {cs : List Char} {kind : TokenKind}
    (hlex : lexeme c cs = (kind, cs.length)) :
    tokensFrom offset (c :: cs) = [⟨kind, String.ofList (c :: cs), offset⟩] := by
  rw [tokensFrom_cons, hlex, List.take_length, List.drop_length, tokensFrom]

end Lexer

open Lexer

namespace Lint

/-! ## Masking in front of a line feed -/

/-- Masking keeps the line feeds. -/
theorem count_mask (ts : List Token) :
    (mask ts).count '\n' = (ts.flatMap fun t => t.text.toList).count '\n' := by
  rw [← length_newlineOffsets 0, newlineOffsets_mask, length_newlineOffsets]

/-- White space in front of a text is masked as it stands. -/
theorem mask_blank (offset : Nat) {c : Char} (hc : isAsciiBlank c = true) (cs : List Char) :
    mask (tokensFrom offset (c :: cs)) = c :: mask (tokensFrom (offset + c.utf8Size) cs) := by
  have hspace : ∀ text start, maskToken ⟨.whitespace, String.ofList text, start⟩ = text :=
    fun text start => (maskToken_of_visible rfl).trans String.toList_ofList
  rw [tokensFrom_blank offset hc, mask_cons, hspace]
  cases cs with
  | nil => simp [tokensFrom, mask]
  | cons e cs =>
      by_cases he : isAsciiBlank e = true
      · -- the run goes on, and it ends at the same place
        rw [tokensFrom_blank _ he, mask_cons, hspace, List.takeWhile_cons_of_pos he,
          List.dropWhile_cons_of_pos he, byteLength_cons (c := c), Nat.add_assoc, List.cons_append]
      · rw [List.takeWhile_cons_of_neg he, List.dropWhile_cons_of_neg he]
        rfl

/-- A literal over a line feed has the same blanks in front of it without the text behind. -/
theorem exists_maskToken_literal {kind : TokenKind} (hk : kind = .comment ∨ kind = .string)
    (A u : List Char) (offset : Nat) :
    ∃ Z, maskToken ⟨kind, String.ofList (A ++ '\n' :: u), offset⟩
      = maskToken ⟨kind, String.ofList A, offset⟩ ++ '\n' :: Z := by
  have hmasked : ∀ text, isMasked ⟨kind, text, offset⟩ = true := by
    intro text
    rcases hk with rfl | rfl
    · rfl
    · rfl
  refine ⟨u.flatMap maskCharacter, ?_⟩
  rw [maskToken, maskToken, if_pos (hmasked _), if_pos (hmasked _), String.toList_ofList,
    String.toList_ofList, List.flatMap_append, List.flatMap_cons]
  rfl

/-- **Masking in front of a line feed.** The text behind a line feed does not matter for the masked
text in front of it. The induction is on the length of the text in front, of which each token and
each blank takes something off. -/
theorem exists_mask_append_newline (offset : Nat) (A B : List Char) :
    ∃ Z, mask (tokensFrom offset (A ++ '\n' :: B)) = mask (tokensFrom offset A) ++ '\n' :: Z := by
  induction hn : A.length using Nat.strongRecOn generalizing offset A with
  | _ n ih =>
      cases A with
      | nil =>
          refine ⟨mask (tokensFrom (offset + '\n'.utf8Size) B), ?_⟩
          rw [List.nil_append, mask_blank offset (by decide), tokensFrom]
          rfl
      | cons c A =>
          rw [List.length_cons] at hn
          rw [List.cons_append]
          by_cases hc : isAsciiBlank c = true
          · obtain ⟨Z, hZ⟩ := ih A.length (by omega) (offset + c.utf8Size) A rfl
            refine ⟨Z, ?_⟩
            rw [mask_blank offset hc, mask_blank offset hc, hZ, List.cons_append]
          · rw [Bool.not_eq_true] at hc
            obtain ⟨kind, w, behind, hcut, hlex⟩ := exists_lexeme c (A ++ '\n' :: B)
            rcases append_cons_cases hcut with ⟨u, rfl⟩ | ⟨A, rfl, rfl⟩
            · -- the token goes on over the line feed, and it takes all of the text in front
              obtain ⟨hk, hfront⟩ := lexeme_front hc hlex
              obtain ⟨Z, hZ⟩ := exists_maskToken_literal hk (c :: A) u offset
              refine ⟨Z ++ mask (tokensFrom (offset + byteLength (c :: (A ++ '\n' :: u))) behind), ?_⟩
              rw [hcut, tokensFrom_append hlex, tokensFrom_eq_singleton hfront, mask_cons, mask_cons,
                ← List.cons_append, hZ]
              simp [mask]
            · -- the token ends in front of the line feed, and the next one begins there, too
              rw [List.length_append] at hn
              obtain ⟨kind', hlex', hkind⟩ := exists_lexeme_line hc hlex
              obtain ⟨Z, hZ⟩ := ih A.length (by omega) (offset + byteLength (c :: w)) A rfl
              refine ⟨Z, ?_⟩
              have hmask : maskToken ⟨kind, String.ofList (c :: w), offset⟩
                  = maskToken ⟨kind', String.ofList (c :: w), offset⟩ := by
                rcases hkind with rfl | ⟨rfl, rfl, -⟩
                · rfl
                · rfl
              rw [hcut, tokensFrom_append hlex, tokensFrom_append hlex', mask_cons, mask_cons, hZ,
                hmask, List.append_assoc]

/-- **Masking the first lines.** The first lines of the masked text are the masked text of the first
lines. -/
theorem takeLines_mask (n : Nat) (source : String) :
    takeLines n (mask (tokenize source))
      = mask (tokenize (String.ofList (takeLines n source.toList))) := by
  have htexts : ∀ cs, (tokensFrom 0 cs).flatMap (fun t => t.text.toList) = cs :=
    flatMap_text_tokensFrom 0
  rw [tokenize, tokenize, String.toList_ofList]
  cases n with
  | zero =>
      show [] = mask (tokensFrom 0 [])
      rw [tokensFrom]
      rfl
  | succ n =>
      by_cases hcount : source.toList.count '\n' ≤ n
      · have hmask : (mask (tokensFrom 0 source.toList)).count '\n' ≤ n := by
          rwa [count_mask, htexts]
        rw [takeLines_of_count_le hmask, takeLines_of_count_le hcount]
      · -- the first lines of both end in front of the same line feed
        obtain ⟨A, B, hsource, hA⟩ := exists_append_newline (Nat.lt_of_not_le hcount)
        obtain ⟨Z, hZ⟩ := exists_mask_append_newline 0 A B
        have hmask : (mask (tokensFrom 0 A)).count '\n' = n := by rw [count_mask, htexts, hA]
        rw [hsource, hZ, takeLines_append_newline hmask, takeLines_append_newline hA]

end Lint

end SolidityTools

import SolidityTools.Proofs.Text.LineFeed
import SolidityTools.Proofs.Token.Blank
import SolidityTools.Lint.Mask

set_option autoImplicit false

/-! # Masking commutes with lexing

Text patterns are matched against the masked text, and what they find is reported as a place of the
source. That is sound if the masked text is cut into the tokens of the source, less comments and
strings, each at its own place.

A token looks at the text behind it, and there masking may have changed something. Up to the first
comment or string the text is the same, and there the two texts part (`parts_mask`). So every token
that is not masked keeps its length, and its kind depends on the text behind only if it is a word
(`Parts.exists_lexeme`). An identifier in front of a parenthesis names a function, and a comment
that stands between them is in the way in the source, but not in the masked text. `bareTokens` says
exactly that.
-/

namespace SolidityTools

open Text Lexer

namespace Lint

/-! ## Line feeds -/

theorem newlineOffsets_maskCharacter (offset : Nat) (c : Char) :
    newlineOffsets offset (maskCharacter c) = newlineOffsets offset [c] := by
  unfold maskCharacter
  split
  · next hc => rw [beq_iff_eq.mp hc]
  · next hc =>
      have hspaces : '\n' ∉ List.replicate c.utf8Size ' ' := by simp
      have hsingle : '\n' ∉ [c] := by
        rw [beq_iff_eq] at hc
        simpa using Ne.symm hc
      rw [newlineOffsets_of_not_mem hspaces, newlineOffsets_of_not_mem hsingle]

/-- Masking a token keeps its line feeds where they are. -/
theorem newlineOffsets_maskToken (offset : Nat) (t : Token) :
    newlineOffsets offset (maskToken t) = newlineOffsets offset t.text.toList := by
  unfold maskToken
  split
  · generalize t.text.toList = cs
    induction cs generalizing offset with
    | nil => rfl
    | cons c cs ih =>
        calc newlineOffsets offset ((c :: cs).flatMap maskCharacter)
            = newlineOffsets offset (maskCharacter c)
                ++ newlineOffsets (offset + c.utf8Size) (cs.flatMap maskCharacter) := by
              rw [List.flatMap_cons, newlineOffsets_append, byteLength_maskCharacter]
          _ = newlineOffsets offset [c] ++ newlineOffsets (offset + c.utf8Size) cs := by
              rw [newlineOffsets_maskCharacter, ih]
          _ = newlineOffsets offset (c :: cs) := by
              rw [← List.singleton_append (l := cs), newlineOffsets_append]
              rfl
  · rfl

/-! ## Masked texts -/

theorem mask_cons (t : Token) (ts : List Token) : mask (t :: ts) = maskToken t ++ mask ts :=
  List.flatMap_cons

theorem mask_append (ts us : List Token) : mask (ts ++ us) = mask ts ++ mask us :=
  List.flatMap_append

/-- Masking keeps the bytes of a text. -/
theorem byteLength_mask (ts : List Token) :
    byteLength (mask ts) = byteLength (ts.flatMap fun t => t.text.toList) := by
  induction ts with
  | nil => rfl
  | cons t ts ih =>
      rw [mask_cons, List.flatMap_cons, byteLength_append, byteLength_append, ih,
        byteLength_maskToken]

/-- Masking keeps the line feeds of a text where they are. -/
theorem newlineOffsets_mask (offset : Nat) (ts : List Token) :
    newlineOffsets offset (mask ts)
      = newlineOffsets offset (ts.flatMap fun t => t.text.toList) := by
  induction ts generalizing offset with
  | nil => rfl
  | cons t ts ih =>
      rw [mask_cons, List.flatMap_cons, newlineOffsets_append, newlineOffsets_append, ih,
        newlineOffsets_maskToken, byteLength_maskToken]

/-- What is not hidden stays as it is. -/
theorem maskToken_of_visible {t : Token} (ht : isMasked t = false) : maskToken t = t.text.toList := by
  rw [maskToken, if_neg (by simp [ht])]

theorem maskToken_of_isWord {t : Token} (ht : t.isWord = true) : maskToken t = t.text.toList := by
  refine maskToken_of_visible ?_
  cases hkind : t.kind <;> simp_all [Token.isWord, isMasked]

theorem maskToken_ne_nil {start : Nat} {cs : List Char} {t : Token}
    (ht : t ∈ tokensFrom start cs) : maskToken t ≠ [] := by
  obtain ⟨_, c, w, rest, htext, -, -⟩ := exists_tokensFrom_of_mem ht
  intro hnil
  have hlength := byteLength_maskToken t
  rw [hnil, htext, byteLength_cons, byteLength_nil] at hlength
  have := c.utf8Size_pos
  omega

/-- What is hidden is replaced by blanks. -/
theorem all_isAsciiBlank_maskToken {t : Token} (ht : isMasked t = true) :
    (maskToken t).all isAsciiBlank = true := by
  have hcharacter : ∀ c, (maskCharacter c).all isAsciiBlank = true := by
    intro c
    unfold maskCharacter
    split
    · rfl
    · simp [isAsciiBlank]
  rw [maskToken, if_pos ht, List.all_flatMap]
  exact List.all_eq_true.mpr fun c _ => hcharacter c

/-- White space and what is hidden leave blanks. -/
theorem all_isAsciiBlank_maskToken_of_lexeme {t : Token} {c : Char} {w rest : List Char}
    (htext : t.text.toList = c :: w) (hlex : lexeme c (w ++ rest) = (t.kind, w.length))
    (ht : t.kind = .whitespace ∨ isMasked t = true) : (maskToken t).all isAsciiBlank = true := by
  rcases ht with hspace | hmasked
  · rw [hspace] at hlex
    have hall := all_isAsciiBlank_of_lexeme hlex
    rw [List.take_left] at hall
    rw [maskToken_of_visible (by simp [isMasked, hspace]), htext, hall]
  · exact all_isAsciiBlank_maskToken hmasked

def literalOpeners : List Char := ['/', '"', '\'']

theorem isInert_of_mem_literalOpeners {d : Char} (hd : d ∈ literalOpeners) :
    isInert d = true := by
  have hall : literalOpeners.all isInert = true := by decide
  exact List.all_eq_true.mp hall d hd

theorem mem_literalOpeners_of_lexeme {c : Char} {cs : List Char} {kind : TokenKind} {n : Nat}
    (hlex : lexeme c cs = (kind, n)) (hk : kind = .comment ∨ kind = .string) :
    c ∈ literalOpeners := by
  rcases hk with rfl | rfl
  · obtain ⟨rfl, -⟩ := commentLength?_eq_some_iff.mp (commentLength?_of_lexeme hlex)
    decide
  · rcases (stringLength_of_lexeme hlex).1 with rfl | rfl <;> decide

theorem maskCharacter_of_mem_literalOpeners {d : Char} (hd : d ∈ literalOpeners) :
    maskCharacter d = [' '] := by
  have hcases : d = '/' ∨ d = '"' ∨ d = '\'' := by simpa [literalOpeners] using hd
  rcases hcases with rfl | rfl | rfl <;> decide

/-- Up to the first comment or string the masked text is the text, and there it has a blank. -/
theorem parts_mask (offset : Nat) (cs : List Char) :
    Parts cs (mask (tokensFrom offset cs)) := by
  fun_induction tokensFrom offset cs with
  | case1 => exact .refl []
  | case2 offset c cs kind n hlex text ih =>
      rw [mask_cons, maskToken, String.toList_ofList]
      by_cases hhidden : isMasked ⟨kind, String.ofList text, offset⟩ = true
      · have hopener : c ∈ literalOpeners :=
          mem_literalOpeners_of_lexeme hlex (by simpa [isMasked] using hhidden)
        rw [if_pos hhidden, List.flatMap_cons, maskCharacter_of_mem_literalOpeners hopener]
        refine .here (List.cons_ne_nil c cs) ?_ ?_
        · simpa using isInert_of_mem_literalOpeners hopener
        · simp
          decide
      · have hcut : text ++ cs.drop n = c :: cs := by
          rw [List.cons_append, List.take_append_drop]
        rw [if_neg hhidden, ← hcut]
        exact ih.append_left text

/-! ## Bare tokens -/

/-- What the masked text shows of some tokens: neither white space nor what is hidden. An identifier
that a parenthesis follows names a function there, whatever is hidden between the two. -/
def bareTokens : List Token → List Token
  | [] => []
  | t :: ts =>
    let rest := bareTokens ts
    if t.kind == .whitespace || isMasked t then rest
    else if t.kind == .identifier && opensGroup rest then { t with kind := .function } :: rest
    else t :: rest

theorem bareTokens_cons_of_hidden {t : Token} (ht : t.kind = .whitespace ∨ isMasked t = true)
    (ts : List Token) : bareTokens (t :: ts) = bareTokens ts := by
  have hcondition : (t.kind == .whitespace || isMasked t) = true := by simpa using ht
  simp only [bareTokens]
  rw [if_pos hcondition]

theorem bareTokens_cons_of_visible {t : Token} (hspace : t.kind ≠ .whitespace)
    (hmasked : isMasked t = false) (ts : List Token) :
    bareTokens (t :: ts)
      = { t with
            kind := if t.kind == .identifier && opensGroup (bareTokens ts) then .function
              else t.kind } :: bareTokens ts := by
  have hcondition : ¬(t.kind == .whitespace || isMasked t) = true := by simp [hspace, hmasked]
  simp only [bareTokens]
  rw [if_neg hcondition]
  split
  · rfl
  · rfl

theorem kind_of_mem_bareTokens {ts : List Token} {t : Token} (ht : t ∈ bareTokens ts) :
    t.kind ≠ .comment ∧ t.kind ≠ .string := by
  induction ts with
  | nil => cases ht
  | cons u ts ih =>
      by_cases hhidden : u.kind = .whitespace ∨ isMasked u = true
      · rw [bareTokens_cons_of_hidden hhidden] at ht
        exact ih ht
      · rw [not_or, Bool.not_eq_true] at hhidden
        obtain ⟨hspace, hmasked⟩ := hhidden
        rw [bareTokens_cons_of_visible hspace hmasked] at ht
        rcases List.mem_cons.mp ht with rfl | ht
        · have hkind : u.kind ≠ .comment ∧ u.kind ≠ .string := by simpa [isMasked] using hmasked
          simp only
          split
          · simp
          · exact hkind
        · exact ih ht

/-- A parenthesis that comes next in the source comes next in the masked text. -/
theorem opensGroup_bareTokens {ts : List Token} (h : opensGroup (visibleTokens ts) = true) :
    opensGroup (bareTokens ts) = true := by
  induction ts with
  | nil => exact h
  | cons t ts ih =>
      by_cases hspace : t.kind = .whitespace
      · rw [visibleTokens_whitespace hspace] at h
        rw [bareTokens_cons_of_hidden (Or.inl hspace)]
        exact ih h
      · rw [visibleTokens_cons hspace] at h
        have hparen : t.isOperator "(" = true := h
        have hkind := Token.kind_of_isOperator hparen
        have hmasked : isMasked t = false := by simp [isMasked, hkind]
        rw [bareTokens_cons_of_visible hspace hmasked, hkind]
        simpa [opensGroup, Token.isOperator, hkind] using hparen

/-! ## Tokens in front of a mask -/

theorem wordKind_of_opensCall {word X X' : List Char}
    (h : opensCall X = true → opensCall X' = true) :
    wordKind word X'
      = if wordKind word X == .identifier && opensCall X' then .function else wordKind word X := by
  simp only [wordKind]
  by_cases hkeyword : isKeywordText (String.ofList word) = true
  · simp [hkeyword]
  · by_cases htype : isTypeText (String.ofList word) = true
    · simp [hkeyword, htype]
    · by_cases hcall : opensCall X = true
      · simp [hkeyword, htype, hcall, h hcall]
      · simp [hkeyword, htype, hcall]

/-- A token that is not hidden is the same in front of the masked text, but for an identifier that a
parenthesis follows there. -/
theorem lexeme_mask {offset : Nat} {c : Char} {w rest : List Char} {kind : TokenKind}
    (hc : isAsciiBlank c = false) (hk : kind ≠ .comment)
    (hlex : lexeme c (w ++ rest) = (kind, w.length))
    (hcall : opensCall rest = true → opensCall (mask (tokensFrom offset rest)) = true) :
    lexeme c (w ++ mask (tokensFrom offset rest))
      = (if kind == .identifier && opensCall (mask (tokensFrom offset rest)) then .function
          else kind, w.length) := by
  obtain ⟨kind', hlex', hchange⟩ := (parts_mask offset rest).exists_lexeme hc hk hlex
  rcases hchange with ⟨rfl, hkind⟩ | ⟨hkind, rfl⟩
  · rw [hlex', if_neg (by simp [hkind])]
  · rw [hlex', hkind, wordKind_of_opensCall hcall]

/-! ## The masked text -/

/-- The tokens of the masked text, from any offset on. -/
theorem visibleTokens_mask (offset : Nat) (cs : List Char) :
    visibleTokens (tokensFrom offset (mask (tokensFrom offset cs)))
      = bareTokens (tokensFrom offset cs) := by
  induction hn : cs.length using Nat.strongRecOn generalizing offset cs with
  | _ n ih =>
      cases cs with
      | nil => simp [mask, tokensFrom, visibleTokens, bareTokens]
      | cons c cs =>
          obtain ⟨kind, w, rest, rfl, hlex⟩ := exists_lexeme c cs
          rw [List.length_cons, List.length_append] at hn
          have hrest := ih rest.length (by omega) (offset + byteLength (c :: w)) rest rfl
          rw [tokensFrom_append hlex, mask_cons]
          generalize hoffset : offset + byteLength (c :: w) = next at hrest ⊢
          generalize hts : tokensFrom next rest = ts at hrest ⊢
          by_cases hhidden :
              kind = .whitespace ∨ isMasked ⟨kind, String.ofList (c :: w), offset⟩ = true
          · -- the mask of the token is white space
            have hblank : (maskToken ⟨kind, String.ofList (c :: w), offset⟩).all isAsciiBlank
                = true :=
              all_isAsciiBlank_maskToken_of_lexeme String.toList_ofList hlex hhidden
            rw [bareTokens_cons_of_hidden hhidden, visibleTokens_blanks_append _ hblank,
              byteLength_maskToken, String.toList_ofList, hoffset, hrest]
          · -- the token stays, except that its kind depends on the next token
            rw [not_or, Bool.not_eq_true] at hhidden
            obtain ⟨hspace, hmasked⟩ := hhidden
            have hc : isAsciiBlank c = false := by
              by_contra hc
              rw [Bool.not_eq_false] at hc
              rw [lexeme_of_blank hc, Prod.mk.injEq] at hlex
              exact hspace hlex.1.symm
            have hk : kind ≠ .comment := by
              rintro rfl
              simp [isMasked] at hmasked
            have hgroup : opensCall (mask ts) = opensGroup (bareTokens ts) := by
              rw [opensCall_eq_opensGroup next, hrest]
            have hcall : opensCall rest = true → opensCall (mask ts) = true := by
              intro hcall
              rw [opensCall_eq_opensGroup next, hts] at hcall
              rw [hgroup]
              exact opensGroup_bareTokens hcall
            rw [← hts] at hcall
            have hlex' := lexeme_mask hc hk hlex hcall
            rw [hts] at hlex'
            rw [bareTokens_cons_of_visible hspace hmasked, ← hgroup, maskToken_of_visible hmasked,
              String.toList_ofList, List.cons_append,
              tokensFrom_append hlex', visibleTokens_cons (by split <;> simp [hspace]), hoffset,
              hrest]

/-- **Masking is invisible to the lexer.** The masked text of any source has the source's length in
bytes and its line feeds at the same offsets. It has neither comments nor strings, and its other
tokens are those of the source, each with its own text at its own place, except that an identifier
names a function if only white space, comments and strings stand between it and an opening
parenthesis. -/
theorem tokenize_mask (source : String) :
    (String.ofList (mask (tokenize source))).utf8ByteSize = source.utf8ByteSize ∧
      newlineOffsets 0 (mask (tokenize source)) = newlineOffsets 0 source.toList ∧
      (∀ t ∈ tokenize (String.ofList (mask (tokenize source))),
        t.kind ≠ .comment ∧ t.kind ≠ .string) ∧
      visibleTokens (tokenize (String.ofList (mask (tokenize source))))
        = bareTokens (tokenize source) := by
  have htext : (tokenize source).flatMap (fun t => t.text.toList) = source.toList :=
    flatMap_text_tokensFrom 0 source.toList
  have hvisible : visibleTokens (tokenize (String.ofList (mask (tokenize source))))
      = bareTokens (tokenize source) := by
    rw [tokenize, String.toList_ofList]
    exact visibleTokens_mask 0 source.toList
  refine ⟨?_, ?_, ?_, hvisible⟩
  · calc (String.ofList (mask (tokenize source))).utf8ByteSize
        = byteLength (mask (tokenize source)) := (byteLength_eq_utf8ByteSize _).symm
      _ = byteLength source.toList := by rw [byteLength_mask, htext]
      _ = source.utf8ByteSize := by rw [byteLength_eq_utf8ByteSize, String.ofList_toList]
  · rw [newlineOffsets_mask, htext]
  · intro t ht
    by_cases hspace : t.kind = .whitespace
    · rw [hspace]
      exact ⟨by decide, by decide⟩
    · have hmem := mem_visibleTokens.mpr ⟨ht, hspace⟩
      rw [hvisible] at hmem
      exact kind_of_mem_bareTokens hmem

end Lint

end SolidityTools

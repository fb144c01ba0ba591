import SolidityTools.Token.Lexer

set_option autoImplicit false

/-! # Tokens tile the text

Places are byte offsets, so "the tokens follow one another without a gap" is a statement about
the UTF-8 encoding of the source. `Tiles source offset tokens` says it: from `offset` on, each
token begins where the last one ended, its text is not empty and consists of exactly the bytes
between its two ends, both ends lie between characters, and the last token ends with the source.

The lexer cuts a list of characters, of which it always takes at least the first. The bridge is
`byteLength`, which measures such a list in bytes: a cut of the characters is a cut of the bytes
(`extract_ofList`, `isValid_ofList_append`).
-/

namespace SolidityTools

open Text

/-! ## Characters and bytes -/

theorem Text.byteLength_eq_utf8ByteSize (cs : List Char) :
    byteLength cs = (String.ofList cs).utf8ByteSize := by
  induction cs with
  | nil => rfl
  | cons c cs ih =>
      have hsplit : String.ofList (c :: cs) = String.ofList [c] ++ String.ofList cs := by
        rw [← String.ofList_append, List.singleton_append]
      rw [hsplit, String.utf8ByteSize_append, byteLength_cons, ih]
      simp

/-- The end of a prefix lies between two characters. -/
theorem Text.isValid_ofList_append (as bs : List Char) :
    String.Pos.Raw.IsValid (String.ofList (as ++ bs)) ⟨byteLength as⟩ := by
  refine String.Pos.Raw.isValid_iff_exists_append.mpr
    ⟨String.ofList as, String.ofList bs, String.ofList_append, ?_⟩
  rw [String.Pos.Raw.ext_iff, String.byteIdx_rawEndPos, byteLength_eq_utf8ByteSize]

/-- The bytes of a piece of a text are those between the piece's two ends. -/
theorem Text.extract_ofList (as bs cs : List Char) :
    (String.ofList (as ++ bs ++ cs)).toByteArray.extract (byteLength as)
        (byteLength as + byteLength bs)
      = (String.ofList bs).toByteArray := by
  have has : byteLength as = (String.ofList as).toByteArray.size := by
    rw [byteLength_eq_utf8ByteSize, String.size_toByteArray]
  have hbs : byteLength bs = (String.ofList bs).toByteArray.size := by
    rw [byteLength_eq_utf8ByteSize, String.size_toByteArray]
  rw [List.append_assoc, String.ofList_append, String.ofList_append, String.toByteArray_append,
    String.toByteArray_append, has, hbs]
  rw [show (String.ofList as).toByteArray.size
      = (String.ofList as).toByteArray.size + 0 from (Nat.add_zero _).symm, Nat.add_assoc,
    ByteArray.extract_append_size_add, Nat.zero_add]
  exact ByteArray.extract_append_eq_left rfl

/-! ## Tilings -/

/-- The tokens lie end to end from a byte offset to the end of the source. -/
inductive Tiles (source : String) : Nat → List Token → Prop
  /-- Nothing is left behind the last token. -/
  | done : Tiles source source.utf8ByteSize []
  /-- A token covers the bytes between its ends, and the others begin where it stops. -/
  | token {offset : Nat} {t : Token} {ts : List Token} (hoffset : t.start = offset)
      (hne : t.text ≠ "")
      (hstart : String.Pos.Raw.IsValid source ⟨t.start⟩)
      (hstop : String.Pos.Raw.IsValid source ⟨t.stop⟩)
      (htext : source.toByteArray.extract t.start t.stop = t.text.toByteArray)
      (hrest : Tiles source t.stop ts) : Tiles source offset (t :: ts)

namespace Lexer

/-- The first token of a text, and the tokens behind it. -/
theorem tokensFrom_cons (start : Nat) (c : Char) (cs : List Char) :
    tokensFrom start (c :: cs)
      = ⟨(lexeme c cs).1, String.ofList (c :: cs.take (lexeme c cs).2), start⟩
          :: tokensFrom (start + byteLength (c :: cs.take (lexeme c cs).2))
              (cs.drop (lexeme c cs).2) := by
  rw [tokensFrom]

/-- What stands behind a token is shorter than what it was cut from. -/
theorem length_drop_lexeme_lt (c : Char) (cs : List Char) :
    (cs.drop (lexeme c cs).2).length < (c :: cs).length := by
  rw [List.length_drop, List.length_cons]
  omega

/-- The first token covers the bytes between its ends, whatever stands before it. -/
theorem Tiles.first (before : List Char) (kind : TokenKind) {text : List Char} (rest : List Char)
    (hne : text ≠ []) {ts : List Token}
    (h : Tiles (String.ofList (before ++ text ++ rest)) (byteLength (before ++ text)) ts) :
    Tiles (String.ofList (before ++ text ++ rest)) (byteLength before)
      (⟨kind, String.ofList text, byteLength before⟩ :: ts) := by
  have hstop : Token.stop ⟨kind, String.ofList text, byteLength before⟩
      = byteLength before + byteLength text := by
    rw [Token.stop, String.toList_ofList]
  refine Tiles.token rfl ?_ ?_ ?_ ?_ ?_
  · rwa [Ne, String.ofList_eq_empty_iff]
  · rw [List.append_assoc]
    exact isValid_ofList_append before (text ++ rest)
  · rw [hstop, ← byteLength_append]
    exact isValid_ofList_append (before ++ text) rest
  · rw [hstop]
    exact extract_ofList before text rest
  · rw [hstop, ← byteLength_append]
    exact h

/-- The tokens of the text behind `before` tile the whole text from there on. The induction is
on the number of characters left, of which each token takes at least one. -/
theorem tiles_tokensFrom (before cs : List Char) :
    Tiles (String.ofList (before ++ cs)) (byteLength before)
      (tokensFrom (byteLength before) cs) := by
  induction hn : cs.length using Nat.strongRecOn generalizing before cs with
  | _ n ih =>
      cases cs with
      | nil =>
          rw [List.append_nil, tokensFrom, byteLength_eq_utf8ByteSize]
          exact .done
      | cons c cs =>
          have hcut : before ++ c :: cs
              = before ++ c :: cs.take (lexeme c cs).2 ++ cs.drop (lexeme c cs).2 := by
            rw [List.append_assoc, List.cons_append, List.take_append_drop]
          rw [tokensFrom_cons, hcut, ← byteLength_append]
          refine Tiles.first before _ _ (List.cons_ne_nil _ _) ?_
          exact ih _ (hn ▸ length_drop_lexeme_lt c cs) _ _ rfl

/-- The texts of the tokens, put together, are the text that was cut. -/
theorem flatMap_text_tokensFrom (start : Nat) (cs : List Char) :
    (tokensFrom start cs).flatMap (fun t => t.text.toList) = cs := by
  induction hn : cs.length using Nat.strongRecOn generalizing start cs with
  | _ n ih =>
      cases cs with
      | nil => simp [tokensFrom]
      | cons c cs =>
          rw [tokensFrom_cons, List.flatMap_cons, ih _ (hn ▸ length_drop_lexeme_lt c cs) _ _ rfl,
            String.toList_ofList, List.cons_append, List.take_append_drop]

/-- Each token stands in the text at its place. -/
theorem exists_append_of_mem_tokensFrom {start : Nat} {cs : List Char} {t : Token}
    (h : t ∈ tokensFrom start cs) :
    ∃ P S, cs = P ++ (t.text.toList ++ S) ∧ t.start = start + byteLength P := by
  induction hn : cs.length using Nat.strongRecOn generalizing start cs with
  | _ n ih =>
      cases cs with
      | nil => simp [tokensFrom] at h
      | cons c cs =>
          rw [tokensFrom_cons] at h
          rcases List.mem_cons.mp h with rfl | h
          · exact ⟨[], cs.drop (lexeme c cs).2, by simp, rfl⟩
          · obtain ⟨P, S, hcs, hstart⟩ := ih _ (hn ▸ length_drop_lexeme_lt c cs) h rfl
            refine ⟨c :: cs.take (lexeme c cs).2 ++ P, S, ?_, ?_⟩
            · rw [List.append_assoc, ← hcs, List.cons_append, List.take_append_drop]
            · rw [hstart, byteLength_append, Nat.add_assoc]

end Lexer

/-- **Tokenising loses nothing.** The tokens of any source tile it from its first byte to its
last, and their texts put together are the source. -/
theorem tokenize_tiles (source : String) :
    Tiles source 0 (tokenize source) ∧
      String.join ((tokenize source).map Token.text) = source := by
  constructor
  · have h := Lexer.tiles_tokensFrom [] source.toList
    rwa [List.nil_append, byteLength_nil, String.ofList_toList] at h
  · have h := Lexer.flatMap_text_tokensFrom 0 source.toList
    rw [← String.toList_inj, ← h, tokenize]
    simp [String.toList_join, List.flatMap_map]

end SolidityTools

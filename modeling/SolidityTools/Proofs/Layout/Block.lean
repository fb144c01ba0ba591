import SolidityTools.Proofs.Token.Comment
import SolidityTools.Proofs.Token.Place
import SolidityTools.Proofs.Token.Word
import SolidityTools.Layout.Loop

set_option autoImplicit false

/-! # Reading the inserted block

The `unchecked` block of a counter is written out as text and has to be read as six tokens again,
whatever stands behind it. That holds for a counter that was itself read as an identifier: its
text is a word, and neither a keyword nor a type (`IsName`).
-/

namespace SolidityTools

open Text

namespace Lexer

/-- Spaces are passed over. -/
theorem shapes_replicate_append (n : Nat) (cs : List Char) :
    shapes (List.replicate n ' ' ++ cs) = shapes cs :=
  shapes_gap_append (gap_of_all_isAsciiBlank (by simp [isAsciiBlank])) cs

/-! ## Words -/

/-- A word is read as a whole in front of a character that could not continue it. -/
theorem shapes_word {c : Char} {w X : List Char} (hc : isWordStart c = true)
    (hw : w.all isWordPart = true) (hX : runLength isWordPart X = 0) :
    shapes (c :: (w ++ X)) = (wordKind (c :: w) X, String.ofList (c :: w)) :: shapes X := by
  have hblank : isAsciiBlank c = false := by
    by_contra hblank
    rw [Bool.not_eq_false] at hblank
    simp only [isAsciiBlank, Bool.or_eq_true, beq_iff_eq] at hblank
    rcases hblank with (((rfl | rfl) | rfl) | rfl) | rfl <;> cases hc
  exact shapes_token hblank (wordKind_ne_comment _ _) (lexeme_word hc hw hX)

/-- The name of a variable: a word that is neither a keyword nor a type. -/
structure IsName (name : String) : Prop where
  word : ∃ c w, name.toList = c :: w ∧ isWordStart c = true ∧ w.all isWordPart = true
  keyword : isKeywordText name = false
  type : isTypeText name = false

/-- Identifiers are names. -/
theorem Reads.isName {offset : Nat} {cs : List Char} {ts : List Token} (h : Reads offset cs ts)
    {t : Token} (ht : t ∈ ts) (hkind : t.kind = .identifier) : IsName t.text := by
  obtain ⟨c, w, rest, htext, -, hlex⟩ := h.exists_lexeme ht
  have hstart : isWordStart c = true := isWordStart_of_isWord (by simp [Token.isWord, hkind]) hlex
  have hall := (runLength_of_lexeme hstart hlex).1
  have hword := wordKind_of_lexeme hstart hlex
  rw [hkind] at hword
  simp only [wordKind, ← htext, String.ofList_toList] at hword
  refine ⟨⟨c, w, htext, hstart, hall⟩, ?_, ?_⟩
  · by_contra hkey
    rw [Bool.not_eq_false] at hkey
    simp [hkey] at hword
  · by_contra htype
    rw [Bool.not_eq_false] at htype
    by_cases hkey : isKeywordText t.text = true <;> simp [hkey, htype] at hword

/-- A name is read as an identifier, if no argument list follows. -/
theorem shapes_name {name : String} (h : IsName name) {X : List Char}
    (hX : runLength isWordPart X = 0) (hcall : opensCall X = false) :
    shapes (name.toList ++ X) = (.identifier, name) :: shapes X := by
  obtain ⟨c, w, hname, hc, hw⟩ := h.word
  have htext : String.ofList (c :: w) = name := by
    rw [← hname, String.ofList_toList]
  have hkind : wordKind (c :: w) X = .identifier := by
    simp [wordKind, htext, h.keyword, h.type, hcall]
  rw [hname, List.cons_append, shapes_word hc hw hX, hkind, htext]

end Lexer

namespace Layout

open Lexer

/-! ## The block -/

/-- What the inserted block of a counter is read as. -/
def blockShapes (counter : String) : List (TokenKind × String) :=
  [(.keyword, "unchecked"), (.operator, "\x7b"), (.operator, "++"), (.identifier, counter),
   (.operator, ";"), (.operator, "\x7d")]

def blockBody (counter : String) : List Char :=
  [' ', '\x7b', ' ', '+', '+'] ++ counter.toList ++ [';', ' ', '\x7d']

theorem uncheckedBlock_append (counter : String) (X : List Char) :
    uncheckedBlock counter ++ X = 'u' :: ("nchecked".toList ++ (blockBody counter ++ X)) := by
  simp [uncheckedBlock, blockBody]

/-- The longest operator with two plus signs is the increment. -/
theorem lexeme_increment (X : List Char) : lexeme '+' (['+'] ++ X) = (.operator, ['+'].length) := by
  refine (Scanned.operator rfl rfl rfl rfl ?_).lexeme_eq
  rfl

theorem shapes_blockBody {counter : String} (h : IsName counter) (X : List Char) :
    shapes (blockBody counter ++ X) = (blockShapes counter).tail ++ shapes X := by
  have hincrement : ∀ Y, shapes ('+' :: '+' :: Y) = (.operator, "++") :: shapes Y := fun Y =>
    shapes_token (by decide) (by decide) (lexeme_increment Y)
  have hclose : shapes ([';', ' ', '\x7d'] ++ X)
      = (.operator, ";") :: (.operator, "\x7d") :: shapes X := by
    show shapes (';' :: ' ' :: '\x7d' :: X) = _
    rw [shapes_punctuation (by decide), shapes_blank (by decide), shapes_punctuation (by decide)]
  show shapes (' ' :: '\x7b' :: ' ' :: '+' :: '+' :: (counter.toList ++ [';', ' ', '\x7d'] ++ X)) = _
  rw [shapes_blank (by decide), shapes_punctuation (by decide), shapes_blank (by decide),
    hincrement, List.append_assoc, shapes_name h rfl rfl, hclose]
  rfl

/-- **The block is read as it was meant**, whatever stands behind it. -/
theorem shapes_uncheckedBlock {counter : String} (h : IsName counter) (X : List Char) :
    shapes (uncheckedBlock counter ++ X) = blockShapes counter ++ shapes X := by
  rw [uncheckedBlock_append, shapes_word (by decide) (by decide) rfl, shapes_blockBody h]
  rfl

theorem comments_uncheckedBlock {counter : String} (h : IsName counter) (X : List Char) :
    comments (uncheckedBlock counter ++ X) = comments X := by
  obtain ⟨c, w, hname, hc, hw⟩ := h.word
  have hincrement : ∀ Y, comments ('+' :: '+' :: Y) = comments Y := fun Y =>
    comments_token (by decide) (lexeme_increment Y)
  have hcounter : comments (counter.toList ++ ';' :: ' ' :: '\x7d' :: X) = comments X := by
    rw [hname, List.cons_append, comments_word hc hw rfl, comments_punctuation (by decide),
      comments_blank (by decide), comments_punctuation (by decide)]
  have hbody : blockBody counter ++ X
      = ' ' :: '\x7b' :: ' ' :: '+' :: '+' :: (counter.toList ++ ';' :: ' ' :: '\x7d' :: X) := by
    simp [blockBody]
  rw [uncheckedBlock_append, comments_word (by decide) (by decide) rfl, hbody,
    comments_blank (by decide), comments_punctuation (by decide), comments_blank (by decide),
    hincrement, hcounter]

/-- Behind a word the keyword of the block becomes a part of the word. -/
theorem shapes_glued {word counter : String} {c : Char} {w : List Char}
    (hword : word.toList = c :: w) (hc : isWordStart c = true) (hw : w.all isWordPart = true)
    (h : IsName counter) (X : List Char) :
    ∃ kind, kind ≠ .operator ∧ shapes (word.toList ++ (uncheckedBlock counter ++ X))
      = (kind, word ++ "unchecked") :: ((blockShapes counter).tail ++ shapes X) := by
  have hsplit : word.toList ++ (uncheckedBlock counter ++ X)
      = c :: ((w ++ "unchecked".toList) ++ (blockBody counter ++ X)) := by
    rw [hword]
    simp [uncheckedBlock, blockBody]
  have htext : String.ofList (c :: (w ++ "unchecked".toList)) = word ++ "unchecked" := by
    rw [← String.toList_inj, String.toList_ofList, String.toList_append, hword]
    rfl
  have hall : (w ++ "unchecked".toList).all isWordPart = true := by
    rw [List.all_append, hw]
    rfl
  refine ⟨wordKind (c :: (w ++ "unchecked".toList)) (blockBody counter ++ X), ?_, ?_⟩
  · rcases wordKind_cases (c :: (w ++ "unchecked".toList)) (blockBody counter ++ X) with
      hk | hk | hk | hk <;> rw [hk] <;> decide
  · rw [hsplit, shapes_word hc hall rfl, htext, shapes_blockBody h]

end Layout

end SolidityTools

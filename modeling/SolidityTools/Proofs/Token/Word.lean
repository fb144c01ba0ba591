import SolidityTools.Proofs.Token.Reading

set_option autoImplicit false

/-! # Words, blanks and punctuation

A token is a word exactly if it begins like one, and it ends where the run of word characters ends.
Blanks belong to no word, and to no number or operator either: every scan that has come to a blank
would have stopped there, whatever stands behind. A token in front of two texts that *part* at a
blank is therefore the same, except that only one of the texts may make a function of a word
(`Parts.exists_lexeme`). A punctuation mark is always read by itself.
-/

namespace SolidityTools

open Text

namespace Lexer

/-! ## Words -/

/-- The codes of letters. -/
theorem isAlpha_iff_toNat {c : Char} : c.isAlpha = true ↔
    (65 ≤ c.toNat ∧ c.toNat ≤ 90) ∨ (97 ≤ c.toNat ∧ c.toNat ≤ 122) := by
  have hdef : c.isAlpha = (decide (c.val ≥ 'A'.val ∧ c.val ≤ 'Z'.val) ||
      (decide (c.val ≥ 'a'.val) && decide (c.val ≤ 'z'.val))) := rfl
  rw [hdef, Bool.or_eq_true, Bool.and_eq_true, decide_eq_true_eq, decide_eq_true_eq,
    decide_eq_true_eq]
  exact or_congr (and_congr UInt32.le_iff_toNat_le UInt32.le_iff_toNat_le)
    (and_congr UInt32.le_iff_toNat_le UInt32.le_iff_toNat_le)

theorem toNat_of_isAlpha {c : Char} (h : c.isAlpha = true) :
    (65 ≤ c.toNat ∧ c.toNat ≤ 90) ∨ (97 ≤ c.toNat ∧ c.toNat ≤ 122) := isAlpha_iff_toNat.mp h

theorem toNat_of_isDigit {c : Char} (h : c.isDigit = true) : 48 ≤ c.toNat ∧ c.toNat ≤ 57 :=
  Char.isDigit_iff_toNat.mp h

theorem not_isDigit_of_isWordStart {c : Char} (hc : isWordStart c = true) : c.isDigit = false := by
  by_contra hdigit
  rw [Bool.not_eq_false] at hdigit
  have hcode := toNat_of_isDigit hdigit
  simp only [isWordStart, Bool.or_eq_true, beq_iff_eq] at hc
  rcases hc with (hc | rfl) | rfl
  · have := toNat_of_isAlpha hc
    omega
  · exact absurd hdigit (by decide)
  · exact absurd hdigit (by decide)

theorem isWordPart_of_isWordStart {c : Char} (hc : isWordStart c = true) : isWordPart c = true := by
  simp only [isWordStart, isWordPart, Char.isAlphanum, Bool.or_eq_true] at hc ⊢
  rcases hc with (hc | hc) | hc
  · exact Or.inl (Or.inl (Or.inl hc))
  · exact Or.inl (Or.inr hc)
  · exact Or.inr hc

/-- What begins like a word is one. -/
theorem word?_of_lexeme {c : Char} {cs : List Char} {kind : TokenKind} {n : Nat}
    (hc : isWordStart c = true) (hlex : lexeme c cs = (kind, n)) :
    word? c cs = some (kind, n) := by
  have hscanned := scanned_lexeme c cs
  rw [hlex] at hscanned
  have hword : ∃ m, word? c cs = some m := ⟨_, if_pos hc⟩
  cases hscanned with
  | comment h =>
      obtain ⟨rfl, -⟩ := commentLength?_eq_some_iff.mp h
      cases hc
  | string _ h =>
      obtain ⟨hquote, -⟩ := stringLength?_eq_some_iff.mp h
      rcases hquote with rfl | rfl <;> cases hc
  | number _ _ h => simp [numberLength?, not_isDigit_of_isWordStart hc] at h
  | word _ _ _ h => exact h
  | operator _ _ _ h => simp [h] at hword
  | whitespace _ _ _ h => simp [h] at hword
  | other _ _ _ h => simp [h] at hword

/-- A word ends with its last word character. -/
theorem runLength_of_lexeme {c : Char} {w X : List Char} {kind : TokenKind}
    (hc : isWordStart c = true) (hlex : lexeme c (w ++ X) = (kind, w.length)) :
    w.all isWordPart = true ∧ runLength isWordPart X = 0 := by
  obtain ⟨-, -, hrun⟩ := word?_eq_some_iff.mp (word?_of_lexeme hc hlex)
  exact all_of_runLength_append hrun

/-- What begins like a word has the kind of a word. -/
theorem isWord_of_lexeme {t : Token} {c : Char} {cs : List Char} {n : Nat}
    (hc : isWordStart c = true) (hlex : lexeme c cs = (t.kind, n)) : t.isWord = true := by
  rcases word?_kind_cases (word?_of_lexeme hc hlex) with hk | hk | hk | hk <;>
    simp [Token.isWord, hk]

/-- What has the kind of a word begins like one. -/
theorem isWordStart_of_isWord {t : Token} {c : Char} {cs : List Char} {n : Nat}
    (ht : t.isWord = true) (hlex : lexeme c cs = (t.kind, n)) : isWordStart c = true := by
  have hscanned := scanned_lexeme c cs
  rw [hlex] at hscanned
  generalize hkind : t.kind = kind at hscanned
  cases hscanned with
  | word _ _ _ h => exact (word?_eq_some_iff.mp h).1
  | comment => simp [Token.isWord, hkind] at ht
  | string => simp [Token.isWord, hkind] at ht
  | number => simp [Token.isWord, hkind] at ht
  | operator => simp [Token.isWord, hkind] at ht
  | whitespace => simp [Token.isWord, hkind] at ht
  | other => simp [Token.isWord, hkind] at ht

theorem word?_append {c : Char} {w X : List Char} (hc : isWordStart c = true)
    (hw : w.all isWordPart = true) (hX : runLength isWordPart X = 0) :
    word? c (w ++ X) = some (wordKind (c :: w) X, w.length) := by
  have hrun : runLength isWordPart (w ++ X) = w.length := by
    rw [runLength_append_of_all w X hw, hX, Nat.add_zero]
  refine word?_eq_some_iff.mpr ⟨hc, ?_, hrun⟩
  rw [List.take_left, List.drop_left]

theorem wordKind_ne_comment (word behind : List Char) : wordKind word behind ≠ .comment := by
  rcases wordKind_cases word behind with hk | hk | hk | hk <;> simp [hk]

/-- A word is one token in front of a character that could not continue it. -/
theorem lexeme_word {c : Char} {w X : List Char} (hc : isWordStart c = true)
    (hw : w.all isWordPart = true) (hX : runLength isWordPart X = 0) :
    lexeme c (w ++ X) = (wordKind (c :: w) X, w.length) := by
  have hword : word? c (w ++ X) = some (lexeme c (w ++ X)) := word?_of_lexeme hc rfl
  rw [word?_append hc hw hX] at hword
  exact (Option.some.inj hword).symm

/-- The kind of a word, read off from the word and the text behind it. -/
theorem wordKind_of_lexeme {c : Char} {w X : List Char} {kind : TokenKind}
    (hc : isWordStart c = true) (hlex : lexeme c (w ++ X) = (kind, w.length)) :
    kind = wordKind (c :: w) X := by
  have hword := word?_of_lexeme hc hlex
  obtain ⟨hall, hrun⟩ := runLength_of_lexeme hc hlex
  rw [word?_append hc hall hrun, Option.some.injEq, Prod.mk.injEq] at hword
  exact hword.1.symm

/-! ## Blanks -/

/-- Both kinds of scan give up at a blank. -/
theorem isNeutral_of_isBlank {c : Char} (h : isBlank c = true) : isNeutral c = true := by
  have hhex : isHexPart c = false := by
    by_contra hhex
    rw [Bool.not_eq_false] at hhex
    simp only [isHexPart, isHexDigit, Char.isDigit, Bool.or_eq_true, Bool.and_eq_true,
      decide_eq_true_eq, beq_iff_eq, Char.le_def, UInt32.le_iff_toNat_le] at hhex
    simp only [isBlank, Bool.or_eq_true, Bool.and_eq_true, decide_eq_true_eq, beq_iff_eq,
      Char.toNat] at h
    rcases hhex with ((⟨hge, hle⟩ | ⟨hge, hle⟩) | ⟨hge, hle⟩) | rfl
    · have : '0'.val.toNat = 48 := rfl
      have : '9'.val.toNat = 57 := rfl
      omega
    · have : 'a'.val.toNat = 97 := rfl
      have : 'f'.val.toNat = 102 := rfl
      omega
    · have : 'A'.val.toNat = 65 := rfl
      have : 'F'.val.toNat = 70 := rfl
      omega
    · revert h
      decide
  have hmem : "xX.+-<>=*&|/(".toList.contains c = false := by
    by_contra hmem
    rw [Bool.not_eq_false, List.contains_iff_mem] at hmem
    have hall : "xX.+-<>=*&|/(".toList.all (!isBlank ·) = true := by decide
    have hnot := List.all_eq_true.mp hall c hmem
    rw [h] at hnot
    cases hnot
  rw [isNeutral, hhex, hmem]
  rfl

theorem isWordPart_eq_false_of_isBlank {c : Char} (h : isBlank c = true) :
    isWordPart c = false := by
  by_contra hpart
  rw [Bool.not_eq_false] at hpart
  simp only [isWordPart, Char.isAlphanum, Bool.or_eq_true, beq_iff_eq] at hpart
  simp only [isBlank, Bool.or_eq_true, Bool.and_eq_true, decide_eq_true_eq, beq_iff_eq] at h
  rcases hpart with ((hpart | hpart) | rfl) | rfl
  · have := toNat_of_isAlpha hpart
    omega
  · have := toNat_of_isDigit hpart
    omega
  · revert h
    decide
  · revert h
    decide

theorem opensCall_of_all_isBlank {w : List Char} (hw : w.all isBlank = true) {e : Char}
    (X : List Char) (he : isAsciiBlank e = false) (hparen : e ≠ '(') :
    opensCall (w ++ e :: X) = false := by
  induction w with
  | nil => simpa [opensCall, he] using hparen
  | cons c w ih =>
      rw [List.all_cons, Bool.and_eq_true] at hw
      by_cases hc : isAsciiBlank c = true
      · have := ih hw.2
        rw [opensCall] at this ⊢
        simpa [hc] using this
      · have hne : c ≠ '(' := by
          rintro rfl
          exact absurd hw.1 (by decide)
        rw [Bool.not_eq_true] at hc
        simpa [opensCall, hc] using hne

theorem exists_alike {w w' : List Char} {e e' : Char} {X X' : List Char} (hw : w.all isBlank = true)
    (hw' : w'.all isBlank = true) (he : isAsciiBlank e = false) (he' : isAsciiBlank e' = false)
    (hneutral : isNeutral e = true) (hneutral' : isNeutral e' = true) :
    ∃ d Z d' Z', w ++ e :: X = d :: Z ∧ w' ++ e' :: X' = d' :: Z' ∧ Alike d Z d' Z' := by
  have hsplit : ∀ {w : List Char} {e : Char} {X : List Char}, w.all isBlank = true →
      isNeutral e = true → ∃ d Z, w ++ e :: X = d :: Z ∧ isNeutral d = true := by
    intro w e X hw he
    cases w with
    | nil => exact ⟨e, X, rfl, he⟩
    | cons c w =>
        rw [List.all_cons, Bool.and_eq_true] at hw
        exact ⟨c, w ++ e :: X, rfl, isNeutral_of_isBlank hw.1⟩
  obtain ⟨d, Z, hd, hdn⟩ := @hsplit w e X hw hneutral
  obtain ⟨d', Z', hd', hdn'⟩ := @hsplit w' e' X' hw' hneutral'
  refine ⟨d, Z, d', Z', hd, hd', hdn, hdn', ?_⟩
  rw [← hd, ← hd', opensCall_of_all_isBlank hw X he (ne_of_isNeutral hneutral (by decide)),
    opensCall_of_all_isBlank hw' X' he' (ne_of_isNeutral hneutral' (by decide))]

/-! ## Texts that part -/

/-- Two texts that are the same up to a place where no token goes on: in the one, a character stands
there that ends numbers and operators, and in the other one a blank or nothing. -/
inductive Parts : List Char → List Char → Prop
  | refl (cs : List Char) : Parts cs cs
  | here {X X' : List Char} (hX : X ≠ []) (hinert : ∀ d ∈ X.head?, isInert d = true)
      (hblank : ∀ d ∈ X'.head?, isBlank d = true) : Parts X X'
  | char (c : Char) {cs cs' : List Char} (h : Parts cs cs') : Parts (c :: cs) (c :: cs')

theorem Parts.append_left {cs cs' : List Char} (h : Parts cs cs') (V : List Char) :
    Parts (V ++ cs) (V ++ cs') := by
  induction V with
  | nil => exact h
  | cons c V ih => exact .char c ih

/-- What two texts have in common, and where they part. -/
theorem Parts.exists_append {cs cs' : List Char} (h : Parts cs cs') :
    cs' = cs ∨ ∃ V X X', cs = V ++ X ∧ cs' = V ++ X' ∧ X ≠ [] ∧
      (∀ d ∈ X.head?, isInert d = true) ∧ ∀ d ∈ X'.head?, isBlank d = true := by
  induction h with
  | refl => exact Or.inl rfl
  | @here X X' hX hinert hblank => exact Or.inr ⟨[], X, X', rfl, rfl, hX, hinert, hblank⟩
  | char c _ ih =>
      rcases ih with rfl | ⟨V, X, X', rfl, rfl, hX, hinert, hblank⟩
      · exact Or.inl rfl
      · exact Or.inr ⟨c :: V, X, X', rfl, rfl, hX, hinert, hblank⟩

/-- A significant token in front of two texts that part ends at the same place. Its kind is the same
as well, unless it is a word, which is classified by what follows. -/
theorem Parts.exists_lexeme {c : Char} {w rest rest' : List Char} {kind : TokenKind}
    (h : Parts rest rest') (hc : isAsciiBlank c = false) (hk : kind ≠ .comment)
    (hlex : lexeme c (w ++ rest) = (kind, w.length)) :
    ∃ kind', lexeme c (w ++ rest') = (kind', w.length) ∧
      (kind' = kind ∧ kind ≠ .identifier ∨
        kind = wordKind (c :: w) rest ∧ kind' = wordKind (c :: w) rest') := by
  rcases h.exists_append with rfl | ⟨V, X, X', rfl, rfl, hX, hinert, hblank⟩
  · refine ⟨kind, hlex, ?_⟩
    by_cases hstart : isWordStart c = true
    · exact Or.inr ⟨wordKind_of_lexeme hstart hlex, wordKind_of_lexeme hstart hlex⟩
    · refine Or.inl ⟨rfl, fun hkind => hstart ?_⟩
      exact @isWordStart_of_isWord ⟨kind, "", 0⟩ c _ _ (by simp [Token.isWord, hkind]) hlex
  · have hneutral : ∀ d ∈ X'.head?, isNeutral d = true :=
      fun d hd => isNeutral_of_isBlank (hblank d hd)
    have hrun : runLength isWordPart X' = 0 := by
      cases X' with
      | nil => rfl
      | cons d X' => simp [runLength, isWordPart_eq_false_of_isBlank (hblank d rfl)]
    rw [← List.append_assoc] at hlex
    have hchange := lexeme_append_change hX hinert hneutral hc hk hlex (by simp) fun _ _ => hrun
    rw [← List.append_assoc]
    simpa using hchange

/-! ## Punctuation -/

/-- The marks that are an operator on their own, whatever follows them. -/
def punctuation : List Char := [';', '(', ')', '\x7b', '\x7d']

theorem operatorLength?_of_head {c : Char}
    (hlong : ∀ operator ∈ longOperators, operator ≠ [] ∧ operator.head? ≠ some c)
    (hc : operatorCharacters.contains c = true) (cs : List Char) :
    operatorLength? c cs = some 0 := by
  have hnone : longOperators.find? (·.isPrefixOf (c :: cs)) = none := by
    rw [List.find?_eq_none]
    intro operator hop hfront
    obtain ⟨hnil, hne⟩ := hlong operator hop
    obtain ⟨e, operator, rfl⟩ := List.exists_cons_of_ne_nil hnil
    rw [List.isPrefixOf_iff_prefix, List.cons_prefix_cons] at hfront
    exact hne (congrArg some hfront.1)
  rw [operatorLength?, hnone]
  exact if_pos hc

theorem operatorLength?_punctuation {c : Char} (hc : c ∈ punctuation) (cs : List Char) :
    operatorLength? c cs = some 0 := by
  have hhead : ∀ operator ∈ longOperators, operator ≠ [] ∧
      punctuation.all (operator.head? != some ·) = true := by decide
  have hmem : punctuation.all operatorCharacters.contains = true := by decide
  refine operatorLength?_of_head (fun operator hop => ?_) (List.all_eq_true.mp hmem c hc) cs
  obtain ⟨hnil, hne⟩ := hhead operator hop
  exact ⟨hnil, bne_iff_ne.mp (List.all_eq_true.mp hne c hc)⟩

theorem lexeme_punctuation {c : Char} (hc : c ∈ punctuation) (cs : List Char) :
    lexeme c cs = (.operator, 0) := by
  have hcases : c = ';' ∨ c = '(' ∨ c = ')' ∨ c = '\x7b' ∨ c = '\x7d' := by
    simpa [punctuation] using hc
  have hcomment : commentLength? c cs = none := commentLength?_of_ne (by
    rintro rfl
    simp at hcases)
  have hstring : stringLength? c cs = none := by
    rcases hcases with rfl | rfl | rfl | rfl | rfl <;> rfl
  have hnumber : numberLength? c cs = none := by
    rcases hcases with rfl | rfl | rfl | rfl | rfl <;> rfl
  have hword : word? c cs = none := by
    rcases hcases with rfl | rfl | rfl | rfl | rfl <;> rfl
  exact (Scanned.operator hcomment hstring hnumber hword
    (operatorLength?_punctuation hc cs)).lexeme_eq

/-- A punctuation mark is read by itself. -/
theorem shapes_punctuation {c : Char} (hc : c ∈ punctuation) (cs : List Char) :
    shapes (c :: cs) = (.operator, String.ofList [c]) :: shapes cs := by
  have hblank : isAsciiBlank c = false := by
    have hall : punctuation.all (!isAsciiBlank ·) = true := by decide
    simpa using List.all_eq_true.mp hall c hc
  exact @shapes_token c [] cs .operator hblank (by decide) (lexeme_punctuation hc cs)

end Lexer

end SolidityTools

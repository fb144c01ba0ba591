import SolidityTools.Proofs.Token.Blank
import Mathlib.Data.List.Chain

set_option autoImplicit false

/-! # Tokens by themselves

A token is the same when its text stands alone. Where a scan stops depends on the text behind it,
but with that text gone it stops at the same place: what it took is still there, and there is nothing
else that it could take (`SelfContained`). Only the lexer's look at an opening parenthesis behind a
word is lost, so that a function by itself is an identifier (`lexeme_alone`).

Every scan of a class of characters takes all of them that it can get. Hence two neighbours are never
both white space, both words or both numbers: they would have been one token
(`isChain_tokensFrom`).
-/

namespace SolidityTools

open Text

/-- What a token is by itself, without an opening parenthesis behind it. -/
def TokenKind.alone : TokenKind → TokenKind
  | .function => .identifier
  | kind => kind

/-- Two tokens that can stand next to each other. -/
structure Token.KeepApart (t u : Token) : Prop where
  blanks : ¬(t.kind = .whitespace ∧ u.kind = .whitespace)
  words : ¬(t.isWord = true ∧ u.isWord = true)
  numbers : ¬(t.kind = .number ∧ u.kind = .number)

namespace Lexer

/-! ## Scans of what they take -/

/-- A scan takes the same when the text is cut off behind what it takes, or further behind. -/
def SelfContained (scan : List Char → Nat) : Prop :=
  ∀ cs n, scan cs ≤ n → scan (cs.take n) = scan cs

theorem SelfContained.of_append {scan : List Char → Nat} (h : SelfContained scan)
    {w rest : List Char} (hscan : scan (w ++ rest) = w.length) : scan w = w.length := by
  have hcut := h (w ++ rest) w.length hscan.le
  rwa [List.take_left, hscan] at hcut

theorem selfContained_runLength (p : Char → Bool) : SelfContained (runLength p) := by
  intro cs n hn
  induction cs generalizing n with
  | nil => rw [List.take_nil]
  | cons c cs ih =>
      by_cases hc : p c = true
      · have hcons : ∀ cs, runLength p (c :: cs) = runLength p cs + 1 := fun cs => by
          simp [runLength, hc]
        rw [hcons] at hn
        obtain ⟨n, rfl⟩ := Nat.exists_eq_add_of_lt (Nat.lt_of_lt_of_le (Nat.succ_pos _) hn)
        rw [Nat.zero_add, List.take_succ_cons, hcons, hcons, ih n (by omega)]
      · have hcons : ∀ cs, runLength p (c :: cs) = 0 := fun cs => by simp [runLength, hc]
        cases n with
        | zero => rw [List.take_zero, hcons]; rfl
        | succ n => rw [List.take_succ_cons, hcons, hcons]

theorem selfContained_blockCommentLength : SelfContained blockCommentLength := by
  intro cs n hn
  fun_induction blockCommentLength cs generalizing n with
  | case1 => rw [List.take_nil]; rfl
  | case2 cs =>
      obtain ⟨n, rfl⟩ := Nat.exists_eq_add_of_le' hn
      rfl
  | case3 c cs hne ih =>
      obtain ⟨n, rfl⟩ := Nat.exists_eq_add_of_le' (show 1 ≤ n by omega)
      have hopen : ∀ behind, c = '*' → cs.take n = '/' :: behind → False := by
        intro behind hc htake
        have hprefix := List.take_prefix n cs
        rw [htake] at hprefix
        obtain ⟨rest, rfl⟩ := hprefix
        exact hne _ hc rfl
      rw [List.take_succ_cons, blockCommentLength, ih n (by omega)]
      exact hopen

theorem selfContained_stringLength (quote : Char) : SelfContained (stringLength quote) := by
  intro cs n hn
  fun_induction stringLength quote cs generalizing n with
  | case1 => rw [List.take_nil]; rfl
  | case2 => rw [List.take_of_length_le hn]; rfl
  | case3 d cs ih =>
      obtain ⟨n, rfl⟩ := Nat.exists_eq_add_of_le' (show 2 ≤ n by omega)
      rw [List.take_succ_cons, List.take_succ_cons, stringLength, ih n (by omega)]
  | case4 c cs hone htwo hc =>
      obtain ⟨n, rfl⟩ := Nat.exists_eq_add_of_le' hn
      rw [List.take_succ_cons, stringLength_cons_of_ne _ (ne_backslash hone htwo), if_pos hc]
  | case5 c cs hone htwo hc ih =>
      obtain ⟨n, rfl⟩ := Nat.exists_eq_add_of_le' (show 1 ≤ n by omega)
      rw [List.take_succ_cons, stringLength_cons_of_ne _ (ne_backslash hone htwo), if_neg hc,
        ih n (by omega)]

/-! ## Numbers -/

/-- A run of digits is the same when the text is cut off behind it, and none comes up by a cut. -/
theorem digitsLength?_take {cs : List Char} {n : Nat} (hn : (digitsLength? cs).getD 0 ≤ n) :
    digitsLength? (cs.take n) = digitsLength? cs := by
  cases cs with
  | nil => rw [List.take_nil]
  | cons d cs =>
      by_cases hd : d.isDigit = true
      · have hrun : digitsLength? (d :: cs) = some (runLength isDecimalPart (d :: cs)) := if_pos hd
        rw [hrun, Option.getD_some] at hn
        have hcut := selfContained_runLength isDecimalPart (d :: cs) n hn
        have hpos : 0 < runLength isDecimalPart (d :: cs) := by
          simp [runLength, isDecimalPart, hd]
        obtain ⟨n, rfl⟩ := Nat.exists_eq_add_of_le' (show 1 ≤ n by omega)
        rw [List.take_succ_cons] at hcut ⊢
        rw [hrun, ← hcut]
        exact if_pos hd
      · cases n with
        | zero => exact (if_neg hd).symm
        | succ n => exact (if_neg hd).trans (if_neg hd).symm

theorem getD_map_add_le {o : Option Nat} {k n : Nat} (h : (o.map (· + k)).getD 0 ≤ n + k) :
    o.getD 0 ≤ n := by
  cases o with
  | none => exact Nat.zero_le n
  | some m => exact Nat.le_of_add_le_add_right h

theorem fractionLength_point (cs : List Char) :
    fractionLength ('.' :: cs) = ((digitsLength? cs).map (· + 1)).getD 0 := by
  cases cs with
  | nil => rfl
  | cons d cs =>
      rw [fractionLength, digitsLength?]
      split <;> rfl

theorem fractionLength_of_ne {c : Char} (hc : c ≠ '.') (cs : List Char) :
    fractionLength (c :: cs) = 0 := by
  unfold fractionLength
  split
  · next heq => exact absurd (List.cons.inj heq).1 hc
  · rfl

theorem selfContained_fractionLength : SelfContained fractionLength := by
  intro cs n hn
  match cs, n with
  | [], n => rw [List.take_nil]
  | c :: cs, 0 => exact (Nat.le_zero.mp hn).symm
  | c :: cs, n + 1 =>
      rw [List.take_succ_cons]
      by_cases hc : c = '.'
      · subst hc
        rw [fractionLength_point] at hn
        rw [fractionLength_point, fractionLength_point, digitsLength?_take (getD_map_add_le hn)]
      · rw [fractionLength_of_ne hc, fractionLength_of_ne hc]

/-- Whether an exponent has a sign behind its letter. -/
def beginsWithSign (cs : List Char) : Bool := cs.head?.any fun c => c == '+' || c == '-'

section Exponent

variable {e sign : Char} {cs : List Char}

theorem exponentLength_of_ne (he : ¬(e == 'e' || e == 'E') = true) (cs : List Char) :
    exponentLength (e :: cs) = 0 := by
  unfold exponentLength
  exact if_neg he

theorem exponentLength_sign (he : (e == 'e' || e == 'E') = true)
    (hsign : (sign == '+' || sign == '-') = true) (ds : List Char) :
    exponentLength (e :: sign :: ds) = ((digitsLength? ds).map (· + 2)).getD 0 := by
  unfold exponentLength
  exact (if_pos he).trans (if_pos hsign)

theorem exponentLength_plain (he : (e == 'e' || e == 'E') = true)
    (hsign : beginsWithSign cs = false) :
    exponentLength (e :: cs) = ((digitsLength? cs).map (· + 1)).getD 0 := by
  unfold exponentLength
  cases cs with
  | nil => exact if_pos he
  | cons sign ds => exact (if_pos he).trans (if_neg (by simpa [beginsWithSign] using hsign))

theorem beginsWithSign_take (hsign : beginsWithSign cs = false) (n : Nat) :
    beginsWithSign (cs.take n) = false := by
  cases n with
  | zero => rfl
  | succ n => rwa [beginsWithSign, List.head?_take, if_neg (by simp)]

end Exponent

theorem selfContained_exponentLength : SelfContained exponentLength := by
  intro cs n hn
  match cs, n with
  | [], n => rw [List.take_nil]
  | e :: cs, 0 => exact (Nat.le_zero.mp hn).symm
  | e :: cs, n + 1 =>
      rw [List.take_succ_cons]
      by_cases he : (e == 'e' || e == 'E') = true
      · cases hsign : beginsWithSign cs with
        | true =>
            obtain ⟨sign, ds, rfl⟩ : ∃ sign ds, cs = sign :: ds :=
              List.exists_cons_of_ne_nil (by rintro rfl; cases hsign)
            rw [exponentLength_sign he hsign] at hn ⊢
            cases n with
            | zero =>
                -- a sign without digits takes nothing
                rw [List.take_zero, exponentLength_plain he rfl]
                cases hdigits : digitsLength? ds with
                | none => rfl
                | some k => simp [hdigits] at hn
            | succ n =>
                rw [List.take_succ_cons, exponentLength_sign he hsign,
                  digitsLength?_take (getD_map_add_le hn)]
        | false =>
            rw [exponentLength_plain he hsign] at hn ⊢
            rw [exponentLength_plain he (beginsWithSign_take hsign n),
              digitsLength?_take (getD_map_add_le hn)]
      · rw [exponentLength_of_ne he, exponentLength_of_ne he]

theorem selfContained_decimalLength : SelfContained decimalLength := by
  intro cs n hn
  simp only [decimalLength] at hn
  have hwhole := selfContained_runLength isDecimalPart cs n (by omega)
  have hfraction := selfContained_fractionLength (cs.drop (runLength isDecimalPart cs))
    (n - runLength isDecimalPart cs) (by omega)
  rw [← List.drop_take] at hfraction
  generalize hmantissa : runLength isDecimalPart cs
    + fractionLength (cs.drop (runLength isDecimalPart cs)) = mantissa at hn
  have hexponent := selfContained_exponentLength (cs.drop mantissa) (n - mantissa) (by omega)
  rw [← List.drop_take] at hexponent
  simp only [decimalLength, hwhole, hfraction, hmantissa, hexponent]

/-- Whether a hexadecimal number goes on behind its zero. -/
def beginsWithHex : List Char → Bool
  | x :: h :: _ => (x == 'x' || x == 'X') && isHexDigit h
  | _ => false

theorem exists_of_beginsWithHex {cs : List Char} (hhex : beginsWithHex cs = true) :
    ∃ x h ds, cs = x :: h :: ds := by
  unfold beginsWithHex at hhex
  split at hhex
  · exact ⟨_, _, _, rfl⟩
  · cases hhex

theorem numberLength_hex {x h : Char} {ds : List Char}
    (hhex : beginsWithHex (x :: h :: ds) = true) :
    numberLength '0' (x :: h :: ds) = runLength isHexPart (h :: ds) + 1 :=
  if_pos hhex

theorem numberLength_decimal {c : Char} {cs : List Char}
    (h : c = '0' → beginsWithHex cs = false) : numberLength c cs = decimalLength cs := by
  unfold numberLength
  split
  · exact if_neg (Bool.eq_false_iff.mp (h rfl))
  · rfl

theorem beginsWithHex_take {cs : List Char} (h : beginsWithHex cs = false) (n : Nat) :
    beginsWithHex (cs.take n) = false := by
  match cs, n with
  | [], n => rwa [List.take_nil]
  | cs, 0 => rfl
  | c :: cs, 1 => rfl
  | [c], n + 2 => rfl
  | c :: d :: cs, n + 2 => exact h

theorem selfContained_numberLength (c : Char) : SelfContained (numberLength c) := by
  intro cs n hn
  by_cases hhex : c = '0' ∧ beginsWithHex cs = true
  · obtain ⟨rfl, hhex⟩ := hhex
    obtain ⟨x, h, ds, rfl⟩ := exists_of_beginsWithHex hhex
    rw [numberLength_hex hhex] at hn ⊢
    have hpos : 0 < runLength isHexPart (h :: ds) := by
      have hdigit : isHexDigit h = true := (Bool.and_eq_true_iff.mp hhex).2
      simp [runLength, isHexPart, hdigit]
    obtain ⟨n, rfl⟩ := Nat.exists_eq_add_of_le' (show 2 ≤ n by omega)
    have hrun := selfContained_runLength isHexPart (h :: ds) (n + 1) (by omega)
    rw [List.take_succ_cons] at hrun
    have hcut : beginsWithHex (x :: h :: ds.take n) = true := hhex
    rw [List.take_succ_cons, List.take_succ_cons, numberLength_hex hcut, hrun]
  · have hdecimal : c = '0' → beginsWithHex cs = false := by simpa using hhex
    rw [numberLength_decimal hdecimal] at hn ⊢
    rw [numberLength_decimal fun hc => beginsWithHex_take (hdecimal hc) n,
      selfContained_decimalLength cs n hn]

/-! ## Operators -/

section Operator

variable {c : Char} {w rest : List Char}

theorem isPrefixOf_append {operator : List Char} (h : operator.isPrefixOf (c :: w) = true) :
    operator.isPrefixOf (c :: (w ++ rest)) = true := by
  rw [List.isPrefixOf_iff_prefix] at h ⊢
  exact h.trans (List.prefix_append (c :: w) rest)

/-- An operator by itself is found again, since what is listed in front of it would have been found
in front of more text as well. -/
theorem operatorLength?_alone (h : operatorLength? c (w ++ rest) = some w.length) :
    operatorLength? c w = some w.length := by
  unfold operatorLength? at h
  split at h
  · next operator hfind =>
      obtain ⟨hfront, before, behind, hlist, hearlier⟩ := List.find?_eq_some_iff_append.mp hfind
      have hnonempty : ∀ operator ∈ longOperators, operator ≠ [] := by decide
      have hmem : operator ∈ longOperators := hlist ▸ List.mem_append_right _ List.mem_cons_self
      have hpos := List.length_pos_of_ne_nil (hnonempty operator hmem)
      -- the operator is all of the text
      obtain rfl : operator = c :: w := by
        have hprefix := List.isPrefixOf_iff_prefix.mp hfront
        have hlength := Option.some.inj h
        rw [List.prefix_iff_eq_take.mp hprefix, show operator.length = w.length + 1 by omega,
          List.take_succ_cons, List.take_left]
      have hagain : longOperators.find? (·.isPrefixOf (c :: w)) = some (c :: w) := by
        refine List.find?_eq_some_iff_append.mpr ⟨?_, before, behind, hlist, fun operator hop => ?_⟩
        · exact List.isPrefixOf_iff_prefix.mpr List.prefix_rfl
        · have hnot := hearlier operator hop
          rw [Bool.not_eq_true', Bool.eq_false_iff] at hnot ⊢
          exact fun hfront => hnot (isPrefixOf_append hfront)
      rw [operatorLength?, hagain]
      exact h
  · next hfind =>
      split at h
      · next hmem =>
          have hnone : longOperators.find? (·.isPrefixOf (c :: w)) = none := by
            rw [List.find?_eq_none] at hfind ⊢
            exact fun operator hop hfront => hfind operator hop (isPrefixOf_append hfront)
          rw [operatorLength?, hnone]
          exact (if_pos hmem).trans h
      · cases h

theorem operatorLength?_eq_none_of_append (h : operatorLength? c (w ++ rest) = none) :
    operatorLength? c w = none := by
  unfold operatorLength? at h
  split at h
  · cases h
  · next hfind =>
      have hnone : longOperators.find? (·.isPrefixOf (c :: w)) = none := by
        rw [List.find?_eq_none] at hfind ⊢
        exact fun operator hop hfront => hfind operator hop (isPrefixOf_append hfront)
      rw [operatorLength?, hnone]
      exact h

end Operator

/-! ## Tokens -/

theorem commentLength?_alone {c : Char} {w rest : List Char}
    (h : commentLength? c (w ++ rest) = some w.length) : commentLength? c w = some w.length := by
  obtain ⟨rfl, ⟨body, rfl, hrun⟩ | ⟨body, rfl, hrun⟩⟩ := commentLength?_append_eq_some_iff.mp h
  · rw [commentLength?, (selfContained_runLength (· != '\n')).of_append hrun, List.length_cons]
  · rw [commentLength?, selfContained_blockCommentLength.of_append hrun, List.length_cons]

theorem alone_wordKind (word behind : List Char) :
    (wordKind word behind).alone = wordKind word [] := by
  simp only [wordKind]
  split
  · rfl
  · split
    · rfl
    · split <;> rfl

/-- **A token is the same by itself.** -/
theorem lexeme_alone {c : Char} {w rest : List Char} {kind : TokenKind}
    (h : lexeme c (w ++ rest) = (kind, w.length)) : lexeme c w = (kind.alone, w.length) := by
  have hcomment' : commentLength? c (w ++ rest) = none → commentLength? c w = none := by
    intro hnone
    have hcut : commentLength? c (w ++ []) = none :=
      commentLength?_append_eq_none hnone (by simp)
    rwa [List.append_nil] at hcut
  have hstring' : stringLength? c (w ++ rest) = none → stringLength? c w = none := by
    rw [stringLength?_eq_none_iff, stringLength?_eq_none_iff]
    exact id
  have hnumber' : numberLength? c (w ++ rest) = none → numberLength? c w = none := by
    rw [numberLength?_eq_none_iff, numberLength?_eq_none_iff]
    exact id
  have hword' : word? c (w ++ rest) = none → word? c w = none := by
    rw [word?_eq_none_iff, word?_eq_none_iff]
    exact id
  -- the scans that fail fail again, and the one that fits takes what it took
  have hscanned := scanned_lexeme c (w ++ rest)
  rw [h] at hscanned
  generalize hn : w.length = n at hscanned
  cases hscanned with
  | comment hcomment =>
      subst hn
      exact (Scanned.comment (commentLength?_alone hcomment)).lexeme_eq
  | string hcomment hs =>
      subst hn
      obtain ⟨hquote, hlength⟩ := stringLength_of_lexeme h
      have hcut := (selfContained_stringLength c).of_append hlength
      refine (Scanned.string (hcomment' hcomment) ?_).lexeme_eq
      exact stringLength?_eq_some_iff.mpr ⟨hquote, hcut⟩
  | number hcomment hstring hnum =>
      subst hn
      refine (Scanned.number (hcomment' hcomment) (hstring' hstring) ?_).lexeme_eq
      obtain ⟨hdigit, hlength⟩ := numberLength?_eq_some_iff.mp hnum
      have hcut := (selfContained_numberLength c).of_append hlength
      exact numberLength?_eq_some_iff.mpr ⟨hdigit, hcut⟩
  | word hcomment hstring hnumber hw =>
      subst hn
      have hstart : isWordStart c = true := (word?_eq_some_iff.mp hw).1
      obtain ⟨hall, -⟩ := runLength_of_lexeme hstart h
      have hword := lexeme_word (X := []) hstart hall rfl
      rwa [List.append_nil, ← alone_wordKind _ rest, ← wordKind_of_lexeme hstart h] at hword
  | operator hcomment hstring hnumber hword hoperator =>
      subst hn
      exact (Scanned.operator (hcomment' hcomment) (hstring' hstring) (hnumber' hnumber)
        (hword' hword) (operatorLength?_alone hoperator)).lexeme_eq
  | whitespace hcomment hstring hnumber hword hoperator hspace =>
      subst hn
      have hc : isAsciiBlank c = true := (whitespaceLength?_eq_some_iff.mp hspace).1
      rw [lexeme_of_blank hc, Prod.mk.injEq] at h ⊢
      exact ⟨rfl, (selfContained_runLength isAsciiBlank).of_append h.2⟩
  | other hcomment hstring hnumber hword hoperator hspace =>
      have hspace' : whitespaceLength? c w = none := by
        rw [whitespaceLength?_eq_none_iff] at hspace ⊢
        exact hspace
      refine (Scanned.other (hcomment' hcomment) (hstring' hstring) (hnumber' hnumber)
        (hword' hword) (operatorLength?_eq_none_of_append hoperator) hspace').lexeme_eq

/-! ## Neighbours -/

def NoDigitFirst (cs : List Char) : Prop := ∀ d ∈ cs.head?, d.isDigit = false

theorem noDigitFirst_drop_runLength {p : Char → Bool} (h : ∀ c : Char, c.isDigit = true → p c = true)
    (cs : List Char) : NoDigitFirst (cs.drop (runLength p cs)) := by
  intro d hd
  rw [drop_runLength] at hd
  have hstop := List.head?_dropWhile_not p cs
  rw [Option.mem_def.mp hd] at hstop
  have hnot : p d = false := hstop
  rw [← Bool.not_eq_true]
  intro hdigit
  rw [h d hdigit] at hnot
  cases hnot

theorem isDecimalPart_of_isDigit {c : Char} (hc : c.isDigit = true) : isDecimalPart c = true := by
  rw [isDecimalPart, hc]
  rfl

theorem noDigitFirst_drop_digits {cs : List Char} {k : Nat} (h : digitsLength? cs = some k) :
    NoDigitFirst (cs.drop k) := by
  unfold digitsLength? at h
  split at h
  · split at h
    · obtain rfl := Option.some.inj h
      exact noDigitFirst_drop_runLength (fun _ => isDecimalPart_of_isDigit) _
    · cases h
  · cases h

/-- The first characters of a text end with a whole run of digits. -/
def EndsWithDigits (cs : List Char) (n : Nat) : Prop :=
  ∃ front ds k, cs = front ++ ds ∧ digitsLength? ds = some k ∧ front.length + k = n

theorem EndsWithDigits.noDigitFirst_drop {cs : List Char} {n : Nat} (h : EndsWithDigits cs n) :
    NoDigitFirst (cs.drop n) := by
  obtain ⟨front, ds, k, rfl, hdigits, rfl⟩ := h
  rw [List.drop_length_add_append]
  exact noDigitFirst_drop_digits hdigits

/-- What is read of a number if digits follow some other characters, and nothing if they do not. -/
theorem endsWithDigits_or (front ds : List Char) :
    ((digitsLength? ds).map (· + front.length)).getD 0 = 0 ∨
      EndsWithDigits (front ++ ds) (((digitsLength? ds).map (· + front.length)).getD 0) := by
  cases hdigits : digitsLength? ds with
  | none => exact .inl rfl
  | some k => exact .inr ⟨front, ds, k, rfl, hdigits, Nat.add_comm _ _⟩

theorem fractionLength_cases (cs : List Char) :
    fractionLength cs = 0 ∨ EndsWithDigits cs (fractionLength cs) := by
  cases cs with
  | nil => exact .inl rfl
  | cons c cs =>
      by_cases hc : c = '.'
      · subst hc
        rw [fractionLength_point]
        exact endsWithDigits_or ['.'] cs
      · exact .inl (fractionLength_of_ne hc cs)

theorem exponentLength_cases (cs : List Char) :
    exponentLength cs = 0 ∨ EndsWithDigits cs (exponentLength cs) := by
  cases cs with
  | nil => exact .inl rfl
  | cons e cs =>
      by_cases he : (e == 'e' || e == 'E') = true
      · cases hsign : beginsWithSign cs with
        | true =>
            obtain ⟨sign, ds, rfl⟩ : ∃ sign ds, cs = sign :: ds :=
              List.exists_cons_of_ne_nil (by rintro rfl; cases hsign)
            rw [exponentLength_sign he hsign]
            exact endsWithDigits_or [e, sign] ds
        | false =>
            rw [exponentLength_plain he hsign]
            exact endsWithDigits_or [e] cs
      · exact .inl (exponentLength_of_ne he cs)

theorem noDigitFirst_drop_fractionLength {cs : List Char} (h : NoDigitFirst cs) :
    NoDigitFirst (cs.drop (fractionLength cs)) := by
  rcases fractionLength_cases cs with hzero | hdigits
  · rwa [hzero]
  · exact hdigits.noDigitFirst_drop

theorem noDigitFirst_drop_exponentLength {cs : List Char} (h : NoDigitFirst cs) :
    NoDigitFirst (cs.drop (exponentLength cs)) := by
  rcases exponentLength_cases cs with hzero | hdigits
  · rwa [hzero]
  · exact hdigits.noDigitFirst_drop

theorem noDigitFirst_drop_numberLength (c : Char) (cs : List Char) :
    NoDigitFirst (cs.drop (numberLength c cs)) := by
  by_cases hhex : c = '0' ∧ beginsWithHex cs = true
  · obtain ⟨rfl, hhex⟩ := hhex
    obtain ⟨x, h, ds, rfl⟩ := exists_of_beginsWithHex hhex
    rw [numberLength_hex hhex, List.drop_succ_cons]
    refine noDigitFirst_drop_runLength (fun d hd => ?_) _
    rw [isHexPart, isHexDigit, hd]
    rfl
  · rw [numberLength_decimal (by simpa using hhex)]
    simp only [decimalLength]
    rw [← List.drop_drop, ← List.drop_drop]
    refine noDigitFirst_drop_exponentLength (noDigitFirst_drop_fractionLength ?_)
    exact noDigitFirst_drop_runLength (fun _ => isDecimalPart_of_isDigit) cs

/-- A number begins with a digit, and only a number is read as one. -/
theorem numberLength_of_lexeme {c : Char} {cs : List Char} {n : Nat}
    (h : lexeme c cs = (.number, n)) : c.isDigit = true ∧ numberLength c cs = n := by
  have hscanned := scanned_lexeme c cs
  rw [h] at hscanned
  cases hscanned with
  | number _ _ hnumber => exact numberLength?_eq_some_iff.mp hnumber
  | word _ _ _ hword => rcases word?_kind_cases hword with hk | hk | hk | hk <;> cases hk

/-- Two tokens that follow one another can stand next to each other. -/
theorem keepApart_of_lexeme {t u : Token} {c d : Char} {w cs : List Char} {n : Nat}
    (ht : lexeme c (w ++ d :: cs) = (t.kind, w.length)) (hu : lexeme d cs = (u.kind, n)) :
    t.KeepApart u where
  blanks := by
    rintro ⟨htkind, hukind⟩
    rw [htkind] at ht
    have hc : isAsciiBlank c = true := by
      by_contra hc
      rw [Bool.not_eq_true] at hc
      exact lexeme_ne_whitespace hc _ (by rw [ht])
    rw [lexeme_of_blank hc, Prod.mk.injEq] at ht
    have hd : isAsciiBlank d = false := by
      have hstop := (all_of_runLength_append ht.2).2
      by_contra hd
      rw [Bool.not_eq_false] at hd
      simp [runLength, hd] at hstop
    exact lexeme_ne_whitespace hd cs (by rw [hu, hukind])
  words := by
    rintro ⟨htword, huword⟩
    have hstop := (runLength_of_lexeme (isWordStart_of_isWord htword ht) ht).2
    have hd := isWordPart_of_isWordStart (isWordStart_of_isWord huword hu)
    simp [runLength, hd] at hstop
  numbers := by
    rintro ⟨htkind, hukind⟩
    rw [htkind] at ht
    rw [hukind] at hu
    have hstop := noDigitFirst_drop_numberLength c (w ++ d :: cs)
    rw [(numberLength_of_lexeme ht).2, List.drop_left] at hstop
    have hd := hstop d rfl
    rw [(numberLength_of_lexeme hu).1] at hd
    cases hd

/-- Neighbours would not be one token. -/
theorem isChain_tokensFrom (start : Nat) (cs : List Char) :
    (tokensFrom start cs).IsChain Token.KeepApart := by
  rw [List.isChain_iff_forall_rel_of_append_cons_cons]
  intro t u before behind hsplit
  obtain ⟨c, w, rest, -, ht, hbehind⟩ := exists_of_tokensFrom_eq_append hsplit
  cases rest with
  | nil => simp [tokensFrom] at hbehind
  | cons d cs =>
      rw [tokensFrom_cons] at hbehind
      obtain ⟨rfl, -⟩ := List.cons.inj hbehind
      exact keepApart_of_lexeme ht rfl

theorem kind_eq_function_iff {start : Nat} {cs : List Char} {before behind : List Token} {t : Token}
    (h : tokensFrom start cs = before ++ t :: behind) :
    t.kind = .function ↔ t.isWord = true ∧ isKeywordText t.text = false ∧
      isTypeText t.text = false ∧ opensGroup (visibleTokens behind) = true := by
  obtain ⟨c, w, rest, htext, hlex, rfl⟩ := exists_of_tokensFrom_eq_append h
  rw [← opensCall_eq_opensGroup]
  have hword : t.isWord = true → t.kind = wordKind (c :: w) rest := fun hword =>
    wordKind_of_lexeme (isWordStart_of_isWord hword hlex) hlex
  have hkind : t.isWord = true → (t.kind = .function ↔ isKeywordText t.text = false ∧
      isTypeText t.text = false ∧ opensCall rest = true) := by
    intro hw
    have hstring : String.ofList (c :: w) = t.text := by rw [← htext, String.ofList_toList]
    rw [hword hw, wordKind, hstring]
    cases isKeywordText t.text <;> cases isTypeText t.text <;> cases opensCall rest <;> simp
  constructor
  · intro hfunction
    have hw : t.isWord = true := by rw [Token.isWord, hfunction]; rfl
    exact ⟨hw, (hkind hw).mp hfunction⟩
  · rintro ⟨hw, hrest⟩
    exact (hkind hw).mpr hrest

end Lexer

/-- **Tokens are self-contained.** The text of a token is cut into this one token, of the same kind
except that a function becomes an identifier. What makes a function of a word that is neither a
keyword nor an elementary type is that the next token behind it, white space aside, is an opening
parenthesis. Two neighbours are never both white space, both words or both numbers. -/
theorem tokens_selfContained (source : String) :
    (∀ t ∈ tokenize source, tokenize t.text = [⟨t.kind.alone, t.text, 0⟩]) ∧
      (∀ before t behind, tokenize source = before ++ t :: behind →
        (t.kind = .function ↔ t.isWord = true ∧ isKeywordText t.text = false ∧
          isTypeText t.text = false ∧ opensGroup (visibleTokens behind) = true)) ∧
      (tokenize source).IsChain Token.KeepApart := by
  refine ⟨fun t ht => ?_, fun before t behind => Lexer.kind_eq_function_iff,
    Lexer.isChain_tokensFrom 0 _⟩
  obtain ⟨_, c, w, rest, htext, hlex, -⟩ := Lexer.exists_tokensFrom_of_mem ht
  have halone : Lexer.lexeme c (w ++ []) = (t.kind.alone, w.length) := by
    rw [List.append_nil]
    exact Lexer.lexeme_alone hlex
  have htokens : Lexer.tokensFrom 0 (c :: (w ++ []))
      = [⟨t.kind.alone, String.ofList (c :: w), 0⟩] := by
    rw [Lexer.tokensFrom_append halone, Lexer.tokensFrom]
  rw [List.append_nil, ← htext, String.ofList_toList] at htokens
  exact htokens

end SolidityTools

import SolidityTools.Proofs.InPlace.Number
import SolidityTools.Proofs.Token.Blank

set_option autoImplicit false

/-! # Cutting a text into tokens in place

At every place the scans of a lexer that works on bytes are tried in the order of the kinds, and
yield what the lexer that works on characters yields (`next?_append`). Each token ends where the
next one begins, between two characters, and so the tokens are the same (`tokenize?_eq`).
-/

namespace SolidityTools

open Text Lexer

namespace InPlace

/-! ## Words, operators and white space -/

/-- The kind and the length of a word at an offset, if there is one. -/
def word? (src : List Char) (pos : Nat) : Option (Option (TokenKind × Nat)) := do
  let bs ← tail? (bytes src) pos
  if bs.head?.any (byteIs isWordStart) then do
    let length := run isWordPart bs
    let word ← slice? src pos (pos + length)
    let text := String.ofList word
    if isKeywordText text then some (some (.keyword, length))
    else if isTypeText text then some (some (.type, length))
    else do
      let behind ← tail? bs length
      let gap := run isAsciiBlank behind
      some (some (if byteAt (· == '(') bs (length + gap) then .function else .identifier, length))
  else some none

/-- The length of an operator at an offset, if there is one. -/
def operator? (src : List Char) (pos : Nat) : Option (Option Nat) := do
  let rest ← rest? src pos
  match longOperators.find? (·.isPrefixOf rest) with
  | some operator => some (some (byteLength operator))
  | none =>
    if byteAt operatorCharacters.contains (bytes src) pos then some (some 1) else some none

/-- The length of a run of ASCII blanks at an offset, if there is one. -/
def whitespace? (src : List Char) (pos : Nat) : Option (Option Nat) := do
  let bs ← tail? (bytes src) pos
  let length := run isAsciiBlank bs
  some (if 0 < length then some length else none)

theorem asciiOnly_isAlpha : AsciiOnly Char.isAlpha :=
  .of_lt fun _ hc => by
    have := toNat_of_isAlpha hc
    omega

theorem asciiOnly_isWordStart : AsciiOnly isWordStart :=
  (asciiOnly_isAlpha.or (asciiOnly_beq (by decide))).or (asciiOnly_beq (by decide))

theorem asciiOnly_isWordPart : AsciiOnly isWordPart :=
  ((asciiOnly_isAlpha.or asciiOnly_isDigit).or (asciiOnly_beq (by decide))).or
    (asciiOnly_beq (by decide))

theorem asciiOnly_isAsciiBlank : AsciiOnly isAsciiBlank := by
  intro c hc
  simp only [isAsciiBlank, Bool.or_eq_true, beq_iff_eq] at hc
  rcases hc with (((rfl | rfl) | rfl) | rfl) | rfl <;> decide

theorem asciiOnly_operatorCharacters : AsciiOnly operatorCharacters.contains := by
  intro c hc
  have hall : operatorCharacters.all (·.utf8Size == 1) = true := by decide
  exact eq_of_beq (List.all_eq_true.mp hall c (List.contains_iff_mem.mp hc))

section Scans

variable (P : List Char) (c : Char) (cs : List Char)

theorem word?_append :
    word? (P ++ c :: cs) (byteLength P)
      = some ((Lexer.word? c cs).map fun (kind, n) => (kind, byteLength (c :: cs.take n))) := by
  rw [word?, tail?_bytes]
  simp only [Option.bind_eq_bind, Option.bind_some]
  rw [head?_bytes asciiOnly_isWordStart, Lexer.word?]
  by_cases hc : isWordStart c = true
  · rw [if_pos (show (c :: cs).head?.any isWordStart = true from hc), if_pos hc]
    have hpart : isWordPart c = true := isWordPart_of_isWordStart hc
    have hrun : run isWordPart (bytes (c :: cs)) = byteLength (c :: cs.takeWhile isWordPart) := by
      rw [run_bytes asciiOnly_isWordPart, List.takeWhile_cons_of_pos hpart]
    have hsplit : c :: cs = c :: cs.takeWhile isWordPart ++ cs.dropWhile isWordPart := by
      rw [List.cons_append, List.takeWhile_append_dropWhile]
    have hslice : slice? (P ++ c :: cs) (byteLength P)
        (byteLength P + byteLength (c :: cs.takeWhile isWordPart))
          = some (c :: cs.takeWhile isWordPart) := by
      rw [hsplit]
      exact slice?_append P _ _
    have hbehind : tail? (bytes (c :: cs)) (byteLength (c :: cs.takeWhile isWordPart))
        = some (bytes (cs.dropWhile isWordPart)) := by
      rw [hsplit]
      exact tail?_bytes _ _
    have hcall : byteAt (· == '(') (bytes (c :: cs)) (byteLength (c :: cs.takeWhile isWordPart)
        + run isAsciiBlank (bytes (cs.dropWhile isWordPart)))
          = opensCall (cs.dropWhile isWordPart) := by
      have hblanks : c :: cs = c :: cs.takeWhile isWordPart
          ++ (cs.dropWhile isWordPart).takeWhile isAsciiBlank
          ++ (cs.dropWhile isWordPart).dropWhile isAsciiBlank := by
        rw [List.append_assoc, List.takeWhile_append_dropWhile, List.cons_append,
          List.takeWhile_append_dropWhile]
      rw [run_bytes asciiOnly_isAsciiBlank, ← byteLength_append]
      conv => lhs; arg 2; rw [hblanks]
      rw [byteAt_bytes (asciiOnly_beq (by decide)), opensCall]
      cases ((cs.dropWhile isWordPart).dropWhile isAsciiBlank).head? with
      | none => rfl
      | some d => rfl
    rw [hrun, hslice]
    simp only [Option.bind_some, hbehind, hcall, Option.map_some, wordKind, take_runLength,
      drop_runLength]
    split
    · rfl
    · split
      · rfl
      · rfl
  · rw [if_neg (show ¬(c :: cs).head?.any isWordStart = true from hc), if_neg hc]
    rfl

theorem operator?_append :
    operator? (P ++ c :: cs) (byteLength P)
      = some ((operatorLength? c cs).map fun n => byteLength (c :: cs.take n)) := by
  have hcontains : byteAt operatorCharacters.contains (bytes (P ++ c :: cs)) (byteLength P)
      = operatorCharacters.contains c := byteAt_bytes asciiOnly_operatorCharacters P (c :: cs)
  rw [operator?, rest?_append, hcontains, operatorLength?]
  simp only [Option.bind_eq_bind, Option.bind_some]
  cases hfind : longOperators.find? (·.isPrefixOf (c :: cs)) with
  | some operator =>
      have hne : ∀ op ∈ longOperators, op ≠ [] := by decide
      obtain ⟨d, w, rfl⟩ :=
        List.exists_cons_of_ne_nil (hne operator (List.mem_of_find?_eq_some hfind))
      have hprefix := List.find?_some hfind
      obtain ⟨rest, hrest⟩ := List.isPrefixOf_iff_prefix.mp hprefix
      obtain ⟨rfl, rfl⟩ := List.cons.inj hrest
      have htake : (w.append rest).take ((d :: w).length - 1) = w := List.take_left
      simp only [Option.map_some, htake]
  | none =>
      by_cases hc : operatorCharacters.contains c = true
      · have hsize : c.utf8Size = 1 := asciiOnly_operatorCharacters c hc
        simp only [if_pos hc, Option.map_some, List.take_zero, byteLength_cons, byteLength_nil,
          hsize]
      · simp only [if_neg hc, Option.map_none]

theorem whitespace?_append :
    whitespace? (P ++ c :: cs) (byteLength P)
      = some ((whitespaceLength? c cs).map fun n => byteLength (c :: cs.take n)) := by
  rw [whitespace?, tail?_bytes]
  simp only [Option.bind_eq_bind, Option.bind_some, run_bytes asciiOnly_isAsciiBlank]
  rw [whitespaceLength?]
  by_cases hc : isAsciiBlank c = true
  · have hpos : 0 < byteLength (c :: cs.takeWhile isAsciiBlank) := by
      have hsize : 0 < c.utf8Size := c.utf8Size_pos
      rw [byteLength_cons]
      omega
    rw [List.takeWhile_cons_of_pos hc, if_pos hpos, if_pos hc, Option.map_some, take_runLength]
  · rw [List.takeWhile_cons_of_neg hc, if_neg hc]
    rfl

def next? (src : List Char) (pos : Nat) : Option (TokenKind × Nat) := do
  match ← comment? src pos with
  | some n => some (.comment, n)
  | none =>
    match ← string? src pos with
    | some n => some (.string, n)
    | none =>
      match ← number? src pos with
      | some n => some (.number, n)
      | none =>
        match ← word? src pos with
        | some word => some word
        | none =>
          match ← operator? src pos with
          | some n => some (.operator, n)
          | none =>
            match ← whitespace? src pos with
            | some n => some (.whitespace, n)
            | none => do
              let rest ← rest? src pos
              some (.other, (rest.head?.map Char.utf8Size).getD 1)

/-- **At every place the same token is found.** -/
theorem next?_append :
    next? (P ++ c :: cs) (byteLength P)
      = some ((lexeme c cs).1, byteLength (c :: cs.take (lexeme c cs).2)) := by
  have hlexeme := scanned_lexeme c cs
  rw [next?, comment?_append, string?_append, number?_append, word?_append, operator?_append,
    whitespace?_append, rest?_append]
  generalize (lexeme c cs).1 = kind at *
  generalize (lexeme c cs).2 = n at *
  cases hlexeme with
  | comment h => simp [h]
  | string hcomment h => simp [hcomment, h]
  | number hcomment hstring h => simp [hcomment, hstring, h]
  | word hcomment hstring hnumber h => simp [hcomment, hstring, hnumber, h]
  | operator hcomment hstring hnumber hword h => simp [hcomment, hstring, hnumber, hword, h]
  | whitespace hcomment hstring hnumber hword hoperator h =>
      simp [hcomment, hstring, hnumber, hword, hoperator, h]
  | other hcomment hstring hnumber hword hoperator h =>
      simp [hcomment, hstring, hnumber, hword, hoperator, h]

end Scans

/-! ## All tokens -/

/-- The tokens of a text from an offset on, found in a number of steps. A search that goes on
forever would yield nothing either. -/
def tokensFrom? (src : List Char) : Nat → Nat → Option (List Token)
  | 0, _ => none
  | steps + 1, pos =>
    if byteLength src ≤ pos then some []
    else do
      let (kind, length) ← next? src pos
      let stop := min (pos + length) (byteLength src)
      let text ← slice? src pos stop
      let tokens ← tokensFrom? src steps stop
      some (⟨kind, String.ofList text, pos⟩ :: tokens)

def tokenize? (source : String) : Option (List Token) :=
  tokensFrom? source.toList (byteLength source.toList + 1) 0

/-- The tokens of a text are found behind anything. The induction is on the number of characters
left, of which each step takes at least one. -/
theorem tokensFrom?_append (P cs : List Char) (steps : Nat) (hsteps : cs.length < steps) :
    tokensFrom? (P ++ cs) steps (byteLength P) = some (tokensFrom (byteLength P) cs) := by
  induction steps generalizing P cs with
  | zero => omega
  | succ steps ih =>
      cases cs with
      | nil =>
          rw [tokensFrom?, List.append_nil, if_pos (Nat.le_refl _), tokensFrom]
      | cons c cs =>
          have hpos : 0 < c.utf8Size := c.utf8Size_pos
          have hlt : ¬byteLength (P ++ c :: cs) ≤ byteLength P := by
            rw [byteLength_append, byteLength_cons]
            omega
          have hlength := length_drop_lexeme_lt c cs
          have hsplit : c :: cs
              = c :: cs.take (lexeme c cs).2 ++ cs.drop (lexeme c cs).2 := by
            rw [List.cons_append, List.take_append_drop]
          rw [tokensFrom?, if_neg hlt, next?_append, tokensFrom_cons]
          generalize c :: cs.take (lexeme c cs).2 = text at *
          generalize cs.drop (lexeme c cs).2 = rest at *
          have hstop : min (byteLength P + byteLength text) (byteLength (P ++ c :: cs))
              = byteLength P + byteLength text := by
            rw [hsplit, byteLength_append, byteLength_append]
            omega
          have hslice : slice? (P ++ c :: cs) (byteLength P) (byteLength P + byteLength text)
              = some text := by
            rw [hsplit]
            exact slice?_append P text rest
          have hrest : tokensFrom? (P ++ c :: cs) steps (byteLength P + byteLength text)
              = some (tokensFrom (byteLength P + byteLength text) rest) := by
            have h := ih (P ++ text) rest (by omega)
            rwa [List.append_assoc, ← hsplit, byteLength_append] at h
          simp only [Option.bind_eq_bind, Option.bind_some, hstop, hslice, hrest]

/-- **The tokens of every source are found in place.** -/
theorem tokenize?_eq (source : String) : tokenize? source = some (tokenize source) := by
  have hsteps : source.toList.length < byteLength source.toList + 1 :=
    Nat.lt_succ_of_le (length_le_byteLength source.toList)
  exact tokensFrom?_append [] source.toList _ hsteps

end InPlace

end SolidityTools

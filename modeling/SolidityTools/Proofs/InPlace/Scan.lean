import SolidityTools.Proofs.InPlace.Access
import SolidityTools.Proofs.Text.Ascii
import SolidityTools.Proofs.Token.Blank
import SolidityTools.Proofs.Token.Word

set_option autoImplicit false

/-! # Comments and string literals in place

The lexer works on the bytes of the text at a byte offset, and looks for ASCII characters only. A
scan is compared with that of the lexer that works on characters: at the place of a character `c`
with the text `cs` behind it, both yield nothing, or the one yields the bytes of what the other
yields.

The step past an escaped character in a string literal may end inside that character. But no byte
there is taken for a quote or a backslash, so the end of the literal still lies between two
characters.
-/

namespace SolidityTools

open Text Lexer

namespace InPlace

/-! ## Bytes of a piece of text -/

/-- The length of the run of bytes at the front that are characters satisfying `p`. -/
def run (p : Char → Bool) (bs : List UInt8) : Nat := (bs.takeWhile (byteIs p)).length

/-- Whether the byte at an index is there and is a character that satisfies `p`. -/
def byteAt (p : Char → Bool) (bs : List UInt8) (i : Nat) : Bool := bs[i]?.any (byteIs p)

section Pieces

variable {p : Char → Bool}

theorem tail?_bytes (P Q : List Char) : tail? (bytes (P ++ Q)) (byteLength P) = some (bytes Q) := by
  rw [bytes_append, ← length_bytes]
  exact tail?_append (bytes P) (bytes Q)

theorem getElem?_bytes (P Q : List Char) : (bytes (P ++ Q))[byteLength P]? = (bytes Q).head? := by
  rw [bytes_append, ← length_bytes, List.getElem?_append_right (Nat.le_refl _), Nat.sub_self]
  exact List.head?_eq_getElem?.symm

theorem byteAt_bytes (hp : AsciiOnly p) (P Q : List Char) :
    byteAt p (bytes (P ++ Q)) (byteLength P) = Q.head?.any p := by
  rw [byteAt, getElem?_bytes]
  exact head?_bytes hp Q

theorem run_bytes (hp : AsciiOnly p) (cs : List Char) :
    run p (bytes cs) = byteLength (cs.takeWhile p) := by
  rw [run, takeWhile_bytes hp, length_bytes]

end Pieces

/-! ## Comments -/

/-- The byte offset of the first place where a text contains another. -/
def offsetOf? (part : List Char) : List Char → Option Nat
  | [] => if part.isEmpty then some 0 else none
  | c :: cs =>
    if part.isPrefixOf (c :: cs) then some 0 else (offsetOf? part cs).map (c.utf8Size + ·)

/-- The length of a comment at an offset, if there is one. -/
def comment? (src : List Char) (pos : Nat) : Option (Option Nat) := do
  let rest ← rest? src pos
  if ['/', '/'].isPrefixOf rest then
    some (some ((offsetOf? ['\n'] rest).getD (byteLength rest)))
  else if ['/', '*'].isPrefixOf rest then do
    let inside ← rest? rest 2
    some (some (((offsetOf? ['*', '/'] inside).map (· + 4)).getD (byteLength rest)))
  else some none

theorem getD_offsetOf?_newline (cs : List Char) :
    (offsetOf? ['\n'] cs).getD (byteLength cs) = byteLength (cs.takeWhile (· != '\n')) := by
  induction cs with
  | nil => rfl
  | cons c cs ih =>
      by_cases hc : c = '\n'
      · subst hc
        rfl
      · have hprefix : ¬['\n'].isPrefixOf (c :: cs) = true := by simpa using Ne.symm hc
        rw [offsetOf?, if_neg hprefix, List.takeWhile_cons_of_pos (by simpa using hc),
          byteLength_cons, byteLength_cons, ← ih]
        cases offsetOf? ['\n'] cs with
        | none => rfl
        | some n => rfl

theorem getD_offsetOf?_closing (cs : List Char) (k : Nat) :
    ((offsetOf? ['*', '/'] cs).map (· + (k + 2))).getD (k + byteLength cs)
      = k + byteLength (cs.take (blockCommentLength cs)) := by
  fun_induction blockCommentLength cs generalizing k with
  | case1 => rfl
  | case2 cs =>
      have hstar : '*'.utf8Size = 1 := by decide
      have hslash : '/'.utf8Size = 1 := by decide
      have hoffset : offsetOf? ['*', '/'] ('*' :: '/' :: cs) = some 0 := by simp [offsetOf?]
      rw [hoffset, List.take_succ_cons, List.take_succ_cons, List.take_zero]
      show 0 + (k + 2) = k + ('*'.utf8Size + ('/'.utf8Size + 0))
      omega
  | case3 c cs hne ih =>
      have hprefix : ¬['*', '/'].isPrefixOf (c :: cs) = true := by
        intro hprefix
        obtain ⟨rest, hrest⟩ := List.isPrefixOf_iff_prefix.mp hprefix
        obtain ⟨rfl, rfl⟩ := List.cons.inj hrest
        exact hne _ rfl rfl
      have hrest := ih (k + c.utf8Size)
      rw [offsetOf?, if_neg hprefix, List.take_succ_cons, byteLength_cons, byteLength_cons,
        ← Nat.add_assoc, ← Nat.add_assoc, ← hrest]
      cases offsetOf? ['*', '/'] cs with
      | none => rfl
      | some n =>
          show c.utf8Size + n + (k + 2) = n + (k + c.utf8Size + 2)
          omega

theorem comment?_append (P : List Char) (c : Char) (cs : List Char) :
    comment? (P ++ c :: cs) (byteLength P)
      = some ((commentLength? c cs).map fun n => byteLength (c :: cs.take n)) := by
  have hslash : '/'.utf8Size = 1 := by decide
  have hstar : '*'.utf8Size = 1 := by decide
  rw [comment?, rest?_append]
  simp only [Option.bind_eq_bind, Option.bind_some]
  fun_cases commentLength? c cs with
  | case1 cs =>
      have hrest : ('/' :: '/' :: cs).takeWhile (· != '\n')
          = '/' :: ('/' :: cs).take (runLength (· != '\n') cs + 1) := by
        rw [List.take_succ_cons, take_runLength]
        rfl
      rw [if_pos (by simp), getD_offsetOf?_newline, hrest]
      rfl
  | case2 cs =>
      have hinside : rest? ('/' :: '*' :: cs) 2 = some cs := rest?_append ['/', '*'] cs
      have hlength := getD_offsetOf?_closing cs 2
      rw [if_neg (by simp), if_pos (by simp), hinside]
      simp only [Option.bind_some, Option.map_some, List.take_succ_cons, byteLength_cons, hslash,
        hstar, ← Nat.add_assoc]
      exact congrArg (some ∘ some) hlength
  | case3 c cs hline hblock =>
      have hne : ∀ d, d = '/' ∨ d = '*' → ¬['/', d].isPrefixOf (c :: cs) = true := by
        intro d hd hprefix
        obtain ⟨rest, hrest⟩ := List.isPrefixOf_iff_prefix.mp hprefix
        obtain ⟨rfl, rfl⟩ := List.cons.inj hrest
        rcases hd with rfl | rfl
        · exact hline _ rfl rfl
        · exact hblock _ rfl rfl
      rw [if_neg (hne '/' (Or.inl rfl)), if_neg (hne '*' (Or.inr rfl))]
      rfl

/-! ## Strings -/

/-- The index behind the closing quote, from an index on; the number of bytes if there is none. -/
def quoteEnd? (quote : Char) (bs : List UInt8) (i : Nat) : Option Nat :=
  if i < bs.length then do
    let b ← bs[i]?
    if byteIs (· == '\\') b then quoteEnd? quote bs (i + 2)
    else if byteIs (· == quote) b then some (i + 1)
    else quoteEnd? quote bs (i + 1)
  else some bs.length
termination_by bs.length - i

/-- The length of a string literal at an offset, if there is one. -/
def string? (src : List Char) (pos : Nat) : Option (Option Nat) :=
  match (bytes src)[pos]?.bind characterOf? with
  | some quote =>
    if quote == '"' || quote == '\'' then do
      let bs ← tail? (bytes src) pos
      let stop ← quoteEnd? quote bs 1
      some (some stop)
    else some none
  | none => some none

/-- Bytes that are neither a backslash nor the quote are passed one by one. -/
theorem quoteEnd?_skip {quote : Char} {M : List UInt8}
    (hM : ∀ b ∈ M, byteIs (· == '\\') b = false ∧ byteIs (· == quote) b = false)
    (A X : List UInt8) :
    quoteEnd? quote (A ++ (M ++ X)) A.length
      = quoteEnd? quote (A ++ (M ++ X)) (A.length + M.length) := by
  induction M generalizing A with
  | nil => rfl
  | cons b M ih =>
      obtain ⟨hbackslash, hquote⟩ := hM b List.mem_cons_self
      have hlt : A.length < (A ++ (b :: M ++ X)).length := by
        simp only [List.length_append, List.length_cons]
        omega
      have hget : (A ++ (b :: M ++ X))[A.length]? = some b := getElem?_append_cons A b (M ++ X)
      have hrest := ih (fun d hd => hM d (List.mem_cons_of_mem b hd)) (A ++ [b])
      have hindex : (A ++ [b]).length + M.length = A.length + (b :: M).length := by
        simp only [List.length_append, List.length_cons, List.length_nil]
        omega
      rw [hindex, List.append_assoc, List.length_append] at hrest
      rw [quoteEnd?, if_pos hlt, hget]
      simp only [Option.bind_eq_bind, Option.bind_some, hbackslash, hquote, Bool.false_eq_true,
        if_false]
      exact hrest

/-- A backslash takes the next byte with it. -/
theorem quoteEnd?_backslash (quote : Char) {b : UInt8} (hb : characterOf? b = some '\\')
    (A X : List UInt8) :
    quoteEnd? quote (A ++ b :: X) A.length = quoteEnd? quote (A ++ b :: X) (A.length + 2) := by
  have hlt : A.length < (A ++ b :: X).length := by simp
  have hbackslash : byteIs (· == '\\') b = true := byteIs_of_characterOf? hb
  rw [quoteEnd?, if_pos hlt, getElem?_append_cons]
  simp only [Option.bind_eq_bind, Option.bind_some, hbackslash, if_true]

theorem quoteEnd?_of_le (quote : Char) {bs : List UInt8} {i : Nat} (h : bs.length ≤ i) :
    quoteEnd? quote bs i = some bs.length := by
  rw [quoteEnd?, if_neg (by omega)]

/-- The end of a string literal whose bytes are read from an index on. The induction is on the
pieces that a string is made of; the step past an escape ends behind the first byte of the escaped
character, and the others are passed like any other byte. -/
theorem quoteEnd?_bytes (cs : List Char) {quote : Char} (hquote : quote = '"' ∨ quote = '\'')
    (A : List UInt8) :
    quoteEnd? quote (A ++ bytes cs) A.length
      = some (A.length + byteLength (cs.take (stringLength quote cs))) := by
  have hsize : quote.utf8Size = 1 := by rcases hquote with rfl | rfl <;> decide
  obtain ⟨backslash, hencode, hcharacter⟩ :=
    (utf8EncodeChar_cases '\\').resolve_right fun h => h.1 (by decide)
  have hone : '\\'.utf8Size = 1 := by decide
  fun_induction stringLength quote cs generalizing A with
  | case1 =>
      rw [quoteEnd?_of_le quote (by simp [bytes])]
      simp [bytes]
  | case2 =>
      have hbytes : bytes ['\\'] = [backslash] := by rw [bytes_cons, hencode]; rfl
      rw [hbytes, quoteEnd?_backslash quote hcharacter, quoteEnd?_of_le quote (by simp)]
      simp [hone]
  | case3 d cs ih =>
      obtain ⟨b, M, hd, hM⟩ := exists_utf8EncodeChar d
      have hbytes : bytes ('\\' :: d :: cs) = backslash :: b :: (M ++ bytes cs) := by
        rw [bytes_cons, bytes_cons, hencode, hd]
        rfl
      have hskip : quoteEnd? quote (A ++ backslash :: b :: (M ++ bytes cs)) (A.length + 2)
          = quoteEnd? quote (A ++ backslash :: b :: (M ++ bytes cs)) (A.length + 2 + M.length) := by
        have h := quoteEnd?_skip (fun m hm => ⟨byteIs_of_characterOf?_eq_none (hM m hm),
          @byteIs_of_characterOf?_eq_none (· == quote) m (hM m hm)⟩) (A ++ [backslash, b])
          (bytes cs)
        rwa [List.append_assoc, List.length_append] at h
      have hrest := ih (A ++ backslash :: b :: M)
      rw [List.append_assoc, List.cons_append, List.cons_append] at hrest
      have hindex : (A ++ backslash :: b :: M).length = A.length + 2 + M.length := by
        simp only [List.length_append, List.length_cons]
        omega
      have hlength : M.length + 1 = d.utf8Size := by
        rw [← String.length_utf8EncodeChar, hd, List.length_cons]
      rw [hindex] at hrest
      rw [hbytes, quoteEnd?_backslash quote hcharacter, hskip, hrest, List.take_succ_cons,
        List.take_succ_cons, byteLength_cons, byteLength_cons, hone]
      refine congrArg some ?_
      omega
  | case4 c cs _ _ hc =>
      obtain rfl := eq_of_beq hc
      obtain ⟨b, hb, hbyte⟩ := (utf8EncodeChar_cases c).resolve_right fun h => h.1 hsize
      have hbackslash : byteIs (· == '\\') b = false := by
        rw [byteIs_of_characterOf? hbyte]
        rcases hquote with rfl | rfl <;> decide
      have hclosing : byteIs (· == c) b = true := by
        rw [byteIs_of_characterOf? hbyte]
        exact beq_self_eq_true c
      have hlt : A.length < (A ++ b :: bytes cs).length := by simp
      rw [bytes_cons, hb, List.singleton_append, quoteEnd?, if_pos hlt, getElem?_append_cons]
      simp only [Option.bind_eq_bind, Option.bind_some, hbackslash, hclosing, Bool.false_eq_true,
        if_false, if_true, List.take_succ_cons, List.take_zero, byteLength_cons, byteLength_nil,
        hsize]
  | case5 c cs hlast hescape hc ih =>
      have hne : c ≠ '\\' := by
        rintro rfl
        cases cs with
        | nil => exact hlast rfl rfl
        | cons d cs => exact hescape d cs rfl rfl
      have hpass : ∀ b ∈ String.utf8EncodeChar c,
          byteIs (· == '\\') b = false ∧ byteIs (· == quote) b = false := by
        intro b hb
        rcases utf8EncodeChar_cases c with ⟨b', hb', hbyte⟩ | ⟨-, hall⟩
        · rw [hb', List.mem_singleton] at hb
          subst hb
          rw [byteIs_of_characterOf? hbyte, byteIs_of_characterOf? hbyte]
          exact ⟨by simpa using hne, by simpa using hc⟩
        · exact ⟨byteIs_of_characterOf?_eq_none (hall b hb),
            byteIs_of_characterOf?_eq_none (hall b hb)⟩
      have hrest := ih (A ++ String.utf8EncodeChar c)
      rw [List.append_assoc, List.length_append] at hrest
      rw [bytes_cons, quoteEnd?_skip hpass, hrest, String.length_utf8EncodeChar,
        List.take_succ_cons, byteLength_cons, Nat.add_assoc]

theorem string?_append (P : List Char) (c : Char) (cs : List Char) :
    string? (P ++ c :: cs) (byteLength P)
      = some ((stringLength? c cs).map fun n => byteLength (c :: cs.take n)) := by
  have hget : (bytes (P ++ c :: cs))[byteLength P]? = (bytes (c :: cs)).head? := getElem?_bytes P _
  have hquotes : AsciiOnly fun d => d == '"' || d == '\'' :=
    (asciiOnly_beq (by decide)).or (asciiOnly_beq (by decide))
  rw [string?, hget, bytes_cons, stringLength?]
  by_cases hc : (c == '"' || c == '\'') = true
  · obtain ⟨b, hb, hbyte⟩ := (utf8EncodeChar_cases c).resolve_right fun h => h.1 (hquotes c hc)
    have hquote : c = '"' ∨ c = '\'' := by simpa using hc
    have hsize : c.utf8Size = 1 := hquotes c hc
    have hend : quoteEnd? c (b :: bytes cs) 1
        = some (1 + byteLength (cs.take (stringLength c cs))) := quoteEnd?_bytes cs hquote [b]
    rw [if_pos hc, tail?_bytes, bytes_cons, hb]
    simp only [List.singleton_append, List.head?_cons, Option.bind_some, hbyte, if_pos hc,
      Option.bind_eq_bind, hend, Option.map_some, byteLength_cons, hsize]
  · rw [if_neg hc]
    rcases utf8EncodeChar_cases c with ⟨b, hb, hbyte⟩ | ⟨-, hall⟩
    · rw [hb]
      simp only [List.singleton_append, List.head?_cons, Option.bind_some, hbyte, if_neg hc,
        Option.map_none]
    · obtain ⟨b, M, hM⟩ := List.exists_cons_of_ne_nil (@String.utf8EncodeChar_ne_nil c)
      have hnone : characterOf? b = none := hall b (hM ▸ List.mem_cons_self)
      rw [hM]
      simp only [List.cons_append, List.head?_cons, Option.bind_some, hnone, Option.map_none]

end InPlace

end SolidityTools

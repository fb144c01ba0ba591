import SolidityTools.Import
import SolidityTools.Proofs.InPlace.Access
import SolidityTools.Proofs.Text.Ascii
import SolidityTools.Proofs.Token.Reading
import SolidityTools.Proofs.Token.Tiling
import Mathlib.Data.List.Induction

set_option autoImplicit false

/-! # The ends of string literals in place

Whether a string literal is closed is told by its bytes: the last one must be the first one, and an
even number of backslashes stands in front of it. The first byte is a quote, since nothing else
begins a literal (`OpensString`). For other texts the bytes would not do: two characters may differ
in their first bytes and have a last byte in common.
-/

namespace SolidityTools

open Text Lexer

/-- A string literal begins with a quote. -/
def OpensString (t : Token) : Prop :=
  t.kind = .string → ∃ q w, t.text.toList = q :: w ∧ (q = '"' ∨ q = '\'')

theorem opensString_of_mem_tokensFrom {start : Nat} {cs : List Char} {t : Token}
    (h : t ∈ tokensFrom start cs) : OpensString t := by
  obtain ⟨_, c, w, rest, htext, hlex, -⟩ := exists_tokensFrom_of_mem h
  intro hkind
  rw [hkind] at hlex
  exact ⟨c, w, htext, (stringLength_of_lexeme hlex).1⟩

theorem opensString_of_mem {source : String} {t : Token} (h : t ∈ tokenize source) :
    OpensString t := opensString_of_mem_tokensFrom h

namespace InPlace

/-- Whether a string literal ends with its own quote. -/
def closesString? (cs : List Char) : Option Bool :=
  let bs := bytes cs
  if bs.length < 2 then some false
  else do
    let stop ← predecessor? bs.length
    let last ← bs[stop]?
    let first ← bs[0]?
    if last != first then some false
    else do
      let inside ← sublist? bs 1 stop
      some ((inside.reverse.takeWhile (byteIs (· == '\\'))).length % 2 == 0)

/-- Whether a token has the closing delimiter it needs. -/
def isTerminated? (t : Token) : Option Bool :=
  match t.kind with
  | .string => closesString? t.text.toList
  | .comment => some (Token.closesBlockComment t.text.toList)
  | _ => some true

/-- The text of a string literal between its quotes. -/
def unquoted? (t : Token) : Option String := do
  let stop ← predecessor? (byteLength t.text.toList)
  let inside ← slice? t.text.toList 1 stop
  some (String.ofList inside)

/-! ## Escapes -/

/-- Backslashes at the end of a text are bytes at its end. -/
theorem length_takeWhile_reverse_bytes (cs : List Char) :
    ((bytes cs).reverse.takeWhile (byteIs (· == '\\'))).length
      = (cs.reverse.takeWhile (· == '\\')).length := by
  induction cs using List.reverseRecOn with
  | nil => rfl
  | append_singleton cs c ih =>
      have hbytes : (bytes (cs ++ [c])).reverse
          = (String.utf8EncodeChar c).reverse ++ (bytes cs).reverse := by
        rw [bytes_append, List.reverse_append]
        simp [bytes]
      rw [hbytes, List.reverse_append]
      rcases utf8EncodeChar_cases c with ⟨b, hb, hbyte⟩ | ⟨hsize, hall⟩
      · have hc : byteIs (· == '\\') b = (c == '\\') := byteIs_of_characterOf? hbyte
        rw [hb, List.reverse_singleton, List.reverse_singleton, List.singleton_append,
          List.singleton_append, List.takeWhile_cons, List.takeWhile_cons, hc]
        split
        · rw [List.length_cons, List.length_cons, ih]
        · rfl
      · obtain ⟨b, M, hM⟩ := List.exists_cons_of_ne_nil
          (List.reverse_ne_nil_iff.mpr (@String.utf8EncodeChar_ne_nil c))
        have hb : b ∈ String.utf8EncodeChar c :=
          List.mem_reverse.mp (hM ▸ List.mem_cons_self)
        have hbyte : ¬byteIs (· == '\\') b = true := by
          rw [byteIs_of_characterOf?_eq_none (hall b hb)]
          exact Bool.false_ne_true
        have hc : ¬(c == '\\') = true := by
          intro h
          rw [eq_of_beq h] at hsize
          exact hsize (by decide)
        rw [hM, List.cons_append, List.takeWhile_cons_of_neg hbyte, List.reverse_singleton,
          List.singleton_append, List.takeWhile_cons, if_neg hc]
        rfl

/-! ## Closing quotes -/

/-- The check looks at the first and the last byte and at the bytes between them. -/
theorem closesString?_of_bytes {cs : List Char} {first last : UInt8} {X : List UInt8}
    (h : bytes cs = first :: (X ++ [last])) :
    closesString? cs
      = some (last == first && (X.reverse.takeWhile (byteIs (· == '\\'))).length % 2 == 0) := by
  have hlength : (first :: (X ++ [last])).length = X.length + 1 + 1 := by simp
  have hlast : (first :: (X ++ [last]))[X.length + 1]? = some last := by simp
  have hinside : sublist? (first :: (X ++ [last])) 1 (X.length + 1) = some X := by
    rw [Nat.add_comm X.length]
    exact sublist?_append [first] X [last]
  rw [closesString?, h]
  simp only [hlength, predecessor?, Option.bind_eq_bind, Option.bind_some, hlast, hinside]
  rw [if_neg (by omega)]
  by_cases heq : last = first
  · simp [heq]
  · simp [heq]

theorem closesString_concat (q : Char) (v : List Char) (l : Char) :
    Token.closesString (q :: (v ++ [l]))
      = (l == q && (v.reverse.takeWhile (· == '\\')).length % 2 == 0) := by
  simp [Token.closesString]

/-- The bytes of a text that begins with a quote tell whether it is closed. -/
theorem closesString?_cons {q : Char} (hq : q = '"' ∨ q = '\'') (w : List Char) :
    closesString? (q :: w) = some (Token.closesString (q :: w)) := by
  have hsize : q.utf8Size = 1 := by rcases hq with rfl | rfl <;> decide
  obtain ⟨first, hfirst, hcharacter⟩ := (utf8EncodeChar_cases q).resolve_right fun h => h.1 hsize
  have hbytes : ∀ u, bytes (q :: u) = first :: bytes u := fun u => by
    rw [bytes_cons, hfirst, List.singleton_append]
  rcases List.eq_nil_or_concat' w with rfl | ⟨v, l, rfl⟩
  · rw [closesString?, hbytes]
    rfl
  · rw [closesString_concat]
    rcases utf8EncodeChar_cases l with ⟨b, hb, hbyte⟩ | ⟨hl, hall⟩
    · have htext : bytes (q :: (v ++ [l])) = first :: (bytes v ++ [b]) := by
        rw [hbytes, bytes_append, bytes_cons, hb]
        rfl
      have heq : (b == first) = (l == q) := by
        rw [Bool.eq_iff_iff, beq_iff_eq, beq_iff_eq]
        constructor
        · rintro rfl
          exact Option.some.inj (hbyte.symm.trans hcharacter)
        · rintro rfl
          rw [hb] at hfirst
          exact (List.cons.inj hfirst).1
      rw [closesString?_of_bytes htext, heq, length_takeWhile_reverse_bytes]
    · obtain ⟨M, b, hM⟩ := (List.eq_nil_or_concat' _).resolve_left (@String.utf8EncodeChar_ne_nil l)
      have htext : bytes (q :: (v ++ [l])) = first :: (bytes v ++ M ++ [b]) := by
        rw [hbytes, bytes_append, bytes_cons, hM]
        simp [bytes]
      have hbyte : characterOf? b = none := hall b (hM ▸ List.mem_append_right M List.mem_cons_self)
      have hb : (b == first) = false := by
        rw [beq_eq_false_iff_ne]
        rintro rfl
        rw [hbyte] at hcharacter
        cases hcharacter
      have hne : (l == q) = false := by
        rw [beq_eq_false_iff_ne]
        rintro rfl
        exact hl hsize
      rw [closesString?_of_bytes htext, hb, hne]
      rfl

theorem isTerminated?_eq {t : Token} (h : OpensString t) :
    isTerminated? t = some t.isTerminated := by
  rw [isTerminated?, Token.isTerminated]
  cases hkind : t.kind with
  | string =>
      obtain ⟨q, w, htext, hq⟩ := h hkind
      rw [htext]
      exact closesString?_cons hq w
  | _ => rfl

/-- Between the quotes of a closed literal stands a piece of its text. -/
theorem unquoted?_eq {t : Token} (h : OpensString t) (hkind : t.kind = .string)
    (hterminated : t.isTerminated = true) : unquoted? t = some (Import.unquoted t) := by
  obtain ⟨q, w, htext, hq⟩ := h hkind
  have hsize : q.utf8Size = 1 := by rcases hq with rfl | rfl <;> decide
  rw [Token.isTerminated, hkind, htext] at hterminated
  rcases List.eq_nil_or_concat' w with rfl | ⟨v, l, rfl⟩
  · cases hterminated
  · have hclosed : Token.closesString (q :: (v ++ [l])) = true := hterminated
    rw [closesString_concat, Bool.and_eq_true, beq_iff_eq] at hclosed
    obtain ⟨rfl, -⟩ := hclosed
    have hlength : byteLength (l :: (v ++ [l])) = 1 + byteLength v + 1 := by
      rw [byteLength_cons, byteLength_append, byteLength_cons, byteLength_nil, hsize,
        Nat.add_assoc]
    have hslice : slice? (l :: (v ++ [l])) 1 (1 + byteLength v) = some v := by
      have hopen : byteLength [l] = 1 := by rw [byteLength_cons, byteLength_nil, hsize]
      rw [← hopen]
      exact slice?_append [l] v [l]
    rw [unquoted?, Import.unquoted, htext, hlength]
    simp only [predecessor?, Option.bind_eq_bind, Option.bind_some, hslice, List.tail_cons,
      List.dropLast_concat]

end InPlace

end SolidityTools

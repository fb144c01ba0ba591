import SolidityTools.Proofs.InPlace.Scan

set_option autoImplicit false

/-! # Numbers in place

A number is hexadecimal, or it has a whole part, a fraction and an exponent, each measured from the
index at which the part before it ends. A part that is missing has no bytes, so every index is that
of a character or the number of bytes.
-/

namespace SolidityTools

open Text Lexer

namespace InPlace

/-! ## Scans -/

/-- The mark of a hexadecimal number. -/
def isHexMark (c : Char) : Bool := c == 'x' || c == 'X'

def isExponentMark (c : Char) : Bool := c == 'e' || c == 'E'

def isSign (c : Char) : Bool := c == '+' || c == '-'

def hexadecimal? (bs : List UInt8) : Option Bool :=
  if 2 < bs.length then do
    let zero ← bs[0]?
    let mark ← bs[1]?
    let digit ← bs[2]?
    some (byteIs (· == '0') zero && byteIs isHexMark mark && byteIs isHexDigit digit)
  else some false

/-- The length of the digits at an index together with what leads to them; zero without a digit. -/
def digits? (lead : Nat) (bs : List UInt8) (i : Nat) : Option Nat :=
  if byteAt Char.isDigit bs i then do
    let digits ← tail? bs i
    some (lead + run isDecimalPart digits)
  else some 0

/-- The length of a fraction at an index. -/
def fraction? (bs : List UInt8) (i : Nat) : Option Nat :=
  if byteAt (· == '.') bs i then digits? 1 bs (i + 1) else some 0

/-- The length of an exponent at an index. -/
def exponent? (bs : List UInt8) (i : Nat) : Option Nat :=
  if byteAt isExponentMark bs i then
    let sign := if byteAt isSign bs (i + 1) then 1 else 0
    digits? (1 + sign) bs (i + 1 + sign)
  else some 0

/-- The length of a decimal number. -/
def decimal? (bs : List UInt8) : Option Nat := do
  let whole := run isDecimalPart bs
  let fraction ← fraction? bs whole
  let exponent ← exponent? bs (whole + fraction)
  some (whole + fraction + exponent)

/-- The length of a number at an offset, if there is one. -/
def number? (src : List Char) (pos : Nat) : Option (Option Nat) := do
  let bs ← tail? (bytes src) pos
  if bs.head?.any (byteIs Char.isDigit) then do
    if ← hexadecimal? bs then do
      let digits ← tail? bs 2
      some (some (2 + run isHexPart digits))
    else do
      let length ← decimal? bs
      some (some length)
  else some none

/-! ## ASCII characters -/

theorem asciiOnly_isDigit : AsciiOnly Char.isDigit :=
  .of_lt fun _ hc => by
    have := toNat_of_isDigit hc
    omega

theorem asciiOnly_isDecimalPart : AsciiOnly isDecimalPart :=
  asciiOnly_isDigit.or (asciiOnly_beq (by decide))

theorem asciiOnly_isHexDigit : AsciiOnly isHexDigit := by
  refine .of_lt fun c hc => ?_
  simp only [isHexDigit, Bool.or_eq_true, Bool.and_eq_true, decide_eq_true_eq] at hc
  rcases hc with (hc | ⟨-, hc⟩) | ⟨-, hc⟩
  · have := toNat_of_isDigit hc
    omega
  · have : c.toNat ≤ 'f'.toNat := hc
    exact Nat.lt_of_le_of_lt this (by decide)
  · have : c.toNat ≤ 'F'.toNat := hc
    exact Nat.lt_of_le_of_lt this (by decide)

theorem asciiOnly_isHexPart : AsciiOnly isHexPart :=
  asciiOnly_isHexDigit.or (asciiOnly_beq (by decide))

theorem asciiOnly_isHexMark : AsciiOnly isHexMark :=
  (asciiOnly_beq (by decide)).or (asciiOnly_beq (by decide))

theorem asciiOnly_isExponentMark : AsciiOnly isExponentMark :=
  (asciiOnly_beq (by decide)).or (asciiOnly_beq (by decide))

theorem asciiOnly_isSign : AsciiOnly isSign :=
  (asciiOnly_beq (by decide)).or (asciiOnly_beq (by decide))

/-! ## Hexadecimal numbers -/

/-- Whether a number that begins with `c` is hexadecimal. -/
def isHexadecimal (c : Char) (cs : List Char) : Bool :=
  c == '0' && cs.head?.any isHexMark && cs.tail.head?.any isHexDigit

theorem exists_of_isHexadecimal {c : Char} {cs : List Char} (h : isHexadecimal c cs = true) :
    ∃ x d ds, c = '0' ∧ cs = x :: d :: ds ∧ isHexMark x = true ∧ isHexDigit d = true := by
  cases cs with
  | nil => simp [isHexadecimal] at h
  | cons x cs =>
      cases cs with
      | nil => simp [isHexadecimal] at h
      | cons d ds =>
          rw [isHexadecimal, Bool.and_eq_true, Bool.and_eq_true, beq_iff_eq] at h
          exact ⟨x, d, ds, h.1.1, rfl, h.1.2, h.2⟩

theorem byteIs_getElem {p : Char → Bool} {bs : List UInt8} {i : Nat} (h : i < bs.length) :
    byteIs p bs[i] = byteAt p bs i := by
  rw [byteAt, List.getElem?_eq_getElem h]
  rfl

theorem hexadecimal?_bytes (c : Char) (cs : List Char) :
    hexadecimal? (bytes (c :: cs)) = some (isHexadecimal c cs) := by
  by_cases hlt : 2 < (bytes (c :: cs)).length
  · rw [hexadecimal?, if_pos hlt, List.getElem?_eq_getElem (by omega),
      List.getElem?_eq_getElem (by omega), List.getElem?_eq_getElem (by omega)]
    simp only [Option.bind_eq_bind, Option.bind_some, byteIs_getElem]
    refine congrArg some ?_
    have hzero : byteAt (· == '0') (bytes (c :: cs)) 0 = (c == '0') :=
      byteAt_bytes (asciiOnly_beq (by decide)) [] (c :: cs)
    rw [hzero, isHexadecimal]
    by_cases hc : c = '0'
    · subst hc
      have hmark : byteAt isHexMark (bytes ('0' :: cs)) 1 = cs.head?.any isHexMark :=
        byteAt_bytes asciiOnly_isHexMark ['0'] cs
      rw [hmark]
      cases cs with
      | nil => rfl
      | cons x cs =>
          by_cases hx : isHexMark x = true
          · -- the mark is one byte, so a character begins at the third byte
            have hdigit := byteAt_bytes asciiOnly_isHexDigit ['0', x] cs
            have htwo : byteLength ['0', x] = 2 := by
              rw [byteLength_cons, byteLength_cons, asciiOnly_isHexMark x hx]
              rfl
            rw [htwo] at hdigit
            exact congrArg _ hdigit
          · simp [hx]
    · rw [beq_eq_false_iff_ne.mpr hc]
      rfl
  · have hfalse : isHexadecimal c cs = false := by
      rw [Bool.eq_false_iff]
      intro h
      obtain ⟨x, d, ds, rfl, rfl, -, -⟩ := exists_of_isHexadecimal h
      have hx := x.utf8Size_pos
      have hd := d.utf8Size_pos
      have hzero : '0'.utf8Size = 1 := by decide
      rw [length_bytes, byteLength_cons, byteLength_cons, byteLength_cons] at hlt
      omega
    rw [hexadecimal?, if_neg hlt, hfalse]

/-! ## Decimal numbers -/

theorem digits?_bytes (lead : Nat) (A ds : List Char) :
    digits? lead (bytes (A ++ ds)) (byteLength A)
      = some (((digitsLength? ds).map fun n => lead + byteLength (ds.take n)).getD 0) := by
  rw [digits?, byteAt_bytes asciiOnly_isDigit, tail?_bytes]
  cases ds with
  | nil => rfl
  | cons d ds =>
      rw [digitsLength?]
      by_cases hd : d.isDigit = true
      · rw [if_pos hd, if_pos (show (d :: ds).head?.any Char.isDigit = true from hd)]
        simp only [Option.bind_eq_bind, Option.bind_some, run_bytes asciiOnly_isDecimalPart,
          Option.map_some, Option.getD_some, take_runLength]
      · rw [if_neg hd, if_neg (show ¬(d :: ds).head?.any Char.isDigit = true from hd)]
        rfl

theorem byteLength_take_digits (lead ds : List Char) :
    ((digitsLength? ds).map fun n => byteLength lead + byteLength (ds.take n)).getD 0
      = byteLength ((lead ++ ds).take (((digitsLength? ds).map (· + lead.length)).getD 0)) := by
  cases digitsLength? ds with
  | none => rfl
  | some n =>
      rw [Option.map_some, Option.map_some, Option.getD_some, Option.getD_some, Nat.add_comm n,
        List.take_length_add_append, byteLength_append]

theorem fraction?_bytes (A B : List Char) :
    fraction? (bytes (A ++ B)) (byteLength A) = some (byteLength (B.take (fractionLength B))) := by
  have hpoint : byteAt (· == '.') (bytes (A ++ B)) (byteLength A) = B.head?.any (· == '.') :=
    byteAt_bytes (asciiOnly_beq (by decide)) A B
  rw [fraction?, hpoint]
  by_cases hB : B.head?.any (· == '.') = true
  · obtain ⟨ds, rfl⟩ : ∃ ds, B = '.' :: ds := by
      cases B with
      | nil => cases hB
      | cons c ds => exact ⟨ds, by rw [eq_of_beq hB]⟩
    have hdigits := digits?_bytes 1 (A ++ ['.']) ds
    have hlength : fractionLength ('.' :: ds) = ((digitsLength? ds).map (· + 1)).getD 0 := by
      cases ds with
      | nil => rfl
      | cons d ds =>
          rw [fractionLength, digitsLength?]
          split
          · rfl
          · rfl
    rw [List.append_assoc, byteLength_append] at hdigits
    rw [if_pos hB, hlength]
    exact hdigits.trans (congrArg some (byteLength_take_digits ['.'] ds))
  · have hzero : fractionLength B = 0 := by
      unfold fractionLength
      split
      · simp at hB
      · rfl
    rw [if_neg hB, hzero]
    rfl

theorem exponent?_bytes (A B : List Char) :
    exponent? (bytes (A ++ B)) (byteLength A) = some (byteLength (B.take (exponentLength B))) := by
  rw [exponent?, byteAt_bytes asciiOnly_isExponentMark]
  cases B with
  | nil => rfl
  | cons e cs =>
      by_cases he : isExponentMark e = true
      · have hsize : e.utf8Size = 1 := asciiOnly_isExponentMark e he
        have hone : byteLength (A ++ [e]) = byteLength A + 1 := by
          rw [byteLength_append, byteLength_cons, hsize, byteLength_nil]
        have htext : A ++ e :: cs = (A ++ [e]) ++ cs := by simp
        rw [if_pos (show (e :: cs).head?.any isExponentMark = true from he), htext, ← hone,
          byteAt_bytes asciiOnly_isSign]
        by_cases hsign : cs.head?.any isSign = true
        · obtain ⟨sign, ds, rfl⟩ : ∃ sign ds, cs = sign :: ds := by
            cases cs with
            | nil => cases hsign
            | cons sign ds => exact ⟨sign, ds, rfl⟩
          have hlead : byteLength [e, sign] = 2 := by
            rw [byteLength_cons, byteLength_cons, hsize, asciiOnly_isSign sign hsign]
            rfl
          have hindex : byteLength (A ++ [e, sign]) = byteLength (A ++ [e]) + 1 := by
            rw [hone, byteLength_append, hlead]
          have hlength : exponentLength (e :: sign :: ds)
              = ((digitsLength? ds).map (· + [e, sign].length)).getD 0 :=
            (if_pos he).trans (if_pos hsign)
          have hdigits := digits?_bytes (byteLength [e, sign]) (A ++ [e, sign]) ds
          have hmove : A ++ [e, sign] ++ ds = A ++ [e] ++ sign :: ds := by simp
          rw [byteLength_take_digits, ← hlength, hlead, hindex, hmove] at hdigits
          simp only [if_pos hsign]
          exact hdigits
        · have hlength : exponentLength (e :: cs)
              = ((digitsLength? cs).map (· + [e].length)).getD 0 := by
            cases cs with
            | nil => exact if_pos he
            | cons sign ds => exact (if_pos he).trans (if_neg hsign)
          have hdigits := digits?_bytes (byteLength [e]) (A ++ [e]) cs
          have hlead : byteLength [e] = 1 := by rw [byteLength_cons, hsize, byteLength_nil]
          rw [byteLength_take_digits, ← hlength, hlead] at hdigits
          simp only [if_neg hsign]
          exact hdigits
      · rw [if_neg (show ¬(e :: cs).head?.any isExponentMark = true from he)]
        have hzero : exponentLength (e :: cs) = 0 := if_neg he
        rw [hzero]
        rfl

/-- The text up to one place and from there up to another one. -/
theorem byteLength_take_add (c : Char) (cs : List Char) (m n : Nat) :
    byteLength (c :: cs.take (m + n))
      = byteLength (c :: cs.take m) + byteLength ((cs.drop m).take n) := by
  rw [List.take_add, ← List.cons_append, byteLength_append]

theorem decimal?_bytes {c : Char} (hc : c.isDigit = true) (cs : List Char) :
    decimal? (bytes (c :: cs)) = some (byteLength (c :: cs.take (decimalLength cs))) := by
  have hpart : isDecimalPart c = true := by rw [isDecimalPart, hc, Bool.true_or]
  have hwhole : run isDecimalPart (bytes (c :: cs))
      = byteLength (c :: cs.take (runLength isDecimalPart cs)) := by
    rw [run_bytes asciiOnly_isDecimalPart, List.takeWhile_cons_of_pos hpart, take_runLength]
  have hsplit : ∀ n, c :: cs.take n ++ cs.drop n = c :: cs := fun n => by
    rw [List.cons_append, List.take_append_drop]
  have hfraction : ∀ n, fraction? (bytes (c :: cs)) (byteLength (c :: cs.take n))
      = some (byteLength ((cs.drop n).take (fractionLength (cs.drop n)))) := by
    intro n
    have h := fraction?_bytes (c :: cs.take n) (cs.drop n)
    rwa [hsplit] at h
  have hexponent : ∀ n, exponent? (bytes (c :: cs)) (byteLength (c :: cs.take n))
      = some (byteLength ((cs.drop n).take (exponentLength (cs.drop n)))) := by
    intro n
    have h := exponent?_bytes (c :: cs.take n) (cs.drop n)
    rwa [hsplit] at h
  rw [decimal?, hwhole, hfraction]
  simp only [Option.bind_eq_bind, Option.bind_some]
  rw [← byteLength_take_add, hexponent]
  simp only [Option.bind_some]
  rw [← byteLength_take_add]
  rfl

theorem number?_append (P : List Char) (c : Char) (cs : List Char) :
    number? (P ++ c :: cs) (byteLength P)
      = some ((numberLength? c cs).map fun n => byteLength (c :: cs.take n)) := by
  rw [number?, tail?_bytes]
  simp only [Option.bind_eq_bind, Option.bind_some]
  rw [head?_bytes asciiOnly_isDigit, hexadecimal?_bytes, numberLength?]
  by_cases hc : c.isDigit = true
  · rw [if_pos (show (c :: cs).head?.any Char.isDigit = true from hc), if_pos hc]
    simp only [Option.bind_some, Option.map_some]
    by_cases hhex : isHexadecimal c cs = true
    · rw [if_pos hhex]
      obtain ⟨x, d, ds, rfl, rfl, hx, hd⟩ := exists_of_isHexadecimal hhex
      have hlead : byteLength ['0', x] = 2 := by
        rw [byteLength_cons, byteLength_cons, asciiOnly_isHexMark x hx]
        rfl
      have htail : tail? (bytes ('0' :: x :: d :: ds)) 2 = some (bytes (d :: ds)) := by
        rw [← hlead]
        exact tail?_bytes ['0', x] (d :: ds)
      have hlength : numberLength '0' (x :: d :: ds) = runLength isHexPart (d :: ds) + 1 := by
        have hdigit : ((x == 'x' || x == 'X') && isHexDigit d) = true := by
          rw [Bool.and_eq_true]
          exact ⟨hx, hd⟩
        exact if_pos hdigit
      rw [htail, hlength, List.take_succ_cons, take_runLength]
      simp only [Option.bind_some, run_bytes asciiOnly_isHexPart]
      rw [← hlead, ← byteLength_append]
      rfl
    · have hlength : numberLength c cs = decimalLength cs := by
        unfold numberLength
        split
        · next x d ds =>
            have hdigit : ¬((x == 'x' || x == 'X') && isHexDigit d) = true := hhex
            rw [if_neg hdigit]
        · rfl
      rw [if_neg hhex, decimal?_bytes hc, hlength]
      rfl
  · rw [if_neg (show ¬(c :: cs).head?.any Char.isDigit = true from hc), if_neg hc]
    rfl

end InPlace

end SolidityTools

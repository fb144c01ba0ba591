import SolidityTools.Toml.Value
import SolidityTools.Toml.Quoted

set_option autoImplicit false

/-! # Numbers in a settings file

Whole numbers are read exactly. Of a floating-point number only one thing counts, namely whether it
rounds to a double or is too large for that, and this is decided on its decimal digits.
-/

namespace SolidityTools.Toml

/-- Splits a text at the first character that satisfies `p`, which is dropped. -/
def splitAt? (p : Char → Bool) (cs : List Char) : Option (List Char × List Char) :=
  match cs.dropWhile (!p ·) with
  | [] => none
  | _ :: rest => some (cs.takeWhile (!p ·), rest)

/-! ## Integers -/

/-- The digits of a run in which underscores may stand between digits; `none` for a run of
another form. -/
def digits? (isDigit : Char → Bool) : List Char → Option (List Char)
  | [] => none
  | [d] => if isDigit d then some [d] else none
  | d :: '_' :: rest => if isDigit d then (digits? isDigit rest).map (d :: ·) else none
  | d :: rest => if isDigit d then (digits? isDigit rest).map (d :: ·) else none

/-- The number written by hexadecimal digits in a base. -/
def ofDigits (base : Nat) (digits : List Char) : Nat :=
  digits.foldl (fun n d => base * n + (hexValue? d).getD 0) 0

def isDigitOf (base : Nat) (c : Char) : Bool := (hexValue? c).any (· < base)

/-- A number without a sign in a base. -/
def natural? (base : Nat) (cs : List Char) : Option Nat :=
  (digits? (isDigitOf base) cs).map (ofDigits base)

/-- The digits of a decimal number without a sign and without leading zeros. -/
def decimalDigits? (cs : List Char) : Option (List Char) :=
  match cs with
  | '0' :: _ :: _ => none
  | _ => digits? Char.isDigit cs

/-- A decimal number without a sign and without leading zeros. -/
def decimal? (cs : List Char) : Option Nat := (decimalDigits? cs).map (ofDigits 10)

/-- A whole number: decimal with an optional sign, or hexadecimal, octal or binary without. -/
def integer? (cs : List Char) : Option Int :=
  match cs with
  | '0' :: 'x' :: rest => (natural? 16 rest).map Int.ofNat
  | '0' :: 'o' :: rest => (natural? 8 rest).map Int.ofNat
  | '0' :: 'b' :: rest => (natural? 2 rest).map Int.ofNat
  | '+' :: rest => (decimal? rest).map Int.ofNat
  | '-' :: rest => (decimal? rest).map fun n => -Int.ofNat n
  | _ => (decimal? cs).map Int.ofNat

/-! ## Floating-point numbers -/

/-- The text behind an optional sign. -/
def dropSign : List Char → List Char
  | '+' :: rest => rest
  | '-' :: rest => rest
  | rest => rest

/-- A decimal number without its sign: the digits of the whole part, those of the fraction, and the
power of ten to multiply with. -/
structure Decimal where
  whole : List Char
  fraction : List Char
  exponent : Int
deriving DecidableEq, Repr

namespace Decimal

/-- The smallest whole number that is too large for double precision. It lies halfway between the
largest double, `2 ^ 1024 - 2 ^ 971`, and the next power of two, and is rounded to the latter. -/
def tooLarge : Nat := 1 <<< 1024 - 1 <<< 970

/-- The number of decimal digits of `tooLarge`. -/
def tooLargeDigits : Nat := 309

/-- The digits from the first that is not zero on. -/
def significant (d : Decimal) : List Char := (d.whole ++ d.fraction).dropWhile (· == '0')

/-- How many significant digits belong to the whole part once the power of ten is applied. That may
be more than there are, and less than none. -/
def wholeLength (d : Decimal) : Int :=
  d.significant.length - d.fraction.length + d.exponent

/-- Whether a number is in the range of double precision. Since the bound is a whole number, only
the whole part matters, and only if it has as many digits as the bound. -/
def isFinite (d : Decimal) : Bool :=
  d.significant.isEmpty || d.wholeLength < tooLargeDigits
    || d.wholeLength == tooLargeDigits
      && ofDigits 10 ((d.significant ++ List.replicate tooLargeDigits '0').take tooLargeDigits)
        < tooLarge

end Decimal

/-- An exponent: digits behind an optional sign. -/
def exponent? (cs : List Char) : Option Int :=
  match cs with
  | '+' :: rest => (natural? 10 rest).map Int.ofNat
  | '-' :: rest => (natural? 10 rest).map fun n => -Int.ofNat n
  | _ => (natural? 10 cs).map Int.ofNat

/-- A decimal number with a fraction, an exponent or both, but without a sign. -/
def decimalFloat? (cs : List Char) : Option Decimal := do
  let (mantissa, exponent) := match splitAt? (fun c => c == 'e' || c == 'E') cs with
    | some (mantissa, exponent) => (mantissa, some exponent)
    | none => (cs, none)
  let (whole, fraction) := match splitAt? (· == '.') mantissa with
    | some (whole, fraction) => (whole, some fraction)
    | none => (mantissa, none)
  if exponent.isNone && fraction.isNone then none
  else do
    let whole ← decimalDigits? whole
    let fraction ← (fraction.map (digits? Char.isDigit)).getD (some [])
    let exponent ← (exponent.map exponent?).getD (some 0)
    some { whole, fraction, exponent }

/-- A floating-point number. Infinities are in range if they are written as such. -/
def float? (cs : List Char) : Option Value :=
  let cs := dropSign cs
  if cs == ['i', 'n', 'f'] || cs == ['n', 'a', 'n'] then some (.float true)
  else (decimalFloat? cs).map fun d => .float d.isFinite

end SolidityTools.Toml

import SolidityTools.Toml.Number

set_option autoImplicit false

/-! # Truth values, dates and times in a settings file

These values are written without quotes, like numbers. The reader takes the longest run of
characters that can occur in such a value and then decides what the run as a whole means.
-/

namespace SolidityTools.Toml

/-! ## Dates and times -/

def twoDigits? : List Char → Option Nat
  | [a, b] => if a.isDigit && b.isDigit then some (ofDigits 10 [a, b]) else none
  | _ => none

def daysIn (year month : Nat) : Nat :=
  if month = 2 then
    if year % 4 = 0 ∧ (year % 100 ≠ 0 ∨ year % 400 = 0) then 29 else 28
  else if month = 4 ∨ month = 6 ∨ month = 9 ∨ month = 11 then 30 else 31

def isDate (cs : List Char) : Bool :=
  match cs with
  | [a, b, c, d, '-', e, f, '-', g, h] =>
    [a, b, c, d].all Char.isDigit &&
      match twoDigits? [e, f], twoDigits? [g, h] with
      | some month, some day =>
        1 ≤ month && month ≤ 12 && 1 ≤ day && day ≤ daysIn (ofDigits 10 [a, b, c, d]) month
      | _, _ => false
  | _ => false

def isUpTo (largest : Nat) (cs : List Char) : Bool := (twoDigits? cs).any (· ≤ largest)

/-- Whether a text is a time of day. A leap second counts, and seconds may have a fraction. -/
def isTime (cs : List Char) : Bool :=
  match cs with
  | a :: b :: ':' :: c :: d :: ':' :: e :: f :: fraction =>
    isUpTo 23 [a, b] && isUpTo 59 [c, d] && isUpTo 60 [e, f] &&
      match fraction with
      | [] => true
      | '.' :: digits => !digits.isEmpty && digits.all Char.isDigit
      | _ => false
  | _ => false

/-- Whether a text is a time of day with an offset from universal time. -/
def isOffsetTime (cs : List Char) : Bool :=
  match cs.reverse with
  | z :: time =>
    if z == 'Z' || z == 'z' then isTime time.reverse
    else match cs.reverse with
      | m :: n :: ':' :: h :: i :: sign :: time =>
        (sign == '+' || sign == '-') && isUpTo 23 [i, h] && isUpTo 59 [n, m] &&
          isTime time.reverse
      | _ => false
  | [] => false

/-- Whether a text is a date, a time or both. -/
def isMoment (cs : List Char) : Bool :=
  isTime cs || isDate cs ||
    (isDate (cs.take 10) &&
      match cs.drop 10 with
      | separator :: time =>
        (separator == 'T' || separator == 't' || separator == ' ') &&
          (isTime time || isOffsetTime time)
      | [] => false)

/-! ## The reader -/

/-- The characters of values without quotes. -/
def isScalarCharacter (c : Char) : Bool :=
  c.isAlphanum || c == '+' || c == '-' || c == '_' || c == '.' || c == ':'

/-- The run of characters that makes up a value. A time may follow its date behind a space. -/
def scalarLength (cs : List Char) : Nat :=
  let n := (cs.takeWhile isScalarCharacter).length
  match cs.drop n with
  | ' ' :: c :: rest =>
    if isDate (cs.take n) && c.isDigit then
      n + 1 + ((c :: rest).takeWhile isScalarCharacter).length
    else n
  | _ => n

def scalarValue? (cs : List Char) : Option Value :=
  if cs == "true".toList then some (.boolean true)
  else if cs == "false".toList then some (.boolean false)
  else match integer? cs with
    | some n => some (.integer n)
    | none => (float? cs).or (if isMoment cs then some .moment else none)

/-- Reads a value without quotes. -/
def bareValue? (cs : List Char) : Option (Value × List Char) :=
  let n := scalarLength cs
  (scalarValue? (cs.take n)).map fun value => (value, cs.drop n)

end SolidityTools.Toml

import SolidityTools.Proofs.Toml.Quoted
import SolidityTools.Settings.Writer
import SolidityTools.Toml.Reader
import Mathlib.Data.Nat.Digits.Defs

set_option autoImplicit false

/-! # Written values are read back

A number is written with the digits that the reader asks for, without leading zeros. A list is
written on one line or on several, and in both the reader finds a string wherever it looks for the
next item. The readers take steps, of which an item needs one, so there are enough of them if there
are more than items.
-/

namespace SolidityTools

open Toml

def WrittenValue.value : WrittenValue → Value
  | .word n => .integer n.toNat
  | .truth b => .boolean b
  | .texts items => .array false (items.map .string)

namespace Toml

/-! ## Numbers -/

/-- A decimal number begins with a zero only if it is zero. -/
theorem eq_zero_of_toDigits {n : Nat} {digits : List Char}
    (h : Nat.toDigits 10 n = '0' :: digits) : n = 0 := by
  induction n using Nat.strongRecOn generalizing digits with
  | _ n ih =>
      rcases Nat.lt_or_ge n 10 with hlt | hge
      · have hdigit : ∀ n < 10, Nat.digitChar n = '0' → n = 0 := by decide
        rw [Nat.toDigits_of_lt_base hlt] at h
        exact hdigit n hlt (List.cons.inj h).1
      · rw [Nat.toDigits_of_base_le (by decide) hge] at h
        obtain ⟨d, ds, hds⟩ := List.exists_cons_of_ne_nil (@Nat.toDigits_ne_nil (n / 10) 10)
        rw [hds, List.cons_append] at h
        obtain ⟨rfl, -⟩ := List.cons.inj h
        have hzero := ih (n / 10) (by omega) hds
        omega

/-- A run of digits is read as such. -/
theorem digits?_of_all {cs : List Char} (hne : cs ≠ []) (h : ∀ c ∈ cs, c.isDigit = true) :
    digits? Char.isDigit cs = some cs := by
  induction cs with
  | nil => exact absurd rfl hne
  | cons d cs ih =>
      rw [List.forall_mem_cons] at h
      cases cs with
      | nil => simp [digits?, h.1]
      | cons e cs =>
          have he : e ≠ '_' := by
            rintro rfl
            cases h.2 _ List.mem_cons_self
          rw [digits?, if_pos h.1, ih (List.cons_ne_nil e cs) h.2]
          · rfl
          · exact List.cons_ne_nil e cs
          · exact fun _ heq => absurd (List.cons.inj heq).1 he

theorem hexValue?_of_isDigit {c : Char} (h : c.isDigit = true) :
    (hexValue? c).getD 0 = c.toNat - '0'.toNat := by
  rw [hexValue?, if_pos h, Option.getD_some]

/-- A written number is read back. -/
theorem integer?_toDigits (n : Nat) : integer? (Nat.toDigits 10 n) = some (Int.ofNat n) := by
  have hdigit : ∀ c ∈ Nat.toDigits 10 n, c.isDigit = true :=
    fun c hc => Nat.isDigit_of_mem_toDigits (by decide) (by decide) hc
  have hvalue : ofDigits 10 (Nat.toDigits 10 n) = n := by
    calc ofDigits 10 (Nat.toDigits 10 n)
        = Nat.ofDigitChars 10 (Nat.toDigits 10 n) 0 := by
          rw [ofDigits, Nat.ofDigitChars]
          refine List.foldl_ext _ _ _ fun a c hc => ?_
          rw [hexValue?_of_isDigit (hdigit c hc)]
      _ = n := Nat.ofDigitChars_toDigits (by decide) (by decide)
  have hdecimal : decimalDigits? (Nat.toDigits 10 n) = some (Nat.toDigits 10 n) := by
    unfold decimalDigits?
    split
    · next h =>
        rw [eq_zero_of_toDigits h] at h
        cases h
    · exact digits?_of_all Nat.toDigits_ne_nil hdigit
  have hplain : integer? (Nat.toDigits 10 n) = (decimal? (Nat.toDigits 10 n)).map Int.ofNat := by
    unfold integer?
    split
    · next h => cases hdigit 'x' (by rw [h]; simp)
    · next h => cases hdigit 'o' (by rw [h]; simp)
    · next h => cases hdigit 'b' (by rw [h]; simp)
    · next h => cases hdigit '+' (by rw [h]; simp)
    · next h => cases hdigit '-' (by rw [h]; simp)
    · rfl
  rw [hplain, decimal?, hdecimal, Option.map_some, Option.map_some, hvalue]

/-- A value without quotes reaches to the end of its line. -/
theorem bareValue?_append {w : List Char} (hw : w.all isScalarCharacter = true) (rest : List Char) :
    bareValue? (w ++ '\n' :: rest)
      = (scalarValue? w).map fun value => (value, '\n' :: rest) := by
  have htake : (w ++ '\n' :: rest).takeWhile isScalarCharacter = w := by
    rw [List.takeWhile_append_of_pos (List.all_eq_true.mp hw)]
    simp [show isScalarCharacter '\n' = false by decide]
  have hlength : scalarLength (w ++ '\n' :: rest) = w.length := by
    rw [scalarLength, htake, List.drop_left]
    rfl
  rw [bareValue?, hlength, List.take_left, List.drop_left]

/-! ## Strings and lists -/

theorem exists_writeString_eq (text : String) :
    ∃ quote w, writeString text = quote :: w ∧ (quote = '"' ∨ quote = '\'') := by
  unfold writeString
  dsimp only
  split
  · exact ⟨_, _, rfl, Or.inl rfl⟩
  · exact ⟨_, _, rfl, Or.inr rfl⟩
  · exact ⟨_, _, rfl, Or.inl rfl⟩
  · exact ⟨_, _, rfl, Or.inr rfl⟩

theorem value?_writeString (levels steps : Nat) (text : String) {rest : List Char}
    (hrest : ∀ c ∈ rest.head?, c ≠ '"' ∧ c ≠ '\'') :
    value? levels (steps + 1) (writeString text ++ rest) = some (.string text, rest) := by
  have hstring := string?_writeString text hrest
  obtain ⟨quote, w, hw, hquote⟩ := exists_writeString_eq text
  rw [hw, List.cons_append] at hstring ⊢
  rcases hquote with rfl | rfl
  · rw [value?, hstring]
    simp only [Option.map_some, String.ofList_toList]
  · rw [value?, hstring]
    simp only [Option.map_some, String.ofList_toList]

/-- What is neither a blank nor a comment is not skipped. -/
theorem skipFiller?_cons {c : Char} (hc : c ∉ ['\r', '\n', '#', ' ', '\t']) (cs : List Char) :
    skipFiller? false (c :: cs) = some (c :: cs) := by
  simp only [List.mem_cons, List.not_mem_nil, or_false, not_or] at hc
  rw [skipFiller?]
  · simp [hc]
  · exact fun _ h => absurd h hc.1

theorem skipFiller?_writeString (text : String) (rest : List Char) :
    skipFiller? false (writeString text ++ rest) = some (writeString text ++ rest) := by
  obtain ⟨quote, w, hw, hquote⟩ := exists_writeString_eq text
  rw [hw, List.cons_append]
  refine skipFiller?_cons ?_ _
  rcases hquote with rfl | rfl
  · decide
  · decide

/-- An item of a list, and what is made of the text behind it. -/
theorem items?_writeString (levels steps : Nat) (text : String) {cs : List Char} {c : Char}
    {rest : List Char} (hcs : skipFiller? false cs = some (writeString text ++ c :: rest))
    (hc : c = ',' ∨ c = ']') :
    items? levels (steps + 2) cs
      = if c = ',' then (items? levels (steps + 1) rest).map fun read =>
          (.string text :: read.1, read.2)
        else some ([.string text], rest) := by
  have hquotes : ∀ d ∈ (c :: rest).head?, d ≠ '"' ∧ d ≠ '\'' := by
    intro d hd
    obtain rfl : c = d := by simpa using hd
    rcases hc with rfl | rfl
    · decide
    · decide
  have hvalue := value?_writeString levels steps text hquotes
  have hskip : skipFiller? false (c :: rest) = some (c :: rest) := by
    rcases hc with rfl | rfl
    · exact skipFiller?_cons (by decide) rest
    · exact skipFiller?_cons (by decide) rest
  rw [items?, hcs]
  simp only [Option.bind_eq_bind, Option.bind_some]
  split
  · next heq =>
      -- a string does not begin with the bracket
      obtain ⟨quote, w, hw, hquote⟩ := exists_writeString_eq text
      rw [hw] at heq
      rcases hquote with rfl | rfl
      · cases heq
      · cases heq
  · rw [hvalue]
    simp only [Option.bind_some, hskip]
    rcases hc with rfl | rfl
    · rw [if_pos rfl, Option.map_eq_bind]
      rfl
    · rfl

def itemLines (items : List String) : List Char :=
  items.flatMap fun item => "    ".toList ++ writeString item ++ [',', '\n']

/-- The lines of a list are read back, line by line. -/
theorem items?_itemLines (levels steps : Nat) (items : List String) (rest : List Char) :
    items? levels (items.length + 1 + steps) ('\n' :: (itemLines items ++ ']' :: rest))
      = some (items.map .string, rest) := by
  have hfeed : ∀ cs, skipFiller? false ('\n' :: cs) = skipFiller? false cs := by
    intro cs
    rw [skipFiller?]
    · rfl
    · exact fun _ h => absurd h (by decide)
  induction items with
  | nil =>
      have hclose : skipFiller? false ('\n' :: (itemLines [] ++ ']' :: rest))
          = some (']' :: rest) := by
        rw [hfeed]
        exact skipFiller?_cons (by decide) rest
      rw [List.length_nil, Nat.zero_add, Nat.add_comm 1 steps, items?, hclose]
      rfl
  | cons item items ih =>
      have hspace : ∀ cs, skipFiller? false (' ' :: cs) = skipFiller? false cs := by
        intro cs
        rw [skipFiller?]
        · rfl
        · exact fun _ h => absurd h (by decide)
      have hcs : skipFiller? false ('\n' :: (itemLines (item :: items) ++ ']' :: rest))
          = some (writeString item ++ ',' :: '\n' :: (itemLines items ++ ']' :: rest)) := by
        have hlines : itemLines (item :: items) ++ ']' :: rest
            = ' ' :: ' ' :: ' ' :: ' ' ::
              (writeString item ++ ',' :: '\n' :: (itemLines items ++ ']' :: rest)) := by
          simp [itemLines]
        rw [hfeed, hlines, hspace, hspace, hspace, hspace, skipFiller?_writeString]
      have hsteps : (item :: items).length + 1 + steps = items.length + steps + 2 := by
        rw [List.length_cons]
        omega
      have hrest : items.length + steps + 1 = items.length + 1 + steps := by omega
      rw [hsteps, items?_writeString levels _ item hcs (Or.inl rfl), if_pos rfl, hrest, ih]
      rfl

/-! ## Values -/

/-- Room for the steps that reading a value may take. -/
theorem length_itemLines (items : List String) : items.length ≤ (itemLines items).length := by
  induction items with
  | nil => exact Nat.le_refl _
  | cons item items ih =>
      have hcons : itemLines (item :: items)
          = "    ".toList ++ writeString item ++ [',', '\n'] ++ itemLines items := rfl
      rw [hcons]
      simp only [List.length_append, List.length_cons]
      omega

/-- A value without quotes and brackets. -/
theorem value?_bare (levels steps : Nat) {c : Char} {w : List Char}
    (hw : (c :: w).all isScalarCharacter = true) (rest : List Char) :
    value? levels (steps + 1) (c :: w ++ '\n' :: rest)
      = (scalarValue? (c :: w)).map fun value => (value, '\n' :: rest) := by
  rw [← bareValue?_append hw]
  rw [List.all_cons, Bool.and_eq_true] at hw
  have hne : ∀ d, isScalarCharacter d = false → c ≠ d := by
    rintro d hd rfl
    rw [hw.1] at hd
    cases hd
  rw [List.cons_append, value?]
  · exact fun _ h => hne '"' (by decide) (List.cons.inj h).1
  · exact fun _ h => hne '\'' (by decide) (List.cons.inj h).1
  · exact fun _ _ h _ => hne '[' (by decide) (List.cons.inj h).1
  · exact fun _ _ h _ => hne '\x7b' (by decide) (List.cons.inj h).1

/-- A digit is a character of a value without quotes. -/
theorem isScalarCharacter_of_isDigit {c : Char} (h : c.isDigit = true) :
    isScalarCharacter c = true := by
  simp [isScalarCharacter, Char.isAlphanum, h]

/-- A written number is the number. -/
theorem scalarValue?_toDigits (n : Nat) :
    scalarValue? (Nat.toDigits 10 n) = some (.integer (Int.ofNat n)) := by
  have hdigit : ∀ c ∈ Nat.toDigits 10 n, c.isDigit = true :=
    fun c hc => Nat.isDigit_of_mem_toDigits (by decide) (by decide) hc
  have hword : ∀ w : List Char, 'e' ∈ w → (Nat.toDigits 10 n == w) = false := by
    intro w hw
    refine beq_eq_false_iff_ne.mpr fun heq => ?_
    cases hdigit 'e' (heq ▸ hw)
  rw [scalarValue?, hword _ (by decide), hword _ (by decide), integer?_toDigits]
  rfl

/-- **A written value is read back** up to the end of its line. -/
theorem value?_text (value : WrittenValue) (rest : List Char) {steps : Nat}
    (hsteps : value.text.length + 1 ≤ steps) :
    value? depthLimit steps (value.text ++ '\n' :: rest) = some (value.value, '\n' :: rest) := by
  have hlevels : depthLimit = 79 + 1 := rfl
  cases value with
  | word n =>
      have hdigits : (WrittenValue.word n).text = Nat.toDigits 10 n.toNat := by
        rw [WrittenValue.text, Nat.toString_eq_repr, Nat.toList_repr]
      have hall : (Nat.toDigits 10 n.toNat).all isScalarCharacter = true := by
        refine List.all_eq_true.mpr fun c hc => ?_
        exact isScalarCharacter_of_isDigit (Nat.isDigit_of_mem_toDigits (by decide) (by decide) hc)
      have hvalue := scalarValue?_toDigits n.toNat
      obtain ⟨steps, rfl⟩ := Nat.exists_eq_add_of_le' (Nat.le_of_add_left_le hsteps)
      rw [hdigits]
      obtain ⟨d, ds, hds⟩ := List.exists_cons_of_ne_nil (@Nat.toDigits_ne_nil n.toNat 10)
      rw [hds] at hall hvalue ⊢
      rw [value?_bare _ _ hall, hvalue]
      rfl
  | truth b =>
      obtain ⟨steps, rfl⟩ := Nat.exists_eq_add_of_le' (Nat.le_of_add_left_le hsteps)
      cases b with
      | true => exact value?_bare _ steps (c := 't') (w := "rue".toList) (by decide) rest
      | false => exact value?_bare _ steps (c := 'f') (w := "alse".toList) (by decide) rest
  | texts items =>
      match items with
      | [] =>
          obtain ⟨steps, rfl⟩ := Nat.exists_eq_add_of_le' hsteps
          rfl
      | [item] =>
          have hskip := skipFiller?_writeString item (']' :: '\n' :: rest)
          have hlength : (WrittenValue.texts [item]).text.length
              = (writeString item).length + 2 := by
            simp [WrittenValue.text]
          obtain ⟨steps, rfl⟩ := Nat.exists_eq_add_of_le'
            (Nat.le_trans (by omega : 3 ≤ _) hsteps)
          have htext : (WrittenValue.texts [item]).text ++ '\n' :: rest
              = '[' :: (writeString item ++ ']' :: '\n' :: rest) := by
            simp [WrittenValue.text]
          rw [htext, hlevels, value?, items?_writeString 79 steps item hskip (Or.inr rfl)]
          rfl
      | item :: item' :: items =>
          have htext : (WrittenValue.texts (item :: item' :: items)).text ++ '\n' :: rest
              = '[' :: '\n' :: (itemLines (item :: item' :: items) ++ ']' :: '\n' :: rest) := by
            simp [WrittenValue.text, itemLines]
          have hlength : (item :: item' :: items).length + 2 ≤ steps := by
            have hle := length_itemLines (item :: item' :: items)
            have hlines := congrArg List.length htext
            simp only [List.length_append, List.length_cons] at hlines hle ⊢
            omega
          obtain ⟨steps, rfl⟩ := Nat.exists_eq_add_of_le' hlength
          have hsteps : steps + ((item :: item' :: items).length + 2)
              = (item :: item' :: items).length + 1 + steps + 1 := by omega
          rw [htext, hlevels, hsteps, value?, items?_itemLines]
          rfl

end Toml

end SolidityTools

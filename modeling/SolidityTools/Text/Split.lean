set_option autoImplicit false

/-! # Splitting a text at separators

A text is split at every character of a class, so that a text with `n` separators has `n + 1`
pieces, of which any may be empty. If the class has one character only, joining the pieces with
it gives the text back.
-/

namespace SolidityTools.Text

/-- The pieces of a text between the characters that satisfy `p`. -/
def splitWhere (p : Char → Bool) : List Char → List (List Char)
  | [] => [[]]
  | c :: cs =>
    if p c then [] :: splitWhere p cs
    else match splitWhere p cs with
      | [] => [[c]]
      | piece :: pieces => (c :: piece) :: pieces

/-- The text of some pieces with a separator between them. -/
def joinWith (separator : Char) : List (List Char) → List Char
  | [] => []
  | [piece] => piece
  | piece :: pieces => piece ++ separator :: joinWith separator pieces

theorem splitWhere_ne_nil (p : Char → Bool) (cs : List Char) : splitWhere p cs ≠ [] := by
  cases cs with
  | nil => simp [splitWhere]
  | cons c cs =>
    unfold splitWhere
    split
    · simp
    · split <;> simp

/-- Joining the pieces of a text gives the text back. -/
theorem joinWith_splitWhere (separator : Char) (cs : List Char) :
    joinWith separator (splitWhere (· == separator) cs) = cs := by
  induction cs with
  | nil => rfl
  | cons c cs ih =>
    unfold splitWhere
    cases hs : splitWhere (· == separator) cs with
    | nil => exact absurd hs (splitWhere_ne_nil _ cs)
    | cons piece pieces =>
      rw [hs] at ih
      split
      · next h => simp_all [joinWith]
      · cases pieces <;> simp_all [joinWith]

/-- No piece holds a separator. -/
theorem not_of_mem_splitWhere {p : Char → Bool} {cs piece : List Char}
    (h : piece ∈ splitWhere p cs) {c : Char} (hc : c ∈ piece) : p c = false := by
  induction cs generalizing piece with
  | nil => simp_all [splitWhere]
  | cons d cs ih =>
    unfold splitWhere at h
    cases hs : splitWhere p cs with
    | nil => exact absurd hs (splitWhere_ne_nil p cs)
    | cons first pieces =>
      rw [hs] at h ih
      split at h
      · rcases List.mem_cons.1 h with rfl | h
        · simp at hc
        · exact ih h hc
      · next hd =>
        rcases List.mem_cons.1 h with rfl | h
        · rcases List.mem_cons.1 hc with rfl | hc
          · simpa using hd
          · exact ih List.mem_cons_self hc
        · exact ih (List.mem_cons_of_mem _ h) hc

end SolidityTools.Text

import SolidityTools.Text.Split
import Mathlib.Data.List.Basic

set_option autoImplicit false

/-! # Splitting composed texts

Where two texts meet, the last piece of the first and the first piece of the second become one piece
(`splitWhere_append`). At a separator a text falls apart into the pieces on both sides
(`splitWhere_append_cons`). Splitting takes apart what joining has put together.
-/

namespace SolidityTools.Text

/-! ## Places in a text -/

section Places

variable {α : Type} {a : α} {A B w behind : List α}

/-- A beginning of a text ends in front of a place of the text or goes on over it. -/
theorem append_cons_cases (h : A ++ a :: B = w ++ behind) :
    (∃ u, w = A ++ a :: u) ∨ ∃ A', A = w ++ A' ∧ behind = A' ++ a :: B := by
  rcases List.append_eq_append_iff.mp h with ⟨m, rfl, hm⟩ | ⟨m, rfl, hm⟩
  · cases m with
    | nil => exact Or.inr ⟨[], by simp, by simpa using hm.symm⟩
    | cons b m =>
        obtain ⟨rfl, -⟩ := List.cons.inj hm
        exact Or.inl ⟨m, rfl⟩
  · exact Or.inr ⟨m, rfl, hm⟩

/-- A beginning without a character ends in front of every place where that character stands. -/
theorem exists_append_of_notMem (h : A ++ a :: B = w ++ behind) (hw : a ∉ w) :
    ∃ A', A = w ++ A' ∧ behind = A' ++ a :: B := by
  rcases append_cons_cases h with ⟨u, rfl⟩ | hcut
  · exact absurd (List.mem_append_right A List.mem_cons_self) hw
  · exact hcut

end Places

/-! ## Pieces -/

variable {p : Char → Bool}

/-- A character that is no separator belongs to the first piece. -/
theorem splitWhere_cons {c : Char} (hc : p c = false) {cs v : List Char}
    {pieces : List (List Char)} (h : splitWhere p cs = v :: pieces) :
    splitWhere p (c :: cs) = (c :: v) :: pieces := by
  rw [splitWhere, h, if_neg (by simp [hc])]

theorem splitWhere_separator {c : Char} (hc : p c = true) (cs : List Char) :
    splitWhere p (c :: cs) = [] :: splitWhere p cs := by
  rw [splitWhere, if_pos hc]

/-- Every text has a last piece. -/
theorem exists_splitWhere_eq (p : Char → Bool) (cs : List Char) :
    ∃ before u, splitWhere p cs = before ++ [u] :=
  ⟨_, _, (List.dropLast_append_getLast (splitWhere_ne_nil p cs)).symm⟩

/-- Where two texts meet, a piece of both is one piece. -/
theorem splitWhere_append {A B u v : List Char} {before behind : List (List Char)}
    (hA : splitWhere p A = before ++ [u]) (hB : splitWhere p B = v :: behind) :
    splitWhere p (A ++ B) = before ++ (u ++ v) :: behind := by
  induction A generalizing before u with
  | nil =>
      have hnil : [[]] = before ++ [u] := hA
      obtain ⟨rfl, rfl⟩ : before = [] ∧ u = [] := by
        cases before with
        | nil => exact ⟨rfl, (List.cons.inj hnil).1.symm⟩
        | cons piece before => simp at hnil
      exact hB
  | cons c A ih =>
      cases hc : p c with
      | true =>
          rw [splitWhere_separator hc] at hA
          cases before with
          | nil => exact absurd (List.cons.inj hA).2 (splitWhere_ne_nil p A)
          | cons piece before =>
              obtain ⟨rfl, hpieces⟩ := List.cons.inj hA
              rw [List.cons_append, splitWhere_separator hc, ih hpieces, List.cons_append]
      | false =>
          obtain ⟨w, pieces, hpieces⟩ := List.exists_cons_of_ne_nil (splitWhere_ne_nil p A)
          rw [splitWhere_cons hc hpieces] at hA
          cases before with
          | nil =>
              obtain ⟨rfl, rfl⟩ := List.cons.inj hA
              have hrest : splitWhere p (A ++ B) = [] ++ (w ++ v) :: behind := ih hpieces
              exact splitWhere_cons hc hrest
          | cons piece before =>
              obtain ⟨rfl, rfl⟩ := List.cons.inj hA
              have hrest : splitWhere p (A ++ B) = (w :: before) ++ (u ++ v) :: behind :=
                ih hpieces
              exact splitWhere_cons hc hrest

/-- At a separator a text falls apart into its pieces. -/
theorem splitWhere_append_cons {c : Char} (hc : p c = true) (A B : List Char) :
    splitWhere p (A ++ c :: B) = splitWhere p A ++ splitWhere p B := by
  obtain ⟨before, u, hA⟩ := exists_splitWhere_eq p A
  rw [splitWhere_append hA (splitWhere_separator hc B), hA]
  simp

/-- A text without a separator is a piece. -/
theorem splitWhere_of_forall {cs : List Char} (h : ∀ c ∈ cs, p c = false) :
    splitWhere p cs = [cs] := by
  induction cs with
  | nil => rfl
  | cons c cs ih =>
      exact splitWhere_cons (h c List.mem_cons_self)
        (ih fun e he => h e (List.mem_cons_of_mem c he))

/-- Where two classes of separators agree on a text, they split it alike. -/
theorem splitWhere_congr {q : Char → Bool} {cs : List Char} (h : ∀ c ∈ cs, p c = q c) :
    splitWhere p cs = splitWhere q cs := by
  induction cs with
  | nil => rfl
  | cons c cs ih =>
      have hrest := ih fun e he => h e (List.mem_cons_of_mem c he)
      rw [splitWhere, splitWhere, h c List.mem_cons_self, hrest]

/-- A character of joined pieces is a separator, or it belongs to a piece. -/
theorem mem_joinWith {separator c : Char} {pieces : List (List Char)}
    (h : c ∈ joinWith separator pieces) : c = separator ∨ ∃ piece ∈ pieces, c ∈ piece := by
  induction pieces with
  | nil => cases h
  | cons piece pieces ih =>
      cases pieces with
      | nil => exact Or.inr ⟨piece, List.mem_cons_self, h⟩
      | cons next pieces =>
          rcases List.mem_append.mp h with h | h
          · exact Or.inr ⟨piece, List.mem_cons_self, h⟩
          · rcases List.mem_cons.mp h with rfl | h
            · exact Or.inl rfl
            · rcases ih h with rfl | ⟨u, hu, hc⟩
              · exact Or.inl rfl
              · exact Or.inr ⟨u, List.mem_cons_of_mem piece hu, hc⟩

/-- Joining two groups of pieces puts a separator between the texts. -/
theorem joinWith_append (separator : Char) {as bs : List (List Char)} (ha : as ≠ [])
    (hb : bs ≠ []) :
    joinWith separator (as ++ bs)
      = joinWith separator as ++ separator :: joinWith separator bs := by
  induction as with
  | nil => exact absurd rfl ha
  | cons a as ih =>
      cases as with
      | nil =>
          obtain ⟨b, bs, rfl⟩ := List.exists_cons_of_ne_nil hb
          rfl
      | cons a' as =>
          have hrest := ih (List.cons_ne_nil _ _)
          show a ++ separator :: joinWith separator (a' :: as ++ bs)
            = (a ++ separator :: joinWith separator (a' :: as))
                ++ separator :: joinWith separator bs
          rw [hrest, List.append_assoc, List.cons_append]

/-- Pieces that were joined are taken apart again. -/
theorem splitWhere_joinWith {separator : Char} (hseparator : p separator = true)
    {pieces : List (List Char)} (hne : pieces ≠ [])
    (h : ∀ piece ∈ pieces, ∀ c ∈ piece, p c = false) :
    splitWhere p (joinWith separator pieces) = pieces := by
  induction pieces with
  | nil => exact absurd rfl hne
  | cons piece pieces ih =>
      have hpiece := splitWhere_of_forall (h piece List.mem_cons_self)
      cases pieces with
      | nil => exact hpiece
      | cons piece' pieces =>
          have hrest := ih (List.cons_ne_nil _ _) fun u hu => h u (List.mem_cons_of_mem _ hu)
          show splitWhere p (piece ++ separator :: joinWith separator (piece' :: pieces)) = _
          rw [splitWhere_append_cons hseparator, hpiece, hrest]
          rfl

end SolidityTools.Text

import SolidityTools.Text.Line
import SolidityTools.Proofs.Text.Split

set_option autoImplicit false

/-! # Lines of composed texts

Where two texts meet, the last line of the first and the first line of the second become one line
(`splitLines_append`). At a line feed a text falls apart into the lines on both sides
(`splitLines_append_newline`). Splitting takes apart what joining has put together.
-/

namespace SolidityTools.Text

/-- Every text has a last line. -/
theorem exists_splitLines_eq (cs : List Char) : ∃ before u, splitLines cs = before ++ [u] :=
  exists_splitWhere_eq _ cs

/-- A character that is no line feed belongs to the first line. -/
theorem splitLines_cons {c : Char} (hc : c ≠ '\n') {cs v : List Char} {lines : List (List Char)}
    (h : splitLines cs = v :: lines) : splitLines (c :: cs) = (c :: v) :: lines :=
  splitWhere_cons (by simpa using hc) h

/-- Where two texts meet, a line of both is one line. -/
theorem splitLines_append {A B u v : List Char} {before behind : List (List Char)}
    (hA : splitLines A = before ++ [u]) (hB : splitLines B = v :: behind) :
    splitLines (A ++ B) = before ++ (u ++ v) :: behind :=
  splitWhere_append hA hB

/-- At a line feed a text falls apart into its lines. -/
theorem splitLines_append_newline (A B : List Char) :
    splitLines (A ++ '\n' :: B) = splitLines A ++ splitLines B :=
  splitWhere_append_cons (by decide) A B

/-- No line feed separates what holds none. -/
theorem forall_of_newline_notMem {cs : List Char} (h : '\n' ∉ cs) :
    ∀ c ∈ cs, (c == '\n') = false := by
  intro c hc
  rw [beq_eq_false_iff_ne]
  rintro rfl
  exact h hc

/-- A text without a line feed is a line. -/
theorem splitLines_of_not_mem {line : List Char} (h : '\n' ∉ line) : splitLines line = [line] :=
  splitWhere_of_forall (forall_of_newline_notMem h)

/-- A text has one line more than line feeds. -/
theorem length_splitLines (cs : List Char) : (splitLines cs).length = cs.count '\n' + 1 := by
  induction cs with
  | nil => rfl
  | cons c cs ih =>
      by_cases hc : c = '\n'
      · rw [hc, splitLines_newline, List.length_cons, ih, List.count_cons_self]
      · obtain ⟨v, lines, hlines⟩ := List.exists_cons_of_ne_nil (splitLines_ne_nil cs)
        rw [splitLines_cons hc hlines, List.length_cons, ← List.length_cons (a := v), ← hlines, ih,
          List.count_cons_of_ne hc]

/-- Joining two groups of lines puts a line feed between the texts. -/
theorem joinLines_append {as bs : List (List Char)} (ha : as ≠ []) (hb : bs ≠ []) :
    joinLines (as ++ bs) = joinLines as ++ '\n' :: joinLines bs :=
  joinWith_append '\n' ha hb

/-- Lines that were joined are taken apart again. -/
theorem splitLines_joinLines {lines : List (List Char)} (hne : lines ≠ [])
    (h : ∀ line ∈ lines, '\n' ∉ line) : splitLines (joinLines lines) = lines :=
  splitWhere_joinWith (by decide) hne fun line hline => forall_of_newline_notMem (h line hline)

/-! ## The first lines -/

theorem takeLines_one_newline (cs : List Char) : takeLines 1 ('\n' :: cs) = [] := by
  rw [takeLines, splitLines_newline]
  rfl

theorem takeLines_newline (n : Nat) (cs : List Char) :
    takeLines (n + 2) ('\n' :: cs) = '\n' :: takeLines (n + 1) cs := by
  have hne : (splitLines cs).take (n + 1) ≠ [] := by
    simp [List.take_eq_nil_iff, splitLines_ne_nil]
  rw [takeLines, splitLines_newline, List.take_succ_cons]
  exact joinLines_append (List.cons_ne_nil [] []) hne

theorem takeLines_cons {c : Char} (hc : c ≠ '\n') (n : Nat) (cs : List Char) :
    takeLines (n + 1) (c :: cs) = c :: takeLines (n + 1) cs := by
  obtain ⟨line, lines, hlines⟩ := List.exists_cons_of_ne_nil (splitLines_ne_nil cs)
  rw [takeLines, takeLines, splitLines_cons hc hlines, hlines, List.take_succ_cons,
    List.take_succ_cons]
  cases lines.take n with
  | nil => rfl
  | cons next lines => rfl

/-- A text with more than `n` line feeds has one with `n` line feeds in front of it. -/
theorem exists_append_newline {n : Nat} {cs : List Char} (h : n < cs.count '\n') :
    ∃ A B, cs = A ++ '\n' :: B ∧ A.count '\n' = n := by
  induction cs generalizing n with
  | nil => simp at h
  | cons c cs ih =>
      by_cases hc : c = '\n'
      · subst hc
        cases n with
        | zero => exact ⟨[], cs, rfl, rfl⟩
        | succ n =>
            rw [List.count_cons_self] at h
            obtain ⟨A, B, rfl, hcount⟩ := ih (n := n) (by omega)
            exact ⟨'\n' :: A, B, rfl, by rw [List.count_cons_self, hcount]⟩
      · rw [List.count_cons_of_ne hc] at h
        obtain ⟨A, B, rfl, hcount⟩ := ih h
        exact ⟨c :: A, B, rfl, by rw [List.count_cons_of_ne hc, hcount]⟩

/-- The first lines end in front of a line feed. -/
theorem takeLines_append_newline {n : Nat} {A : List Char} (h : A.count '\n' = n) (B : List Char) :
    takeLines (n + 1) (A ++ '\n' :: B) = A := by
  have hlength : (splitLines A).length = n + 1 := by rw [length_splitLines, h]
  rw [takeLines, splitLines_append_newline, List.take_left' hlength, joinLines_splitLines]

/-- A text with no more lines is all in the first lines. -/
theorem takeLines_of_count_le {n : Nat} {cs : List Char} (h : cs.count '\n' ≤ n) :
    takeLines (n + 1) cs = cs := by
  have hlength : (splitLines cs).length ≤ n + 1 := by
    rw [length_splitLines]
    omega
  rw [takeLines, List.take_of_length_le hlength, joinLines_splitLines]

end SolidityTools.Text

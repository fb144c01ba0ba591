import SolidityTools.Position
import SolidityTools.Proofs.Text.LineFeed

set_option autoImplicit false

/-! # Positions can be found again

A position is good for anything only if the place can be found by it: go to the line, pass as many
characters as the column says, and stand at the byte offset one came from (`Position.PointsAt`).
The positions of all offsets between characters are like that. The text in front of such an offset
is a number of lines with their line feeds and the beginning of one more; the number of the lines is
the line less one, and the length of the beginning is the column less one.
-/

namespace SolidityTools

open Text

/-- An offset between two characters of a text, or at one of its ends. -/
def IsBoundary (cs : List Char) (offset : Nat) : Prop :=
  ∃ before behind, cs = before ++ behind ∧ byteLength before = offset

/-- The byte offsets at which the lines of a source text begin. -/
def lineStarts (source : String) : List Nat := lineStartsFrom 0 source.toList

/-- The position of a line that exists and of a column in it, or just behind it, from which an
offset is found again. -/
structure Position.PointsAt (source : String) (p : Position) (offset : Nat) : Prop where
  one_le_line : 1 ≤ p.line
  line_le : p.line ≤ lineCount source
  one_le_column : 1 ≤ p.column
  exists_line : ∃ text start, lineAt? source p.line = some text ∧
    (lineStarts source)[p.line - 1]? = some start ∧ p.column ≤ text.length + 1 ∧
    start + byteLength (text.toList.take (p.column - 1)) = offset

namespace Position

theorem past_append (p : Position) (as bs : List Char) : p.past (as ++ bs) = (p.past as).past bs :=
  List.foldl_append

theorem line_past (p : Position) (cs : List Char) :
    (p.past cs).line = p.line + cs.count '\n' := by
  induction cs generalizing p with
  | nil => rfl
  | cons c cs ih =>
      have hstep : p.past (c :: cs) = (p.advance c).past cs := rfl
      by_cases hc : c = '\n'
      · have hline : (p.advance c).line = p.line + 1 := by
          rw [advance, if_pos (by simpa using hc)]
        rw [hstep, ih, hline, hc, List.count_cons_self]
        omega
      · have hline : (p.advance c).line = p.line := by
          rw [advance, if_neg (by simpa using hc)]
        rw [hstep, ih, hline, List.count_cons_of_ne hc]

/-- Within a line only the column moves. -/
theorem past_of_not_mem {u : List Char} (h : '\n' ∉ u) (p : Position) :
    p.past u = ⟨p.line, p.column + u.length⟩ := by
  induction u generalizing p with
  | nil => rfl
  | cons c u ih =>
      rw [List.mem_cons, not_or] at h
      have hc : p.advance c = ⟨p.line, p.column + 1⟩ := by
        rw [advance, if_neg (by simpa using Ne.symm h.1)]
      calc p.past (c :: u) = (p.advance c).past u := rfl
        _ = ⟨p.line, p.column + 1 + u.length⟩ := by rw [hc, ih h.2]
        _ = ⟨p.line, p.column + (c :: u).length⟩ := by
            rw [List.length_cons]
            congr 1
            omega

/-- Behind some lines a new one begins. -/
theorem past_endLines {lines : List (List Char)} (h : ∀ line ∈ lines, '\n' ∉ line) (n : Nat) :
    past ⟨n, 1⟩ (endLines lines) = ⟨n + lines.length, 1⟩ := by
  induction lines generalizing n with
  | nil => rfl
  | cons line lines ih =>
      have hline := past_of_not_mem (h line List.mem_cons_self) ⟨n, 1⟩
      have hfeed : ∀ p : Position, p.past ('\n' :: endLines lines)
          = past ⟨p.line + 1, 1⟩ (endLines lines) := fun p => rfl
      calc past ⟨n, 1⟩ (endLines (line :: lines))
          = (past ⟨n, 1⟩ line).past ('\n' :: endLines lines) := by rw [endLines_cons, past_append]
        _ = past ⟨n + 1, 1⟩ (endLines lines) := by rw [hline, hfeed]
        _ = ⟨n + 1 + lines.length, 1⟩ := ih (fun l hl => h l (List.mem_cons_of_mem line hl)) _
        _ = ⟨n + (line :: lines).length, 1⟩ := by
            rw [List.length_cons]
            congr 1
            omega

/-- The position behind some lines and the beginning of another one. -/
theorem after_endLines_append {lines : List (List Char)} (hlines : ∀ line ∈ lines, '\n' ∉ line)
    {u : List Char} (hu : '\n' ∉ u) :
    after (endLines lines ++ u) = ⟨1 + lines.length, 1 + u.length⟩ := by
  rw [after, past_append, first, past_endLines hlines, past_of_not_mem hu]

end Position

/-- The line of the text behind some other text. -/
theorem line_positionAt_append {source : String} {before behind : List Char}
    (hsource : source.toList = before ++ behind) :
    (positionAt source (byteLength before)).line = 1 + before.count '\n' := by
  rw [positionAt, hsource, takeBytes_byteLength_append]
  exact Position.line_past .first before

/-- **The position of an offset between characters points at that offset.** -/
theorem pointsAt_positionAt {source : String} {offset : Nat}
    (h : IsBoundary source.toList offset) : (positionAt source offset).PointsAt source offset := by
  obtain ⟨P, S, hsource, rfl⟩ := h
  obtain ⟨before, u, hP⟩ := exists_splitLines_eq P
  obtain ⟨v, behind, hS⟩ := List.exists_cons_of_ne_nil (splitLines_ne_nil S)
  have hlines : ∀ line ∈ before, '\n' ∉ line := by
    intro line hline
    exact newline_not_mem_of_mem_splitLines (hP ▸ List.mem_append_left [u] hline)
  have hu : '\n' ∉ u := newline_not_mem_of_mem_splitLines (hP ▸ List.mem_append_right before
    (List.mem_singleton_self u))
  have hsplit : splitLines source.toList = before ++ (u ++ v) :: behind := by
    rw [hsource]
    exact splitLines_append hP hS
  have hposition : positionAt source (byteLength P) = ⟨1 + before.length, 1 + u.length⟩ := by
    rw [positionAt, hsource, takeBytes_byteLength_append, eq_endLines_append hP]
    exact Position.after_endLines_append hlines hu
  rw [hposition]
  refine ⟨by simp, ?_, by simp, String.ofList (u ++ v), byteLength (endLines before), ?_, ?_, ?_,
    ?_⟩
  · rw [lineCount, sourceLines, hsplit, List.length_map, List.length_append, List.length_cons]
    show 1 + before.length ≤ before.length + (behind.length + 1)
    omega
  · have hindex : 1 + before.length - 1 = before.length := by omega
    rw [lineAt?, if_neg (by simp), sourceLines, hsplit, hindex]
    simp
  · have hindex : 1 + before.length - 1 = before.length := by omega
    rw [lineStarts, hsource, eq_endLines_append hP, hindex, List.append_assoc,
      getElem?_lineStartsFrom hlines, Nat.zero_add]
  · rw [String.length_ofList, List.length_append]
    show 1 + u.length ≤ u.length + v.length + 1
    omega
  · have htake : (u ++ v).take (1 + u.length - 1) = u := by
      rw [Nat.add_sub_cancel_left, List.take_left]
    rw [String.toList_ofList, htake, ← byteLength_append, ← eq_endLines_append hP]

end SolidityTools

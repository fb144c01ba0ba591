import SolidityTools.Proofs.InPlace.Position
import SolidityTools.Proofs.Token.Place
import Mathlib.Data.List.Induction

set_option autoImplicit false

/-! # Offsets and their positions

The line of a position counts the line feeds in front of an offset, and the column counts the
characters behind the last of them. Every character moves the position on (`Position.lt_advance`),
so positions come in the order of their offsets, as long as these lie between characters
(`positions_exact`). An offset inside a character has no position of its own. It shares that of the
place behind the character, since the character starts in front of it
(`positionAt_eq_first_iff`).
-/

namespace SolidityTools

open Text

/-- The characters of a text behind its last line feed. -/
def Text.lastLine (cs : List Char) : List Char := (cs.reverse.takeWhile (· != '\n')).reverse

theorem Text.lastLine_concat_newline (cs : List Char) : lastLine (cs ++ ['\n']) = [] := by
  rw [lastLine, List.reverse_append, List.reverse_singleton, List.singleton_append,
    List.takeWhile_cons_of_neg (by decide), List.reverse_nil]

theorem Text.lastLine_concat {c : Char} (hc : c ≠ '\n') (cs : List Char) :
    lastLine (cs ++ [c]) = lastLine cs ++ [c] := by
  rw [lastLine, List.reverse_append, List.reverse_singleton, List.singleton_append,
    List.takeWhile_cons_of_pos (by simpa using hc), List.reverse_cons]
  rfl

/-- The place that an offset stands for: behind the end of a source it stands for the end. -/
def placeOf (source : String) (offset : Nat) : Nat := min offset (byteLength source.toList)

theorem takeBytes_placeOf (source : String) (offset : Nat) :
    takeBytes (placeOf source offset) source.toList = takeBytes offset source.toList :=
  InPlace.takeBytes_min offset source.toList

/-- An offset inside a text with another one in front of it. -/
theorem Text.takeBytes_add (n : Nat) (as bs : List Char) :
    takeBytes (byteLength as + n) (as ++ bs) = as ++ takeBytes n bs := by
  induction as with
  | nil => rw [byteLength_nil, Nat.zero_add, List.nil_append, List.nil_append]
  | cons c as ih =>
      have hpos : 0 < c.utf8Size := c.utf8Size_pos
      obtain ⟨k, hk⟩ : ∃ k, byteLength (c :: as) + n = k + 1 := by
        refine ⟨byteLength (c :: as) + n - 1, ?_⟩
        rw [byteLength_cons]
        omega
      have hrest : k + 1 - c.utf8Size = byteLength as + n := by
        rw [← hk, byteLength_cons]
        omega
      rw [hk, List.cons_append, takeBytes, hrest, ih, List.cons_append]

namespace Position

/-! ## The order of positions -/

/-- Positions are ordered by line, and within a line by column. -/
instance : LT Position where
  lt p q := p.line < q.line ∨ p.line = q.line ∧ p.column < q.column

theorem lt_iff {p q : Position} :
    p < q ↔ p.line < q.line ∨ p.line = q.line ∧ p.column < q.column := Iff.rfl

theorem lt_trans {p q r : Position} (hpq : p < q) (hqr : q < r) : p < r := by
  rw [lt_iff] at *
  omega

theorem lt_asymm {p q : Position} (h : p < q) : ¬q < p := by
  rw [lt_iff] at *
  omega

theorem lt_advance (p : Position) (c : Char) : p < p.advance c := by
  rw [advance]
  split
  · exact Or.inl (Nat.lt_succ_self p.line)
  · exact Or.inr ⟨rfl, Nat.lt_succ_self p.column⟩

/-- A text moves a position on, unless it is empty. -/
theorem lt_past {cs : List Char} (h : cs ≠ []) (p : Position) : p < p.past cs := by
  induction cs generalizing p with
  | nil => exact absurd rfl h
  | cons c cs ih =>
      show p < (p.advance c).past cs
      by_cases hcs : cs = []
      · rw [hcs]
        exact p.lt_advance c
      · exact lt_trans (p.lt_advance c) (ih hcs (p.advance c))

/-! ## Counting lines and columns -/

theorem past_concat (p : Position) (cs : List Char) (c : Char) :
    p.past (cs ++ [c]) = (p.past cs).advance c := past_append p cs [c]

theorem column_after (cs : List Char) : (after cs).column = 1 + (lastLine cs).length := by
  induction cs using List.reverseRecOn with
  | nil => rfl
  | append_singleton cs c ih =>
      rw [after, past_concat, advance]
      by_cases hc : c = '\n'
      · rw [if_pos (by simpa using hc), hc, lastLine_concat_newline]
        rfl
      · rw [if_neg (by simpa using hc), lastLine_concat hc, List.length_append,
          List.length_singleton, ← Nat.add_assoc, ← ih]
        rfl

/-- The position behind a text, counted out. -/
theorem after_eq (cs : List Char) : after cs = ⟨1 + cs.count '\n', 1 + (lastLine cs).length⟩ := by
  have hline : (after cs).line = 1 + cs.count '\n' := line_past first cs
  rw [← hline, ← column_after]

end Position

/-! ## Offsets between characters -/

theorem positionAt_eq_after {source : String} {before behind : List Char} {offset : Nat}
    (hsource : source.toList = before ++ behind) (hoffset : byteLength before = placeOf source offset) :
    positionAt source offset = Position.after before := by
  rw [positionAt, ← takeBytes_placeOf, ← hoffset, hsource, takeBytes_byteLength_append]

/-- Of two offsets between characters, the later one has the later position. -/
theorem positionAt_lt_positionAt {source : String} {a b : Nat}
    (ha : IsBoundary source.toList (placeOf source a))
    (hb : IsBoundary source.toList (placeOf source b)) (hlt : placeOf source a < placeOf source b) :
    positionAt source a < positionAt source b := by
  obtain ⟨A, X, hA, hbytes⟩ := ha
  obtain ⟨B, Y, hB, hbytes'⟩ := hb
  -- the text in front of the second offset goes on where that in front of the first one ends
  obtain ⟨m, rfl, -⟩ := Lexer.exists_append_of_byteLength_le (hA.symm.trans hB) (by omega)
  have hm : m ≠ [] := by
    rintro rfl
    rw [List.append_nil] at hbytes'
    omega
  have hpast : Position.after (A ++ m) = (Position.after A).past m := Position.past_append _ A m
  rw [positionAt_eq_after hA hbytes, positionAt_eq_after hB hbytes', hpast]
  exact Position.lt_past hm (Position.after A)

/-- **Positions are exact.** Let an offset of a source stand for a place between two characters. Then
the search for its line among the line beginnings, and the count of characters from there, find its
position. The line is one more than the line feeds in front of the place, and the column one more
than the characters behind the last of these. Line and column exist in the source, and from the two
the place is found again. Of two such offsets, the one with the later place has the later position.
-/
theorem positions_exact (source : String) :
    (∀ offset, IsBoundary source.toList (placeOf source offset) →
      ∃ before behind, source.toList = before ++ behind ∧
        byteLength before = placeOf source offset ∧
        InPlace.positionAt? source offset = some (positionAt source offset) ∧
        positionAt source offset = ⟨1 + before.count '\n', 1 + (lastLine before).length⟩ ∧
        (positionAt source offset).PointsAt source (placeOf source offset)) ∧
      ∀ a b, IsBoundary source.toList (placeOf source a) →
        IsBoundary source.toList (placeOf source b) →
        (positionAt source a < positionAt source b ↔ placeOf source a < placeOf source b) := by
  constructor
  · intro offset hoffset
    have hplace : positionAt source (placeOf source offset) = positionAt source offset := by
      rw [positionAt, takeBytes_placeOf, positionAt]
    have hpoints := pointsAt_positionAt hoffset
    rw [hplace] at hpoints
    obtain ⟨before, behind, hsource, hbytes⟩ := hoffset
    refine ⟨before, behind, hsource, hbytes, InPlace.positionAt?_eq source offset, ?_, hpoints⟩
    rw [positionAt_eq_after hsource hbytes, Position.after_eq]
  · intro a b ha hb
    constructor
    · intro h
      rcases Nat.lt_trichotomy (placeOf source a) (placeOf source b) with hlt | heq | hgt
      · exact hlt
      · have hsame : positionAt source a = positionAt source b := by
          rw [positionAt, ← takeBytes_placeOf, heq, takeBytes_placeOf, positionAt]
        rw [hsame] at h
        exact absurd h (Position.lt_asymm h)
      · exact absurd h (Position.lt_asymm (positionAt_lt_positionAt hb ha hgt))
    · exact positionAt_lt_positionAt ha hb

/-- An empty line behind a character of two bytes, and an offset behind the end. -/
theorem positions_exact_accent :
    let source := "é\n\nx"
    (IsBoundary source.toList (placeOf source 3) ∧ IsBoundary source.toList (placeOf source 9)) ∧
      (positionAt source 3).PointsAt source (placeOf source 3) ∧
        positionAt source 3 < positionAt source 9 := by
  intro source
  have hline : IsBoundary source.toList (placeOf source 3) := by decide
  have hend : IsBoundary source.toList (placeOf source 9) := by decide
  obtain ⟨before, behind, -, -, -, -, hpoints⟩ := (positions_exact source).1 3 hline
  exact ⟨⟨hline, hend⟩, hpoints, ((positions_exact source).2 3 9 hline hend).mpr (by decide)⟩

/-- A later offset has all characters of an earlier one in front of it. -/
theorem Text.takeBytes_prefix_takeBytes {m n : Nat} (h : m ≤ n) (cs : List Char) :
    takeBytes m cs <+: takeBytes n cs := by
  induction cs generalizing m n with
  | nil => cases m <;> exact List.nil_prefix
  | cons c cs ih =>
      cases m with
      | zero => exact List.nil_prefix
      | succ m =>
          obtain ⟨n, rfl⟩ := Nat.exists_eq_add_of_le' (Nat.le_of_add_left_le h)
          exact List.cons_prefix_cons.mpr ⟨rfl, ih (Nat.sub_le_sub_right h c.utf8Size)⟩

/-- Later offsets are on later lines, or on the same. -/
theorem line_positionAt_mono (source : String) {a b : Nat} (h : a ≤ b) :
    (positionAt source a).line ≤ (positionAt source b).line := by
  have hfront := takeBytes_prefix_takeBytes h source.toList
  rw [positionAt, positionAt, Position.after, Position.after, Position.line_past,
    Position.line_past]
  exact Nat.add_le_add_left (hfront.sublist.count_le '\n') _

/-! ## Offsets inside characters -/

section Inside

variable {source : String} {before behind : List Char} {c : Char}

/-- A character starts in front of every offset inside it. -/
theorem takeBytes_inside {k : Nat} (hpos : 0 < k) (hk : k ≤ c.utf8Size) :
    takeBytes (byteLength before + k) (before ++ c :: behind) = before ++ [c] := by
  obtain ⟨n, rfl⟩ := Nat.exists_eq_add_of_lt hpos
  rw [takeBytes_add, Nat.zero_add, takeBytes, Nat.sub_eq_zero_of_le (by omega), takeBytes_zero]

/-- A character of several bytes is no line feed, so the place behind it is in the next column. -/
theorem positionAt_inside (hsource : source.toList = before ++ c :: behind) {k : Nat} (hpos : 0 < k)
    (hk : k < c.utf8Size) : positionAt source (byteLength before + k)
      = ⟨(positionAt source (byteLength before)).line,
          (positionAt source (byteLength before)).column + 1⟩ := by
  have hc : ¬(c == '\n') = true := by
    intro hc
    have hsize : '\n'.utf8Size = 1 := by decide
    rw [beq_iff_eq.mp hc, hsize] at hk
    omega
  rw [positionAt, positionAt, hsource, takeBytes_inside hpos (Nat.le_of_lt hk),
    takeBytes_byteLength_append, Position.after, Position.past_concat, Position.advance, if_neg hc]
  rfl

/-- **Offsets inside a character.** Of the offsets of the bytes of a character only the first has the
position of the character. Every other one has the position of the place behind the character, which
is the next column. -/
theorem positionAt_eq_first_iff (hsource : source.toList = before ++ c :: behind) {offset : Nat}
    (hfirst : byteLength before ≤ offset) (hlast : offset < byteLength before + c.utf8Size) :
    (positionAt source offset = positionAt source (byteLength before) ↔
        offset = byteLength before) ∧
      (offset ≠ byteLength before →
        positionAt source offset = positionAt source (byteLength before + c.utf8Size) ∧
          positionAt source offset = ⟨(positionAt source (byteLength before)).line,
            (positionAt source (byteLength before)).column + 1⟩) := by
  obtain ⟨k, rfl⟩ := Nat.exists_eq_add_of_le hfirst
  have hk : k < c.utf8Size := by omega
  constructor
  · constructor
    · intro heq
      by_contra hne
      rw [positionAt_inside hsource (by omega) hk] at heq
      have hcolumn := congrArg Position.column heq
      simp only at hcolumn
      omega
    · intro heq
      rw [heq]
  · intro hne
    refine ⟨?_, positionAt_inside hsource (by omega) hk⟩
    rw [positionAt, positionAt, hsource, takeBytes_inside (by omega) (Nat.le_of_lt hk),
      takeBytes_inside c.utf8Size_pos (Nat.le_refl _)]

/-- The second byte of a character of two bytes does not have the position of the character. -/
theorem positionAt_inside_accent : "é = x".toList = [] ++ 'é' :: " = x".toList ∧
    byteLength [] < 1 ∧ 1 < byteLength [] + 'é'.utf8Size ∧
      positionAt "é = x" 1 ≠ positionAt "é = x" (byteLength []) := by
  decide

/-- The third byte of a character of four bytes, in front of a line break. -/
theorem positionAt_eq_behind_of_emoji : "x😀\r\n".toList = ['x'] ++ '😀' :: ['\r', '\n'] ∧
    byteLength ['x'] ≤ 3 ∧ 3 < byteLength ['x'] + '😀'.utf8Size ∧
      positionAt "x😀\r\n" 3 = positionAt "x😀\r\n" 5 := by
  have hsource : "x😀\r\n".toList = ['x'] ++ '😀' :: ['\r', '\n'] := by decide
  have hfirst : byteLength ['x'] ≤ 3 := by decide
  have hlast : 3 < byteLength ['x'] + '😀'.utf8Size := by decide
  exact ⟨hsource, hfirst, hlast, ((positionAt_eq_first_iff hsource hfirst hlast).2 (by decide)).1⟩

end Inside

end SolidityTools

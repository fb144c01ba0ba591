import SolidityTools.Proofs.Lint.Order
import SolidityTools.Proofs.Position.Order
import SolidityTools.Report.Lint
import Mathlib.Data.List.Nodup

set_option autoImplicit false

/-! # The lines around a position

The context of a position has a row for each existing line of a window around its line, and a
caret below that line (`Shows`). All rows have gutters of one width, since no number of the window
has more digits than the last one, so the caret stands below the cell of its column. There is a
context exactly if the sum that ends the window is a machine word, even where the window ends at the
last line, and the caret row is a text (`Fits`); the contexts in a report do fit
(`issueText_eq_of_mem_lint`). The column of a position counts the characters in front of it, so the
caret of an offset stands below the character that begins there (`column_positionAt_iff`).
-/

namespace SolidityTools

open Text

/-! ## Numbers, spaces and lines -/

/-- A smaller number has no more digits. -/
theorem Text.length_toString_mono {m n : Nat} (h : m ≤ n) :
    (toString m).length ≤ (toString n).length := by
  have hpos : 0 < n.repr.length := Nat.length_repr_pos
  have hn : n < 10 ^ n.repr.length := (Nat.length_repr_le_iff hpos).mp (Nat.le_refl _)
  exact (Nat.length_repr_le_iff hpos).mpr (Nat.lt_of_le_of_lt h hn)

theorem Text.length_spaces (n : Nat) : (spaces n).length = n := by
  rw [spaces, String.length_ofList, List.length_replicate]

theorem Text.spaces_append (m n : Nat) : spaces m ++ spaces n = spaces (m + n) := by
  rw [spaces, spaces, spaces, ← String.ofList_append, List.replicate_append_replicate]

theorem Text.exists_splitLines_lastLine (cs : List Char) :
    ∃ lines, splitLines cs = lines ++ [lastLine cs] := by
  induction cs using List.reverseRecOn with
  | nil => exact ⟨[], rfl⟩
  | append_singleton cs c ih =>
      obtain ⟨lines, hlines⟩ := ih
      by_cases hc : c = '\n'
      · subst hc
        refine ⟨splitLines cs, ?_⟩
        rw [splitLines_append_newline, lastLine_concat_newline]
        rfl
      · have hlast : splitLines [c] = [c] :: [] := splitLines_of_not_mem (by simpa using Ne.symm hc)
        refine ⟨lines, ?_⟩
        rw [splitLines_append hlines hlast, lastLine_concat hc]

namespace Context

/-! ## Windows -/

/-- The numbers of the existing lines that are at most `reach` lines away from a line. -/
def window (source : String) (line reach : Nat) : List Nat :=
  (List.range' 1 (lineCount source)).filter fun n =>
    max 1 (line - reach) ≤ n ∧ n ≤ min (line + reach) (lineCount source)

def lineText (source : String) (n : Nat) : String := (lineAt? source n).getD ""

/-- A gutter of some width that ends with the number of a line and a bar. -/
def IsGutter (width n : Nat) (gutter : String) : Prop :=
  gutter.length = width ∧ ∃ k, gutter = spaces k ++ toString n ++ " | "

/-- The row of a line behind its gutter. The line of the position has a second row, with a
caret below the cell of the column. Cells are counted from one, and a column of zero is the first
one. -/
def row (source : String) (p : Position) (width : Nat) (gutter : Nat → String) (n : Nat) : String :=
  gutter n ++ lineText source n ++ "\n" ++
    if n = p.line then spaces (width + (p.column - 1)) ++ "^\n" else ""

/-- A text shows the lines around a position: it has the rows of the lines of the window, with
gutters of one width. -/
def Shows (source : String) (p : Position) (reach : Nat) (text : String) : Prop :=
  ∃ (width : Nat) (gutter : Nat → String),
    (∀ n ∈ window source p.line reach, IsGutter width n (gutter n)) ∧
      text = String.join ((window source p.line reach).map (row source p width gutter))

theorem mem_window {source : String} {line reach n : Nat} : n ∈ window source line reach ↔
    1 ≤ n ∧ n ≤ lineCount source ∧ line ≤ n + reach ∧ n ≤ line + reach := by
  rw [window, List.mem_filter, List.mem_range'_1, decide_eq_true_eq]
  omega

theorem nodup_window (source : String) (line reach : Nat) : (window source line reach).Nodup :=
  (List.nodup_range' 1).filter _

/-- The line of the position is in the window once, if it exists. -/
theorem count_window (source : String) (line reach : Nat) : (window source line reach).count line
    = if 1 ≤ line ∧ line ≤ lineCount source then 1 else 0 := by
  by_cases h : 1 ≤ line ∧ line ≤ lineCount source
  · rw [if_pos h]
    exact List.count_eq_one_of_mem (nodup_window source line reach) (mem_window.mpr (by omega))
  · rw [if_neg h, List.count_eq_zero]
    intro hmem
    have hline := mem_window.mp hmem
    omega

/-! ## The rows that are printed -/

/-- The digits of the last line of the window. -/
def digits (source : String) (p : Position) (reach : Nat) : Nat :=
  (toString (min (p.line + reach) (lineCount source))).length

/-- The cells in front of the caret, with two spaces and a bar in the gutter. -/
def caretCells (source : String) (p : Position) (reach : Nat) : Nat :=
  digits source p reach + 5 + (p.column - 1)

/-- The sum that ends the window is a machine word, and the caret row, if there is one, is a text of
a length a machine can hold. -/
structure Fits (source : String) (p : Position) (reach : Nat) : Prop where
  last_lt : p.line + reach < UInt64.size
  caret_lt : 1 ≤ p.line → p.line ≤ lineCount source →
    caretCells source p reach < UInt64.size / 2

def printedGutter (width n : Nat) : String := "  " ++ padLeft width (toString n) ++ " | "

/-- A number that fits gets a gutter of the full width. -/
theorem isGutter_printedGutter {width n : Nat} (h : (toString n).length ≤ width) :
    IsGutter (width + 5) n (printedGutter width n) := by
  have htwo : "  " = spaces 2 := rfl
  have hspaces : printedGutter width n
      = spaces (2 + (width - (toString n).length)) ++ toString n ++ " | " := by
    rw [printedGutter, padLeft, htwo, ← String.append_assoc, spaces_append]
  refine ⟨?_, _, hspaces⟩
  have hbar : " | ".length = 3 := rfl
  rw [hspaces, String.length_append, String.length_append, length_spaces, hbar]
  omega

theorem zipIdx_sourceLines (source : String) : (sourceLines source).zipIdx 1
    = (List.range' 1 (lineCount source)).map fun n => (lineText source n, n) := by
  refine List.ext_getElem (by simp [lineCount]) fun i hi hi' => ?_
  have hlt : i < (sourceLines source).length := by simpa using hi
  have hindex : 1 + i - 1 = i := by omega
  rw [List.getElem_zipIdx, List.getElem_map, List.getElem_range', lineText, lineAt?,
    if_neg (by omega), Nat.one_mul, hindex, List.getElem?_eq_getElem hlt]
  rfl

/-! ## Steps that can fail -/

section Steps

variable {α β ε : Type} {x : Except ε α}

/-- What succeeds in two steps succeeds in the first one. -/
theorem exists_of_bind_eq_ok {f : α → Except ε β} {b : β} (h : x >>= f = .ok b) :
    ∃ a, x = .ok a ∧ f a = .ok b := by
  cases x with
  | error e => cases h
  | ok a => exact ⟨a, rfl, h⟩

theorem exists_of_map_eq_ok {f : α → β} {b : β} (h : x.map f = .ok b) :
    ∃ a, x = .ok a ∧ f a = b := by
  cases x with
  | error e => cases h
  | ok a => exact ⟨a, rfl, Except.ok.inj h⟩

theorem mapM_eq_ok_map {f : α → Except ε β} {g : α → β} {as : List α}
    (h : ∀ a ∈ as, f a = .ok (g a)) : as.mapM f = .ok (as.map g) := by
  induction as with
  | nil => rfl
  | cons a as ih =>
      have hrest := ih fun b hb => h b (List.mem_cons_of_mem a hb)
      rw [List.mapM_cons, h a List.mem_cons_self, hrest]
      rfl

/-- A list succeeds only if each of its members does. -/
theorem exists_eq_ok_of_mapM {f : α → Except ε β} {as : List α} {bs : List β}
    (h : as.mapM f = .ok bs) {a : α} (ha : a ∈ as) : ∃ b, f a = .ok b := by
  induction as generalizing bs with
  | nil => cases ha
  | cons c as ih =>
      rw [List.mapM_cons] at h
      obtain ⟨b, hc, h⟩ := exists_of_bind_eq_ok h
      obtain ⟨bs, hrest, -⟩ := exists_of_bind_eq_ok h
      rcases List.mem_cons.mp ha with rfl | ha
      · exact ⟨b, hc⟩
      · exact ih hrest ha

theorem wordSum_eq_ok_iff {a b n : Nat} :
    wordSum a b = .ok n ↔ a + b < UInt64.size ∧ a + b = n := by
  rw [wordSum]
  by_cases h : a + b < UInt64.size
  · rw [if_pos h, Except.ok.injEq]
    exact ⟨fun heq => ⟨h, heq⟩, fun hsum => hsum.2⟩
  · rw [if_neg h]
    refine iff_of_false ?_ fun hsum => h hsum.1
    intro heq
    cases heq

end Steps

/-! ## Whether the rows are printed -/

section Printed

variable {source : String} {p : Position} {reach : Nat}

theorem caretRow_eq {width column : Nat} (h : width + 5 + (column - 1) < UInt64.size / 2) :
    caretRow width column = .ok (spaces (width + 5 + (column - 1)) ++ "^\n") := by
  have hword : wordSum (width + 5) (column - 1) = .ok (width + 5 + (column - 1)) :=
    wordSum_eq_ok_iff.mpr ⟨Nat.lt_of_lt_of_le h (Nat.div_le_self _ _), rfl⟩
  rw [caretRow, hword]
  exact if_pos h

theorem lt_of_caretRow_eq {width column : Nat} {text : String}
    (h : caretRow width column = .ok text) : width + 5 + (column - 1) < UInt64.size / 2 := by
  obtain ⟨cells, hcells, htext⟩ := exists_of_bind_eq_ok h
  obtain ⟨-, rfl⟩ := wordSum_eq_ok_iff.mp hcells
  by_contra hlarge
  rw [if_neg hlarge] at htext
  cases htext

/-- The rows of a line are printed if there is no caret among them or its row is a text. -/
theorem contextRows_eq {width n : Nat}
    (h : n = p.line → width + 5 + (p.column - 1) < UInt64.size / 2) :
    contextRows width p n (lineText source n)
      = .ok (row source p (width + 5) (printedGutter width) n) := by
  by_cases hline : n = p.line
  · simp only [contextRows, row, if_pos hline, caretRow_eq (h hline), Except.map]
    rfl
  · simp only [contextRows, row, if_neg hline, String.append_empty]
    rfl

/-- A window whose end is no machine word is not shown. -/
theorem codeContext_of_overflow (h : UInt64.size ≤ p.line + reach) :
    codeContext source p reach = .error .overflow := by
  have hsum : wordSum p.line reach = .error .overflow := if_neg (Nat.not_lt.mpr h)
  rw [codeContext, contextLast, hsum]
  rfl

/-- All lines are asked for, and none is shown. -/
example : codeContext "a\nb\nc" ⟨2, 1⟩ 18446744073709551615 = .error .overflow := by decide +kernel

/-- Otherwise the rows of its lines are printed. -/
theorem codeContext_of_lt (h : p.line + reach < UInt64.size) :
    codeContext source p reach = ((window source p.line reach).mapM fun n =>
      contextRows (digits source p reach) p n (lineText source n)).map String.join := by
  have hsum : wordSum p.line reach = .ok (p.line + reach) := wordSum_eq_ok_iff.mpr ⟨h, rfl⟩
  have hwindow : ((sourceLines source).zipIdx 1).filter (fun line : String × Nat =>
        contextFirst p.line reach ≤ line.2 && line.2 ≤ min (p.line + reach) (lineCount source))
      = (window source p.line reach).map fun n => (lineText source n, n) := by
    rw [zipIdx_sourceLines, List.filter_map, window]
    refine congrArg _ (List.filter_congr fun n _ => ?_)
    rw [contextFirst, Nat.max_comm]
    exact (Bool.decide_and _ _).symm
  rw [codeContext, contextLast, hsum]
  show Except.map _ (List.mapM _ (List.filter (fun line : String × Nat =>
    contextFirst p.line reach ≤ line.2 && line.2 ≤ min (p.line + reach) (lineCount source)) _)) = _
  rw [hwindow, List.mapM_map]
  rfl

end Printed

/-! ## The character above the caret -/

/-- The row of a character, cut at the character. What ends the line is in its row as well. -/
theorem exists_lineText_eq {source : String} {before behind : List Char} {c : Char}
    (hsource : source.toList = before ++ c :: behind) :
    ∃ back, (lineText source (1 + before.count '\n') ++ "\n").toList
      = lastLine before ++ c :: back := by
  obtain ⟨lines, hbefore⟩ := exists_splitLines_lastLine before
  obtain ⟨v, rest, back, hbehind, hback⟩ :
      ∃ v rest back, splitLines (c :: behind) = v :: rest ∧ v ++ ['\n'] = c :: back := by
    by_cases hc : c = '\n'
    · subst hc
      exact ⟨[], splitLines behind, [], splitLines_newline behind, rfl⟩
    · obtain ⟨v, rest, hbehind⟩ := List.exists_cons_of_ne_nil (splitLines_ne_nil behind)
      exact ⟨c :: v, rest, v ++ ['\n'], splitLines_cons hc hbehind, rfl⟩
  have hsplit : splitLines source.toList = lines ++ (lastLine before ++ v) :: rest := by
    rw [hsource]
    exact splitLines_append hbefore hbehind
  have hlength : before.count '\n' = lines.length := by
    have hcount := length_splitLines before
    rw [hbefore, List.length_append, List.length_singleton] at hcount
    omega
  have hline : lineText source (1 + before.count '\n') = String.ofList (lastLine before ++ v) := by
    have hindex : 1 + lines.length - 1 = lines.length := by omega
    rw [lineText, lineAt?, if_neg (by omega), hlength, hindex, sourceLines, hsplit]
    simp
  refine ⟨back, ?_⟩
  rw [hline, String.toList_append, String.toList_ofList, List.append_assoc]
  exact congrArg (lastLine before ++ ·) hback

/-- The caret of a byte of a character stands below the character exactly if that byte is the first
one. -/
theorem column_positionAt_iff {source : String} {before behind : List Char} {c : Char}
    (hsource : source.toList = before ++ c :: behind) {offset : Nat}
    (hfirst : byteLength before ≤ offset) (hlast : offset < byteLength before + c.utf8Size) :
    (positionAt source offset).line = 1 + before.count '\n' ∧
      ((positionAt source offset).column - 1 = (lastLine before).length ↔
        offset = byteLength before) := by
  have hposition : positionAt source (byteLength before)
      = ⟨1 + before.count '\n', 1 + (lastLine before).length⟩ := by
    rw [positionAt, hsource, takeBytes_byteLength_append, Position.after_eq]
  obtain ⟨k, rfl⟩ := Nat.exists_eq_add_of_le hfirst
  cases k with
  | zero =>
      rw [Nat.add_zero, hposition]
      exact ⟨rfl, by simp⟩
  | succ k =>
      rw [positionAt_inside hsource (Nat.succ_pos k) (by omega), hposition]
      refine ⟨rfl, iff_of_false ?_ ?_⟩
      · show 1 + (lastLine before).length + 1 - 1 ≠ (lastLine before).length
        omega
      · omega

/-! ## Contexts that fit -/

theorem fits_of_codeContext_eq {source : String} {p : Position} {reach : Nat} {text : String}
    (h : codeContext source p reach = .ok text) : Fits source p reach := by
  have hlast : p.line + reach < UInt64.size := by
    by_contra hlarge
    rw [codeContext_of_overflow (Nat.not_lt.mp hlarge)] at h
    cases h
  refine ⟨hlast, fun hone hcount => ?_⟩
  rw [codeContext_of_lt hlast] at h
  obtain ⟨rows, hrows, -⟩ := exists_of_map_eq_ok h
  -- the rows of the line of the position are among those that are printed
  have hline : p.line ∈ window source p.line reach := mem_window.mpr (by omega)
  obtain ⟨row, hrow⟩ := exists_eq_ok_of_mapM hrows hline
  rw [contextRows, if_pos rfl] at hrow
  obtain ⟨caret, hcaret, -⟩ := exists_of_map_eq_ok hrow
  exact lt_of_caretRow_eq hcaret

/-- **A context that fits is shown.** -/
theorem Fits.exists_shows {source : String} {p : Position} {reach : Nat} (h : Fits source p reach) :
    ∃ text, codeContext source p reach = .ok text ∧ Shows source p reach text := by
  have hrows : ∀ n ∈ window source p.line reach,
      contextRows (digits source p reach) p n (lineText source n) = .ok (row source p
        (digits source p reach + 5) (printedGutter (digits source p reach)) n) := by
    intro n hn
    have hbounds := mem_window.mp hn
    exact contextRows_eq fun hline => h.caret_lt (by omega) (by omega)
  have hgutter : ∀ n ∈ window source p.line reach,
      IsGutter (digits source p reach + 5) n (printedGutter (digits source p reach) n) := by
    intro n hn
    have hbounds := mem_window.mp hn
    exact isGutter_printedGutter (length_toString_mono (by omega))
  rw [codeContext_of_lt h.last_lt, mapM_eq_ok_map hrows]
  exact ⟨_, rfl, _, _, hgutter, rfl⟩

/-- A context that does not fit is not printed. -/
theorem exists_failure_of_not_fits {source : String} {p : Position} {reach : Nat}
    (h : ¬Fits source p reach) : ∃ failure, codeContext source p reach = .error failure := by
  cases hcontext : codeContext source p reach with
  | error failure => exact ⟨failure, rfl⟩
  | ok text => exact absurd (fits_of_codeContext_eq hcontext) h

/-! ## Contexts of offsets -/

/-- No number below 10¹⁹ has more than 19 digits. -/
theorem digits_le {source : String} {p : Position} {reach : Nat}
    (h : lineCount source < 10 ^ 19) : digits source p reach ≤ 19 :=
  (Nat.length_repr_le_iff (by decide)).mpr (Nat.lt_of_le_of_lt (Nat.min_le_right _ _) h)

/-- The context of an offset fits, if the source leaves room for a gutter. -/
theorem fits_positionAt {source : String} {reach : Nat}
    (h : byteLength source.toList + reach + 24 < UInt64.size / 2) (offset : Nat) :
    Fits source (positionAt source offset) reach := by
  have hsize : UInt64.size / 2 = 9223372036854775808 := by decide
  have hlength := length_le_byteLength source.toList
  have hcount : lineCount source = source.toList.count '\n' + 1 := by
    rw [lineCount, sourceLines, List.length_map, length_splitLines]
  have hfeeds : source.toList.count '\n' ≤ source.toList.length := List.count_le_length
  have hdigits : digits source (positionAt source offset) reach ≤ 19 := digits_le (by omega)
  have hfront : (takeBytes offset source.toList).Sublist source.toList := by
    conv_rhs => rw [← takeBytes_append_dropBytes offset source.toList]
    exact List.sublist_append_left _ _
  have hline := hfront.count_le '\n'
  have hcolumn : (lastLine (takeBytes offset source.toList)).length ≤ source.toList.length := by
    rw [lastLine, List.length_reverse]
    calc ((takeBytes offset source.toList).reverse.takeWhile (· != '\n')).length
        ≤ (takeBytes offset source.toList).reverse.length := (List.takeWhile_sublist _).length_le
      _ = (takeBytes offset source.toList).length := List.length_reverse
      _ ≤ source.toList.length := hfront.length_le
  rw [positionAt, Position.after_eq] at hdigits ⊢
  refine ⟨?_, fun _ _ => ?_⟩
  · show 1 + _ + reach < UInt64.size
    omega
  · show _ + 5 + (1 + _ - 1) < UInt64.size / 2
    omega

/-- **A report shows the lines around each of its issues.** -/
theorem issueText_eq_of_mem_lint {settings : LintSettings} {source : String}
    (h : byteLength source.toList + 25 < UInt64.size / 2) {issue : Lint.Issue}
    (hissue : issue ∈ lint settings source) :
    ∃ text, Shows source issue.position 1 text ∧
      Report.issueText source issue = Report.issueTitle issue ++ text := by
  have hfound := (Lint.isStableOrder_lint settings source).perm.mem_iff.mp hissue
  obtain ⟨rule, -, hrule⟩ := List.mem_flatMap.mp hfound
  obtain ⟨f, -, rfl⟩ := List.mem_map.mp hrule
  have hfits : Fits source (positionAt source f.offset) 1 := fits_positionAt (by omega) f.offset
  obtain ⟨text, hcontext, hshows⟩ := hfits.exists_shows
  exact ⟨text, hshows, by rw [Report.issueText, hcontext]; rfl⟩

/-! ## All positions -/

/-- What `codeContext` answers for a position: a text that shows the lines of the window, exactly if
it fits, and a failure otherwise. -/
structure Answers (source : String) (p : Position) (reach : Nat) : Prop where
  shows_iff : (∃ text, codeContext source p reach = .ok text ∧ Shows source p reach text) ↔
    Fits source p reach
  fails : ¬Fits source p reach → ∃ failure, codeContext source p reach = .error failure
  /-- A window whose end is no machine word overflows, even where it would end at the last line. -/
  overflows : UInt64.size ≤ p.line + reach → codeContext source p reach = .error .overflow
  /-- The line of the position has one row and one caret row, if it exists. -/
  count_line : (window source p.line reach).count p.line
    = if 1 ≤ p.line ∧ p.line ≤ lineCount source then 1 else 0

/-- **The lines around a position.** The context shows the existing lines of the window, each in a
row with a gutter of the same width, and below the line of the position, which is in the window
once if it exists, a caret under the cell of the column. It does so exactly if it fits; otherwise
there is no context. The context of an offset fits, if the source leaves room for a gutter. The row
of a character of the source has, behind its gutter, the characters that are in front of it on its
line, and then the character. The caret of an offset of one of its bytes has as many cells in front
of it exactly if that byte is the first one. -/
theorem shows_codeContext_iff (source : String) :
    (∀ p reach, Answers source p reach) ∧
      (∀ offset reach, byteLength source.toList + reach + 24 < UInt64.size / 2 →
        Fits source (positionAt source offset) reach) ∧
      ∀ before c behind offset, source.toList = before ++ c :: behind →
        byteLength before ≤ offset → offset < byteLength before + c.utf8Size →
        ∃ back, (lineText source (positionAt source offset).line ++ "\n").toList
            = lastLine before ++ c :: back ∧
          ((positionAt source offset).column - 1 = (lastLine before).length ↔
            offset = byteLength before) := by
  refine ⟨?_, fun offset _ h => fits_positionAt h offset, ?_⟩
  · intro p reach
    refine ⟨⟨?_, Fits.exists_shows⟩, exists_failure_of_not_fits, codeContext_of_overflow,
      count_window source p.line reach⟩
    rintro ⟨text, htext, -⟩
    exact fits_of_codeContext_eq htext
  · intro before c behind offset hsource hfirst hlast
    obtain ⟨hline, hcolumn⟩ := column_positionAt_iff hsource hfirst hlast
    obtain ⟨back, hrow⟩ := exists_lineText_eq hsource
    exact ⟨back, by rw [hline, hrow], hcolumn⟩

/-- The second byte of a character of two bytes, and the lines around it. -/
theorem shows_accent : let source := "x\né = 1"
    (byteLength source.toList + 1 + 24 < UInt64.size / 2 ∧
        ∃ text, codeContext source (positionAt source 3) 1 = .ok text ∧
          Shows source (positionAt source 3) 1 text) ∧
      (source.toList = ['x', '\n'] ++ 'é' :: " = 1".toList ∧ byteLength ['x', '\n'] ≤ 3 ∧
        3 < byteLength ['x', '\n'] + 'é'.utf8Size) ∧
      (positionAt source 3).column - 1 ≠ (lastLine ['x', '\n']).length := by
  intro source
  have hsource : source.toList = ['x', '\n'] ++ 'é' :: " = 1".toList := by decide
  have hfirst : byteLength ['x', '\n'] ≤ 3 := by decide
  have hlast : 3 < byteLength ['x', '\n'] + 'é'.utf8Size := by decide
  have hroom : byteLength source.toList + 1 + 24 < UInt64.size / 2 := by decide
  obtain ⟨hcontext, hfits, hcharacter⟩ := shows_codeContext_iff source
  obtain ⟨-, -, hcolumn⟩ := hcharacter _ _ _ 3 hsource hfirst hlast
  refine ⟨⟨hroom, (hcontext _ 1).shows_iff.mpr (hfits 3 1 hroom)⟩, ⟨hsource, hfirst, hlast⟩, ?_⟩
  exact fun heq => absurd (hcolumn.mp heq) (by decide)

/-- The caret of the second byte of a character stands under the space behind the character. -/
theorem caret_behind_accent : let source := "é = x"
    (source.toList = [] ++ 'é' :: " = x".toList ∧ byteLength [] ≤ 1 ∧
        1 < byteLength [] + 'é'.utf8Size) ∧
      codeContext source (positionAt source 1) 0 = .ok "  1 | é = x\n       ^\n" ∧
      codeContext source (positionAt source 0) 0 = .ok "  1 | é = x\n      ^\n" := by
  decide +kernel

end Context

end SolidityTools

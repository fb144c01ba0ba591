import SolidityTools.Position
import SolidityTools.Proofs.Layout.Line
import Mathlib.Data.List.Forall2

set_option autoImplicit false

/-! # Indentation in whole levels

What formatting makes of a text, line by line. A line is an indentation, a text and the blanks
that are dropped (`Dissects`). Its formatted line is empty if there is no text, and otherwise the
text behind as many spaces as the indentation has columns, rounded down to whole levels
(`Releveled`). The columns are counted as a natural number. The formatter counts with a machine
word, which holds that number modulo `UInt64.size` (`toNat_columns`). It rounds down afterwards, so
the spaces are a multiple of the level in any case (`length_reindent`).
-/

namespace SolidityTools

open Text

namespace Layout

variable {settings : EditorSettings}

/-! ## Columns and levels as natural numbers -/

/-- The columns of an indentation, however many there are. -/
def width (settings : EditorSettings) : List Char → Nat
  | [] => 0
  | c :: indent => (if c == '\t' then settings.tabSize.toNat else 1) + width settings indent

def level (settings : EditorSettings) : Nat := max settings.indentWidth.toNat 1

/-- The spaces that formatting puts in place of an indentation. -/
def levelSpaces (settings : EditorSettings) (indent : List Char) : Nat :=
  width settings indent % UInt64.size / level settings * level settings

theorem toNat_unit (settings : EditorSettings) : (unit settings).toNat = level settings := by
  have hmax : unit settings = if settings.indentWidth ≤ 1 then 1 else settings.indentWidth := rfl
  rw [hmax, level]
  split
  · next h => exact (Nat.max_eq_right (UInt64.le_iff_toNat_le.mp h)).symm
  · next h => exact (Nat.max_eq_left (Nat.le_of_not_le (mt UInt64.le_iff_toNat_le.mpr h))).symm

theorem toNat_columns (settings : EditorSettings) (indent : List Char) :
    (columns settings indent).toNat = width settings indent % UInt64.size := by
  -- the word that is carried along holds what was counted so far, modulo its size
  have hfold : ∀ n : UInt64, (indent.foldl
      (fun n c => n + if c == '\t' then settings.tabSize else 1) n).toNat
        = (n.toNat + width settings indent) % UInt64.size := by
    induction indent with
    | nil =>
        intro n
        exact (Nat.mod_eq_of_lt n.toNat_lt).symm
    | cons c indent ih =>
        intro n
        have hone : (if c == '\t' then settings.tabSize else 1 : UInt64).toNat
            = if c == '\t' then settings.tabSize.toNat else 1 := by
          split <;> rfl
        have hadd : ∀ k : UInt64, (n + k).toNat = (n.toNat + k.toNat) % UInt64.size :=
          UInt64.toNat_add n
        rw [List.foldl_cons, ih, hadd, hone, Nat.mod_add_mod, Nat.add_assoc]
        rfl
  rw [columns, hfold, UInt64.toNat_zero, Nat.zero_add]

theorem length_reindent (settings : EditorSettings) (indent : List Char) :
    (reindent settings indent).length = levelSpaces settings indent := by
  rw [reindent, List.length_replicate, toNat_div_mul, toNat_columns, toNat_unit, levelSpaces]

/-- Where the columns fit into a word, they are rounded down as they are. -/
theorem levelSpaces_of_lt {indent : List Char} (h : width settings indent < UInt64.size) :
    levelSpaces settings indent = width settings indent / level settings * level settings := by
  rw [levelSpaces, Nat.mod_eq_of_lt h]

/-! ## The parts of a line -/

/-- A line is an indentation, a text and the blanks behind the text that formatting drops. -/
structure Dissects (settings : EditorSettings) (line indent text blanks : List Char) : Prop where
  parts : line = indent ++ (text ++ blanks)
  indent_all : indent.all isIndent = true
  /-- The indentation ends where something else begins. -/
  rest_head : ∀ e ∈ (text ++ blanks).head?, isIndent e = false
  blanks_all : blanks.all isBlank = true
  /-- All blanks at the end are dropped, if any. -/
  text_last : settings.trimTrailing = true → ∀ e ∈ text.getLast?, isBlank e = false
  blanks_nil : settings.trimTrailing = false → blanks = []

/-- Every line has these parts, and its content is the text. -/
theorem exists_dissects (settings : EditorSettings) (line : List Char) :
    ∃ blanks, Dissects settings line (line.takeWhile isIndent) (content settings line) blanks := by
  have hcontent : content settings line = trimmed settings (line.dropWhile isIndent) := rfl
  obtain ⟨blanks, hparts, hblanks, hnone⟩ :=
    exists_trimmed_append settings (line.dropWhile isIndent)
  rw [hcontent]
  refine ⟨blanks, ?_, ?_, ?_, hblanks, ?_, hnone⟩
  · rw [← hparts, List.takeWhile_append_dropWhile]
  · exact List.all_takeWhile
  · intro e he
    rw [← hparts] at he
    have := List.head?_dropWhile_not isIndent line
    simpa [Option.mem_def.mp he] using this
  · exact (trimmed_eq_self_iff _).mp (trimmed_trimmed _)

/-- A line and what formatting makes of it. -/
def Releveled (settings : EditorSettings) (before after : List Char) : Prop :=
  ∃ indent text blanks, Dissects settings before indent text blanks ∧
    after = if text.isEmpty then [] else List.replicate (levelSpaces settings indent) ' ' ++ text

theorem releveled_formatLine (settings : EditorSettings) (line : List Char) :
    Releveled settings line (formatLine settings line) := by
  obtain ⟨blanks, hdissects⟩ := exists_dissects settings line
  refine ⟨_, _, blanks, hdissects, ?_⟩
  rw [← length_reindent, ← reindent_eq_replicate]
  rfl

end Layout

open Layout

theorem sourceLines_format (settings : EditorSettings) (source : String) :
    sourceLines (format settings source)
      = (splitLines source.toList).map fun line => String.ofList (formatLine settings line) := by
  rw [sourceLines, format, String.toList_ofList, splitLines_formatText, List.map_map]
  rfl

/-- **Formatting settles every text**, whatever the settings: a formatted text stays as it is,
no line is added or lost, and each line keeps its text behind an indentation of whole levels. An
indentation is rounded down as it is, unless its columns are too many for a word. -/
theorem format_settles (settings : EditorSettings) (source : String) :
    format settings (format settings source) = format settings source ∧
      lineCount (format settings source) = lineCount source ∧
      List.Forall₂ (fun before after => Releveled settings before.toList after.toList)
        (sourceLines source) (sourceLines (format settings source)) ∧
      ∀ indent, width settings indent < UInt64.size →
        levelSpaces settings indent = width settings indent / level settings * level settings := by
  refine ⟨?_, ?_, ?_, fun _ => levelSpaces_of_lt⟩
  · have hlaid : LaidOut settings (formatText settings source.toList) := laidOut_formatText _
    rw [format, format, String.toList_ofList, hlaid.formatText_eq]
  · rw [lineCount, lineCount, sourceLines_format, sourceLines, List.length_map, List.length_map]
  · rw [sourceLines_format, sourceLines, List.forall₂_map_left_iff, List.forall₂_map_right_iff]
    refine List.forall₂_same.mpr fun line _ => ?_
    rw [String.toList_ofList, String.toList_ofList]
    exact releveled_formatLine settings line

/-- Two tabs of three columns and a space, in levels of four columns. -/
theorem format_settles_tabs : let settings : EditorSettings := ⟨3, 4, true⟩
    width settings ['\t', '\t', ' '] < UInt64.size ∧
      levelSpaces settings ['\t', '\t', ' '] = 4 := by
  intro settings
  have hlt : width settings ['\t', '\t', ' '] < UInt64.size := by decide
  exact ⟨hlt, ((format_settles settings "").2.2.2 _ hlt).trans (by decide)⟩

end SolidityTools

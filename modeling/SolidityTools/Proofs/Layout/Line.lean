import SolidityTools.Proofs.Text.Line
import SolidityTools.Layout
import Mathlib.Data.List.DropRight

set_option autoImplicit false

/-! # Lines that are laid out already

A line that formatting leaves alone is given by its two ends: its indentation is made of spaces
and of whole levels, and it does not end with a blank that would be dropped
(`formatLine_eq_self_iff`). So a line may be changed in its middle, and two lines may be joined,
as long as an indented beginning and an end without blanks remain (`LaidOut.join`).
-/

namespace SolidityTools.Layout

open Text

variable {settings : EditorSettings}

/-! ## Indentation -/

theorem columns_replicate (settings : EditorSettings) (n : Nat) :
    columns settings (List.replicate n ' ') = UInt64.ofNat n := by
  have hfold : ∀ a : UInt64, (List.replicate n ' ').foldl
      (fun n c => n + if c == '\t' then settings.tabSize else 1) a = a + UInt64.ofNat n := by
    induction n with
    | zero => simp
    | succ n ih =>
        intro a
        rw [List.replicate_succ, List.foldl_cons, ih, UInt64.ofNat_add,
          UInt64.add_comm (UInt64.ofNat n), ← UInt64.add_assoc]
        rfl
  rw [columns, hfold, UInt64.zero_add]

/-- What is rounded down is not greater, so the product does not run over. -/
theorem toNat_div_mul (x level : UInt64) :
    (x / level * level).toNat = x.toNat / level.toNat * level.toNat := by
  rw [UInt64.toNat_mul, UInt64.toNat_div]
  have hle := Nat.div_mul_le_self x.toNat level.toNat
  exact Nat.mod_eq_of_lt (Nat.lt_of_le_of_lt hle x.toNat_lt)

/-- Rounding down to whole levels a second time changes nothing. -/
theorem div_mul_div_mul (x level : UInt64) :
    x / level * level / level * level = x / level * level := by
  apply UInt64.toNat_inj.mp
  rw [toNat_div_mul, toNat_div_mul]
  rcases Nat.eq_zero_or_pos level.toNat with hzero | hpos
  · simp [hzero]
  · rw [Nat.mul_div_cancel _ hpos]

/-- An indentation of whole levels stays as it is. -/
theorem reindent_reindent (settings : EditorSettings) (indent : List Char) :
    reindent settings (reindent settings indent) = reindent settings indent := by
  conv_lhs => rw [reindent.eq_def settings (reindent settings indent)]
  simp only [reindent, columns_replicate, UInt64.ofNat_toNat, div_mul_div_mul]

theorem reindent_eq_replicate (settings : EditorSettings) (indent : List Char) :
    reindent settings indent = List.replicate (reindent settings indent).length ' ' := by
  simp [reindent]

theorem all_isIndent_reindent (settings : EditorSettings) (indent : List Char) :
    (reindent settings indent).all isIndent = true := by
  simp [reindent, isIndent]

/-! ## The two ends of a line -/

/-- What trimming leaves alone does not end with a blank. -/
theorem trimEnd_eq_self_iff (cs : List Char) :
    trimEnd cs = cs ↔ ∀ e ∈ cs.getLast?, isBlank e = false := by
  rw [trimEnd, List.reverse_eq_iff, List.getLast?_eq_head?_reverse]
  cases cs.reverse with
  | nil => simp
  | cons e es =>
      by_cases he : isBlank e = true
      · have hne : es.dropWhile isBlank ≠ e :: es := by
          intro heq
          have := congrArg List.length heq
          have := (List.dropWhile_sublist isBlank (l := es)).length_le
          simp at *
          omega
        simp [he, hne]
      · simp [he]

theorem trimEnd_prefix (cs : List Char) : trimEnd cs <+: cs := by
  have := List.dropWhile_suffix isBlank (l := cs.reverse)
  rwa [← List.reverse_prefix, List.reverse_reverse] at this

/-- The content of a line as a function of what stands behind the indentation. -/
def trimmed (settings : EditorSettings) (rest : List Char) : List Char :=
  if settings.trimTrailing then trimEnd rest else rest

theorem trimmed_prefix (settings : EditorSettings) (rest : List Char) :
    trimmed settings rest <+: rest := by
  unfold trimmed
  split
  · exact trimEnd_prefix rest
  · exact List.prefix_rfl

theorem trimmed_eq_self_iff (rest : List Char) :
    trimmed settings rest = rest ↔
      (settings.trimTrailing = true → ∀ e ∈ rest.getLast?, isBlank e = false) := by
  unfold trimmed
  split
  · next htrim => simp only [htrim, forall_const, trimEnd_eq_self_iff]
  · next htrim => simp [htrim]

theorem trimmed_trimmed (rest : List Char) :
    trimmed settings (trimmed settings rest) = trimmed settings rest := by
  unfold trimmed
  split
  · rw [trimEnd, trimEnd, List.reverse_reverse, List.dropWhile_idempotent]
  · rfl

/-- Trimming takes blanks away, if anything. -/
theorem exists_trimmed_append (settings : EditorSettings) (rest : List Char) :
    ∃ blanks, rest = trimmed settings rest ++ blanks ∧ blanks.all isBlank = true ∧
      (settings.trimTrailing = false → blanks = []) := by
  unfold trimmed
  split
  · next htrim =>
      refine ⟨(rest.reverse.takeWhile isBlank).reverse, ?_, by simp, by simp [htrim]⟩
      rw [trimEnd, ← List.reverse_append, List.takeWhile_append_dropWhile, List.reverse_reverse]
  · exact ⟨[], (List.append_nil rest).symm, rfl, fun _ => rfl⟩

theorem formatLine_append {indent : List Char} {e : Char} (t : List Char)
    (hindent : indent.all isIndent = true) (he : isIndent e = false) :
    formatLine settings (indent ++ e :: t)
      = if (trimmed settings (e :: t)).isEmpty then []
        else reindent settings indent ++ trimmed settings (e :: t) := by
  have htake : (indent ++ e :: t).takeWhile isIndent = indent := by
    rw [List.takeWhile_append_of_pos (by simpa using hindent),
      List.takeWhile_cons_of_neg (by simp [he]), List.append_nil]
  have hdrop : (indent ++ e :: t).dropWhile isIndent = e :: t := by
    rw [List.dropWhile_append_of_pos (by simpa using hindent),
      List.dropWhile_cons_of_neg (by simp [he])]
  simp only [formatLine, content, htake, hdrop]
  rfl

/-- A line that has content is left alone exactly if its indentation and its end are. -/
theorem formatLine_eq_self_iff {indent : List Char} {e : Char} (t : List Char)
    (hindent : indent.all isIndent = true) (he : isIndent e = false) :
    formatLine settings (indent ++ e :: t) = indent ++ e :: t ↔
      reindent settings indent = indent ∧
        (settings.trimTrailing = true → ∀ e' ∈ (e :: t).getLast?, isBlank e' = false) := by
  rw [formatLine_append t hindent he, ← trimmed_eq_self_iff]
  constructor
  · intro h
    cases htext : trimmed settings (e :: t) with
    | nil => simp [htext] at h
    | cons e' t' =>
        have hfront := trimmed_prefix settings (e :: t)
        rw [htext, List.cons_prefix_cons] at hfront
        obtain ⟨rfl, -⟩ := hfront
        rw [htext, List.isEmpty_cons, if_neg (by decide)] at h
        -- both indentations are what the line begins with
        have htake := congrArg (List.takeWhile isIndent) h
        rw [List.takeWhile_append_of_pos (by simpa using all_isIndent_reindent settings indent),
          List.takeWhile_append_of_pos (by simpa using hindent),
          List.takeWhile_cons_of_neg (by simp [he]), List.takeWhile_cons_of_neg (by simp [he]),
          List.append_nil, List.append_nil] at htake
        rw [htake] at h
        exact ⟨htake, List.append_cancel_left h⟩
  · rintro ⟨hreindent, htext⟩
    rw [htext, hreindent]
    rfl

/-- A line with something else than indentation in it. -/
theorem exists_indent_of_mem {line : List Char} {c : Char} (hmem : c ∈ line)
    (hc : isIndent c = false) :
    ∃ indent e t, line = indent ++ e :: t ∧ indent.all isIndent = true ∧ isIndent e = false := by
  induction line with
  | nil => cases hmem
  | cons d line ih =>
      by_cases hd : isIndent d = true
      · have hne : c ≠ d := by
          rintro rfl
          rw [hc] at hd
          cases hd
        obtain ⟨indent, e, t, rfl, hindent, he⟩ := ih ((List.mem_cons.mp hmem).resolve_left hne)
        exact ⟨d :: indent, e, t, rfl, by simp [hd, hindent], he⟩
      · exact ⟨[], d, line, rfl, rfl, by simpa using hd⟩

theorem isIndent_eq_false_of_isBlank {c : Char} (hc : isBlank c = false) : isIndent c = false := by
  by_contra h
  rw [Bool.not_eq_false] at h
  have hcases : c = ' ' ∨ c = '\t' := by simpa [isIndent] using h
  rcases hcases with rfl | rfl
  · exact absurd hc (by decide)
  · exact absurd hc (by decide)

/-- The middle of a line may be changed. -/
theorem formatLine_join {u x y z v : List Char} {b c : Char} (hb : b ∈ u) (hb' : isBlank b = false)
    (hc : isBlank c = false) (hux : formatLine settings (u ++ x) = u ++ x)
    (hyv : formatLine settings (y ++ c :: v) = y ++ c :: v) :
    formatLine settings (u ++ (z ++ c :: v)) = u ++ (z ++ c :: v) := by
  obtain ⟨indent, e, t, rfl, hindent, he⟩ :=
    exists_indent_of_mem hb (isIndent_eq_false_of_isBlank hb')
  have hmem : c ∈ y ++ c :: v := List.mem_append_right y List.mem_cons_self
  obtain ⟨indent', e', t', hy, hindent', he'⟩ :=
    exists_indent_of_mem hmem (isIndent_eq_false_of_isBlank hc)
  -- the indentation is that of the first line, and the end that of the second one
  have hlast : (e' :: t').getLast? = (c :: v).getLast? := by
    rw [← List.getLast?_append_of_ne_nil indent' (List.cons_ne_nil e' t'), ← hy,
      List.getLast?_append_of_ne_nil _ (List.cons_ne_nil c v)]
  rw [hy, formatLine_eq_self_iff _ hindent' he', hlast] at hyv
  rw [List.append_assoc, List.cons_append, formatLine_eq_self_iff _ hindent he] at hux ⊢
  refine ⟨hux.1, fun htrim => ?_⟩
  rw [← List.append_assoc, ← List.cons_append,
    List.getLast?_append_of_ne_nil _ (List.cons_ne_nil c v)]
  exact hyv.2 htrim

theorem formatLine_nil : formatLine settings [] = [] := by
  have hcontent : content settings [] = [] := by
    unfold content
    split <;> rfl
  rw [formatLine, hcontent]
  rfl

theorem formatLine_of_all_isIndent {line : List Char} (h : line.all isIndent = true) :
    formatLine settings line = [] := by
  have hdrop : line.dropWhile isIndent = [] := by
    rw [List.dropWhile_eq_nil_iff]
    simpa using h
  have hcontent : content settings line = [] := by
    unfold content
    rw [hdrop]
    split <;> rfl
  rw [formatLine, hcontent]
  rfl

/-- What formatting makes of a line: nothing, or an indentation of whole levels and a beginning of
the line's content. -/
theorem formatLine_cases (line : List Char) :
    formatLine settings line = [] ∨ ∃ indent e t, e :: t <:+: line ∧ isIndent e = false ∧
      formatLine settings line = reindent settings indent ++ e :: t ∧
      (settings.trimTrailing = true → ∀ e' ∈ (e :: t).getLast?, isBlank e' = false) := by
  by_cases hall : ∃ c ∈ line, isIndent c = false
  · obtain ⟨c, hmem, hc⟩ := hall
    obtain ⟨indent, e, t, rfl, hindent, he⟩ := exists_indent_of_mem hmem hc
    rw [formatLine_append t hindent he]
    cases htext : trimmed settings (e :: t) with
    | nil => exact Or.inl rfl
    | cons e' t' =>
        have hfront := trimmed_prefix settings (e :: t)
        rw [htext] at hfront
        have htrimmed : trimmed settings (e' :: t') = e' :: t' := by
          rw [← htext, trimmed_trimmed]
        refine Or.inr ⟨indent, e', t', ?_, ?_, rfl, (trimmed_eq_self_iff _).mp htrimmed⟩
        · exact hfront.isInfix.trans (List.suffix_append indent _).isInfix
        · rw [(List.cons_prefix_cons.mp hfront).1]
          exact he
  · refine Or.inl (formatLine_of_all_isIndent ?_)
    simpa using hall

theorem formatLine_formatLine (line : List Char) :
    formatLine settings (formatLine settings line) = formatLine settings line := by
  rcases @formatLine_cases settings line with h | ⟨indent, e, t, -, he, h, hlast⟩
  · rw [h, formatLine_nil]
  · rw [h, formatLine_eq_self_iff _ (all_isIndent_reindent settings indent) he]
    exact ⟨reindent_reindent settings indent, hlast⟩

/-! ## Texts -/

/-- A text that formatting leaves alone, line by line. -/
def LaidOut (settings : EditorSettings) (text : List Char) : Prop :=
  ∀ line ∈ splitLines text, formatLine settings line = line

theorem LaidOut.formatText_eq {text : List Char} (h : LaidOut settings text) :
    formatText settings text = text := by
  have hmap : (splitLines text).map (formatLine settings) = splitLines text := by
    calc (splitLines text).map (formatLine settings)
        = (splitLines text).map id := List.map_congr_left h
      _ = splitLines text := List.map_id _
  rw [formatText, hmap, joinLines_splitLines]

theorem newline_not_mem_formatLine {line : List Char} (h : '\n' ∉ line) :
    '\n' ∉ formatLine settings line := by
  intro hmem
  rcases @formatLine_cases settings line with hline | ⟨indent, e, t, hpart, -, hline, -⟩
  · rw [hline] at hmem
    cases hmem
  · rw [hline, List.mem_append] at hmem
    rcases hmem with hmem | hmem
    · simp [reindent] at hmem
    · exact h (hpart.subset hmem)

/-- The lines of a formatted text are its lines, formatted. -/
theorem splitLines_formatText (text : List Char) :
    splitLines (formatText settings text) = (splitLines text).map (formatLine settings) := by
  rw [formatText, splitLines_joinLines (by simp [splitLines_ne_nil])]
  intro line hline
  obtain ⟨source, hsource, rfl⟩ := List.mem_map.mp hline
  exact newline_not_mem_formatLine (newline_not_mem_of_mem_splitLines hsource)

theorem laidOut_formatText (text : List Char) : LaidOut settings (formatText settings text) := by
  intro line hline
  rw [splitLines_formatText] at hline
  obtain ⟨source, -, rfl⟩ := List.mem_map.mp hline
  exact formatLine_formatLine source

theorem formatText_of_not_mem {line : List Char} (h : '\n' ∉ line) :
    formatText settings line = formatLine settings line := by
  rw [formatText, splitLines_of_not_mem h]
  rfl

/-- Formatting goes from one line feed to the next. -/
theorem formatText_append_newline (A B : List Char) :
    formatText settings (A ++ '\n' :: B)
      = formatText settings A ++ '\n' :: formatText settings B := by
  rw [formatText, splitLines_append_newline, List.map_append, joinLines_append]
  · rfl
  · simp [splitLines_ne_nil]
  · simp [splitLines_ne_nil]

theorem laidOut_append_newline (A B : List Char) :
    LaidOut settings (A ++ '\n' :: B) ↔ LaidOut settings A ∧ LaidOut settings B := by
  rw [LaidOut, splitLines_append_newline]
  simp only [List.mem_append, or_imp, forall_and]
  rfl

/-- The last line of a text holds something else than blanks. -/
def EndsSolid (text : List Char) : Prop :=
  ∃ before u b, splitLines text = before ++ [u] ∧ b ∈ u ∧ isBlank b = false

/-- **The middle of a laid out text may be changed** between a solid line and a character that is
not blank. -/
theorem LaidOut.join {A x y z B : List Char} {c : Char} (hA : EndsSolid A)
    (hAx : LaidOut settings (A ++ x)) (hyB : LaidOut settings (y ++ c :: B))
    (hc : isBlank c = false) (hz : '\n' ∉ z) : LaidOut settings (A ++ (z ++ c :: B)) := by
  obtain ⟨before, u, b, hsplit, hb, hb'⟩ := hA
  have hne : c ≠ '\n' := by
    rintro rfl
    cases hc
  obtain ⟨v, behind, hB⟩ := List.exists_cons_of_ne_nil (splitLines_ne_nil B)
  obtain ⟨v', behind', hx⟩ := List.exists_cons_of_ne_nil (splitLines_ne_nil x)
  obtain ⟨before', u', hy⟩ := exists_splitLines_eq y
  have hcB : splitLines (c :: B) = (c :: v) :: behind := splitLines_cons hne hB
  have hzc : splitLines (z ++ c :: B) = [] ++ (z ++ c :: v) :: behind :=
    splitLines_append (splitLines_of_not_mem hz) hcB
  have hux := hAx (u ++ v') (by simp [splitLines_append hsplit hx])
  have hyv := hyB (u' ++ c :: v) (by simp [splitLines_append hy hcB])
  intro line hline
  rw [splitLines_append hsplit hzc, List.mem_append, List.mem_cons] at hline
  rcases hline with hline | rfl | hline
  · exact hAx line (by simp [splitLines_append hsplit hx, hline])
  · exact formatLine_join hb hb' hc hux hyv
  · exact hyB line (by simp [splitLines_append hy hcB, hline])

end SolidityTools.Layout

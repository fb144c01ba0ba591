import SolidityTools.Proofs.Token.Blank
import SolidityTools.Proofs.Layout.Level

set_option autoImplicit false

/-! # Formatting never changes code

The formatter works on lines and knows nothing of tokens. What it does to a text is described by
`Respaced`: the blanks at the end of a line may go, and the indentation of a line may change. The
significant tokens of a text and of what it is respaced to are compared by a simulation that goes
from token to token. Where a token ends, respacing goes on from there
(`Respaced.exists_token`), and the same holds behind the comments, which may reach over many
lines (`Respaced.behindBlock`).

Two things have to be excluded. White space at the end of a line belongs to a string that is not
closed there, and a blank which is not an ASCII blank is a token of its own. A text without them is
`Regular`.
-/

namespace SolidityTools

open Text Lexer

namespace Layout

/-! ## Respacing -/

/-- A text behind the indentation of its first line, and what formatting makes of it. -/
inductive Respaced : List Char → List Char → Prop
  | done {blanks : List Char} (hblanks : blanks.all isBlank = true) : Respaced blanks []
  | char (c : Char) {cs cs' : List Char} (h : Respaced cs cs') : Respaced (c :: cs) (c :: cs')
  | newline {blanks indent indent' cs cs' : List Char} (hblanks : blanks.all isBlank = true)
      (hindent : indent.all isIndent = true) (hindent' : indent'.all isIndent = true)
      (h : Respaced cs cs') :
      Respaced (blanks ++ '\n' :: (indent ++ cs)) ('\n' :: (indent' ++ cs'))

namespace Respaced

theorem append_left {cs cs' : List Char} (h : Respaced cs cs') (body : List Char) :
    Respaced (body ++ cs) (body ++ cs') := by
  induction body with
  | nil => exact h
  | cons c body ih => exact .char c ih

/-- Blanks in front of a line feed do not reach past anything else on the line. -/
theorem blanks_append_ne {blanks w rest Y : List Char} {e : Char}
    (hblanks : blanks.all isBlank = true) (hw : '\n' ∉ w) (he : isBlank e = false) :
    blanks ++ '\n' :: Y ≠ w ++ e :: rest := by
  intro heq
  rcases List.append_eq_append_iff.mp heq with ⟨m, rfl, hm⟩ | ⟨m, rfl, hm⟩
  · cases m with
    | nil =>
        obtain ⟨rfl, -⟩ := List.cons.inj hm
        cases he
    | cons d m =>
        obtain ⟨rfl, -⟩ := List.cons.inj hm
        exact hw (List.mem_append_right _ List.mem_cons_self)
  · cases m with
    | nil =>
        obtain ⟨rfl, -⟩ := List.cons.inj hm
        cases he
    | cons d m =>
        obtain ⟨rfl, -⟩ := List.cons.inj hm
        have hd := List.all_eq_true.mp hblanks e (List.mem_append_right _ List.mem_cons_self)
        rw [he] at hd
        cases hd

/-- On a line, everything up to a character that is not blank stays. -/
theorem exists_of_append_cons {w rest cs' : List Char} {e : Char}
    (h : Respaced (w ++ e :: rest) cs') (hw : '\n' ∉ w) (he : isBlank e = false) :
    ∃ rest', cs' = w ++ e :: rest' ∧ Respaced rest rest' := by
  induction w generalizing cs' with
  | nil =>
      generalize hcs : [] ++ e :: rest = cs at h
      cases h with
      | done hblanks =>
          rw [← hcs, List.nil_append, List.all_cons, he] at hblanks
          cases hblanks
      | char c h =>
          obtain ⟨rfl, rfl⟩ := List.cons.inj hcs
          exact ⟨_, rfl, h⟩
      | newline hblanks => exact absurd hcs.symm (blanks_append_ne hblanks hw he)
  | cons c w ih =>
      generalize hcs : c :: w ++ e :: rest = cs at h
      cases h with
      | done hblanks =>
          simp [← hcs, he] at hblanks
      | char d h =>
          obtain ⟨rfl, rfl⟩ := List.cons.inj hcs
          obtain ⟨rest', rfl, hrest⟩ := ih h fun hmem => hw (List.mem_cons_of_mem _ hmem)
          exact ⟨rest', rfl, hrest⟩
      | newline hblanks => exact absurd hcs.symm (blanks_append_ne hblanks hw he)

/-- A respaced text and the text itself are the same up to a blank. -/
theorem parts {cs cs' : List Char} (h : Respaced cs cs') : Parts cs cs' := by
  induction h with
  | @done blanks hblanks =>
      cases blanks with
      | nil => exact .refl []
      | cons c blanks =>
          rw [List.all_cons, Bool.and_eq_true] at hblanks
          refine .here (List.cons_ne_nil c blanks) ?_ (by simp)
          simpa using isInert_of_isNeutral (isNeutral_of_isBlank hblanks.1)
  | char c _ ih => exact .char c ih
  | @newline blanks indent indent' cs cs' hblanks _ _ _ _ =>
      refine .here (by simp) ?_ ?_
      · intro d hd
        have hblank : isBlank d = true := by
          cases blanks with
          | nil =>
              obtain rfl : '\n' = d := by simpa using hd
              decide
          | cons c blanks =>
              rw [List.all_cons, Bool.and_eq_true] at hblanks
              obtain rfl : c = d := by simpa using hd
              exact hblanks.1
        exact isInert_of_isNeutral (isNeutral_of_isBlank hblank)
      · intro d hd
        obtain rfl : '\n' = d := by simpa using hd
        decide

/-! ## Comments -/

/-- A line comment reaches to the same line feed. -/
theorem behindLine {cs cs' : List Char} (h : Respaced cs cs') :
    Respaced (cs.dropWhile (· != '\n')) (cs'.dropWhile (· != '\n')) := by
  have hdrop : ∀ blanks : List Char, blanks.all isBlank = true →
      (blanks.dropWhile (· != '\n')).all isBlank = true := by
    intro blanks hblanks
    refine List.all_eq_true.mpr fun c hc => ?_
    exact List.all_eq_true.mp hblanks c ((List.dropWhile_sublist _).mem hc)
  induction h with
  | done hblanks => exact .done (hdrop _ hblanks)
  | @char c cs cs' h ih =>
      by_cases hc : c = '\n'
      · subst hc
        exact .char _ h
      · rw [List.dropWhile_cons_of_pos (by simpa using hc),
          List.dropWhile_cons_of_pos (by simpa using hc)]
        exact ih
  | @newline blanks indent indent' cs cs' hblanks hindent hindent' h =>
      rw [List.dropWhile_append]
      split
      · exact @newline [] _ _ _ _ rfl hindent hindent' h
      · exact newline (hdrop blanks hblanks) hindent hindent' h

end Respaced

/-- The text behind a block comment whose opening delimiter has been passed. -/
def behindBlock (cs : List Char) : List Char := cs.drop (blockCommentLength cs)

theorem behindBlock_of_ne {c : Char} (hc : c ≠ '*') (cs : List Char) :
    behindBlock (c :: cs) = behindBlock cs := by
  rw [behindBlock, blockCommentLength.eq_def]
  split
  · next heq => cases heq
  · next heq => exact absurd (List.cons.inj heq).1 hc
  · next heq =>
      obtain ⟨rfl, rfl⟩ := List.cons.inj heq
      rfl

theorem behindBlock_asterisk {cs : List Char} (hcs : cs.head? ≠ some '/') :
    behindBlock ('*' :: cs) = behindBlock cs := by
  rw [behindBlock, blockCommentLength.eq_def]
  split
  · next heq => cases heq
  · next heq =>
      obtain ⟨-, rfl⟩ := List.cons.inj heq
      exact absurd rfl hcs
  · next heq =>
      obtain ⟨-, rfl⟩ := List.cons.inj heq
      rfl

theorem behindBlock_append {blanks : List Char} (hblanks : blanks.all isBlank = true)
    (cs : List Char) : behindBlock (blanks ++ cs) = behindBlock cs := by
  induction blanks with
  | nil => rfl
  | cons c blanks ih =>
      rw [List.all_cons, Bool.and_eq_true] at hblanks
      have hc : c ≠ '*' := by
        rintro rfl
        cases hblanks.1
      rw [List.cons_append, behindBlock_of_ne hc, ih hblanks.2]

theorem all_isAsciiBlank_of_all_isIndent {indent : List Char} (h : indent.all isIndent = true) :
    indent.all isAsciiBlank = true := by
  refine List.all_eq_true.mpr fun c hc => ?_
  have hindent := List.all_eq_true.mp h c hc
  rw [isIndent, Bool.or_eq_true] at hindent
  rw [isAsciiBlank]
  rcases hindent with hspace | htab
  · simp [hspace]
  · simp [htab]

theorem all_isBlank_of_all_isIndent {indent : List Char} (h : indent.all isIndent = true) :
    indent.all isBlank = true := by
  refine List.all_eq_true.mpr fun c hc => ?_
  exact isBlank_of_isAsciiBlank
    (List.all_eq_true.mp (all_isAsciiBlank_of_all_isIndent h) c hc)

/-- A block comment is closed by the same delimiter. -/
theorem Respaced.behindBlock {cs cs' : List Char} (h : Respaced cs cs') :
    Respaced (behindBlock cs) (behindBlock cs') := by
  induction h with
  | done hblanks =>
      have hnil := behindBlock_append hblanks []
      rw [List.append_nil] at hnil
      rw [hnil]
      exact .done rfl
  | @char c cs cs' h ih =>
      by_cases hc : c = '*'
      · subst hc
        by_cases hclose : cs.head? = some '/'
        · obtain ⟨cs, rfl⟩ := List.head?_eq_some_iff.mp hclose
          obtain ⟨rest', rfl, hrest⟩ := @exists_of_append_cons [] cs cs' '/' h (by simp) (by decide)
          exact hrest
        · have hclose' : cs'.head? ≠ some '/' := by
            intro hhead
            obtain ⟨rest', rfl⟩ := List.head?_eq_some_iff.mp hhead
            cases h with
            | char => exact hclose rfl
          rw [behindBlock_asterisk hclose, behindBlock_asterisk hclose']
          exact ih
      · rw [behindBlock_of_ne hc, behindBlock_of_ne hc]
        exact ih
  | @newline blanks indent indent' cs cs' hblanks hindent hindent' h ih =>
      have hskip : ∀ indent cs : List Char, indent.all isIndent = true →
          Layout.behindBlock ('\n' :: (indent ++ cs)) = Layout.behindBlock cs := by
        intro indent cs hindent
        rw [behindBlock_of_ne (by decide),
          behindBlock_append (all_isBlank_of_all_isIndent hindent)]
      rw [behindBlock_append hblanks, hskip indent cs hindent, hskip indent' cs' hindent']
      exact ih

/-! ## Regular texts -/

/-- Every string is closed on its line, and every blank is an ASCII blank, unless it belongs to a
string or a comment. -/
def Regular (cs : List Char) : Prop :=
  ∀ shape ∈ shapes cs,
    (shape.1 = .string → Token.closesString shape.2.toList = true ∧ '\n' ∉ shape.2.toList) ∧
      (shape.1 = .other → ∀ c ∈ shape.2.toList, isBlank c = false)

/-- The blanks in front of a regular text separate tokens. -/
theorem Regular.blanks_append {blanks cs : List Char} (h : Regular (blanks ++ cs))
    (hblanks : blanks.all isBlank = true) : blanks.all isAsciiBlank = true ∧ Regular cs := by
  induction blanks with
  | nil => exact ⟨rfl, h⟩
  | cons c blanks ih =>
      rw [List.all_cons, Bool.and_eq_true] at hblanks
      have hc : isAsciiBlank c = true := by
        by_contra hc
        rw [Bool.not_eq_true] at hc
        have hlex := @lexeme_of_isBlank c hblanks.1 hc ([] ++ (blanks ++ cs))
        have hshapes := @shapes_token c [] (blanks ++ cs) .other hc (by decide) hlex
        have hmem : (TokenKind.other, String.ofList [c]) ∈ shapes (c :: blanks ++ cs) := by
          rw [List.cons_append, ← List.nil_append (blanks ++ cs), hshapes]
          exact List.mem_cons_self
        have hother := (h _ hmem).2 rfl c (by simp)
        rw [hblanks.1] at hother
        cases hother
      have hrest : Regular (blanks ++ cs) := by
        rwa [Regular, List.cons_append, shapes_blank hc] at h
      obtain ⟨hall, hcs⟩ := ih hrest hblanks.2
      exact ⟨by rw [List.all_cons, hc, hall]; rfl, hcs⟩

theorem Regular.of_blank {c : Char} {cs : List Char} (h : Regular (c :: cs))
    (hc : isAsciiBlank c = true) : Regular cs := by
  rwa [Regular, shapes_blank hc] at h

/-- What stands behind the blanks around a line feed. -/
theorem Regular.behind_newline {blanks indent cs : List Char}
    (h : Regular (blanks ++ '\n' :: (indent ++ cs))) (hblanks : blanks.all isBlank = true)
    (hindent : indent.all isIndent = true) :
    Regular cs ∧ (blanks ++ '\n' :: indent).all isAsciiBlank = true := by
  have hall : (blanks ++ '\n' :: indent).all isBlank = true := by
    rw [List.all_append, List.all_cons, hblanks, all_isBlank_of_all_isIndent hindent]
    rfl
  have hcs : blanks ++ '\n' :: (indent ++ cs) = (blanks ++ '\n' :: indent) ++ cs := by simp
  rw [hcs] at h
  exact (h.blanks_append hall).symm

/-! ## The simulation -/

theorem opensCall_blanks_append {blanks : List Char} (h : blanks.all isAsciiBlank = true)
    (cs : List Char) : opensCall (blanks ++ cs) = opensCall cs := by
  rw [opensCall, opensCall, List.dropWhile_append_of_pos (by simpa using h)]

theorem shapes_blanks_append {blanks : List Char} (h : blanks.all isAsciiBlank = true)
    (cs : List Char) : shapes (blanks ++ cs) = shapes cs :=
  shapes_gap_append (gap_of_all_isAsciiBlank h) cs

theorem all_isAsciiBlank_newline {indent : List Char} (hindent : indent.all isIndent = true) :
    ('\n' :: indent).all isAsciiBlank = true := by
  rw [List.all_cons, all_isAsciiBlank_of_all_isIndent hindent]
  rfl

/-- An argument list begins behind a respaced text's blanks if it does in the text. -/
theorem Respaced.opensCall_eq {cs cs' : List Char} (h : Respaced cs cs') (hcs : Regular cs) :
    opensCall cs' = opensCall cs := by
  induction h with
  | @done blanks hblanks =>
      rw [← List.append_nil blanks] at hcs ⊢
      rw [opensCall_blanks_append (hcs.blanks_append hblanks).1]
  | @char c cs cs' h ih =>
      by_cases hc : isAsciiBlank c = true
      · rw [opensCall_blank hc, opensCall_blank hc, ih (hcs.of_blank hc)]
      · simp [opensCall, hc]
  | @newline blanks indent indent' cs cs' hblanks hindent hindent' h ih =>
      obtain ⟨hrest, hall⟩ := hcs.behind_newline hblanks hindent
      calc opensCall ('\n' :: (indent' ++ cs'))
          = opensCall cs' := opensCall_blanks_append (all_isAsciiBlank_newline hindent') cs'
        _ = opensCall cs := ih hrest
        _ = opensCall ((blanks ++ '\n' :: indent) ++ cs) := (opensCall_blanks_append hall cs).symm
        _ = opensCall (blanks ++ '\n' :: (indent ++ cs)) := by simp

theorem getLast?_of_closesString {quote : Char} {w : List Char}
    (h : Token.closesString (quote :: w) = true) : w.getLast? = some quote := by
  rw [Token.closesString] at h
  split at h
  · cases h
  · next last inner hreverse =>
      rw [Bool.and_eq_true, beq_iff_eq] at h
      rw [List.getLast?_eq_head?_reverse, hreverse, List.head?_cons, h.1]

/-- A significant token of a regular text stays on its line and does not end with a blank. -/
theorem Regular.ends_solid {c : Char} {w rest : List Char} {kind : TokenKind}
    (h : Regular (c :: (w ++ rest))) (hc : isAsciiBlank c = false) (hk : kind ≠ .comment)
    (hlex : lexeme c (w ++ rest) = (kind, w.length)) :
    '\n' ∉ w ∧ ∀ e ∈ w.getLast?, isBlank e = false := by
  by_cases hstring : kind = .string
  · subst hstring
    have hmem : (TokenKind.string, String.ofList (c :: w)) ∈ shapes (c :: (w ++ rest)) := by
      rw [shapes_token hc hk hlex]
      exact List.mem_cons_self
    obtain ⟨hclosed, hline⟩ := (h _ hmem).1 rfl
    rw [String.toList_ofList] at hclosed hline
    have hquote := (stringLength_of_lexeme hlex).1
    refine ⟨fun hmem => hline (List.mem_cons_of_mem _ hmem), ?_⟩
    intro e he
    rw [getLast?_of_closesString hclosed] at he
    obtain rfl : c = e := by simpa using he
    rcases hquote with rfl | rfl <;> decide
  · have hsolid : ∀ e ∈ w, isBlank e = false := fun e he =>
      isBlank_eq_false_of_mem hlex hc hk hstring he
    refine ⟨fun hmem => ?_, fun e he => hsolid e (List.mem_of_getLast? he)⟩
    have hnewline := hsolid _ hmem
    revert hnewline
    decide

/-- A significant token stays, and what stands behind it is respaced. -/
theorem Respaced.exists_token {c : Char} {w rest cs' : List Char} {kind : TokenKind}
    (h : Respaced (w ++ rest) cs') (hregular : Regular (c :: (w ++ rest)))
    (hc : isAsciiBlank c = false) (hk : kind ≠ .comment)
    (hlex : lexeme c (w ++ rest) = (kind, w.length)) :
    ∃ rest', cs' = w ++ rest' ∧ Respaced rest rest' ∧ Regular rest ∧
      lexeme c (w ++ rest') = (kind, w.length) := by
  obtain ⟨hline, hlast⟩ := hregular.ends_solid hc hk hlex
  have hrest : Regular rest := by
    intro shape hshape
    refine hregular shape ?_
    rw [shapes_token hc hk hlex]
    exact List.mem_cons_of_mem _ hshape
  obtain ⟨rest', rfl, hrespaced⟩ : ∃ rest', cs' = w ++ rest' ∧ Respaced rest rest' := by
    rcases List.eq_nil_or_concat w with rfl | ⟨u, e, rfl⟩
    · exact ⟨cs', rfl, h⟩
    · rw [List.concat_eq_append, List.append_assoc] at h
      have he : isBlank e = false := hlast e (by simp)
      have hu : '\n' ∉ u := fun hmem => hline (by simp [hmem])
      obtain ⟨rest', rfl, hrespaced⟩ := exists_of_append_cons h hu he
      exact ⟨rest', by simp, hrespaced⟩
  refine ⟨rest', rfl, hrespaced, hrest, ?_⟩
  obtain ⟨kind', hlex', ⟨rfl, -⟩ | ⟨rfl, rfl⟩⟩ := hrespaced.parts.exists_lexeme hc hk hlex
  · exact hlex'
  · rw [hlex', wordKind, wordKind, hrespaced.opensCall_eq hrest]

theorem shapes_lineComment (body : List Char) :
    shapes ('/' :: '/' :: body) = shapes (body.dropWhile (· != '\n')) := by
  have hlex : lexeme '/' ('/' :: body) = (.comment, runLength (· != '\n') body + 1) :=
    (Scanned.comment rfl).lexeme_eq
  rw [shapes, hlex, if_neg (by decide)]
  simp only [List.drop_succ_cons, drop_runLength, if_true]

theorem shapes_blockComment (body : List Char) :
    shapes ('/' :: '*' :: body) = shapes (behindBlock body) := by
  have hlex : lexeme '/' ('*' :: body) = (.comment, blockCommentLength body + 1) :=
    (Scanned.comment rfl).lexeme_eq
  rw [shapes, hlex, if_neg (by decide)]
  simp only [List.drop_succ_cons, if_true]
  rfl

/-- What begins a comment, and what stands behind its opening delimiter. -/
theorem exists_of_comment {c : Char} {cs : List Char} {n : Nat}
    (hlex : lexeme c cs = (.comment, n)) :
    c = '/' ∧ ∃ body, cs = '/' :: body ∨ cs = '*' :: body := by
  obtain ⟨rfl, ⟨body, rfl, -⟩ | ⟨body, rfl, -⟩⟩ :=
    commentLength?_eq_some_iff.mp (commentLength?_of_lexeme hlex)
  · exact ⟨rfl, body, Or.inl rfl⟩
  · exact ⟨rfl, body, Or.inr rfl⟩

/-- **Respacing does not change the significant tokens** of a regular text. The induction is on the
length of the text, since a comment and a token take more than one character. -/
theorem Respaced.shapes_eq {cs cs' : List Char} (h : Respaced cs cs') (hcs : Regular cs) :
    shapes cs' = shapes cs := by
  induction hn : cs.length using Nat.strongRecOn generalizing cs cs' with
  | _ n ih =>
      cases h with
      | done hblanks =>
          rw [← List.append_nil cs] at hcs ⊢
          rw [shapes_blanks_append (hcs.blanks_append hblanks).1]
      | @char c cs cs' h =>
          rw [List.length_cons] at hn
          by_cases hc : isAsciiBlank c = true
          · rw [shapes_blank hc, shapes_blank hc, ih cs.length (by omega) h (hcs.of_blank hc) rfl]
          · rw [Bool.not_eq_true] at hc
            obtain ⟨kind, w, rest, rfl, hlex⟩ := exists_lexeme c cs
            rw [List.length_append] at hn
            by_cases hk : kind = .comment
            · -- behind a comment the text is respaced as well
              subst hk
              obtain ⟨rfl, body, hbody | hbody⟩ := exists_of_comment hlex
              · rw [hbody] at h hcs ⊢
                obtain ⟨body', rfl, hrest⟩ :=
                  @exists_of_append_cons [] body cs' '/' h (by simp) (by decide)
                rw [Regular, shapes_lineComment] at hcs
                rw [List.nil_append, shapes_lineComment, shapes_lineComment]
                refine ih _ ?_ hrest.behindLine hcs rfl
                have hle := (List.dropWhile_sublist (· != '\n') (l := body)).length_le
                have hlength := congrArg List.length hbody
                rw [List.length_append, List.length_cons] at hlength
                omega
              · rw [hbody] at h hcs ⊢
                obtain ⟨body', rfl, hrest⟩ :=
                  @exists_of_append_cons [] body cs' '*' h (by simp) (by decide)
                rw [Regular, shapes_blockComment] at hcs
                rw [List.nil_append, shapes_blockComment, shapes_blockComment]
                refine ih _ ?_ hrest.behindBlock hcs rfl
                have hle := (List.drop_sublist (blockCommentLength body) body).length_le
                have hlength := congrArg List.length hbody
                rw [List.length_append, List.length_cons] at hlength
                rw [Layout.behindBlock]
                omega
            · obtain ⟨rest', rfl, hrest, hregular, hlex'⟩ := h.exists_token hcs hc hk hlex
              rw [shapes_token hc hk hlex, shapes_token hc hk hlex',
                ih rest.length (by omega) hrest hregular rfl]
      | @newline blanks indent indent' cs cs' hblanks hindent hindent' h =>
          obtain ⟨hrest, hall⟩ := hcs.behind_newline hblanks hindent
          have hlt : cs.length < n := by
            simp only [List.length_append, List.length_cons] at hn
            omega
          calc shapes ('\n' :: (indent' ++ cs'))
              = shapes cs' := shapes_blanks_append (all_isAsciiBlank_newline hindent') cs'
            _ = shapes cs := ih cs.length hlt h hrest rfl
            _ = shapes ((blanks ++ '\n' :: indent) ++ cs) := (shapes_blanks_append hall cs).symm
            _ = shapes (blanks ++ '\n' :: (indent ++ cs)) := by simp

/-! ## Formatting respaces -/

/-- The parts of a line, of which formatting keeps the middle one. -/
theorem exists_formatLine (settings : EditorSettings) (line : List Char) :
    ∃ indent indent' body blanks, line = indent ++ (body ++ blanks) ∧
      formatLine settings line = indent' ++ body ∧ indent.all isIndent = true ∧
      indent'.all isIndent = true ∧ blanks.all isBlank = true := by
  obtain ⟨blanks, hline⟩ := exists_dissects settings line
  have hformat : formatLine settings line = if (content settings line).isEmpty then []
      else reindent settings (line.takeWhile isIndent) ++ content settings line := rfl
  by_cases hempty : (content settings line).isEmpty = true
  · rw [if_pos hempty] at hformat
    rw [List.isEmpty_iff] at hempty
    exact ⟨_, [], _, blanks, hline.parts, by rw [hformat, hempty]; rfl, hline.indent_all, rfl,
      hline.blanks_all⟩
  · rw [if_neg hempty] at hformat
    exact ⟨_, _, _, blanks, hline.parts, hformat, hline.indent_all,
      all_isIndent_reindent settings _, hline.blanks_all⟩

/-- Behind its first indentation, a text is respaced by formatting. -/
theorem exists_respaced (settings : EditorSettings) {lines : List (List Char)} (hne : lines ≠ []) :
    ∃ indent indent' cs cs', joinLines lines = indent ++ cs ∧
      joinLines (lines.map (formatLine settings)) = indent' ++ cs' ∧ indent.all isIndent = true ∧
      indent'.all isIndent = true ∧ Respaced cs cs' := by
  induction lines with
  | nil => exact absurd rfl hne
  | cons line lines ih =>
      obtain ⟨indent, indent', body, blanks, hline, hformat, hindent, hindent', hblanks⟩ :=
        exists_formatLine settings line
      cases lines with
      | nil =>
          refine ⟨indent, indent', body ++ blanks, body ++ [], hline, ?_, hindent, hindent',
            (Respaced.done hblanks).append_left body⟩
          rw [List.append_nil]
          exact hformat
      | cons next lines =>
          obtain ⟨inner, inner', cs, cs', hcs, hcs', hinner, hinner', h⟩ := ih (by simp)
          refine ⟨indent, indent', body ++ (blanks ++ '\n' :: (inner ++ cs)),
            body ++ '\n' :: (inner' ++ cs'), ?_, ?_, hindent, hindent',
            (Respaced.newline hblanks hinner hinner' h).append_left body⟩
          · calc joinLines (line :: next :: lines)
                = line ++ '\n' :: joinLines (next :: lines) := rfl
              _ = indent ++ (body ++ (blanks ++ '\n' :: (inner ++ cs))) := by
                rw [hcs, hline]
                simp
          · calc joinLines ((line :: next :: lines).map (formatLine settings))
                = formatLine settings line
                    ++ '\n' :: joinLines ((next :: lines).map (formatLine settings)) := rfl
              _ = indent' ++ (body ++ '\n' :: (inner' ++ cs')) := by
                rw [hcs', hformat, List.append_assoc]

theorem shapes_formatText (settings : EditorSettings) {text : List Char} (h : Regular text) :
    shapes (formatText settings text) = shapes text := by
  obtain ⟨indent, indent', cs, cs', hcs, hcs', hindent, hindent', hrespaced⟩ :=
    exists_respaced settings (splitLines_ne_nil text)
  rw [joinLines_splitLines] at hcs
  rw [← formatText] at hcs'
  rw [hcs] at h
  obtain ⟨-, hregular⟩ := h.blanks_append (all_isBlank_of_all_isIndent hindent)
  calc shapes (formatText settings text)
      = shapes cs' := by
        rw [hcs', shapes_blanks_append (all_isAsciiBlank_of_all_isIndent hindent')]
    _ = shapes cs := hrespaced.shapes_eq hregular
    _ = shapes text := by
        rw [hcs, shapes_blanks_append (all_isAsciiBlank_of_all_isIndent hindent)]

end Layout

/-- **Formatting never changes code.** If every string of a source is closed and has no line feed in
it, and no blank stands by itself as a token, the formatted source has the same significant tokens,
one by one. -/
theorem map_shape_format (settings : EditorSettings) (source : String)
    (hstring : ∀ t ∈ tokenize source, t.kind = .string →
      t.isTerminated = true ∧ '\n' ∉ t.text.toList)
    (hother : ∀ t ∈ tokenize source, t.kind = .other → ∀ c ∈ t.text.toList, isBlank c = false) :
    (tokenizeSignificant (format settings source)).map Token.shape
      = (tokenizeSignificant source).map Token.shape := by
  have hshapes : ∀ text, (tokenizeSignificant text).map Token.shape = shapes text.toList :=
    fun text => map_shape_significantTokens 0 text.toList
  have hregular : Layout.Regular source.toList := by
    intro shape hshape
    rw [← hshapes] at hshape
    obtain ⟨t, ht, rfl⟩ := List.mem_map.mp hshape
    have hmem : t ∈ tokenize source := List.mem_of_mem_filter ht
    refine ⟨fun hkind => ?_, hother t hmem⟩
    obtain ⟨hclosed, hline⟩ := hstring t hmem hkind
    rw [Token.isTerminated, show t.kind = .string from hkind] at hclosed
    exact ⟨hclosed, hline⟩
  rw [hshapes, hshapes, format, String.toList_ofList]
  exact Layout.shapes_formatText settings hregular

/-- A string with a comment's delimiter in it, a comment of two lines with blanks at the end of the
first one, and an argument list on the line behind its function. -/
theorem map_shape_format_lines :
    (tokenizeSignificant (format .standard
        "\t  s = \"// \\\" \" ; /* one \t\r\n\ttwo */ f \x0c\n      (0x1F)\t")).map Token.shape
      = [(.identifier, "s"), (.operator, "="), (.string, "\"// \\\" \""), (.operator, ";"),
          (.function, "f"), (.operator, "("), (.number, "0x1F"), (.operator, ")")] := by
  have hshapes := map_shape_format .standard
    "\t  s = \"// \\\" \" ; /* one \t\r\n\ttwo */ f \x0c\n      (0x1F)\t"
    (by decide +kernel) (by decide +kernel)
  exact hshapes.trans (by decide +kernel)

end SolidityTools

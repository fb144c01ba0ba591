import SolidityTools.Proofs.Layout.Respacing
import SolidityTools.Proofs.Position
import SolidityTools.Proofs.Token.Line
import SolidityTools.Proofs.Token.Place

set_option autoImplicit false

/-! # Formatting keeps every token on its line

Formatting moves tokens within their lines only. That their line numbers stay follows from the fact
that it keeps the tokens: a text is cut at a line feed, and formatting does so with the part in
front of it as with a text of its own. This part has as many significant tokens as begin in front of
the line feed in the whole text (`Regular.front`), although a word at its end may be classified
otherwise and a block comment may be cut in two. So on the first `n` lines there are as many tokens
as before, for each `n`, and since the lines of tokens ascend, that determines them.
-/

namespace SolidityTools

open Text

namespace Lexer

/-! ## Texts in front of a line feed -/

/-- No significant token begins in front of the text. -/
theorem countP_start_lt_eq_zero {offset place : Nat} (h : place ≤ offset) (cs : List Char) :
    (significantTokens (tokensFrom offset cs)).countP (fun t => t.start < place) = 0 := by
  rw [List.countP_eq_zero]
  intro t ht
  have hle := (reads_significantTokens offset cs).le_start ht
  simp only [decide_eq_true_eq]
  omega

end Lexer

namespace Layout

open Lexer

/-- What a text `A` has in common with a longer text `A ++ X` that stands at a byte offset: it is
regular, and it has as many significant tokens as begin there. -/
structure Front (offset : Nat) (A X : List Char) : Prop where
  regular : Regular A
  length_shapes : (shapes A).length
    = (significantTokens (tokensFrom offset (A ++ X))).countP
        fun t => t.start < offset + byteLength A

namespace Front

variable {offset : Nat} {c : Char} {w A X : List Char}

theorem nil (offset : Nat) (X : List Char) : Front offset [] X := by
  refine ⟨by simp [Regular], ?_⟩
  rw [countP_start_lt_eq_zero (by simp), shapes_nil, List.length_nil]

theorem blank (hc : isAsciiBlank c = true) (h : Front (offset + c.utf8Size) A X) :
    Front offset (c :: A) X := by
  refine ⟨?_, ?_⟩
  · rw [Regular, shapes_blank hc]
    exact h.regular
  · rw [shapes_blank hc, List.cons_append, significantTokens_blank offset hc, byteLength_cons,
      ← Nat.add_assoc]
    exact h.length_shapes

theorem comment (hc : isAsciiBlank c = false)
    (hlex : lexeme c (w ++ (A ++ X)) = (.comment, w.length))
    (hlex' : lexeme c (w ++ A) = (.comment, w.length))
    (h : Front (offset + byteLength (c :: w)) A X) : Front offset (c :: (w ++ A)) X := by
  refine ⟨?_, ?_⟩
  · rw [Regular, shapes_comment hc hlex']
    exact h.regular
  · rw [shapes_comment hc hlex', List.cons_append, List.append_assoc, tokensFrom_append hlex,
      significantTokens_comment rfl, ← List.cons_append, byteLength_append, ← Nat.add_assoc]
    exact h.length_shapes

/-- A comment that reaches to the end of the text or beyond it. -/
theorem comment_across {rest : List Char} (hc : isAsciiBlank c = false)
    (hlex : lexeme c (A ++ w ++ rest) = (.comment, (A ++ w).length))
    (hlex' : lexeme c A = (.comment, A.length)) : Front offset (c :: A) (w ++ rest) := by
  have hshapes : shapes (c :: A) = [] := by
    rw [← List.append_nil A] at hlex' ⊢
    rw [shapes_comment hc (by simpa using hlex'), shapes_nil]
  refine ⟨by simp [Regular, hshapes], ?_⟩
  rw [hshapes, List.cons_append, ← List.append_assoc, tokensFrom_append hlex,
    significantTokens_comment rfl, countP_start_lt_eq_zero]
  · rfl
  · rw [← List.cons_append, byteLength_append]
    omega

/-- A significant token in front of the text; its kind may depend on what follows. -/
theorem token {kind kind' : TokenKind} (hc : isAsciiBlank c = false) (hk : kind ≠ .comment)
    (hregular : Regular (c :: (w ++ (A ++ X))))
    (hlex : lexeme c (w ++ (A ++ X)) = (kind, w.length))
    (hlex' : lexeme c (w ++ A) = (kind', w.length))
    (hkind : kind' = kind ∨ ∃ behind, kind' = wordKind (c :: w) behind)
    (h : Front (offset + byteLength (c :: w)) A X) : Front offset (c :: (w ++ A)) X := by
  have hcases : kind' = kind ∨ kind' ≠ .comment ∧ kind' ≠ .string ∧ kind' ≠ .other := by
    rcases hkind with hkind | ⟨behind, rfl⟩
    · exact Or.inl hkind
    · rcases wordKind_cases (c :: w) behind with hword | hword | hword | hword <;> simp [hword]
  have hk' : kind' ≠ .comment := by
    rcases hcases with rfl | ⟨hcomment, -⟩
    · exact hk
    · exact hcomment
  have hspace : kind ≠ .whitespace := by
    have hspace := lexeme_ne_whitespace hc (w ++ (A ++ X))
    rwa [hlex] at hspace
  refine ⟨?_, ?_⟩
  · rw [Regular, shapes_token hc hk' hlex', List.forall_mem_cons]
    refine ⟨?_, h.regular⟩
    rcases hcases with rfl | ⟨-, hstring, hother⟩
    · exact hregular _ (by rw [shapes_token hc hk hlex]; exact List.mem_cons_self)
    · exact ⟨fun h => absurd h hstring, fun h => absurd h hother⟩
  · have hstart : offset < offset + byteLength (c :: (w ++ A)) := by
      have hpos := byteLength_pos (List.cons_ne_nil c (w ++ A))
      omega
    have hsignificant : ∀ ts, significantTokens (⟨kind, String.ofList (c :: w), offset⟩ :: ts)
        = ⟨kind, String.ofList (c :: w), offset⟩ :: significantTokens ts :=
      fun ts => List.filter_cons_of_pos (by simp [Token.isTrivia, hk, hspace])
    rw [shapes_token hc hk' hlex', List.length_cons, h.length_shapes, List.cons_append,
      List.append_assoc, tokensFrom_append hlex, hsignificant,
      List.countP_cons_of_pos (by simpa using hstart), ← List.cons_append, byteLength_append,
      ← Nat.add_assoc]

end Front

/-- **In front of a line feed** a regular text has the tokens that begin there. The induction is on
the length of the text, since a comment and a token take more than one character. -/
theorem Regular.front {A B : List Char} (h : Regular (A ++ '\n' :: B)) (offset : Nat) :
    Front offset A ('\n' :: B) := by
  induction hn : A.length using Nat.strongRecOn generalizing A offset with
  | _ n ih =>
      cases A with
      | nil => exact .nil offset _
      | cons c A =>
          rw [List.length_cons] at hn
          rw [List.cons_append] at h
          by_cases hc : isAsciiBlank c = true
          · exact .blank hc (ih A.length (by omega) (h.of_blank hc) _ rfl)
          · rw [Bool.not_eq_true] at hc
            obtain ⟨kind, w, rest, hA, hlex⟩ := exists_lexeme c (A ++ '\n' :: B)
            by_cases hk : kind = .comment
            · subst hk
              have hcomment := commentLength?_of_lexeme hlex
              rw [← hA] at hcomment
              have hfront := (Scanned.comment (commentLength?_front hcomment)).lexeme_eq
              rcases List.append_eq_append_iff.mp hA with ⟨m, rfl, hB⟩ | ⟨A', rfl, rfl⟩
              · rw [List.length_append, Nat.min_eq_right (by omega)] at hfront
                rw [hB]
                exact .comment_across hc hlex hfront
              · rw [List.length_append, Nat.min_eq_left (by omega)] at hfront
                rw [hA, Regular, shapes_comment hc hlex] at h
                rw [List.length_append] at hn
                exact .comment hc hlex hfront (ih A'.length (by omega) h _ rfl)
            · rw [hA] at h
              obtain ⟨hline, -⟩ := h.ends_solid hc hk hlex
              -- the token has no line feed, so it ends in front of the one at which the text is cut
              obtain ⟨A', rfl, rfl⟩ : ∃ A', A = w ++ A' ∧ rest = A' ++ '\n' :: B := by
                rcases List.append_eq_append_iff.mp hA with ⟨m, rfl, hB⟩ | ⟨A', rfl, rfl⟩
                · cases m with
                  | nil => exact ⟨[], by simp, hB.symm⟩
                  | cons d m =>
                      obtain ⟨rfl, -⟩ := List.cons.inj hB
                      exact absurd (by simp) hline
                · exact ⟨A', rfl, rfl⟩
              have hparts : Parts (A' ++ '\n' :: B) A' := by
                have hend : Parts ('\n' :: B) [] := .here (by simp) (by simp; decide) (by simp)
                simpa using hend.append_left A'
              obtain ⟨kind', hlex', hkind⟩ := hparts.exists_lexeme hc hk hlex
              have hrest : Regular (A' ++ '\n' :: B) := by
                rw [Regular, shapes_token hc hk hlex, List.forall_mem_cons] at h
                exact h.2
              rw [List.length_append] at hn
              refine .token hc hk h hlex hlex' ?_ (ih A'.length (by omega) hrest _ rfl)
              exact hkind.imp And.left fun hword => ⟨_, hword.2⟩

/-! ## Lines of tokens -/

def lineOf (cs : List Char) (t : Token) : Nat := (Position.after (takeBytes t.start cs)).line

def tokensOf (cs : List Char) : List Token := significantTokens (tokensFrom 0 cs)

theorem lineOf_eq {P S : List Char} {t : Token} (ht : t.start = byteLength P) :
    lineOf (P ++ S) t = 1 + P.count '\n' := by
  rw [lineOf, ht, takeBytes_byteLength_append, Position.after, Position.line_past]
  rfl

/-- Where a token of a text begins. -/
theorem exists_of_mem_tokensOf {cs : List Char} {t : Token} (ht : t ∈ tokensOf cs) :
    ∃ P c S, cs = P ++ c :: S ∧ c ≠ '\n' ∧ t.start = byteLength P := by
  have hreads := reads_significantTokens 0 cs
  obtain ⟨P, S, hcs, hstart⟩ := hreads.exists_append ht
  obtain ⟨c, w, -, htext, hc, -⟩ := hreads.exists_lexeme ht
  refine ⟨P, c, w ++ S, by rw [hcs, htext, List.cons_append], ?_, by rw [hstart, Nat.zero_add]⟩
  rintro rfl
  cases hc

/-- The tokens in front of a line feed are those on the lines in front of it. -/
theorem lineOf_le_iff {A B : List Char} {t : Token} (ht : t ∈ tokensOf (A ++ '\n' :: B)) :
    lineOf (A ++ '\n' :: B) t ≤ 1 + A.count '\n' ↔ t.start < byteLength A := by
  obtain ⟨P, c, S, hcs, hc, hstart⟩ := exists_of_mem_tokensOf ht
  rw [hcs, lineOf_eq hstart, hstart]
  rcases Nat.lt_or_ge (byteLength P) (byteLength A) with hlt | hge
  · obtain ⟨m, rfl, -⟩ := exists_append_of_byteLength_le hcs.symm hlt.le
    rw [List.count_append]
    exact iff_of_true (by omega) hlt
  · obtain ⟨m, rfl, hm⟩ := exists_append_of_byteLength_le hcs hge
    cases m with
    | nil => exact absurd (List.cons.inj hm).1.symm hc
    | cons d m =>
        obtain ⟨rfl, -⟩ := List.cons.inj hm
        rw [List.count_append, List.count_cons_self]
        exact iff_of_false (by omega) (by omega)

theorem lineOf_le_lineOf {cs : List Char} {t u : Token} (ht : t ∈ tokensOf cs)
    (hu : u ∈ tokensOf cs) (h : t.start ≤ u.start) : lineOf cs t ≤ lineOf cs u := by
  obtain ⟨P, c, S, hcs, -, hstart⟩ := exists_of_mem_tokensOf ht
  obtain ⟨P', c', S', hcs', -, hstart'⟩ := exists_of_mem_tokensOf hu
  obtain ⟨m, rfl, -⟩ := exists_append_of_byteLength_le (hcs.symm.trans hcs') (by omega)
  conv => lhs; rw [hcs, lineOf_eq hstart]
  rw [hcs', lineOf_eq hstart', List.count_append]
  omega

/-- The lines of the tokens ascend. -/
theorem pairwise_lineOf (cs : List Char) : ((tokensOf cs).map (lineOf cs)).Pairwise (· ≤ ·) := by
  have hordered := (reads_significantTokens 0 cs).ordered
  rw [List.pairwise_map]
  refine hordered.pairwise.imp_of_mem fun {t u} ht hu hle => lineOf_le_lineOf ht hu ?_
  have hpos := hordered.start_lt_stop t ht
  omega

/-- A text is cut at its line feeds. -/
theorem exists_cut {cs : List Char} {n : Nat} (hn : n < cs.count '\n') :
    ∃ A B, cs = A ++ '\n' :: B ∧ A.count '\n' = n := by
  induction cs generalizing n with
  | nil => cases hn
  | cons c cs ih =>
      by_cases hc : c = '\n'
      · subst hc
        cases n with
        | zero => exact ⟨[], cs, rfl, rfl⟩
        | succ n =>
            rw [List.count_cons_self] at hn
            obtain ⟨A, B, rfl, hA⟩ := ih (by omega : n < cs.count '\n')
            exact ⟨'\n' :: A, B, rfl, by rw [List.count_cons_self, hA]⟩
      · rw [List.count_cons_of_ne hc] at hn
        obtain ⟨A, B, rfl, hA⟩ := ih hn
        exact ⟨c :: A, B, rfl, by rw [List.count_cons_of_ne hc, hA]⟩

/-! ## The lines of a formatted text -/

variable {settings : EditorSettings}

theorem count_newline_formatText (text : List Char) :
    (formatText settings text).count '\n' = text.count '\n' := by
  have hlength := length_splitLines (formatText settings text)
  rw [splitLines_formatText, List.length_map, length_splitLines] at hlength
  omega

theorem Regular.formatText {text : List Char} (h : Regular text) :
    Regular (formatText settings text) := by
  rw [Regular, shapes_formatText settings h]
  exact h

theorem length_tokensOf (cs : List Char) : (tokensOf cs).length = (shapes cs).length := by
  rw [← map_shape_significantTokens 0, List.length_map, tokensOf]

/-- The number of tokens on the lines in front of a line feed. -/
theorem countP_lineOf_le {A B : List Char} (h : Regular (A ++ '\n' :: B)) :
    (tokensOf (A ++ '\n' :: B)).countP (fun t => lineOf (A ++ '\n' :: B) t ≤ 1 + A.count '\n')
      = (shapes A).length := by
  rw [(h.front 0).length_shapes, Nat.zero_add]
  exact List.countP_congr fun t ht => by simpa using lineOf_le_iff ht

/-- On the first lines of a text there are as many tokens as on those of the formatted text. -/
theorem countP_lineOf_formatText {text : List Char} (h : Regular text) (n : Nat) :
    (tokensOf (formatText settings text)).countP
        (fun t => lineOf (formatText settings text) t ≤ n)
      = (tokensOf text).countP fun t => lineOf text t ≤ n := by
  have hone : ∀ cs : List Char, ∀ t ∈ tokensOf cs,
      1 ≤ lineOf cs t ∧ lineOf cs t ≤ 1 + cs.count '\n' := by
    intro cs t ht
    obtain ⟨P, c, S, hcs, -, hstart⟩ := exists_of_mem_tokensOf ht
    rw [hcs, lineOf_eq hstart, List.count_append]
    omega
  cases n with
  | zero =>
      have hzero : ∀ cs, (tokensOf cs).countP (fun t => lineOf cs t ≤ 0) = 0 := by
        intro cs
        refine List.countP_eq_zero.mpr fun t ht => ?_
        have := hone cs t ht
        simp only [decide_eq_true_eq]
        omega
      rw [hzero, hzero]
  | succ n =>
      rcases Nat.lt_or_ge n (text.count '\n') with hlt | hge
      · obtain ⟨A, B, rfl, hA⟩ := exists_cut hlt
        have hcount := @countP_lineOf_le (formatText settings A) (formatText settings B)
        rw [← formatText_append_newline, count_newline_formatText] at hcount
        have hA' := (h.front 0).regular
        rw [Nat.add_comm n 1, ← hA, hcount h.formatText, countP_lineOf_le h,
          shapes_formatText settings hA']
      · -- there are no more lines
        have hall : ∀ cs : List Char, cs.count '\n' ≤ n →
            (tokensOf cs).countP (fun t => lineOf cs t ≤ n + 1) = (shapes cs).length := by
          intro cs hcs
          rw [← length_tokensOf]
          refine List.countP_eq_length.mpr fun t ht => ?_
          have := hone cs t ht
          simp only [decide_eq_true_eq]
          omega
        rw [hall _ hge, hall _ (by rwa [count_newline_formatText]), shapes_formatText settings h]

/-- Numbers in ascending order are known by how many of them are at most `n`, for each `n`. -/
theorem eq_of_countP_le_eq {xs ys : List Nat} (hxs : xs.Pairwise (· ≤ ·))
    (hys : ys.Pairwise (· ≤ ·)) (h : ∀ n, xs.countP (· ≤ n) = ys.countP (· ≤ n)) : xs = ys := by
  -- the first number of the one is not below that of the other, since it would be missing there
  have hfirst : ∀ {x y : Nat} {xs ys : List Nat}, (y :: ys).Pairwise (· ≤ ·) →
      (∀ n, (x :: xs).countP (· ≤ n) = (y :: ys).countP (· ≤ n)) → y ≤ x := by
    intro x y xs ys hys h
    by_contra hlt
    have hnone : (y :: ys).countP (· ≤ x) = 0 := by
      refine List.countP_eq_zero.mpr fun z hz => ?_
      have hle : y ≤ z := by
        rcases List.mem_cons.mp hz with rfl | hz
        · exact Nat.le_refl z
        · exact (List.pairwise_cons.mp hys).1 z hz
      simp only [decide_eq_true_eq]
      omega
    have hx := h x
    rw [hnone, List.countP_cons_of_pos (by simp)] at hx
    exact Nat.succ_ne_zero _ hx
  induction xs generalizing ys with
  | nil =>
      cases ys with
      | nil => rfl
      | cons y ys =>
          have hy := h y
          rw [List.countP_nil, List.countP_cons_of_pos (by simp)] at hy
          exact absurd hy.symm (Nat.succ_ne_zero _)
  | cons x xs ih =>
      cases ys with
      | nil =>
          have hx := h x
          rw [List.countP_nil, List.countP_cons_of_pos (by simp)] at hx
          exact absurd hx (Nat.succ_ne_zero _)
      | cons y ys =>
          obtain rfl : x = y := Nat.le_antisymm (hfirst hxs fun n => (h n).symm) (hfirst hys h)
          have hrest : ∀ n, xs.countP (· ≤ n) = ys.countP (· ≤ n) := by
            intro n
            have hn := h n
            rw [List.countP_cons, List.countP_cons] at hn
            omega
          rw [ih hxs.of_cons hys.of_cons hrest]

theorem map_lineOf_formatText {text : List Char} (h : Regular text) :
    (tokensOf (formatText settings text)).map (lineOf (formatText settings text))
      = (tokensOf text).map (lineOf text) := by
  refine eq_of_countP_le_eq (pairwise_lineOf _) (pairwise_lineOf _) fun n => ?_
  rw [List.countP_map, List.countP_map]
  exact countP_lineOf_formatText h n

/-- The significant tokens of a text without their offsets, each with its line. -/
def rowsOf (cs : List Char) : List ((TokenKind × String) × Nat) :=
  (tokensOf cs).map fun t => (t.shape, lineOf cs t)

theorem rowsOf_eq_zip (cs : List Char) :
    rowsOf cs = (shapes cs).zip ((tokensOf cs).map (lineOf cs)) := by
  rw [rowsOf, ← map_shape_significantTokens 0, ← tokensOf, List.zip_map']

/-- **Formatting keeps the significant tokens of a regular text and their lines.** -/
theorem rowsOf_formatText {text : List Char} (h : Regular text) :
    rowsOf (formatText settings text) = rowsOf text := by
  rw [rowsOf_eq_zip, rowsOf_eq_zip, shapes_formatText settings h, map_lineOf_formatText h]

theorem regular_of_tokenize {source : String}
    (hstring : ∀ t ∈ tokenize source, t.kind = .string →
      t.isTerminated = true ∧ '\n' ∉ t.text.toList)
    (hother : ∀ t ∈ tokenize source, t.kind = .other → ∀ c ∈ t.text.toList, isBlank c = false) :
    Regular source.toList := by
  intro shape hshape
  rw [← map_shape_significantTokens 0] at hshape
  obtain ⟨t, ht, rfl⟩ := List.mem_map.mp hshape
  have hmem : t ∈ tokenize source := List.mem_of_mem_filter ht
  refine ⟨fun hkind => ?_, hother t hmem⟩
  obtain ⟨hclosed, hline⟩ := hstring t hmem hkind
  rw [Token.isTerminated, show t.kind = .string from hkind] at hclosed
  exact ⟨hclosed, hline⟩

end Layout

end SolidityTools

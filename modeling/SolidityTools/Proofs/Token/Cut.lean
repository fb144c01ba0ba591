import SolidityTools.Proofs.Token.Blank
import SolidityTools.Proofs.Token.Comment
import SolidityTools.Proofs.Token.Place
import SolidityTools.Proofs.Token.Unclosed

set_option autoImplicit false

/-! # Cutting a text between tokens

An edit replaces a piece of a text, and the tokens in front of the piece should stay what they
are. `Reads.cut` says when they do. The piece is found through a token `t` that stands in it: the
text is cut at `t`, or at the beginning of the line of `t` if nothing but blanks stands between
the two. Then no token and no comment lies across the cut: what stands in front of it is a sequence
of gaps and tokens (`Reads.exists_front`). So the tokens in front of the cut are read off as before
whatever stands behind it, as long as the two texts are alike at the place where they begin to
differ and no word ends there. The comments in front of it do not even depend on that
(`Front.exists_comments`).
-/

namespace SolidityTools

open Text

namespace Lexer

/-! ## Tokens with a line feed -/

/-- A significant token with a line feed in it is a closed string, unless the text ends with it. -/
theorem getLast?_of_newline_mem {c : Char} {w : List Char} {d : Char} {Y : List Char}
    {kind : TokenKind} (hc : isAsciiBlank c = false) (hk : kind ≠ .comment)
    (hlex : lexeme c (w ++ d :: Y) = (kind, w.length)) (hmem : '\n' ∈ w) :
    w.getLast? = some c ∧ (c = '"' ∨ c = '\'') := by
  -- every other token would end in front of the line feed
  have hkind : kind = .string := by
    by_contra hne
    have hnewline := isBlank_eq_false_of_mem hlex hc hk hne hmem
    revert hnewline
    decide
  subst hkind
  refine ⟨?_, (stringLength_of_lexeme hlex).1⟩
  rcases string_of_lexeme hlex with ⟨inner, -, rfl⟩ | ⟨-, hrest⟩
  · exact List.getLast?_concat
  · cases hrest

/-! ## The cut -/

/-- A token that ends at a place is the end of the text in front of it. -/
theorem Reads.exists_append_of_stop_eq {offset : Nat} {A X : List Char} {ts : List Token}
    {t : Token} (h : Reads offset (A ++ X) ts) (ht : t ∈ ts)
    (hstop : t.stop = offset + byteLength A) :
    ∃ P, A = P ++ t.text.toList ∧ t.start = offset + byteLength P := by
  obtain ⟨P, S, hcs, hstart⟩ := h.exists_append ht
  rw [← List.append_assoc] at hcs
  refine ⟨P, eq_of_byteLength_eq hcs ?_, hstart⟩
  rw [Token.stop, hstart] at hstop
  rw [byteLength_append]
  omega

theorem Reads.getLast?_of_isWord {offset : Nat} {A X : List Char} {ts : List Token} {t : Token}
    (h : Reads offset (A ++ X) ts) (ht : t ∈ ts) (hword : t.isWord = true)
    (hstop : t.stop = offset + byteLength A) : ∃ e, A.getLast? = some e ∧ isWordPart e = true := by
  obtain ⟨P, hA, -⟩ := h.exists_append_of_stop_eq ht hstop
  obtain ⟨c, w, rest, htext, -, hlex⟩ := h.exists_lexeme ht
  have hc := isWordStart_of_isWord hword hlex
  have hw := (runLength_of_lexeme hc hlex).1
  rw [hA, htext, List.getLast?_append_of_ne_nil _ (List.cons_ne_nil c w)]
  refine ⟨(c :: w).getLast (List.cons_ne_nil c w), List.getLast?_eq_some_getLast _, ?_⟩
  have hall : (c :: w).all isWordPart = true := by
    rw [List.all_cons, isWordPart_of_isWordStart hc, hw]
    rfl
  exact List.all_eq_true.mp hall _ (List.getLast_mem _)

theorem Reads.all_isBlank_of_stop_le {offset : Nat} {before Y : List Char} {ts : List Token}
    {t : Token} (h : Reads offset (before ++ Y) ts) (ht : t ∈ ts)
    (hblank : before.all isBlank = true) (hstop : t.stop ≤ offset + byteLength before) :
    t.text.toList.all isBlank = true := by
  obtain ⟨P, S, hcs, hstart⟩ := h.exists_append ht
  have hle : byteLength (P ++ t.text.toList) ≤ byteLength before := by
    rw [Token.stop, hstart] at hstop
    rw [byteLength_append]
    omega
  rw [← List.append_assoc] at hcs
  obtain ⟨m, rfl, -⟩ := exists_append_of_byteLength_le hcs.symm hle
  rw [List.all_append, List.all_append, Bool.and_eq_true, Bool.and_eq_true] at hblank
  exact hblank.1.2

/-- A significant token stays what it is, whether or not it ends directly in front of the change. -/
theorem lexeme_of_alike {c : Char} {w V : List Char} {d : Char} {Z : List Char} {d' : Char}
    {Z' : List Char} {kind : TokenKind} (hc : isAsciiBlank c = false) (hk : kind ≠ .comment)
    (hlex : lexeme c (w ++ (V ++ d :: Z)) = (kind, w.length)) (halike : Alike d Z d' Z')
    (hglue : V = [] → isWordPart d' = true → isWordStart c = false) :
    lexeme c (w ++ (V ++ d' :: Z')) = (kind, w.length) := by
  rw [← List.append_assoc] at hlex ⊢
  apply lexeme_append_congr halike hc hk hlex (by simp)
  intro hstart hall
  -- a word that runs up to the change has ended before it already
  by_contra hpart
  rw [Bool.not_eq_false] at hpart
  rw [List.append_assoc] at hlex
  have hrun := (runLength_of_lexeme hstart hlex).2
  rw [List.all_append, Bool.and_eq_true] at hall
  cases V with
  | nil =>
      rw [hglue rfl hpart] at hstart
      cases hstart
  | cons e V =>
      rw [List.all_cons, Bool.and_eq_true] at hall
      simp [runLength, hall.2.1] at hrun

/-- A token that goes on behind a line feed does not end with a blank. -/
theorem isBlank_eq_false_of_newline_mem {c : Char} {m z X : List Char} {kind : TokenKind}
    (hc : isAsciiBlank c = false) (hk : kind ≠ .comment) (hX : X ≠ []) (hz : z ≠ [])
    (hlex : lexeme c (m ++ z ++ X) = (kind, (m ++ z).length))
    (hm : (c :: m).getLast? = some '\n') : z.all isBlank = false := by
  obtain ⟨d, Y, rfl⟩ := List.exists_cons_of_ne_nil hX
  have hmem : '\n' ∈ m ++ z := by
    rcases List.mem_cons.mp (List.mem_of_getLast? hm) with rfl | hmem
    · cases hc
    · exact List.mem_append_left _ hmem
  obtain ⟨hlast, hquote⟩ := getLast?_of_newline_mem hc hk hlex hmem
  rw [List.getLast?_append_of_ne_nil _ hz] at hlast
  rw [List.all_eq_false]
  refine ⟨c, List.mem_of_getLast? hlast, ?_⟩
  rcases hquote with rfl | rfl <;> decide

/-- The beginning `A` of a text, behind which `Y` follows: gaps and significant tokens in turn, with
a gap at the end. -/
inductive Front : Nat → List Char → List Char → List Token → Prop
  | gap {offset : Nat} {A Y : List Char} (h : Gap A) : Front offset A Y []
  | token {offset : Nat} {gap w A Y : List Char} {c : Char} {kind : TokenKind} {ts : List Token}
      (hgap : Gap gap) (hc : isAsciiBlank c = false) (hk : kind ≠ .comment)
      (hlex : lexeme c (w ++ (A ++ Y)) = (kind, w.length))
      (h : Front (offset + byteLength gap + byteLength (c :: w)) A Y ts) :
      Front offset (gap ++ c :: (w ++ A)) Y
        (⟨kind, String.ofList (c :: w), offset + byteLength gap⟩ :: ts)

/-- A reading that is cut at a place between two tokens: behind the text `A`, where `Y` begins. The
tokens in front of the cut are read off from a text that has changed from a place behind the cut
on. -/
structure Cut (place : Nat) (A Y : List Char) (ts₁ ts₂ : List Token) : Prop where
  stop_le : ∀ t ∈ ts₁, t.stop ≤ place
  reads : Reads place Y ts₂
  shapes_eq : ∀ M d Z d' Z', Y = M ++ d :: Z → Alike d Z d' Z' →
    (M = [] → isWordPart d' = true → ∀ t ∈ ts₁, t.isWord = true → t.stop ≠ place) →
    shapes (A ++ (M ++ d' :: Z')) = ts₁.map Token.shape ++ shapes (M ++ d' :: Z')

section Steps

variable {offset place : Nat} {A before Y gap w rest : List Char} {c : Char} {kind : TokenKind}
  {ts ts₁ ts₂ : List Token} {t : Token}

/-- A cut in the gap in front of the first token. -/
theorem Reads.front_of_gap (hgap : Gap gap) (hc : isAsciiBlank c = false) (hk : kind ≠ .comment)
    (hlex : lexeme c (w ++ rest) = (kind, w.length))
    (h : Reads (offset + byteLength gap + byteLength (c :: w)) rest ts)
    (hcs : gap ++ c :: (w ++ rest) = A ++ (before ++ Y)) (hin : byteLength A ≤ byteLength gap)
    (hbefore : byteLength gap ≤ byteLength A + byteLength before)
    (hblank : before.all isBlank = true) (hline : '\n' ∉ before) :
    Front offset A (before ++ Y) [] ∧ Reads (offset + byteLength A) (before ++ Y)
      (⟨kind, String.ofList (c :: w), offset + byteLength gap⟩ :: ts) := by
  obtain ⟨m, rfl, hm⟩ := exists_append_of_byteLength_le hcs.symm hin
  have hle : byteLength m ≤ byteLength before := by
    rw [byteLength_append] at hbefore
    omega
  obtain ⟨m', rfl, -⟩ := exists_append_of_byteLength_le hm.symm hle
  rw [List.all_append, Bool.and_eq_true] at hblank
  obtain ⟨hA, hall⟩ := hgap.of_append rfl hblank.1 fun hmem =>
    hline (List.mem_append_left _ hmem)
  have hoffset : offset + byteLength (A ++ m) = offset + byteLength A + byteLength m := by
    rw [byteLength_append, Nat.add_assoc]
  refine ⟨.gap hA, ?_⟩
  rw [hm, hoffset]
  exact Reads.token (gap_of_all_isAsciiBlank hall) hc hk hlex (by rwa [← hoffset])

/-- A token in front of the cut stays what it is. -/
theorem Cut.cons (hgap : Gap gap) (hc : isAsciiBlank c = false) (hk : kind ≠ .comment)
    (hlex : lexeme c (w ++ (A ++ Y)) = (kind, w.length))
    (hplace : place = offset + byteLength (gap ++ c :: (w ++ A)))
    (h : Cut place A Y ts₁ ts₂) :
    Cut place (gap ++ c :: (w ++ A)) Y
      (⟨kind, String.ofList (c :: w), offset + byteLength gap⟩ :: ts₁) ts₂ := by
  obtain ⟨hstop, hreads, hshapes⟩ := h
  have hplace' : place = offset + byteLength gap + byteLength (c :: w) + byteLength A := by
    rw [hplace, byteLength_append, ← List.cons_append, byteLength_append]
    omega
  refine ⟨fun t ht => ?_, hreads, fun M d Z d' Z' hM halike hglue => ?_⟩
  · rcases List.mem_cons.mp ht with rfl | ht
    · simp only [Token.stop, String.toList_ofList]
      omega
    · exact hstop t ht
  · have hlex' : lexeme c (w ++ (A ++ (M ++ d' :: Z'))) = (kind, w.length) := by
      rw [← List.append_assoc A]
      refine @lexeme_of_alike c w (A ++ M) d Z d' Z' kind hc hk ?_ halike fun hnil hpart => ?_
      · rw [← hlex, hM, List.append_assoc]
      · -- the token ends at the change, where no word may end
        obtain ⟨rfl, rfl⟩ := List.append_eq_nil_iff.mp hnil
        by_contra hstart
        rw [Bool.not_eq_false] at hstart
        refine hglue rfl hpart _ List.mem_cons_self (isWord_of_lexeme hstart hlex) ?_
        simp only [Token.stop, String.toList_ofList]
        simpa using hplace'.symm
    have htail := hshapes M d Z d' Z' hM halike fun hnil hpart t ht =>
      hglue hnil hpart t (List.mem_cons_of_mem _ ht)
    calc shapes (gap ++ c :: (w ++ A) ++ (M ++ d' :: Z'))
        = shapes (gap ++ c :: (w ++ (A ++ (M ++ d' :: Z')))) := by
          rw [List.append_assoc, List.cons_append, List.append_assoc]
      _ = (kind, String.ofList (c :: w)) :: shapes (A ++ (M ++ d' :: Z')) := by
          rw [shapes_gap_append hgap, shapes_token hc hk hlex']
      _ = _ := by
          rw [htail]
          rfl

/-- No cut lies in a token: the token would end with a blank, on the line of the cut. -/
theorem byteLength_le_of_cut {m : List Char} (hc : isAsciiBlank c = false) (hk : kind ≠ .comment)
    (hlex : lexeme c (w ++ rest) = (kind, w.length)) (hrest : rest ≠ [])
    (hw : w ++ rest = m ++ (before ++ Y)) (hle : byteLength w ≤ byteLength m + byteLength before)
    (hblank : before.all isBlank = true)
    (hcut : before = [] ∨ (c :: m).getLast? = some '\n') : byteLength w ≤ byteLength m := by
  -- `z` is the part of the token behind the cut, and it is blank
  by_contra hinside
  rw [not_le] at hinside
  obtain ⟨z, rfl, hz⟩ := exists_append_of_byteLength_le hw.symm hinside.le
  have hne : z ≠ [] := by
    rintro rfl
    simp at hinside
  have hle' : byteLength z ≤ byteLength before := by
    rw [byteLength_append] at hle
    omega
  obtain ⟨m', rfl, -⟩ := exists_append_of_byteLength_le hz.symm hle'
  rcases hcut with hcut | hcut
  · exact hne (List.append_eq_nil_iff.mp hcut).1
  · rw [List.all_append, isBlank_eq_false_of_newline_mem hc hk hrest hne hlex hcut] at hblank
    cases hblank

/-- In front of the token `t`, and in front of the blanks `before` that `t` has on its line, stand
gaps and tokens. -/
theorem Reads.exists_front {cs : List Char} (h : Reads offset cs ts) (hcs : cs = A ++ (before ++ Y))
    (ht : t ∈ ts) (hstart : t.start = offset + byteLength A + byteLength before)
    (hblank : before.all isBlank = true) (hline : '\n' ∉ before)
    (hcut : before = [] ∨ A = [] ∨ A.getLast? = some '\n') :
    ∃ ts₁ ts₂, ts = ts₁ ++ ts₂ ∧ Front offset A (before ++ Y) ts₁ ∧
      Reads (offset + byteLength A) (before ++ Y) ts₂ := by
  -- the induction is on the tokens in front of the cut
  induction h generalizing A with
  | done => cases ht
  | @token offset gap c w rest kind ts hgap hc hk hlex h ih =>
      by_cases hin : byteLength A ≤ byteLength gap
      · -- the cut lies in the first gap
        have hge : offset + byteLength gap ≤ t.start := by
          rcases List.mem_cons.mp ht with rfl | ht
          · exact le_rfl
          · have := h.le_start ht
            omega
        exact ⟨[], _, rfl, Reads.front_of_gap hgap hc hk hlex h hcs hin (by omega) hblank hline⟩
      · -- the first token begins in front of the cut, so it ends there, too
        rw [not_le] at hin
        obtain ⟨m, rfl, hm⟩ := exists_append_of_byteLength_le hcs hin.le
        have hts : t ∈ ts := by
          rcases List.mem_cons.mp ht with rfl | ht
          · simp only at hstart
            omega
          · exact ht
        have hge := h.le_start hts
        cases m with
        | nil => simp at hin
        | cons e m =>
            rw [List.cons_append] at hm
            obtain ⟨rfl, hw⟩ := List.cons.inj hm
            have hrest : rest ≠ [] := by
              rintro rfl
              obtain ⟨P, S, hP, -⟩ := h.exists_append hts
              obtain ⟨e, v, -, htext, -⟩ := h.exists_lexeme hts
              simp [htext] at hP
            have hlast : before = [] ∨ (c :: m).getLast? = some '\n' := by
              rcases hcut with hcut | hcut | hcut
              · exact Or.inl hcut
              · simp at hcut
              · rw [List.getLast?_append_of_ne_nil _ (List.cons_ne_nil _ _)] at hcut
                exact Or.inr hcut
            have hinside : byteLength w ≤ byteLength m := by
              refine byteLength_le_of_cut hc hk hlex hrest hw ?_ hblank hlast
              rw [hstart] at hge
              simp only [byteLength_append, byteLength_cons] at hge
              omega
            obtain ⟨A', rfl, hrest⟩ := exists_append_of_byteLength_le hw hinside
            have hplace : offset + byteLength gap + byteLength (c :: w) + byteLength A'
                = offset + byteLength (gap ++ c :: (w ++ A')) := by
              simp only [byteLength_append, byteLength_cons]
              omega
            have hcut' : before = [] ∨ A' = [] ∨ A'.getLast? = some '\n' := by
              cases A' with
              | nil => exact Or.inr (Or.inl rfl)
              | cons e A' =>
                  refine hlast.imp_right fun hlast => Or.inr ?_
                  rwa [← List.cons_append,
                    List.getLast?_append_of_ne_nil _ (List.cons_ne_nil _ _)] at hlast
            obtain ⟨ts₁, ts₂, rfl, hfront, hreads⟩ := ih hrest hts (by rw [hplace, hstart]) hcut'
            rw [hrest] at hlex
            rw [hplace] at hreads
            exact ⟨_ :: ts₁, ts₂, rfl, .token hgap hc hk hlex hfront, hreads⟩

/-- Between gaps and tokens and what is read behind them lies a cut. -/
theorem Front.cut (h : Front offset A Y ts₁) (hreads : Reads (offset + byteLength A) Y ts₂) :
    Cut (offset + byteLength A) A Y ts₁ ts₂ := by
  induction h with
  | gap hgap =>
      refine ⟨by simp, hreads, fun M d Z d' Z' _ _ _ => ?_⟩
      rw [shapes_gap_append hgap]
      rfl
  | @token offset gap w A Y c kind ts hgap hc hk hlex h ih =>
      have hplace : offset + byteLength gap + byteLength (c :: w) + byteLength A
          = offset + byteLength (gap ++ c :: (w ++ A)) := by
        simp only [byteLength_append, byteLength_cons]
        omega
      rw [← hplace] at hreads
      have hcut := ih hreads
      rw [hplace] at hcut
      exact hcut.cons hgap hc hk hlex rfl

/-- **Cutting a reading.** A text can be cut in front of the token `t`, and in front of the blanks
`before` that `t` has on its line. -/
theorem Reads.cut {cs : List Char} (h : Reads offset cs ts) (hcs : cs = A ++ (before ++ Y))
    (ht : t ∈ ts) (hstart : t.start = offset + byteLength A + byteLength before)
    (hblank : before.all isBlank = true) (hline : '\n' ∉ before)
    (hcut : before = [] ∨ A = [] ∨ A.getLast? = some '\n') :
    ∃ ts₁ ts₂, ts = ts₁ ++ ts₂ ∧ Cut (offset + byteLength A) A (before ++ Y) ts₁ ts₂ := by
  obtain ⟨ts₁, ts₂, hts, hfront, hreads⟩ := h.exists_front hcs ht hstart hblank hline hcut
  exact ⟨ts₁, ts₂, hts, hfront.cut hreads⟩

theorem Reads.cut_token (h : Reads offset (A ++ (t.text.toList ++ Y)) ts) (ht : t ∈ ts)
    (hstart : t.start = offset + byteLength A) :
    ∃ ts₁ ts₂, ts = ts₁ ++ t :: ts₂ ∧ Reads t.stop Y ts₂ ∧
      Cut t.start A (t.text.toList ++ Y) ts₁ (t :: ts₂) := by
  have hpos := h.start_lt_stop ht
  obtain ⟨ts₁, ts₂, rfl, hcut⟩ := @Reads.cut offset A [] _ ts t _ h rfl ht (by simpa using hstart)
    rfl (by simp) (Or.inl rfl)
  rw [← hstart] at hcut
  have hmem : t ∈ ts₂ := by
    apply (List.mem_append.mp ht).resolve_left
    intro hmem
    have := hcut.stop_le t hmem
    omega
  obtain ⟨ts₂, rfl, hrest⟩ := hcut.reads.exists_cons hmem rfl
  exact ⟨ts₁, ts₂, rfl, hrest, hcut⟩

/-! ## Comments in front of the cut -/

/-- A significant token has no comments, whatever stands behind the text that follows it. -/
theorem comments_of_front {d : Char} {Z : List Char} {d' : Char} {Z' : List Char}
    (hc : isAsciiBlank c = false) (hk : kind ≠ .comment)
    (hlex : lexeme c (w ++ (A ++ d :: Z)) = (kind, w.length)) (hd : isNeutral d = true)
    (hd' : isNeutral d' = true) (hstart : isWordPart d' = true → isWordStart d' = true) :
    comments (c :: (w ++ (A ++ d' :: Z'))) = comments (A ++ d' :: Z') := by
  by_cases hglued : A = [] ∧ isWordStart c = true ∧ isWordPart d' = true
  · -- the token is a word and runs on into a word
    obtain ⟨rfl, hword, hpart⟩ := hglued
    exact comments_word_append hword (runLength_of_lexeme hword hlex).1 (hstart hpart)
  · rw [← List.append_assoc] at hlex
    have hends : isWordStart c = true → (w ++ A).all isWordPart = true →
        runLength isWordPart (d' :: Z') = 0 := by
      intro hword hall
      rw [List.append_assoc] at hlex
      have hrun := (runLength_of_lexeme hword hlex).2
      cases A with
      | nil =>
          have hpart : isWordPart d' = false := by
            by_contra hpart
            exact hglued ⟨rfl, hword, by simpa using hpart⟩
          simp [runLength, hpart]
      | cons e A =>
          rw [List.all_append, Bool.and_eq_true, List.all_cons, Bool.and_eq_true] at hall
          simp [runLength, hall.2.1] at hrun
    obtain ⟨kind', hlex', hkind⟩ := lexeme_append_change (List.cons_ne_nil d Z)
      (by simpa using isInert_of_isNeutral hd) (by simpa using hd') hc hk hlex (by simp) hends
    rw [List.append_assoc] at hlex'
    refine comments_token ?_ hlex'
    rcases hkind with ⟨rfl, -⟩ | ⟨-, rfl⟩
    · exact hk
    · exact wordKind_ne_comment _ _

/-- **The comments in front of a cut** do not depend on what stands behind it. -/
theorem Front.exists_comments {d : Char} {Z : List Char} (h : Front offset A (d :: Z) ts₁)
    (hd : isNeutral d = true) :
    ∃ cs, (∀ c ∈ cs, c.stop ≤ offset + byteLength A) ∧
      commentsFrom offset (A ++ d :: Z) = cs ++ commentsFrom (offset + byteLength A) (d :: Z) ∧
      ∀ d' Z', isNeutral d' = true → (isWordPart d' = true → isWordStart d' = true) →
        comments (A ++ d' :: Z') = cs.map (·.text) ++ comments (d' :: Z') := by
  generalize hY : d :: Z = Y at h
  induction h with
  | @gap offset A Y hgap =>
      exact ⟨commentsFrom offset A, fun c hc => (le_start_of_mem_commentsFrom hc).2.2,
        hgap.commentsFrom_append offset _, fun d' Z' _ _ => hgap.comments_append offset _⟩
  | @token offset gap w A Y c kind ts hgap hc hk hlex h ih =>
      subst hY
      obtain ⟨cs, hstop, hcomments, hchange⟩ := ih rfl
      have hplace : offset + byteLength gap + byteLength (c :: w) + byteLength A
          = offset + byteLength (gap ++ c :: (w ++ A)) := by
        simp only [byteLength_append, byteLength_cons]
        omega
      rw [hplace] at hstop hcomments
      refine ⟨commentsFrom offset gap ++ cs, fun t ht => ?_, ?_, fun d' Z' hd' hstart => ?_⟩
      · rcases List.mem_append.mp ht with ht | ht
        · have := (le_start_of_mem_commentsFrom ht).2.2
          rw [byteLength_append]
          omega
        · exact hstop t ht
      · rw [List.append_assoc, List.cons_append, List.append_assoc, hgap.commentsFrom_append,
          commentsFrom_token _ hk hlex, hcomments, List.append_assoc]
      · rw [List.append_assoc, List.cons_append, List.append_assoc, hgap.comments_append offset,
          comments_of_front hc hk hlex hd hd' hstart, hchange d' Z' hd' hstart, List.map_append,
          List.append_assoc]

end Steps

end Lexer

end SolidityTools

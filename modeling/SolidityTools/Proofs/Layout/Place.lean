import SolidityTools.Proofs.Layout.Block
import SolidityTools.Proofs.Layout.Edit

set_option autoImplicit false

/-! # Where the changes are made

Each counted loop of a text has its increment and its closing brace at known places, and no two
changes come near each other (`Apart`). For the increments that is a matter of the tokens: the
four tokens from the semicolon to the parenthesis can overlap no other such four and hold no
brace. The stretch of a block reaches back over blanks only, so it reaches back to no other token.
-/

namespace SolidityTools

open Text

namespace Layout

open Lexer

variable {F : List Char} {ts : List Token} {loop loop' : CountedLoop}

/-! ## The header -/

/-- No punctuation mark is a name. -/
theorem ne_of_isName {name : String} (h : IsName name) {e : Char} (he : isWordStart e = false) :
    name ≠ String.ofList [e] := by
  rintro rfl
  obtain ⟨c, w, htext, hc, -⟩ := h.word
  rw [String.toList_ofList] at htext
  rw [← (List.cons.inj htext).1, he] at hc
  cases hc

theorem LoopSite.isName (hreads : Reads 0 F ts) (site : LoopSite ts loop) :
    IsName loop.counter := by
  have := hreads.isName (site.mem_of_mem (by simp)) site.counter_kind
  rwa [site.counter_text] at this

theorem isOperator_eq_false_of_isName {t : Token} {e : Char} (h : IsName t.text)
    (he : isWordStart e = false) : t.isOperator (String.ofList [e]) = false := by
  by_contra ht
  rw [Bool.not_eq_false] at ht
  exact ne_of_isName h he (Token.text_of_isOperator ht)

theorem isOperator_eq_false_of_isIncrement {counter : String} {a b : Token} (hname : IsName counter)
    (h : isIncrement counter [a, b] = true) {e : Char} (he : isWordStart e = false) :
    a.isOperator (String.ofList [e]) = false ∧ b.isOperator (String.ofList [e]) = false := by
  have hplus : ∀ {t : Token}, t.isOperator "++" = true →
      t.isOperator (String.ofList [e]) = false := by
    intro t ht
    by_contra hmark
    rw [Bool.not_eq_false] at hmark
    have hlength := congrArg (List.length ∘ String.toList)
      ((Token.text_of_isOperator hmark).symm.trans (Token.text_of_isOperator ht))
    simp at hlength
  simp only [isIncrement, Bool.or_eq_true, Bool.and_eq_true, beq_iff_eq] at h
  rcases h with ⟨ha, hb⟩ | ⟨ha, hb⟩
  · exact ⟨isOperator_eq_false_of_isName (ha ▸ hname) he, hplus hb⟩
  · exact ⟨hplus ha, isOperator_eq_false_of_isName (hb ▸ hname) he⟩

/-- No punctuation mark is a token of the increment. -/
theorem LoopSite.ne_of_isOperator (hreads : Reads 0 F ts) (site : LoopSite ts loop) {t : Token}
    {e : Char} (ht : t.isOperator (String.ofList [e]) = true) (he : isWordStart e = false) :
    t ≠ site.a ∧ t ≠ site.b := by
  obtain ⟨ha, hb⟩ := isOperator_eq_false_of_isIncrement (site.isName hreads) site.increment he
  constructor
  · rintro rfl
    rw [ha] at ht
    cases ht
  · rintro rfl
    rw [hb] at ht
    cases ht

/-- A punctuation mark other than a parenthesis stands before or behind the four tokens from the
last semicolon of a header to its parenthesis, if it is not the semicolon. -/
theorem LoopSite.stop_le_start_or (hreads : Reads 0 F ts) (site : LoopSite ts loop) {t : Token}
    (ht : t ∈ ts) {e : Char} (htext : t.isOperator (String.ofList [e]) = true)
    (he : isWordStart e = false) (hparen : e ≠ ')') (hne : t ≠ loop.semicolon) :
    t.stop ≤ loop.semicolon.start ∨ loop.paren.stop ≤ t.start := by
  have hts := site.eq_head_append
  generalize hY : site.braceOpener :: (site.body ++ loop.brace :: site.rest) = Y at hts
  have hts' : ts = (site.head ++ site.first :: site.condition ++ [loop.semicolon, site.a, site.b])
      ++ loop.paren :: Y :=
    hts.trans (by simp)
  obtain ⟨ha, hb⟩ := site.ne_of_isOperator hreads htext he
  have hparen' : t ≠ loop.paren := Token.ne_of_isOperator htext site.paren hparen
  -- of the four tokens it is none, so it is one of those around them
  have hmem := (congrArg (t ∈ ·) hts).mp ht
  rcases List.mem_append.mp hmem with hX | hY
  · exact Or.inl ((hreads.ordered.around hts).1 t hX)
  · refine Or.inr ((hreads.ordered.around hts').2 t ?_)
    simpa [hne, ha, hb, hparen'] using hY

/-! ## The changes fit -/

/-- The increment of a loop stands between its semicolon and its parenthesis. -/
theorem LoopSite.fits_removal (hreads : Reads 0 F ts) (site : LoopSite ts loop) :
    (Change.removal loop).Fits F := by
  obtain ⟨P, S, hF, hsemicolon, hstop⟩ := hreads.exists_operator
    site.semicolon_mem site.semicolon (e := ';')
  obtain ⟨P', S', hF', hparen, -⟩ := hreads.exists_operator
    site.paren_mem site.paren (e := ')')
  rw [Nat.zero_add] at hsemicolon hparen
  have hle : byteLength (P ++ [';']) ≤ byteLength P' := by
    have := (hreads.ordered.around site.eq_head_append).2 loop.paren (by simp)
    rw [hstop, hsemicolon, hparen] at this
    simpa using this
  have hsplit : (P ++ [';']) ++ S = P' ++ ')' :: S' := by
    rw [List.append_assoc]
    exact hF.symm.trans hF'
  obtain ⟨D, rfl, rfl⟩ := exists_append_of_byteLength_le hsplit hle
  refine ⟨P, D, S', hF, hsemicolon, ?_, ?_⟩
  · rw [hstop, hsemicolon, byteLength_append]
    rfl
  · rw [hparen]
    simp

/-- The last line of a text, and what stands in front of it. -/
theorem exists_lastLine (P : List Char) :
    ∃ Q u before, P = Q ++ u ∧ splitLines P = before ++ [u] ∧ '\n' ∉ u ∧
      (Q = [] ∨ Q.getLast? = some '\n') ∧ (P.reverse.takeWhile (· != '\n')).reverse = u := by
  obtain ⟨before, u, hsplit⟩ := exists_splitLines_eq P
  have hline : '\n' ∉ u := newline_not_mem_of_mem_splitLines (by rw [hsplit]; simp)
  have hjoin := joinLines_splitLines P
  rw [hsplit] at hjoin
  obtain ⟨Q, hP, hQ⟩ : ∃ Q, P = Q ++ u ∧ (Q = [] ∨ Q.getLast? = some '\n') := by
    cases before with
    | nil => exact ⟨[], hjoin.symm, Or.inl rfl⟩
    | cons line before =>
        rw [joinLines_append (List.cons_ne_nil _ _) (List.cons_ne_nil _ _)] at hjoin
        refine ⟨joinLines (line :: before) ++ ['\n'], ?_, Or.inr List.getLast?_concat⟩
        rw [← hjoin, List.append_assoc]
        rfl
  refine ⟨Q, u, before, hP, hsplit, hline, hQ, ?_⟩
  have hall : ∀ c ∈ u.reverse, (c != '\n') = true := by
    intro c hc
    rw [List.mem_reverse] at hc
    simpa using fun h : c = '\n' => hline (h ▸ hc)
  have hnil : Q.reverse.takeWhile (· != '\n') = [] := by
    rcases hQ with rfl | hQ
    · rfl
    · rw [List.getLast?_eq_head?_reverse] at hQ
      cases hrev : Q.reverse with
      | nil => rfl
      | cons c cs =>
          rw [hrev, List.head?_cons, Option.some.injEq] at hQ
          simp [hQ]
  rw [hP, List.reverse_append, List.takeWhile_append_of_pos hall, hnil, List.append_nil,
    List.reverse_reverse]

/-- A punctuation mark in front of some blanks ends before they begin. -/
theorem stop_le_of_blank (hreads : Reads 0 F ts) {t : Token} (ht : t ∈ ts) {e : Char}
    (htext : t.isOperator (String.ofList [e]) = true) (he : isBlank e = false)
    {Q u X : List Char} (hF : F = Q ++ (u ++ X)) (hu : u.all isBlank = true)
    (hle : t.stop ≤ byteLength (Q ++ u)) : t.stop ≤ byteLength Q := by
  obtain ⟨P, S, hP, hstart, hstop⟩ := hreads.exists_operator ht htext
  have hstop' : t.stop = byteLength (P ++ [e]) := by
    rw [hstop, hstart]
    simp
  -- otherwise the mark would be one of the blanks
  by_contra hlt
  rw [not_le, hstop'] at hlt
  rw [hstop'] at hle
  have hsplit : Q ++ (u ++ X) = (P ++ [e]) ++ S := by
    rw [← hF, hP]
    simp
  obtain ⟨m, hm, hX⟩ := exists_append_of_byteLength_le hsplit hlt.le
  rw [hm, byteLength_append, byteLength_append, Nat.add_le_add_iff_left] at hle
  obtain ⟨m', rfl, -⟩ := exists_append_of_byteLength_le hX.symm hle
  have hne : m ≠ [] := by
    rintro rfl
    simp [hm] at hlt
  have hlast := congrArg List.getLast? hm
  rw [List.getLast?_concat, List.getLast?_append_of_ne_nil _ hne] at hlast
  have hmem : e ∈ m ++ m' := List.mem_append_left m' (List.mem_of_getLast? hlast.symm)
  rw [List.all_eq_true.mp hu e hmem] at he
  cases he

/-- The block of a loop goes in front of its closing brace. -/
theorem LoopSite.fits_addition (settings : EditorSettings) (hreads : Reads 0 F ts)
    (site : LoopSite ts loop) : (addition settings F loop).Fits F := by
  obtain ⟨P, S, hF, hbrace, hstop⟩ := hreads.exists_operator
    site.brace_mem site.brace (e := '\x7d')
  rw [Nat.zero_add] at hbrace
  obtain ⟨Q, u, before, rfl, hsplit, hline, hQ, hlast⟩ := exists_lastLine P
  have hbefore : lineBefore F loop.brace.start = u := by
    rw [lineBefore, hF, hbrace, takeBytes_byteLength_append, hlast]
  unfold addition
  rw [hbefore]
  by_cases hblank : isBlankText u = true
  · rw [if_pos hblank]
    -- the header stands in front of the line
    have hparen : loop.paren.stop ≤ byteLength Q := by
      refine stop_le_of_blank hreads site.paren_mem site.paren (e := ')') (by decide)
        (by rw [hF, List.append_assoc]) hblank ?_
      rw [← hbrace]
      exact (hreads.ordered.around site.eq_brace_append).1 _ (by simp [header])
    refine ⟨Q, u, S, by rw [hF, List.append_assoc], ?_, hbrace, ?_, hblank, hline⟩
    · rw [hbrace, byteLength_append, Nat.add_sub_cancel]
    · -- the line is not the first one, because the header takes up some text
      apply hQ.resolve_left
      intro hnil
      have := hreads.start_lt_stop site.paren_mem
      rw [hnil, byteLength_nil] at hparen
      omega
  · rw [if_neg hblank]
    have hsolid : ∃ b ∈ u, isBlank b = false := by
      simpa [isBlankText] using hblank
    obtain ⟨b, hb, hb'⟩ := hsolid
    exact ⟨Q ++ u, S, hF, hbrace, before, u, b, hsplit, hb, hb'⟩

/-! ## The changes are apart -/

/-- The stretches of two changes do not meet. -/
def Apart (c d : Change) : Prop := c.high ≤ d.low ∨ d.high ≤ c.low

/-- The stretch of an increment ends behind the parenthesis. -/
theorem LoopSite.high_removal (hreads : Reads 0 F ts) (site : LoopSite ts loop) :
    (Change.removal loop).high = loop.paren.stop := by
  obtain ⟨P, S, -, -, hstop⟩ := hreads.exists_operator site.paren_mem site.paren (e := ')')
  rw [hstop]
  rfl

/-- The stretch of a block ends behind the brace. -/
theorem LoopSite.high_addition (settings : EditorSettings) (hreads : Reads 0 F ts)
    (site : LoopSite ts loop) : (addition settings F loop).high = loop.brace.stop := by
  obtain ⟨P, S, -, -, hstop⟩ := hreads.exists_operator site.brace_mem site.brace (e := '\x7d')
  rw [hstop]
  rcases addition_cases settings F loop with h | ⟨place, indent, h⟩
  · rw [h]
    rfl
  · rw [h]
    rfl

/-- The stretch of a block begins behind every punctuation mark in front of the brace. -/
theorem LoopSite.stop_le_low_addition (settings : EditorSettings) (hreads : Reads 0 F ts)
    (site : LoopSite ts loop) {t : Token} (ht : t ∈ ts) {e : Char}
    (htext : t.isOperator (String.ofList [e]) = true) (he : isBlank e = false)
    (hle : t.stop ≤ loop.brace.start) : t.stop ≤ (addition settings F loop).low := by
  have hfits := site.fits_addition settings hreads
  rcases addition_cases settings F loop with h | ⟨place, indent, h⟩
  · rw [h]
    exact hle
  · rw [h] at hfits ⊢
    obtain ⟨P, before, S, hF, hplace, hbrace, -, hblank, -⟩ := hfits
    rw [Change.low, hplace]
    exact stop_le_of_blank hreads ht htext he hF hblank (hbrace ▸ hle)

theorem LoopSite.apart_removal (hreads : Reads 0 F ts) (site : LoopSite ts loop)
    (site' : LoopSite ts loop') (hne : loop.semicolon ≠ loop'.semicolon) :
    Apart (.removal loop) (.removal loop') := by
  rw [Apart, site.high_removal hreads, site'.high_removal hreads]
  rcases site.stop_le_start_or hreads site'.semicolon_mem site'.semicolon (e := ';') (by decide)
    (by decide) hne.symm with h | h
  · rcases site'.stop_le_start_or hreads site.semicolon_mem site.semicolon (e := ';') (by decide)
      (by decide) hne with h' | h'
    · -- neither semicolon can stand before the other
      have := hreads.start_lt_stop site.semicolon_mem
      have := hreads.start_lt_stop site'.semicolon_mem
      omega
    · exact Or.inr h'
  · exact Or.inl h

theorem LoopSite.apart_addition (settings : EditorSettings) (hreads : Reads 0 F ts)
    (site : LoopSite ts loop) (site' : LoopSite ts loop') (hne : loop.brace ≠ loop'.brace) :
    Apart (addition settings F loop) (addition settings F loop') := by
  rw [Apart, site.high_addition settings hreads, site'.high_addition settings hreads]
  rcases hreads.ordered.stop_le_start_or site.brace_mem site'.brace_mem hne with h | h
  · exact Or.inl (site'.stop_le_low_addition settings hreads site.brace_mem site.brace
      (e := '\x7d') (by decide) h)
  · exact Or.inr (site.stop_le_low_addition settings hreads site'.brace_mem site'.brace
      (e := '\x7d') (by decide) h)

/-- An increment and a block are apart. -/
theorem LoopSite.apart_removal_addition (settings : EditorSettings) (hreads : Reads 0 F ts)
    (site : LoopSite ts loop) (site' : LoopSite ts loop') :
    Apart (.removal loop) (addition settings F loop') := by
  have hne : loop'.brace ≠ loop.semicolon :=
    Token.ne_of_isOperator (c := '\x7d') (e := ';') site'.brace site.semicolon (by decide)
  rw [Apart, site.high_removal hreads, site'.high_addition settings hreads]
  rcases site.stop_le_start_or hreads site'.brace_mem site'.brace (e := '\x7d') (by decide)
    (by decide) hne with h | h
  · exact Or.inr h
  · exact Or.inl (site'.stop_le_low_addition settings hreads site.paren_mem site.paren (e := ')')
      (by decide) h)

theorem Apart.symm {c d : Change} (h : Apart c d) : Apart d c := Or.symm h

/-- **All changes of a text are apart.** -/
theorem pairwise_apart (settings : EditorSettings) (hreads : Reads 0 F ts) :
    ((countedLoops ts).flatMap (changes settings F)).Pairwise Apart := by
  refine List.pairwise_flatMap.mpr ⟨fun loop hloop => ?_, ?_⟩
  · obtain ⟨site⟩ := exists_site hloop
    have := (site.apart_removal_addition settings hreads site).symm
    exact List.pairwise_pair.mpr this
  · refine (pairwise_countedLoops hreads.ordered.nodup).imp_of_mem ?_
    rintro loop loop' hloop hloop' ⟨hsemicolon, hbrace⟩ c hc d hd
    obtain ⟨site⟩ := exists_site hloop
    obtain ⟨site'⟩ := exists_site hloop'
    simp only [changes, List.mem_cons, List.not_mem_nil, or_false] at hc hd
    rcases hc with rfl | rfl
    · rcases hd with rfl | rfl
      · exact site.apart_addition settings hreads site' hbrace
      · exact (site'.apart_removal_addition settings hreads site).symm
    · rcases hd with rfl | rfl
      · exact site.apart_removal_addition settings hreads site'
      · exact site.apart_removal hreads site' hsemicolon

theorem fits_of_mem_changes (settings : EditorSettings) (hreads : Reads 0 F ts) {change : Change}
    (h : change ∈ (countedLoops ts).flatMap (changes settings F)) : change.Fits F := by
  obtain ⟨loop, hloop, hchange⟩ := List.mem_flatMap.mp h
  obtain ⟨site⟩ := exists_site hloop
  simp only [changes, List.mem_cons, List.not_mem_nil, or_false] at hchange
  rcases hchange with rfl | rfl
  · exact site.fits_addition settings hreads
  · exact site.fits_removal hreads

/-! ## The edits together -/

/-- An edit begins in the stretch of its change. -/
theorem Change.Fits.start_mem {change : Change} (h : change.Fits F) :
    change.low ≤ change.edit.start ∧ change.edit.start < change.high := by
  cases change with
  | removal loop =>
      obtain ⟨P, D, S, -, hsemicolon, hstop, hparen⟩ := h
      simp only [Change.low, Change.edit, Change.high, deletion, hsemicolon, hstop, hparen,
        byteLength_append, byteLength_cons, byteLength_nil]
      omega
  | ownLine loop place indent =>
      obtain ⟨P, before, S, -, rfl, hbrace, -⟩ := h
      simp only [Change.low, Change.edit, Change.high, hbrace, byteLength_append]
      omega
  | inline loop =>
      simp only [Change.low, Change.edit, Change.high]
      omega

/-- **The edits of a text as one reading of it.** Applied from the last one to the first one, they
make the changes of all loops, in the order of the text. -/
theorem exists_moved (settings : EditorSettings) (hreads : Reads 0 F ts) :
    ∃ all R, all.Perm ((countedLoops ts).flatMap (changes settings F)) ∧ Moved 0 F all R ∧
      applyEdits F ((countedLoops ts).flatMap (loopEdits settings F)) = R := by
  generalize hC : (countedLoops ts).flatMap (changes settings F) = C
  have hedits : (countedLoops ts).flatMap (loopEdits settings F) = C.map Change.edit := by
    rw [← hC, List.map_flatMap]
    simp only [map_edit_changes]
  generalize hsorted : StableOrder.sort
    (fun c d : Change => decide (d.edit.start ≤ c.edit.start)) C = sorted
  have hperm : sorted.reverse.Perm C := by
    rw [← hsorted]
    exact (List.reverse_perm _).trans (StableOrder.sort_perm _ C)
  have hfits : ∀ change ∈ sorted.reverse, change.Fits F := fun change h =>
    fits_of_mem_changes settings hreads (hC ▸ hperm.mem_iff.mp h)
  have hascending : sorted.reverse.Pairwise fun c d => c.edit.start ≤ d.edit.start := by
    rw [List.pairwise_reverse, ← hsorted]
    refine (StableOrder.pairwise_sort ?_ ?_ C).imp fun h => by simpa using h
    · intro c d h
      rw [decide_eq_false_iff_not, not_le] at h
      simpa using h.le
    · intro c d e h h'
      rw [decide_eq_true_eq] at h h' ⊢
      exact h'.trans h
  have hapart : sorted.reverse.Pairwise Apart := by
    rw [hperm.pairwise_iff fun h => Apart.symm h, ← hC]
    exact pairwise_apart settings hreads
  -- apart and in ascending order, each stretch lies behind the one before
  have hstretches : sorted.reverse.Pairwise fun c d => c.high ≤ d.low := by
    refine (hascending.and hapart).imp_of_mem ?_
    rintro c d hc hd ⟨hle, h | h⟩
    · exact h
    · -- the other order would put the later edit in front
      have := (hfits c hc).start_mem
      have := (hfits d hd).start_mem
      omega
  obtain ⟨R, hmoved, hfold⟩ := Moved.exists_of_fits hfits hstretches
    (List.nil_append F).symm (Or.inl rfl)
  refine ⟨sorted.reverse, R, hperm, hmoved, ?_⟩
  rw [List.foldr_reverse] at hfold
  rw [hedits, applyEdits, StableOrder.sort_map, hsorted, List.foldl_map]
  exact hfold

end Layout

end SolidityTools

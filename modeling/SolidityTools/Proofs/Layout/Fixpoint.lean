import SolidityTools.Proofs.Layout.Edited
import SolidityTools.Proofs.Layout.Increment

set_option autoImplicit false

/-! # Optimising once is enough

A rewritten loop is not rewritten again, and no loop that was left alone starts to qualify because
others were rewritten. The second part is the one that needs an argument, since the changes to one
loop may fall into the header or the body of another one, and the text need not be well-formed. The
argument is `Edited.countedLoops_eq_nil`; here the changes of the counted loops are shown to edit
the tokens in that way.
-/

namespace SolidityTools

open Text Lexer

namespace Layout

/-! ## Optimising edits -/

theorem Edited.append_keep {marked : Token → Prop} {A B ts us : List Token}
    (hshape : B.map Token.shape = A.map Token.shape) (hA : ∀ t ∈ A, ¬marked t)
    (h : Edited marked ts us) : Edited marked (A ++ ts) (B ++ us) := by
  induction A generalizing B with
  | nil =>
      obtain rfl := List.map_eq_nil_iff.mp hshape
      exact h
  | cons t A ih =>
      obtain ⟨u, B, rfl, hu, hB⟩ := List.map_eq_cons_iff.mp hshape
      exact .keep hu (hA t List.mem_cons_self) (ih hB fun x hx => hA x (List.mem_cons_of_mem _ hx))

/-- The tokens of an increment keep no loop from being changed. -/
theorem blocksMove_of_isIncrement {counter : String} {a b : Token} (hname : IsName counter)
    (h : isIncrement counter [a, b] = true) : blocksMove a = false ∧ blocksMove b = false := by
  have hcounter : ∀ t : Token, t.text = counter → blocksMove t = false := by
    intro t ht
    have hkeyword : ∀ word, isKeywordText word = true → t.isKeyword word = false := by
      intro word hword
      by_contra hne
      rw [Bool.not_eq_false, Token.isKeyword, Bool.and_eq_true, beq_iff_eq, beq_iff_eq] at hne
      rw [← hne.2, ht, hname.keyword] at hword
      cases hword
    rw [blocksMove, hkeyword _ (by decide), hkeyword _ (by decide)]
    rfl
  simp only [isIncrement, Bool.or_eq_true, Bool.and_eq_true, beq_iff_eq] at h
  rcases h with ⟨ha, hb⟩ | ⟨ha, hb⟩
  · exact ⟨hcounter a ha, blocksMove_of_isOperator hb⟩
  · exact ⟨blocksMove_of_isOperator ha, hcounter b hb⟩

/-- A word in front of the closing brace of a loop belongs to the body. -/
theorem LoopSite.blocksMove_of_isWord {ts front back : List Token} {word : Token}
    {loop : CountedLoop} (site : LoopSite ts loop) (hnodup : ts.Nodup)
    (hts : ts = front ++ word :: loop.brace :: back) (hword : word.isWord = true) :
    blocksMove word = false := by
  rw [List.append_cons] at hts
  obtain ⟨heq, -⟩ := Group.eq_of_nodup hnodup site.eq_brace_append hts
  rcases List.eq_nil_or_concat' site.body with hbody | ⟨init, last, hbody⟩
  · -- the opening brace is no word
    rw [hbody] at heq
    have hlast := (List.append_inj' heq rfl).2
    obtain ⟨rfl, -⟩ := List.cons.inj hlast
    have hbrace := site.braceOpener_brace
    rw [Token.isOperator, Bool.and_eq_true, beq_iff_eq] at hbrace
    simp [Token.isWord, hbrace.1] at hword
  · rw [hbody, ← List.cons_append, ← List.append_assoc] at heq
    have hlast := (List.append_inj' heq rfl).2
    obtain ⟨rfl, -⟩ := List.cons.inj hlast
    have hblocks := List.any_eq_false.mp site.body_blocksMove last (by simp [hbody])
    simpa using hblocks

/-- A closing parenthesis is kept. -/
theorem Edited.exists_paren {marked : Token → Prop} {paren : Token} {ts us : List Token}
    (h : Edited marked (paren :: ts) us) (hparen : paren.isOperator ")" = true) :
    ∃ u us', us = u :: us' ∧ u.shape = paren.shape ∧ Edited marked ts us' := by
  cases h with
  | keep hshape _ h => exact ⟨_, _, rfl, hshape, h⟩
  | block _ _ hnext =>
      have hnot := hnext paren rfl
      rw [hparen] at hnot
      cases hnot
  | glued hword =>
      rw [Token.isOperator, Bool.and_eq_true, beq_iff_eq] at hparen
      simp [Token.isWord, hparen.1] at hword
  | removal hsemicolon =>
      exact absurd rfl (Token.ne_of_isOperator (c := ')') (e := ';') hparen hsemicolon (by decide))

section Steps

variable {marked : Token → Prop} {ts₁ ts₂ : List Token} {change : Change} {changes : List Change}

/-- In front of the changes no token is marked. -/
theorem not_marked_of_mem (hordered : Ordered (ts₁ ++ ts₂))
    (hmem : ∀ change ∈ changes, ∀ u ∈ change.tokens, u ∈ ts₂)
    (hmarked : ∀ t ∈ ts₁ ++ ts₂, marked t →
      t.isOperator ";" = true ∧ ∃ change ∈ changes, t ∈ change.tokens) :
    ∀ t ∈ ts₁, ¬marked t := by
  intro t ht hmark
  obtain ⟨-, change, hchange, htoken⟩ := hmarked t (List.mem_append_left _ ht) hmark
  have hlt := hordered.left.start_lt_stop t ht
  have hle := hordered.stop_le_start ht (hmem change hchange t htoken)
  omega

/-- Behind a change the marked tokens are those of the other changes. -/
theorem marked_of_mem (hmarked : ∀ t ∈ ts₁ ++ ts₂, marked t →
      t.isOperator ";" = true ∧ ∃ c ∈ change :: changes, t ∈ c.tokens)
    (hnot : ∀ t ∈ ts₂, t ∈ change.tokens → t.isOperator ";" = false) :
    ∀ t ∈ ts₂, marked t → t.isOperator ";" = true ∧ ∃ c ∈ changes, t ∈ c.tokens := by
  intro t ht hmark
  obtain ⟨hsemicolon, c, hc, htoken⟩ := hmarked t (List.mem_append_right _ ht) hmark
  refine ⟨hsemicolon, c, ?_, htoken⟩
  rcases List.mem_cons.mp hc with rfl | hc
  · rw [hnot t ht htoken] at hsemicolon
    cases hsemicolon
  · exact hc

variable {all us₁ us₂ B : List Token} {u : Token} {loop : CountedLoop}

/-- The tokens of an increment are no braces and keep no loop from being changed. -/
theorem LoopSite.plain_increment (site : LoopSite all loop) (hname : IsName loop.counter) :
    ∀ t ∈ [site.a, site.b], t.isOperator "\x7b" = false ∧ t.isOperator "\x7d" = false ∧
      blocksMove t = false := by
  have hmark := fun e =>
    @isOperator_eq_false_of_isIncrement loop.counter site.a site.b hname site.increment e
  have hmove := blocksMove_of_isIncrement hname site.increment
  intro t ht
  simp only [List.mem_cons, List.not_mem_nil, or_false] at ht
  rcases ht with rfl | rfl
  · exact ⟨(hmark '\x7b' (by decide)).1, (hmark '\x7d' (by decide)).1, hmove.1⟩
  · exact ⟨(hmark '\x7b' (by decide)).2, (hmark '\x7d' (by decide)).2, hmove.2⟩

/-- The increment of a loop is taken out. The text behind it begins with the parenthesis, which
stays. -/
theorem Edited.of_removal (site : LoopSite all loop) (hname : IsName loop.counter)
    (hus₁ : us₁.map Token.shape = ts₁.map Token.shape) (hts₁ : ∀ t ∈ ts₁, ¬marked t)
    (hu : u.shape = loop.semicolon.shape) (h : Edited marked (loop.paren :: ts₂) us₂) :
    Edited marked (ts₁ ++ loop.semicolon :: ([site.a, site.b] ++ loop.paren :: ts₂))
      (us₁ ++ u :: us₂) := by
  obtain ⟨v, us₃, rfl, hv, hedited⟩ := h.exists_paren site.paren
  exact .append_keep hus₁ hts₁
    (.removal site.semicolon site.paren (site.plain_increment hname) hu hv hedited)

/-- A block is put in. Neither the brace behind it nor a blank token in between is a parenthesis. -/
theorem Edited.of_addition {blanks : List Token} (hbrace : loop.brace.isOperator "\x7d" = true)
    (hblanks : ∀ t ∈ blanks, t.text.toList.all isBlank = true)
    (hus₁ : us₁.map Token.shape = ts₁.map Token.shape) (hts₁ : ∀ t ∈ ts₁, ¬marked t)
    (hu : u.isKeyword "unchecked" = true)
    (hB : B.map Token.shape = (blockShapes loop.counter).tail)
    (h : Edited marked (blanks ++ loop.brace :: ts₂) us₂) :
    Edited marked (ts₁ ++ (blanks ++ loop.brace :: ts₂)) (us₁ ++ u :: (B ++ us₂)) := by
  refine .append_keep hus₁ hts₁ (.block hu hB (fun t ht => ?_) h)
  cases blanks with
  | nil =>
      obtain rfl : loop.brace = t := by simpa using ht
      simp [Token.isOperator_eq_decide, Token.isOperator_iff.mp hbrace]
  | cons blank blanks =>
      obtain rfl : blank = t := by simpa using ht
      by_contra hparen
      rw [Bool.not_eq_false] at hparen
      have hall := hblanks blank List.mem_cons_self
      rw [Token.text_of_isOperator hparen] at hall
      revert hall
      decide

/-- A block is put in behind a word, which takes its keyword. The word that comes about is too long
for a keyword of loops. -/
theorem Edited.of_glued {word : Token} (hword : word.isWord = true)
    (hmove : blocksMove word = false) (hus₁ : us₁.map Token.shape = ts₁.map Token.shape)
    (hts₁ : ∀ t ∈ ts₁, ¬marked t) (hkind : u.kind ≠ .operator)
    (htext : u.text = word.text ++ "unchecked")
    (hB : B.map Token.shape = (blockShapes loop.counter).tail) (h : Edited marked ts₂ us₂) :
    Edited marked (ts₁ ++ word :: ts₂) (us₁ ++ u :: (B ++ us₂)) := by
  refine .append_keep hus₁ hts₁ (.glued hword hmove hkind ?_ hB h)
  by_contra hfor
  rw [Bool.not_eq_false, Token.isKeyword, Bool.and_eq_true, beq_iff_eq, beq_iff_eq, htext] at hfor
  have hlength := congrArg (List.length ∘ String.toList) hfor.2
  simp at hlength

end Steps

/-- **What the changes of the loops do is such an editing.** The marked tokens are semicolons, and
every one that is left has its change left. -/
theorem Rewritten.edited {F : List Char} {all ts us : List Token} {changes : List Change}
    {R : List (TokenKind × String)} {marked : Token → Prop} (h : Rewritten all ts changes R)
    (hreads : Reads 0 F all) (hsuffix : ∃ front, all = front ++ ts)
    (hsite : ∀ change ∈ changes, Nonempty (LoopSite all change.loop))
    (hmarked : ∀ t ∈ ts, marked t →
      t.isOperator ";" = true ∧ ∃ change ∈ changes, t ∈ change.tokens)
    (hus : us.map Token.shape = R) : Edited marked ts us := by
  have hordered : Ordered ts := by
    obtain ⟨front, hfront⟩ := hsuffix
    exact (hfront ▸ hreads.ordered).right
  induction h generalizing us with
  | @done ts =>
      have hnot : ∀ t ∈ ts, ¬marked t := fun t ht hmark => by
        obtain ⟨-, change, hchange, -⟩ := hmarked t ht hmark
        cases hchange
      have hkeep := Edited.append_keep hus hnot .done
      rwa [List.append_nil, List.append_nil] at hkeep
  | @removal ts₁ increment ts₂ rest R loop h ih =>
      obtain ⟨front, hfront⟩ := hsuffix
      obtain ⟨site⟩ := hsite _ List.mem_cons_self
      obtain ⟨us₁, us', rfl, hus₁, hus'⟩ := List.map_eq_append_iff.mp hus
      obtain ⟨u, us₂, rfl, hu, hus₂⟩ := List.map_eq_cons_iff.mp hus'
      have hincrement : increment = [site.a, site.b] :=
        site.eq_increment hreads.ordered.nodup (hfront.trans (List.append_assoc front ts₁ _).symm)
      have hts₁ : ∀ t ∈ ts₁, ¬marked t := by
        refine not_marked_of_mem hordered (fun c hc t ht => ?_) hmarked
        rcases List.mem_cons.mp hc with rfl | hc
        · simp only [Change.tokens, List.mem_cons, List.not_mem_nil, or_false] at ht
          rcases ht with rfl | rfl <;> simp
        · have hmem := h.mem_of_mem_tokens c hc t ht
          simp only [List.mem_cons, List.mem_append] at hmem ⊢
          exact Or.inr (Or.inr hmem)
      have hsplit : ts₁ ++ loop.semicolon :: (increment ++ loop.paren :: ts₂)
          = ((ts₁ ++ [loop.semicolon]) ++ increment) ++ loop.paren :: ts₂ := by simp
      rw [hsplit] at hordered hfront hmarked
      have hrest := ih ⟨front ++ ((ts₁ ++ [loop.semicolon]) ++ increment), by rw [hfront]; simp⟩
        (fun c hc => hsite c (List.mem_cons_of_mem _ hc))
        (marked_of_mem hmarked fun t ht htoken => ?_) hus₂ hordered.right
      · subst hincrement
        exact .of_removal site (site.isName hreads) hus₁ hts₁ hu hrest
      · -- the semicolon stands in front, and the parenthesis is none
        simp only [Change.tokens, List.mem_cons, List.not_mem_nil, or_false] at htoken
        rcases htoken with rfl | rfl
        · have hlt := hordered.left.start_lt_stop loop.semicolon (by simp)
          have hle := hordered.stop_le_start (t := loop.semicolon) (by simp) ht
          omega
        · have hparen : loop.paren.shape = (.operator, ")") := Token.isOperator_iff.mp site.paren
          simp [Token.isOperator_eq_decide, hparen]
  | @addition ts₁ blanks ts₂ rest R change hchange hglued hblanks h ih =>
      obtain ⟨front, hfront⟩ := hsuffix
      obtain ⟨site⟩ := hsite _ List.mem_cons_self
      obtain ⟨us₁, us', rfl, hus₁, hus'⟩ := List.map_eq_append_iff.mp hus
      obtain ⟨B', us₂, rfl, hB', hus₂⟩ := List.map_eq_append_iff.mp hus'
      obtain ⟨u, B, rfl, hu, hB⟩ := List.map_eq_cons_iff.mp hB'
      have hts₁ : ∀ t ∈ ts₁, ¬marked t := by
        refine not_marked_of_mem hordered (fun c hc t ht => ?_) hmarked
        rcases List.mem_cons.mp hc with rfl | hc
        · rw [Change.tokens_of_ne hchange, List.mem_singleton] at ht
          simp [ht]
        · exact h.mem_of_mem_tokens c hc t ht
      have hrest := ih ⟨front ++ ts₁, by rw [hfront, List.append_assoc]⟩
        (fun c hc => hsite c (List.mem_cons_of_mem _ hc))
        (marked_of_mem hmarked fun t ht htoken => ?_) hus₂ hordered.right
      · exact .of_addition site.brace hblanks hus₁ hts₁ (Token.isKeyword_iff.mpr hu) hB hrest
      · rw [Change.tokens_of_ne hchange, List.mem_singleton] at htoken
        simp [Token.isOperator_eq_decide, htoken, Token.isOperator_iff.mp site.brace]
  | @glued ts₁ ts₂ word rest R loop kind hword hstop hkind hglued h ih =>
      obtain ⟨front, hfront⟩ := hsuffix
      obtain ⟨site⟩ := hsite _ List.mem_cons_self
      obtain ⟨us₁, us', rfl, hus₁, hus'⟩ := List.map_eq_append_iff.mp hus
      obtain ⟨u, us'', rfl, hu, hus''⟩ := List.map_eq_cons_iff.mp hus'
      obtain ⟨B, us₂, rfl, hB, hus₂⟩ := List.map_eq_append_iff.mp hus''
      have hmove : blocksMove word = false := by
        have hall := hfront.trans (List.append_assoc front ts₁ _).symm
        exact site.blocksMove_of_isWord hreads.ordered.nodup hall hword
      have hts₁ : ∀ t ∈ ts₁, ¬marked t := by
        refine not_marked_of_mem hordered (fun c hc t ht => ?_) hmarked
        rcases List.mem_cons.mp hc with rfl | hc
        · rw [Change.tokens, List.mem_singleton] at ht
          simp [ht]
        · exact List.mem_cons_of_mem _ (h.mem_of_mem_tokens c hc t ht)
      rw [List.append_cons] at hordered hmarked hfront
      have hrest := ih ⟨front ++ (ts₁ ++ [word]), by rw [hfront]; simp⟩
        (fun c hc => hsite c (List.mem_cons_of_mem _ hc))
        (marked_of_mem hmarked fun t ht htoken => ?_) hus₂ hordered.right
      · obtain ⟨hkind', htext⟩ := Prod.mk.inj hu
        exact .of_glued hword hmove hus₁ hts₁ (by rwa [hkind']) htext hB hrest
      · have hbrace : loop.brace.shape = (.operator, "\x7d") := Token.isOperator_iff.mp site.brace
        rw [Change.tokens, List.mem_singleton] at htoken
        simp [Token.isOperator_eq_decide, htoken, hbrace]

/-! ## Optimised texts -/

theorem laidOut_optimizeText (settings : EditorSettings) (text : List Char) :
    LaidOut settings (optimizeText settings text) := by
  unfold optimizeText
  dsimp only
  split
  · exact laidOut_formatText _
  · exact laidOut_formatText _

theorem countedLoops_optimizeText (settings : EditorSettings) (source : String) :
    countedLoops (significantTokens (tokensFrom 0 (optimizeText settings source.toList))) = [] := by
  have hts := significantTokens_formatText settings source
  generalize formattedTokens settings source = ts at hts
  have hreads : Reads 0 (formatText settings source.toList) ts := hts ▸ reads_significantTokens 0 _
  obtain ⟨all, hperm, hrewritten⟩ := exists_rewritten_optimizeText settings source.toList hts
  have hsite : ∀ change ∈ all, Nonempty (LoopSite ts change.loop) := fun change hchange =>
    exists_site (loop_mem_of_mem_finalChanges (hperm.mem_iff.mp hchange))
  have hedited : Edited (fun t => ∃ loop ∈ countedLoops ts, loop.semicolon = t) ts
      (significantTokens (tokensFrom 0 (optimizeText settings source.toList))) := by
    refine hrewritten.edited hreads ⟨[], rfl⟩ hsite ?_ (map_shape_significantTokens 0 _)
    rintro t - ⟨loop, hloop, rfl⟩
    obtain ⟨site⟩ := exists_site hloop
    refine ⟨site.semicolon, .removal loop, hperm.mem_iff.mpr ?_, by simp [Change.tokens]⟩
    exact List.mem_flatMap.mpr ⟨loop, hloop, by simp [finalChanges]⟩
  refine hedited.countedLoops_eq_nil (fun loop hloop => ⟨loop, hloop, rfl⟩) fun t ht => ?_
  exact (reads_significantTokens 0 _).isName ht

/-- A text without counted loops is formatted only. -/
theorem optimizeText_eq_formatText {settings : EditorSettings} {text : List Char}
    (h : countedLoops (significantTokens (tokensFrom 0 (formatText settings text))) = []) :
    optimizeText settings text = formatText settings text := by
  simp only [optimizeText, h, List.isEmpty_nil, if_true]

end Layout

/-- **Optimising once is enough.** No loop of an optimised text can be changed, so optimising the
text again leaves it as it is, and so does formatting it. -/
theorem optimize_optimize (settings : EditorSettings) (source : String) :
    optimize settings (optimize settings source) = optimize settings source ∧
      format settings (optimize settings source) = optimize settings source ∧
      Layout.countedLoops (tokenizeSignificant (optimize settings source)) = [] := by
  have hformat : Layout.formatText settings (Layout.optimizeText settings source.toList)
      = Layout.optimizeText settings source.toList :=
    (Layout.laidOut_optimizeText settings source.toList).formatText_eq
  have hloops := Layout.countedLoops_optimizeText settings source
  refine ⟨?_, ?_, ?_⟩
  · calc optimize settings (optimize settings source)
        = String.ofList (Layout.optimizeText settings
            (Layout.optimizeText settings source.toList)) := by simp [optimize]
      _ = String.ofList (Layout.formatText settings
            (Layout.optimizeText settings source.toList)) := by
          rw [Layout.optimizeText_eq_formatText (by rwa [hformat])]
      _ = optimize settings source := by rw [hformat, optimize]
  · calc format settings (optimize settings source)
        = String.ofList (Layout.formatText settings
            (Layout.optimizeText settings source.toList)) := by simp [format, optimize]
      _ = optimize settings source := by rw [hformat, optimize]
  · simpa [tokenizeSignificant, tokenize, optimize] using hloops

end SolidityTools

import SolidityTools.Proofs.Layout.Increment
import SolidityTools.Proofs.Layout.Unchecked

set_option autoImplicit false

/-! # When optimising nests blocks

A block that is put into the body of a loop holds nothing but the increment, so it is never the
outer one of two nested blocks. It is the inner one exactly if the closing brace of the loop stands
in an `unchecked` block. Loops are not looked for around their keyword, only in their body, so that
happens to every counted loop of such a block (`nestsUnchecked_optimize_iff`).
-/

namespace SolidityTools.Layout

open Text Lexer

instance (ts : List Token) (loop : CountedLoop) : Decidable (Glued ts loop) :=
  inferInstanceAs (Decidable (∃ t ∈ ts, t.isWord = true ∧ t.stop = loop.brace.start))

/-! ## Marks -/

/-- Whether the changes put a block in front of a token that is read as one. -/
def fills (all : List Token) (changes : List Change) (t : Token) : Bool :=
  changes.any fun change => change.addsAt t && !decide (Glued all change.loop)

theorem Change.mem_tokens_of_addsAt {change : Change} {t : Token} (h : change.addsAt t = true) :
    t ∈ change.tokens := by
  cases change with
  | removal loop => cases h
  | ownLine loop place indent =>
      rw [← of_decide_eq_true h]
      exact List.mem_singleton_self _
  | inline loop =>
      rw [← of_decide_eq_true h]
      exact List.mem_singleton_self _

/-- Nothing is put in front of a token before the first change. -/
theorem fills_eq_false {all ts₁ ts₂ : List Token} {changes : List Change}
    (hordered : Ordered (ts₁ ++ ts₂)) (hmem : ∀ change ∈ changes, ∀ u ∈ change.tokens, u ∈ ts₂)
    {t : Token} (ht : t ∈ ts₁) : fills all changes t = false := by
  rw [fills, List.any_eq_false]
  intro change hchange
  rw [Bool.and_eq_true, not_and_or]
  left
  -- the brace in front of which a block is put would stand behind the token
  intro hadds
  have hpos := hordered.left.start_lt_stop t ht
  have := hordered.stop_le_start ht (hmem change hchange t (Change.mem_tokens_of_addsAt hadds))
  omega

theorem marks_congr {filled filled' : Token → Bool} {ts : List Token}
    (h : ∀ t ∈ ts, filled t = filled' t) : marks filled ts = marks filled' ts := by
  apply List.map_congr_left
  intro t ht
  rw [h t ht]

theorem map_mark_shape (ts : List Token) :
    (ts.map Token.shape).map (mark false) = marks (fun _ => false) ts := by
  rw [List.map_map]
  rfl

theorem scan_append (A B : List Mark) : scan (A ++ B) = A.foldr Scan.step (scan B) :=
  List.foldr_append

theorem scan_blockShapes (counter : String) (B : List Mark) :
    scan ((blockShapes counter).map (mark false) ++ B)
      = { scan B with front := none, inner := true } := by
  have hmarks : (blockShapes counter).map (mark false)
      = [.keyword, .opener, .other, .other, .other, .closer false] := by
    simp [blockShapes, mark]
  rw [hmarks, scan_append]
  simp [Scan.step]

theorem scan_tail_blockShapes (counter : String) (B : List Mark) :
    scan ((blockShapes counter).tail.map (mark false) ++ B)
      = { scan B with front := some false } := by
  have hmarks : (blockShapes counter).tail.map (mark false)
      = [.opener, .other, .other, .other, .closer false] := by
    simp [blockShapes, mark]
  rw [hmarks, scan_append]
  simp [Scan.step]

/-- A token that is no brace and no keyword `unchecked` has no mark. -/
theorem mark_of_text_ne {shape : TokenKind × String} (hunchecked : shape ≠ (.keyword, "unchecked"))
    (hopen : shape.2 ≠ "\x7b") (hclose : shape.2 ≠ "\x7d") (filled : Bool) :
    mark filled shape = .other := by
  have hopen' : shape ≠ (.operator, "\x7b") := fun h => hopen (congrArg Prod.snd h)
  have hclose' : shape ≠ (.operator, "\x7d") := fun h => hclose (congrArg Prod.snd h)
  rw [mark, if_neg hunchecked, if_neg hopen', if_neg hclose']

/-- Only an operator is a brace. -/
theorem mark_of_kind_ne {shape : TokenKind × String} (hunchecked : shape ≠ (.keyword, "unchecked"))
    (hkind : shape.1 ≠ .operator) (filled : Bool) : mark filled shape = .other := by
  have hne : ∀ text, shape ≠ (.operator, text) := fun text h => hkind (congrArg Prod.fst h)
  rw [mark, if_neg hunchecked, if_neg (hne _), if_neg (hne _)]

theorem mark_brace {t : Token} (ht : t.isOperator "\x7d" = true) (filled : Bool) :
    mark filled t.shape = .closer filled := by
  rw [Token.shape_of_isOperator ht]
  rfl

theorem marks_brace_cons {brace : Token} (hbrace : brace.isOperator "\x7d" = true)
    (filled : Token → Bool) (ts : List Token) :
    marks filled (brace :: ts) = .closer (filled brace) :: marks filled ts := by
  rw [← mark_brace hbrace]
  rfl

/-- Tokens without a mark are passed, if the scan does not wait for an opening brace. -/
theorem scan_others_append {A B : List Mark} (hA : ∀ m ∈ A, m = .other)
    (hB : (scan B).front = none) : scan (A ++ B) = scan B := by
  induction A with
  | nil => rfl
  | cons m A ih =>
      have hm : m = .other := hA m List.mem_cons_self
      have hrest := ih fun m hm => hA m (List.mem_cons_of_mem _ hm)
      show (scan (A ++ B)).step m = scan B
      rw [hrest, hm, Scan.step, ← hB]

theorem LoopSite.mark_increment {F : List Char} {ts : List Token} {loop : CountedLoop}
    (hreads : Reads 0 F ts) (site : LoopSite ts loop) (filled : Bool) :
    mark filled site.a.shape = .other ∧ mark filled site.b.shape = .other := by
  have hname := site.isName hreads
  have hcounter : ∀ t : Token, t.text = loop.counter → mark filled t.shape = .other := by
    intro t ht
    refine mark_of_text_ne (fun h => ?_) ?_ ?_ filled
    · -- `unchecked` is a keyword, so no counter is called that
      have htext : loop.counter = "unchecked" := ht.symm.trans (congrArg Prod.snd h)
      have hkeyword := hname.keyword
      rw [htext] at hkeyword
      revert hkeyword
      decide
    · rw [Token.shape, ht]
      exact ne_of_isName hname (by decide)
    · rw [Token.shape, ht]
      exact ne_of_isName hname (by decide)
  have hplus : ∀ t : Token, t.isOperator "++" = true → mark filled t.shape = .other := by
    intro t ht
    rw [Token.shape_of_isOperator ht]
    rfl
  have hincrement := site.increment
  simp only [isIncrement, Bool.or_eq_true, Bool.and_eq_true, beq_iff_eq] at hincrement
  rcases hincrement with ⟨ha, hb⟩ | ⟨ha, hb⟩
  · exact ⟨hcounter _ ha, hplus _ hb⟩
  · exact ⟨hplus _ ha, hcounter _ hb⟩

/-! ## The scan of the changed tokens -/

section Scan

variable {all ts₁ ts₂ : List Token} {rest : List Change}

/-- In front of the changes nothing is put in. -/
theorem marks_front {changes : List Change} (hordered : Ordered (ts₁ ++ ts₂))
    (hmem : ∀ change ∈ changes, ∀ u ∈ change.tokens, u ∈ ts₂) :
    marks (fills all changes) (ts₁ ++ ts₂)
      = (ts₁.map Token.shape).map (mark false) ++ marks (fills all changes) ts₂ := by
  rw [marks, List.map_append, map_mark_shape]
  congr 1
  exact marks_congr fun t ht => fills_eq_false hordered hmem ht

theorem fills_removal (loop : CountedLoop) (t : Token) :
    fills all (.removal loop :: rest) t = fills all rest t := by
  simp [fills, Change.addsAt]

/-- A block that runs together with a word is none. -/
theorem fills_glued {loop : CountedLoop} (hglued : Glued all loop) (t : Token) :
    fills all (.inline loop :: rest) t = fills all rest t := by
  simp [fills, Change.loop, hglued]

theorem scan_blanks_brace {blanks : List Token} {brace : Token} (filled : Token → Bool)
    (hbrace : brace.isOperator "\x7d" = true)
    (hblanks : ∀ t ∈ blanks, t.text.toList.all isBlank = true) :
    scan (marks filled (blanks ++ brace :: ts₂))
      = (scan (marks filled ts₂)).step (.closer (filled brace)) := by
  have hothers : ∀ m ∈ marks filled blanks, m = .other := by
    intro m hm
    obtain ⟨t, ht, rfl⟩ := List.mem_map.mp hm
    have hne : ∀ text : String, text.toList.all isBlank = false → t.text ≠ text := by
      rintro text htext rfl
      rw [hblanks t ht] at htext
      cases htext
    exact mark_of_text_ne (fun h => hne "unchecked" (by decide) (congrArg Prod.snd h))
      (hne "\x7b" (by decide)) (hne "\x7d" (by decide)) _
  rw [marks, List.map_append]
  refine (scan_others_append hothers ?_).trans ?_
  · show (scan (marks filled (brace :: ts₂))).front = none
    rw [marks_brace_cons hbrace]
    rfl
  · show scan (marks filled (brace :: ts₂)) = _
    rw [marks_brace_cons hbrace]
    rfl

theorem scan_word_brace {word brace : Token} (filled : Token → Bool) (hword : word.isWord = true)
    (hbrace : brace.isOperator "\x7d" = true) :
    scan (marks filled (word :: brace :: ts₂)) = scan (marks filled (brace :: ts₂)) := by
  have hkind : word.kind ≠ .operator := by
    intro h
    simp [Token.isWord, h] at hword
  have hcases : mark (filled word) word.shape = .keyword ∨
      mark (filled word) word.shape = .other := by
    by_cases hunchecked : word.shape = (.keyword, "unchecked")
    · left
      rw [mark, if_pos hunchecked]
    · right
      exact mark_of_kind_ne hunchecked hkind _
  show (scan (marks filled (brace :: ts₂))).step (mark (filled word) word.shape) = _
  rw [marks_brace_cons hbrace]
  -- the keyword looks for an opening brace behind it, and finds a closing one
  rcases hcases with h | h
  · rw [h]
    simp [scan, Scan.step]
  · rw [h]
    rfl

/-- A word with a block glued to it is passed, and so is what is left of the block. -/
theorem scan_glued {word : String} {kind : TokenKind} (hkind : kind ≠ .operator) (hword : word ≠ "")
    (counter : String) (B : List Mark) (hB : (scan B).front = none) :
    scan (((kind, word ++ "unchecked") :: ((blockShapes counter).tail)).map (mark false) ++ B)
      = scan B := by
  have hunchecked : ((kind, word ++ "unchecked") : TokenKind × String)
      ≠ (.keyword, "unchecked") := by
    intro h
    have hlen := congrArg (List.length ∘ String.toList ∘ Prod.snd) h
    simp at hlen
    exact hword hlen
  have hmark := mark_of_kind_ne hunchecked hkind false
  rw [List.map_cons, List.cons_append, hmark]
  show (scan ((blockShapes counter).tail.map (mark false) ++ B)).step .other = scan B
  rw [scan_tail_blockShapes, Scan.step, ← hB]

/-- Leaving an increment out changes nothing. -/
theorem scan_removal {increment : List Token} {loop : CountedLoop} {R : List (TokenKind × String)}
    (hordered : Ordered ((ts₁ ++ [loop.semicolon]) ++ (increment ++ loop.paren :: ts₂)))
    (hmem : ∀ change ∈ rest, ∀ u ∈ change.tokens, u ∈ loop.paren :: ts₂)
    (hparen : loop.paren.isOperator ")" = true)
    (hothers : ∀ filled, ∀ t ∈ increment, mark filled t.shape = .other)
    (hscan : scan (R.map (mark false)) = scan (marks (fills all rest) (loop.paren :: ts₂))) :
    scan (((ts₁ ++ [loop.semicolon]).map Token.shape ++ R).map (mark false))
      = scan (marks (fills all (.removal loop :: rest))
          ((ts₁ ++ [loop.semicolon]) ++ (increment ++ loop.paren :: ts₂))) := by
  have hmem' : ∀ change ∈ rest, ∀ u ∈ change.tokens, u ∈ increment ++ loop.paren :: ts₂ :=
    fun change hchange u hu => List.mem_append_right _ (hmem change hchange u hu)
  have hincrement : scan (marks (fills all rest) (increment ++ loop.paren :: ts₂))
      = scan (marks (fills all rest) (loop.paren :: ts₂)) := by
    rw [marks, List.map_append]
    refine scan_others_append (fun m hm => ?_) ?_
    · obtain ⟨t, ht, rfl⟩ := List.mem_map.mp hm
      exact hothers _ t ht
    · rw [List.map_cons, Token.shape_of_isOperator hparen]
      rfl
  rw [marks_congr fun t _ => fills_removal loop t, marks_front hordered hmem', List.map_append,
    scan_append, scan_append, hincrement, hscan]

/-- Putting a block in fills the brace. -/
theorem scan_addition {blanks : List Token} {change : Change} {R : List (TokenKind × String)}
    (hchange : change ≠ .removal change.loop) (hglued : ¬Glued all change.loop)
    (hordered : Ordered (ts₁ ++ (blanks ++ change.loop.brace :: ts₂)))
    (hmem : ∀ c ∈ rest, ∀ u ∈ c.tokens, u ∈ blanks ++ change.loop.brace :: ts₂)
    (hbrace : change.loop.brace.isOperator "\x7d" = true)
    (hblanks : ∀ t ∈ blanks, t.text.toList.all isBlank = true)
    (hscan : scan (R.map (mark false))
      = scan (marks (fills all rest) (blanks ++ change.loop.brace :: ts₂))) :
    scan ((ts₁.map Token.shape ++ (blockShapes change.loop.counter ++ R)).map (mark false))
      = scan (marks (fills all (change :: rest))
          (ts₁ ++ (blanks ++ change.loop.brace :: ts₂))) := by
  have hmem' : ∀ c ∈ change :: rest, ∀ u ∈ c.tokens, u ∈ blanks ++ change.loop.brace :: ts₂ := by
    intro c hc u hu
    rcases List.mem_cons.mp hc with rfl | hc
    · rw [Change.tokens_of_ne hchange, List.mem_singleton] at hu
      rw [hu]
      simp
    · exact hmem c hc u hu
  -- of all tokens from the cut on, only the brace is filled anew
  have hat : fills all (change :: rest) change.loop.brace = true := by
    simp [fills, Change.addsAt_of_ne hchange, hglued]
  have hbehind : marks (fills all (change :: rest)) ts₂ = marks (fills all rest) ts₂ := by
    apply marks_congr
    intro t ht
    have hlast : Ordered ([change.loop.brace] ++ ts₂) := hordered.right.right
    have hne : change.loop.brace ≠ t := by
      rintro rfl
      have hpos := hlast.start_lt_stop change.loop.brace (by simp)
      have hle := hlast.stop_le_start (List.mem_singleton_self _) ht
      omega
    simp [fills, Change.addsAt_of_ne hchange, hne]
  rw [marks_front hordered hmem', List.map_append, List.map_append,
    scan_append ((ts₁.map Token.shape).map (mark false)),
    scan_append ((ts₁.map Token.shape).map (mark false)), scan_blockShapes, hscan,
    scan_blanks_brace _ hbrace hblanks, scan_blanks_brace _ hbrace hblanks, hat, hbehind]
  rfl

/-- Putting a block in that runs together with a word fills nothing. -/
theorem scan_glued_addition {word : Token} {loop : CountedLoop} {kind : TokenKind}
    {R : List (TokenKind × String)} (hglued : Glued all loop)
    (hordered : Ordered (ts₁ ++ word :: loop.brace :: ts₂))
    (hmem : ∀ c ∈ rest, ∀ u ∈ c.tokens, u ∈ loop.brace :: ts₂)
    (hbrace : loop.brace.isOperator "\x7d" = true) (hword : word.isWord = true)
    (hkind : kind ≠ .operator)
    (hscan : scan (R.map (mark false)) = scan (marks (fills all rest) (loop.brace :: ts₂))) :
    scan ((ts₁.map Token.shape ++ (kind, word.text ++ "unchecked") ::
        ((blockShapes loop.counter).tail ++ R)).map (mark false))
      = scan (marks (fills all (.inline loop :: rest)) (ts₁ ++ word :: loop.brace :: ts₂)) := by
  have hmem' : ∀ c ∈ rest, ∀ u ∈ c.tokens, u ∈ word :: loop.brace :: ts₂ :=
    fun c hc u hu => List.mem_cons_of_mem _ (hmem c hc u hu)
  have htext : word.text ≠ "" := by
    intro h
    have hpos := hordered.start_lt_stop word (by simp)
    rw [Token.stop, h] at hpos
    simp at hpos
  -- without its keyword the block is a group of its own, which the scan forgets at the next token
  have hfront : (scan (R.map (mark false))).front = none := by
    rw [hscan, marks, List.map_cons, mark_brace hbrace]
    rfl
  have hglue := scan_glued hkind htext loop.counter (R.map (mark false)) hfront
  rw [← List.map_append, List.cons_append] at hglue
  rw [marks_congr fun t _ => fills_glued hglued t, marks_front hordered hmem', List.map_append,
    scan_append, scan_append, hglue, hscan, scan_word_brace _ hword hbrace]

/-- **The scan of the tokens afterwards** is the scan of the tokens before that puts the blocks
in. -/
theorem Rewritten.scan_eq {F : List Char} {ts : List Token} {changes : List Change}
    {R : List (TokenKind × String)} (h : Rewritten all ts changes R) (hreads : Reads 0 F all)
    (hsuffix : ∃ front, all = front ++ ts)
    (hsite : ∀ change ∈ changes, Nonempty (LoopSite all change.loop)) :
    scan (R.map (mark false)) = scan (marks (fills all changes) ts) := by
  have hordered : Ordered ts := by
    obtain ⟨front, hfront⟩ := hsuffix
    exact (hfront ▸ hreads.ordered).right
  -- the induction is on the changes: one lemma for each says what it does to the scan
  induction h with
  | done =>
      rw [map_mark_shape]
      rfl
  | @removal ts₁ increment ts₂ rest R loop h ih =>
      obtain ⟨front, hfront⟩ := hsuffix
      obtain ⟨site⟩ := hsite _ List.mem_cons_self
      have hincrement : increment = [site.a, site.b] :=
        site.eq_increment hreads.ordered.nodup (hfront.trans (List.append_assoc front ts₁ _).symm)
      have hsplit : ts₁ ++ loop.semicolon :: (increment ++ loop.paren :: ts₂)
          = (ts₁ ++ [loop.semicolon]) ++ (increment ++ loop.paren :: ts₂) := by simp
      rw [hsplit] at hfront hordered ⊢
      have hscan := ih ⟨front ++ ((ts₁ ++ [loop.semicolon]) ++ increment), by rw [hfront]; simp⟩
        (fun c hc => hsite c (List.mem_cons_of_mem _ hc)) hordered.right.right
      have hothers : ∀ filled, ∀ t ∈ increment, mark filled t.shape = .other := by
        intro filled t ht
        rw [hincrement] at ht
        simp only [List.mem_cons, List.not_mem_nil, or_false] at ht
        rcases ht with rfl | rfl
        · exact (site.mark_increment hreads filled).1
        · exact (site.mark_increment hreads filled).2
      have := scan_removal hordered h.mem_of_mem_tokens site.paren hothers hscan
      simpa using this
  | @addition ts₁ blanks ts₂ rest R change hchange hglued hblanks h ih =>
      obtain ⟨front, hfront⟩ := hsuffix
      obtain ⟨site⟩ := hsite _ List.mem_cons_self
      have hscan := ih ⟨front ++ ts₁, by rw [hfront, List.append_assoc]⟩
        (fun c hc => hsite c (List.mem_cons_of_mem _ hc)) hordered.right
      exact scan_addition hchange hglued hordered h.mem_of_mem_tokens site.brace hblanks hscan
  | @glued ts₁ ts₂ word rest R loop kind hword hstop hkind hglued h ih =>
      obtain ⟨front, hfront⟩ := hsuffix
      obtain ⟨site⟩ := hsite _ List.mem_cons_self
      have htail : Ordered (loop.brace :: ts₂) := by
        rw [List.append_cons] at hordered
        exact hordered.right
      have hscan := ih ⟨front ++ (ts₁ ++ [word]), by rw [hfront]; simp⟩
        (fun c hc => hsite c (List.mem_cons_of_mem _ hc)) htail
      exact scan_glued_addition hglued hordered h.mem_of_mem_tokens site.brace hword hkind hscan

end Scan

/-! ## The blocks of all loops -/

/-- The brace that closes the body of a loop closes no `unchecked` block. -/
theorem LoopSite.brace_ne_closer {ts : List Token} {loop : CountedLoop} (site : LoopSite ts loop)
    (hnodup : ts.Nodup) {block : Group} (hblock : block ∈ uncheckedBlocks ts) :
    loop.brace ≠ block.closer := by
  intro h
  obtain ⟨front, keyword, brace, us, hts, hkeyword, hbrace, hg⟩ :=
    exists_of_mem_uncheckedBlocks hblock
  rw [List.append_cons] at hts
  have heq : site.header = front ++ [keyword] :=
    Group.eq_of_closer_eq hnodup site.eq_header_append hts site.braceOpener_brace hbrace
      site.braces hg h
  -- the one brace stands behind a parenthesis, the other one behind a keyword
  have hlast := congrArg List.getLast? heq
  simp only [header, List.getLast?_append, List.getLast?_cons_cons, List.getLast?_singleton,
    Option.some_or, Option.some.injEq] at hlast
  have hparen := site.paren
  rw [Token.isOperator_iff] at hparen
  rw [← hlast, Token.isKeyword_iff, hparen] at hkeyword
  cases hkeyword

theorem fills_eq_true_iff {settings : EditorSettings} {F : List Char} {ts : List Token}
    {loops : List CountedLoop} {changes : List Change}
    (hperm : changes.Perm (loops.flatMap (finalChanges settings F))) {t : Token} :
    fills ts changes t = true ↔ ∃ loop ∈ loops, ¬Glued ts loop ∧ loop.brace = t := by
  rw [fills, hperm.any_eq, List.any_flatMap, List.any_eq_true]
  refine exists_congr fun loop => and_congr_right fun _ => ?_
  obtain ⟨hloop, -, hadds⟩ := @relaid_addition settings F loop t
  have hremoval : (Change.removal loop).addsAt t = false := rfl
  simp [finalChanges, hloop, hadds, hremoval, and_comm]

/-- **Optimising nests blocks where a counted loop stands in a block**: afterwards an `unchecked`
block stands inside another one exactly if that was so before, or if the closing brace of a counted
loop stands in an `unchecked` block and does not follow a word directly. -/
theorem nestsUnchecked_optimize_iff (settings : EditorSettings) (source : String) :
    NestsUnchecked (tokenizeSignificant (optimize settings source)) ↔
      NestsUnchecked (formattedTokens settings source) ∨
        ∃ loop ∈ countedLoops (formattedTokens settings source),
          ¬Glued (formattedTokens settings source) loop ∧
          ∃ block ∈ uncheckedBlocks (formattedTokens settings source),
            loop.brace ∈ block.inside := by
  have hts := significantTokens_formatText settings source
  generalize formattedTokens settings source = ts at hts ⊢
  have hreads : Reads 0 (formatText settings source.toList) ts := hts ▸ reads_significantTokens 0 _
  obtain ⟨all, hperm, hrewritten⟩ := exists_rewritten_optimizeText settings source.toList hts
  have hsite : ∀ change ∈ all, Nonempty (LoopSite ts change.loop) := fun change hchange =>
    exists_site (loop_mem_of_mem_finalChanges (hperm.mem_iff.mp hchange))
  have hfilled : ∀ t, fills ts all t = true → t.isOperator "\x7d" = true := by
    intro t ht
    obtain ⟨loop, hloop, -, rfl⟩ := (fills_eq_true_iff hperm).mp ht
    obtain ⟨site⟩ := exists_site hloop
    exact site.brace
  -- the scan of the tokens afterwards, read as a statement about the blocks before
  have hscan : NestsUnchecked (tokenizeSignificant (optimize settings source)) ↔
      ∃ block ∈ uncheckedBlocks ts, Holds (fills ts all) block := by
    rw [nestsUnchecked_iff_scan, ← map_mark_shape, map_shape_tokenizeSignificant_optimize,
      hrewritten.scan_eq hreads ⟨[], rfl⟩ hsite, (describes_scan hfilled ts).nested]
  rw [hscan]
  constructor
  · rintro ⟨block, hblock, hinner | ⟨t, ht, hfills⟩⟩
    · exact Or.inl ⟨block, hblock, hinner⟩
    · obtain ⟨loop, hloop, hglued, rfl⟩ := (fills_eq_true_iff hperm).mp hfills
      obtain ⟨site⟩ := exists_site hloop
      rcases List.mem_append.mp ht with hinside | hcloser
      · -- the block comes to stand in this one
        exact Or.inr ⟨loop, hloop, hglued, block, hblock, hinside⟩
      · exact absurd (List.mem_singleton.mp hcloser)
          (site.brace_ne_closer hreads.ordered.nodup hblock)
  · rintro (⟨block, hblock, hinner⟩ | ⟨loop, hloop, hglued, block, hblock, hinside⟩)
    · exact ⟨block, hblock, Or.inl hinner⟩
    · exact ⟨block, hblock, Or.inr ⟨loop.brace, List.mem_append_left _ hinside,
        (fills_eq_true_iff hperm).mpr ⟨loop, hloop, hglued, rfl⟩⟩⟩

/-- A loop in a block: nothing is nested before, but it is afterwards. -/
theorem nestsUnchecked_optimize_block :
    ¬NestsUnchecked (formattedTokens .standard
        "unchecked \x7b for (uint i = 0; i < n; i++) \x7b x; \x7d \x7d") ∧
      NestsUnchecked (tokenizeSignificant (optimize .standard
        "unchecked \x7b for (uint i = 0; i < n; i++) \x7b x; \x7d \x7d")) := by
  decide +kernel

end SolidityTools.Layout

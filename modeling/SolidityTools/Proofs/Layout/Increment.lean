import SolidityTools.Proofs.Layout.Rewrite
import Mathlib.Data.List.Chain

set_option autoImplicit false

/-! # Moving the increments

What optimising does to the significant tokens can be said of every token for itself, without
regard to how the loops are nested or which of them share a line: a token of an increment is left
out, and the blocks of the loops that a brace closes are put in front of the brace
(`moveIncrements`). This is so if every changed body ends as a statement or a block does. In front
of such an end there is no word that the block could run together with.
-/

namespace SolidityTools.Layout

open Text Lexer

/-! ## The tokens afterwards -/

/-- Whether a token belongs to the increment in the header of a loop: it stands between the last
semicolon and the closing parenthesis. -/
def CountedLoop.inIncrement (loop : CountedLoop) (t : Token) : Bool :=
  decide (loop.semicolon.stop ≤ t.start) && decide (t.start < loop.paren.start)

/-- What becomes of a token when the increments of loops are moved. -/
def movedToken (loops : List CountedLoop) (t : Token) : List (TokenKind × String) :=
  if loops.any (·.inIncrement t) then []
  else (loops.filter (·.brace = t)).flatMap (blockShapes ·.counter) ++ [t.shape]

/-- What becomes of tokens when the increments of loops are moved. -/
def moveIncrements (loops : List CountedLoop) (ts : List Token) : List (TokenKind × String) :=
  ts.flatMap (movedToken loops)

/-- In front of the closing brace of a loop stands the end of a statement or of a block, or the
body is empty. -/
def EndsStatement (ts : List Token) (loop : CountedLoop) : Prop :=
  ts.IsChain fun t u => u = loop.brace → t.isOperatorIn [";", "\x7b", "\x7d"] = true

instance (ts : List Token) (loop : CountedLoop) : Decidable (EndsStatement ts loop) :=
  inferInstanceAs (Decidable (ts.IsChain _))

theorem EndsStatement.isOperatorIn {ts front back : List Token} {t : Token} {loop : CountedLoop}
    (h : EndsStatement ts loop) (hts : ts = front ++ t :: loop.brace :: back) :
    t.isOperatorIn [";", "\x7b", "\x7d"] = true := by
  rw [EndsStatement, hts, List.isChain_append_cons_cons] at h
  exact h.2.1 rfl

/-! ## The increment of a loop -/

theorem CountedLoop.inIncrement_eq_true_iff {loop : CountedLoop} {t : Token} :
    loop.inIncrement t = true ↔ loop.semicolon.stop ≤ t.start ∧ t.start < loop.paren.start := by
  rw [inIncrement, Bool.and_eq_true, decide_eq_true_eq, decide_eq_true_eq]

theorem CountedLoop.inIncrement_eq_false_iff {loop : CountedLoop} {t : Token} :
    loop.inIncrement t = false ↔ t.start < loop.semicolon.stop ∨ loop.paren.start ≤ t.start := by
  rw [← Bool.not_eq_true, inIncrement_eq_true_iff]
  omega

/-- The tokens of the increment are those between the semicolon and the parenthesis. -/
theorem inIncrement_of_ordered {ts₁ increment ts₂ : List Token} {loop : CountedLoop}
    (h : Ordered ((ts₁ ++ [loop.semicolon]) ++ (increment ++ loop.paren :: ts₂))) :
    (∀ t ∈ ts₁ ++ [loop.semicolon], loop.inIncrement t = false) ∧
      (∀ t ∈ increment, loop.inIncrement t = true) ∧
      ∀ t ∈ loop.paren :: ts₂, loop.inIncrement t = false := by
  -- every token has a byte at least, so what ends in front of another one also begins there
  refine ⟨fun t ht => ?_, fun t ht => ?_, fun t ht => ?_⟩
  · rw [CountedLoop.inIncrement_eq_false_iff]
    have hpos := h.left.start_lt_stop t ht
    rcases List.mem_append.mp ht with ht | ht
    · have hle := h.left.stop_le_start ht (List.mem_singleton_self _)
      have hsemicolon := h.left.start_lt_stop loop.semicolon (by simp)
      omega
    · rw [List.mem_singleton.mp ht] at hpos ⊢
      omega
  · rw [CountedLoop.inIncrement_eq_true_iff]
    have hleft := h.stop_le_start (List.mem_append_right ts₁ (List.mem_singleton_self _))
      (List.mem_append_left _ ht)
    have hright := h.right.stop_le_start ht List.mem_cons_self
    have hpos := h.right.start_lt_stop t (List.mem_append_left _ ht)
    omega
  · rw [CountedLoop.inIncrement_eq_false_iff]
    rcases List.mem_cons.mp ht with rfl | ht
    · exact Or.inr le_rfl
    · have hparen : Ordered ([loop.paren] ++ ts₂) := h.right.right
      have hle := hparen.stop_le_start (List.mem_singleton_self _) ht
      have hpos := hparen.start_lt_stop loop.paren (by simp)
      omega

theorem filter_inIncrement_append {ts₁ increment ts₂ : List Token} {loop : CountedLoop}
    (h : Ordered ((ts₁ ++ [loop.semicolon]) ++ (increment ++ loop.paren :: ts₂))) :
    ((ts₁ ++ [loop.semicolon]) ++ (increment ++ loop.paren :: ts₂)).filter loop.inIncrement
      = increment := by
  obtain ⟨hbefore, hbetween, hbehind⟩ := inIncrement_of_ordered h
  have hnil : ∀ {us : List Token}, (∀ t ∈ us, loop.inIncrement t = false) →
      us.filter loop.inIncrement = [] := by
    intro us hus
    rw [List.filter_eq_nil_iff]
    intro t ht
    rw [hus t ht]
    exact Bool.false_ne_true
  rw [List.filter_append, hnil hbefore, List.filter_append, hnil hbehind,
    List.filter_eq_self.mpr hbetween, List.nil_append, List.append_nil]

/-! ## The changes of a token -/

def Change.removes (t : Token) : Change → Bool
  | .removal loop => loop.inIncrement t
  | .ownLine _ _ _ => false
  | .inline _ => false

def Change.addsAt (t : Token) : Change → Bool
  | .removal _ => false
  | .ownLine loop _ _ => decide (loop.brace = t)
  | .inline loop => decide (loop.brace = t)

/-- What becomes of a token by some changes. -/
def changedToken (changes : List Change) (t : Token) : List (TokenKind × String) :=
  if changes.any (Change.removes t) then []
  else (changes.filter (Change.addsAt t)).flatMap (blockShapes ·.loop.counter) ++ [t.shape]

theorem Change.tokens_of_ne {change : Change} (h : change ≠ .removal change.loop) :
    change.tokens = [change.loop.brace] := by
  cases change with
  | removal loop => exact absurd rfl h
  | ownLine loop place indent => rfl
  | inline loop => rfl

theorem Change.removes_of_ne {change : Change} (h : change ≠ .removal change.loop) (t : Token) :
    change.removes t = false := by
  cases change with
  | removal loop => exact absurd rfl h
  | ownLine loop place indent => rfl
  | inline loop => rfl

theorem Change.addsAt_of_ne {change : Change} (h : change ≠ .removal change.loop) (t : Token) :
    change.addsAt t = decide (change.loop.brace = t) := by
  cases change with
  | removal loop => exact absurd rfl h
  | ownLine loop place indent => rfl
  | inline loop => rfl

/-- A change that does nothing to a token can be left out. -/
theorem changedToken_cons {change : Change} {t : Token} (hremoves : change.removes t = false)
    (hadds : change.addsAt t = false) (changes : List Change) :
    changedToken (change :: changes) t = changedToken changes t := by
  simp [changedToken, hremoves, hadds]

theorem changedToken_of_lt {changes : List Change} {t : Token}
    (hlt : ∀ change ∈ changes, ∀ u ∈ change.tokens, t.start < u.start) :
    changedToken changes t = [t.shape] := by
  induction changes with
  | nil => rfl
  | cons change changes ih =>
      have hchange := hlt change List.mem_cons_self
      rw [changedToken_cons _ _ changes,
        ih fun c hc => hlt c (List.mem_cons_of_mem _ hc)]
      · cases change with
        | removal loop =>
            have hstart := hchange loop.semicolon (by simp [Change.tokens])
            have hle : loop.semicolon.start ≤ loop.semicolon.stop := by
              unfold Token.stop
              omega
            rw [Change.removes, CountedLoop.inIncrement_eq_false_iff]
            omega
        | ownLine loop place indent => rfl
        | inline loop => rfl
      · have hne : ∀ loop : CountedLoop, loop.brace ∈ change.tokens → loop.brace ≠ t := by
          rintro loop hmem rfl
          exact absurd (hchange _ hmem) (Nat.lt_irrefl _)
        cases change with
        | removal loop => rfl
        | ownLine loop place indent => exact decide_eq_false (hne loop (by simp [Change.tokens]))
        | inline loop => exact decide_eq_false (hne loop (by simp [Change.tokens]))

theorem any_removes_eq_false {changes : List Change} {t : Token} (hpos : t.start < t.stop)
    (hle : ∀ change ∈ changes, ∀ u ∈ change.tokens, u = t ∨ t.stop ≤ u.start) :
    changes.any (Change.removes t) = false := by
  rw [List.any_eq_false]
  intro change hchange
  cases change with
  | removal loop =>
      have hmem := hle _ hchange loop.semicolon (by simp [Change.tokens])
      have hle : loop.semicolon.start ≤ loop.semicolon.stop := by
        unfold Token.stop
        omega
      rw [Bool.not_eq_true, Change.removes, CountedLoop.inIncrement_eq_false_iff]
      rcases hmem with heq | hlt
      · rw [heq]
        omega
      · omega
  | ownLine loop place indent => simp [Change.removes]
  | inline loop => simp [Change.removes]

/-! ## All tokens -/

theorem Rewritten.mem_of_mem_tokens {all ts : List Token} {changes : List Change}
    {R : List (TokenKind × String)} (h : Rewritten all ts changes R) :
    ∀ change ∈ changes, ∀ t ∈ change.tokens, t ∈ ts := by
  induction h with
  | done => simp
  | @removal ts₁ increment ts₂ rest R loop h ih =>
      intro change hchange t ht
      rcases List.mem_cons.mp hchange with rfl | hchange
      · simp only [Change.tokens, List.mem_cons, List.not_mem_nil, or_false] at ht
        rcases ht with rfl | rfl <;> simp
      · have := ih change hchange t ht
        simp only [List.mem_append, List.mem_cons] at this ⊢
        exact Or.inr (Or.inr (Or.inr this))
  | @addition ts₁ blanks ts₂ rest R change hchange hglued hblanks h ih =>
      intro change' hchange' t ht
      rcases List.mem_cons.mp hchange' with rfl | hchange'
      · rw [Change.tokens_of_ne hchange, List.mem_singleton] at ht
        rw [ht]
        simp
      · exact List.mem_append_right _ (ih change' hchange' t ht)
  | @glued ts₁ ts₂ word rest R loop kind hword hstop hkind hglued h ih =>
      intro change hchange t ht
      rcases List.mem_cons.mp hchange with rfl | hchange
      · rw [Change.tokens, List.mem_singleton] at ht
        rw [ht]
        simp
      · exact List.mem_append_right _ (List.mem_cons_of_mem _ (ih change hchange t ht))

theorem flatMap_changedToken_removal {ts₁ increment ts₂ : List Token} {rest : List Change}
    {loop : CountedLoop}
    (hordered : Ordered ((ts₁ ++ [loop.semicolon]) ++ (increment ++ loop.paren :: ts₂)))
    (hmem : ∀ change ∈ rest, ∀ u ∈ change.tokens, u ∈ loop.paren :: ts₂) :
    ((ts₁ ++ [loop.semicolon]) ++ (increment ++ loop.paren :: ts₂)).flatMap
        (changedToken (.removal loop :: rest))
      = (ts₁ ++ [loop.semicolon]).map Token.shape
        ++ (loop.paren :: ts₂).flatMap (changedToken rest) := by
  obtain ⟨hbefore, hbetween, hbehind⟩ := inIncrement_of_ordered hordered
  have hfirst : (ts₁ ++ [loop.semicolon]).flatMap (changedToken (.removal loop :: rest))
      = (ts₁ ++ [loop.semicolon]).map Token.shape := by
    rw [List.map_eq_flatMap]
    apply List.flatMap_congr
    intro t ht
    have hremoves : (Change.removal loop).removes t = false := hbefore t ht
    rw [changedToken_cons hremoves rfl rest, changedToken_of_lt]
    intro change hchange u hu
    have hpos := hordered.left.start_lt_stop t ht
    have hle := hordered.stop_le_start ht
      (List.mem_append_right increment (hmem change hchange u hu))
    omega
  have hincrement : increment.flatMap (changedToken (.removal loop :: rest)) = [] := by
    rw [List.flatMap_eq_nil_iff]
    intro t ht
    have hremoves : (Change.removal loop).removes t = true := hbetween t ht
    simp [changedToken, hremoves]
  have hlast : (loop.paren :: ts₂).flatMap (changedToken (.removal loop :: rest))
      = (loop.paren :: ts₂).flatMap (changedToken rest) := by
    apply List.flatMap_congr
    intro t ht
    have hremoves : (Change.removal loop).removes t = false := hbehind t ht
    exact changedToken_cons hremoves rfl rest
  rw [List.flatMap_append, hfirst, List.flatMap_append, hincrement, hlast, List.nil_append]

/-- Putting a block in does something to the brace only. -/
theorem flatMap_changedToken_addition {ts₁ ts₂ : List Token} {rest : List Change} {change : Change}
    (hchange : change ≠ .removal change.loop)
    (hordered : Ordered (ts₁ ++ change.loop.brace :: ts₂))
    (hmem : ∀ c ∈ rest, ∀ u ∈ c.tokens, u ∈ change.loop.brace :: ts₂) :
    (ts₁ ++ change.loop.brace :: ts₂).flatMap (changedToken (change :: rest))
      = ts₁.map Token.shape ++ (blockShapes change.loop.counter
        ++ (change.loop.brace :: ts₂).flatMap (changedToken rest)) := by
  have hbrace : Ordered ([change.loop.brace] ++ ts₂) := hordered.right
  have hpos := hbrace.start_lt_stop change.loop.brace (by simp)
  have hfirst : ts₁.flatMap (changedToken (change :: rest)) = ts₁.map Token.shape := by
    rw [List.map_eq_flatMap]
    apply List.flatMap_congr
    intro t ht
    apply changedToken_of_lt
    intro c hc u hu
    have hpos := hordered.left.start_lt_stop t ht
    have hu' : u ∈ change.loop.brace :: ts₂ := by
      rcases List.mem_cons.mp hc with rfl | hc
      · rw [Change.tokens_of_ne hchange, List.mem_singleton] at hu
        rw [hu]
        exact List.mem_cons_self
      · exact hmem c hc u hu
    have := hordered.stop_le_start ht hu'
    omega
  -- the brace itself stays, since every other change is made at it or behind it
  have hat : changedToken (change :: rest) change.loop.brace
      = blockShapes change.loop.counter ++ changedToken rest change.loop.brace := by
    have hrest : rest.any (Change.removes change.loop.brace) = false := by
      apply any_removes_eq_false hpos
      intro c hc u hu
      rcases List.mem_cons.mp (hmem c hc u hu) with rfl | hu
      · exact Or.inl rfl
      · exact Or.inr (hbrace.stop_le_start (List.mem_singleton_self _) hu)
    simp [changedToken, Change.removes_of_ne hchange, Change.addsAt_of_ne hchange, hrest]
  have hlast : ts₂.flatMap (changedToken (change :: rest)) = ts₂.flatMap (changedToken rest) := by
    apply List.flatMap_congr
    intro t ht
    refine changedToken_cons (Change.removes_of_ne hchange t) ?_ rest
    rw [Change.addsAt_of_ne hchange, decide_eq_false_iff_not]
    rintro rfl
    have := hbrace.stop_le_start (List.mem_singleton_self _) ht
    omega
  rw [List.flatMap_append, hfirst, List.flatMap_cons, hat, hlast, List.flatMap_cons,
    List.append_assoc]

theorem EndsStatement.eq_nil {ts front blanks back : List Token} {loop : CountedLoop}
    (h : EndsStatement ts loop) (hts : ts = front ++ (blanks ++ loop.brace :: back))
    (hblanks : ∀ t ∈ blanks, t.text.toList.all isBlank = true) : blanks = [] := by
  rcases List.eq_nil_or_concat' blanks with hnil | ⟨init, t, rfl⟩
  · exact hnil
  · -- the last blank token would be a punctuation mark
    exfalso
    have hop := @EndsStatement.isOperatorIn _ (front ++ init) back t _ h (by rw [hts]; simp)
    have hblank := hblanks t (by simp)
    simp only [Token.isOperatorIn, Bool.and_eq_true, List.contains_iff_mem, List.mem_cons,
      List.not_mem_nil, or_false] at hop
    rcases hop.2 with htext | htext | htext <;>
    · rw [htext] at hblank
      revert hblank
      decide

/-- **What the changes do can be said of each token**, if the changed bodies end as statements
do. -/
theorem Rewritten.eq_flatMap {all ts : List Token} {changes : List Change}
    {R : List (TokenKind × String)} (h : Rewritten all ts changes R) (hordered : Ordered ts)
    (hsuffix : ∃ front, all = front ++ ts)
    (hends : ∀ change ∈ changes, EndsStatement all change.loop) :
    R = ts.flatMap (changedToken changes) := by
  induction h with
  | done => exact List.map_eq_flatMap
  | @removal ts₁ increment ts₂ rest R loop h ih =>
      obtain ⟨front, hfront⟩ := hsuffix
      have hsplit : ts₁ ++ loop.semicolon :: (increment ++ loop.paren :: ts₂)
          = (ts₁ ++ [loop.semicolon]) ++ (increment ++ loop.paren :: ts₂) := by simp
      rw [hsplit] at hordered hfront ⊢
      have hR := ih hordered.right.right
        ⟨front ++ ((ts₁ ++ [loop.semicolon]) ++ increment), by rw [hfront]; simp⟩
        fun c hc => hends c (List.mem_cons_of_mem _ hc)
      rw [flatMap_changedToken_removal hordered h.mem_of_mem_tokens, ← hR]
      simp
  | @addition ts₁ blanks ts₂ rest R change hchange hglued hblanks h ih =>
      obtain ⟨front, hfront⟩ := hsuffix
      obtain rfl := (hends change List.mem_cons_self).eq_nil
        (by rw [hfront, ← List.append_assoc]) hblanks
      have hR := ih hordered.right ⟨front ++ ts₁, by rw [hfront]; simp⟩
        fun c hc => hends c (List.mem_cons_of_mem _ hc)
      rw [List.nil_append] at hordered h hR ⊢
      rw [flatMap_changedToken_addition hchange hordered h.mem_of_mem_tokens, ← hR]
  | @glued ts₁ ts₂ word rest R loop kind hword hstop hkind hglued h ih =>
      -- a word does not end a statement
      obtain ⟨front, hfront⟩ := hsuffix
      have hop := @EndsStatement.isOperatorIn _ (front ++ ts₁) ts₂ word _
        (hends _ List.mem_cons_self) (by rw [hfront]; simp [Change.loop])
      simp only [Token.isOperatorIn, Bool.and_eq_true, beq_iff_eq] at hop
      simp [Token.isWord, hop.1] at hword

/-! ## All loops -/

theorem LoopSite.filter_inIncrement {ts : List Token} {loop : CountedLoop} (site : LoopSite ts loop)
    (hordered : Ordered ts) : ts.filter loop.inIncrement = [site.a, site.b] := by
  have hts : ts = ((site.head ++ site.first :: site.condition) ++ [loop.semicolon]) ++
      ([site.a, site.b] ++
        loop.paren :: site.braceOpener :: (site.body ++ loop.brace :: site.rest)) :=
    site.eq_head_append.trans (by simp)
  exact (congrArg (List.filter loop.inIncrement) hts).trans
    (filter_inIncrement_append (hts ▸ hordered))

section Loops

variable {settings : EditorSettings} {F : List Char} {loops : List CountedLoop}
  {changes : List Change}

theorem relaid_addition (loop : CountedLoop) (t : Token) :
    ((addition settings F loop).relaid settings).loop = loop ∧
      ((addition settings F loop).relaid settings).removes t = false ∧
      ((addition settings F loop).relaid settings).addsAt t = decide (loop.brace = t) := by
  rcases addition_cases settings F loop with h | ⟨place, indent, h⟩
  · rw [h]
    exact ⟨rfl, rfl, rfl⟩
  · rw [h]
    exact ⟨rfl, rfl, rfl⟩

theorem any_removes_finalChanges (loop : CountedLoop) (t : Token) :
    (finalChanges settings F loop).any (Change.removes t) = loop.inIncrement t := by
  rw [finalChanges, List.any_cons, (relaid_addition loop t).2.1]
  simp [Change.removes]

theorem filter_addsAt_finalChanges (loop : CountedLoop) (t : Token) :
    ((finalChanges settings F loop).filter (Change.addsAt t)).map (blockShapes ·.loop.counter)
      = if loop.brace = t then [blockShapes loop.counter] else [] := by
  obtain ⟨hloop, -, hadds⟩ := @relaid_addition settings F loop t
  have hremoval : (Change.removal loop).addsAt t = false := rfl
  rw [finalChanges, List.filter_cons, hadds, List.filter_cons_of_neg (by simp [hremoval])]
  by_cases hbrace : loop.brace = t
  · simp [hbrace, hloop]
  · simp [hbrace]

/-- A brace closes one loop only. -/
theorem filter_brace_cases
    (hbraces : loops.Pairwise fun loop loop' => loop.brace ≠ loop'.brace) (t : Token) :
    loops.filter (·.brace = t) = [] ∨ ∃ loop, loops.filter (·.brace = t) = [loop] := by
  have hpair := hbraces.filter (·.brace = t)
  have hall : ∀ l ∈ loops.filter (·.brace = t), l.brace = t := by simp
  cases hloops : loops.filter (·.brace = t) with
  | nil => exact Or.inl rfl
  | cons loop rest =>
      cases rest with
      | nil => exact Or.inr ⟨loop, rfl⟩
      | cons loop' rest =>
          rw [hloops] at hpair hall
          -- two loops that are left would share the brace
          have hne := (List.pairwise_cons.mp hpair).1 loop' List.mem_cons_self
          rw [hall loop (by simp), hall loop' (by simp)] at hne
          exact absurd rfl hne

/-- The changes of all loops take out what belongs to the increment of one of them. -/
theorem any_removes_eq (hperm : changes.Perm (loops.flatMap (finalChanges settings F)))
    (t : Token) : changes.any (Change.removes t) = loops.any (·.inIncrement t) := by
  rw [hperm.any_eq, List.any_flatMap]
  simp only [any_removes_finalChanges]

theorem changedToken_eq_movedToken
    (hperm : changes.Perm (loops.flatMap (finalChanges settings F)))
    (hbraces : loops.Pairwise fun loop loop' => loop.brace ≠ loop'.brace) (t : Token) :
    changedToken changes t = movedToken loops t := by
  have hany := any_removes_eq hperm t
  have hblocks : ((changes.filter (Change.addsAt t)).map (blockShapes ·.loop.counter)).Perm
      ((loops.filter (·.brace = t)).map (blockShapes ·.counter)) := by
    -- filtering by the brace keeps the block of a loop or drops it, loop by loop
    refine ((hperm.filter _).map _).trans (.of_eq ?_)
    rw [List.filter_flatMap, List.map_flatMap]
    simp only [filter_addsAt_finalChanges]
    clear hperm hbraces hany
    induction loops with
    | nil => rfl
    | cons loop loops ih =>
        rw [List.flatMap_cons, ih, List.filter_cons]
        by_cases hbrace : loop.brace = t <;> simp [hbrace]
  -- there is at most one block, so its place is the same
  have heq : (changes.filter (Change.addsAt t)).map (blockShapes ·.loop.counter)
      = (loops.filter (·.brace = t)).map (blockShapes ·.counter) := by
    rcases filter_brace_cases hbraces t with hloops | ⟨loop, hloops⟩
    · rw [hloops] at hblocks ⊢
      exact List.perm_nil.mp hblocks
    · rw [hloops] at hblocks ⊢
      exact List.perm_singleton.mp hblocks
  rw [changedToken, movedToken, hany, List.flatMap_def, List.flatMap_def, heq]

end Loops

/-- The significant tokens of a text that has been laid out, but not yet optimised. -/
def formattedTokens (settings : EditorSettings) (source : String) : List Token :=
  tokenizeSignificant (format settings source)

theorem significantTokens_formatText (settings : EditorSettings) (source : String) :
    significantTokens (tokensFrom 0 (formatText settings source.toList))
      = formattedTokens settings source := by
  simp [formattedTokens, tokenizeSignificant, tokenize, format]

/-- The tokens of the optimised text are those of its characters. -/
theorem map_shape_tokenizeSignificant_optimize (settings : EditorSettings) (source : String) :
    (tokenizeSignificant (optimize settings source)).map Token.shape
      = shapes (optimizeText settings source.toList) := by
  rw [tokenizeSignificant, tokenize, optimize, String.toList_ofList, map_shape_significantTokens]

/-- **Optimising moves the increments of all counted loops** and does nothing else to the
significant tokens: behind the last semicolon of each header two tokens are taken out, which
increment the counter, and in front of the closing brace of its body the six tokens of the block
are put in. -/
theorem map_shape_optimize (settings : EditorSettings) (source : String)
    (hends : ∀ loop ∈ countedLoops (formattedTokens settings source),
      EndsStatement (formattedTokens settings source) loop) :
    (tokenizeSignificant (optimize settings source)).map Token.shape
        = moveIncrements (countedLoops (formattedTokens settings source))
          (formattedTokens settings source) ∧
      ∀ loop ∈ countedLoops (formattedTokens settings source),
        loop.brace ∈ formattedTokens settings source ∧
        ∃ front a b back,
          formattedTokens settings source
            = front ++ loop.semicolon :: a :: b :: loop.paren :: back ∧
          isIncrement loop.counter [a, b] = true ∧
          (formattedTokens settings source).filter loop.inIncrement = [a, b] := by
  have hts := significantTokens_formatText settings source
  generalize formattedTokens settings source = ts at hts hends ⊢
  have hreads : Reads 0 (formatText settings source.toList) ts := hts ▸ reads_significantTokens 0 _
  refine ⟨?_, fun loop hloop => ?_⟩
  · obtain ⟨all, hperm, hrewritten⟩ := exists_rewritten_optimizeText settings source.toList hts
    have hends' : ∀ change ∈ all, EndsStatement ts change.loop := fun change hchange =>
      hends change.loop (loop_mem_of_mem_finalChanges (hperm.mem_iff.mp hchange))
    have hbraces := (pairwise_countedLoops hreads.ordered.nodup).imp fun h => h.2
    calc (tokenizeSignificant (optimize settings source)).map Token.shape
        = shapes (optimizeText settings source.toList) :=
          map_shape_tokenizeSignificant_optimize settings source
      _ = ts.flatMap (changedToken all) :=
          hrewritten.eq_flatMap hreads.ordered ⟨[], rfl⟩ hends'
      _ = moveIncrements (countedLoops ts) ts :=
          List.flatMap_congr fun t _ => changedToken_eq_movedToken hperm hbraces t
  · obtain ⟨site⟩ := exists_site hloop
    refine ⟨site.brace_mem, _, site.a, site.b, _, site.eq_head_append, site.increment, ?_⟩
    exact site.filter_inIncrement hreads.ordered

/-- Two loops whose braces share a line. -/
theorem map_text_optimize_nested :
    (tokenizeSignificant (optimize .standard
        "for (uint i = 0; i < n; i++) \x7b for (uint j = 0; j < m; ++j) \x7b s; \x7d \x7d")).map
          Token.text
      = ["for", "(", "uint", "i", "=", "0", ";", "i", "<", "n", ";", ")", "\x7b",
          "for", "(", "uint", "j", "=", "0", ";", "j", "<", "m", ";", ")", "\x7b",
            "s", ";", "unchecked", "\x7b", "++", "j", ";", "\x7d", "\x7d",
          "unchecked", "\x7b", "++", "i", ";", "\x7d", "\x7d"] := by
  have hshapes := (map_shape_optimize .standard
    "for (uint i = 0; i < n; i++) \x7b for (uint j = 0; j < m; ++j) \x7b s; \x7d \x7d"
    (by decide +kernel)).1
  have htexts := congrArg (List.map Prod.snd) hshapes
  rw [List.map_map] at htexts
  exact htexts.trans (by decide +kernel)

end SolidityTools.Layout

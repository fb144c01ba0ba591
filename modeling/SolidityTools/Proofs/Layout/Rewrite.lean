import SolidityTools.Proofs.Layout.Reformat

set_option autoImplicit false

/-! # What the changes do to the tokens

`Moved` describes a change of text; `Rewritten` describes the change of tokens that belongs to it:
the tokens of the increment are left out, and the six tokens of the block are put in. That the
second follows from the first (`Moved.rewritten`) is a matter of reading: every change is made
between two tokens, the tokens in front of it stay what they are, and the inserted text is read as
it was meant.

There is one exception. A block that is put directly behind a word runs together with it: the word
is *glued* to `unchecked`, and only the rest of the block is read as it was meant.
-/

namespace SolidityTools.Layout

open Text Lexer

/-- A word ends directly in front of the closing brace of a loop. -/
def Glued (ts : List Token) (loop : CountedLoop) : Prop :=
  ∃ t ∈ ts, t.isWord = true ∧ t.stop = loop.brace.start

/-- The shapes that some tokens have after some changes. What is glued is decided by all tokens of
the text, of which these are the last ones. -/
inductive Rewritten (all : List Token) :
    List Token → List Change → List (TokenKind × String) → Prop
  | done {ts : List Token} : Rewritten all ts [] (ts.map Token.shape)
  /-- The tokens of the increment are left out. -/
  | removal {ts₁ increment ts₂ : List Token} {rest : List Change} {R : List (TokenKind × String)}
      {loop : CountedLoop} (h : Rewritten all (loop.paren :: ts₂) rest R) :
      Rewritten all (ts₁ ++ loop.semicolon :: (increment ++ loop.paren :: ts₂))
        (.removal loop :: rest) (ts₁.map Token.shape ++ loop.semicolon.shape :: R)
  /-- The block is put in front of the brace, and in front of blank tokens there. -/
  | addition {ts₁ blanks ts₂ : List Token} {rest : List Change} {R : List (TokenKind × String)}
      {change : Change} (hchange : change ≠ .removal change.loop)
      (hglued : ¬ Glued all change.loop)
      (hblanks : ∀ t ∈ blanks, t.text.toList.all isBlank = true)
      (h : Rewritten all (blanks ++ change.loop.brace :: ts₂) rest R) :
      Rewritten all (ts₁ ++ (blanks ++ change.loop.brace :: ts₂)) (change :: rest)
        (ts₁.map Token.shape ++ (blockShapes change.loop.counter ++ R))
  /-- The keyword of the block runs together with the word in front of it. -/
  | glued {ts₁ ts₂ : List Token} {word : Token} {rest : List Change}
      {R : List (TokenKind × String)} {loop : CountedLoop} {kind : TokenKind}
      (hword : word.isWord = true) (hstop : word.stop = loop.brace.start)
      (hkind : kind ≠ .operator) (hglued : Glued all loop)
      (h : Rewritten all (loop.brace :: ts₂) rest R) :
      Rewritten all (ts₁ ++ word :: loop.brace :: ts₂) (.inline loop :: rest)
        (ts₁.map Token.shape ++
          (kind, word.text ++ "unchecked") :: ((blockShapes loop.counter).tail ++ R))

/-! ## Changes and tokens -/

/-- The tokens of the text that stay and that a change is made at. -/
def Change.tokens : Change → List Token
  | .removal loop => [loop.semicolon, loop.paren]
  | .ownLine loop _ _ => [loop.brace]
  | .inline loop => [loop.brace]

/-- The tokens of a change are the right ones, and its counter has a name. -/
def Change.Proper : Change → Prop
  | .removal loop => loop.semicolon.isOperator ";" = true ∧ loop.paren.isOperator ")" = true
  | .ownLine loop _ _ => loop.brace.isOperator "\x7d" = true ∧ IsName loop.counter
  | .inline loop => loop.brace.isOperator "\x7d" = true ∧ IsName loop.counter

/-- The tokens of a text that stand behind an offset. -/
structure Remaining (all : List Token) (offset : Nat) (ts : List Token) : Prop where
  nonempty : ∀ t ∈ all, t.start < t.stop
  mem_all : ∀ t ∈ ts, t ∈ all
  mem_or : ∀ t ∈ all, t ∈ ts ∨ t.stop ≤ offset

theorem Remaining.mem {all ts : List Token} {offset : Nat} (h : Remaining all offset ts) {t : Token}
    (ht : t ∈ all) (hle : offset ≤ t.start) : t ∈ ts := by
  apply (h.mem_or t ht).resolve_right
  intro hstop
  have := h.nonempty t ht
  omega

theorem Remaining.tail {all ts₁ ts₂ : List Token} {offset offset' : Nat}
    (h : Remaining all offset (ts₁ ++ ts₂)) (hle : offset ≤ offset')
    (hstop : ∀ t ∈ ts₁, t.stop ≤ offset') : Remaining all offset' ts₂ := by
  refine ⟨h.nonempty, fun t ht => h.mem_all t (List.mem_append_right _ ht), fun t ht => ?_⟩
  rcases h.mem_or t ht with hmem | hle'
  · rcases List.mem_append.mp hmem with hmem | hmem
    · exact Or.inr (hstop t hmem)
    · exact Or.inl hmem
  · exact Or.inr (hle'.trans hle)

/-! ## One change -/

section Steps

variable {all ts : List Token} {offset : Nat} {A B B' : List Char} {rest : List Change}
  {loop : CountedLoop}

/-- An increment is cut out of a reading between the semicolon in front of it and the parenthesis
behind it. -/
theorem exists_of_removal {D : List Char}
    (hreads : Reads offset (A ++ ';' :: (D ++ ')' :: B)) ts) (hremaining : Remaining all offset ts)
    (hsemicolon : loop.semicolon.start = offset + byteLength A)
    (hparen : loop.paren.start = offset + byteLength (A ++ ';' :: D))
    (hproper : (Change.removal loop).Proper)
    (htokens : ∀ t ∈ (Change.removal loop).tokens, t ∈ all) :
    ∃ ts₁ increment ts₂, ts = ts₁ ++ loop.semicolon :: (increment ++ loop.paren :: ts₂) ∧
      loop.semicolon.stop = loop.semicolon.start + 1 ∧
      Cut loop.semicolon.start A (';' :: (D ++ ')' :: B)) ts₁
        (loop.semicolon :: (increment ++ loop.paren :: ts₂)) ∧
      Reads loop.semicolon.stop (D ++ ')' :: B) (increment ++ loop.paren :: ts₂) ∧
      Reads loop.paren.start (')' :: B) (loop.paren :: ts₂) ∧
      Remaining all loop.paren.start (loop.paren :: ts₂) := by
  obtain ⟨hsemicolon', hparen'⟩ := hproper
  have htext : loop.semicolon.text.toList = [';'] := Token.toList_of_isOperator hsemicolon'
  have htext' : loop.paren.text.toList = [')'] := Token.toList_of_isOperator hparen'
  have hmem : loop.semicolon ∈ ts := hremaining.mem (htokens _ (by simp [Change.tokens])) (by omega)
  have hreads₁ : Reads offset (A ++ (loop.semicolon.text.toList ++ (D ++ ')' :: B))) ts := by
    rwa [htext]
  obtain ⟨ts₁, ts₂, rfl, hreads₂, hcut⟩ := hreads₁.cut_token hmem hsemicolon
  have hstop : loop.semicolon.stop = loop.semicolon.start + 1 := by
    rw [Token.stop, htext]
    rfl
  have hparen_start : loop.paren.start = loop.semicolon.stop + byteLength D := by
    rw [hparen, hstop, hsemicolon, byteLength_append, byteLength_cons,
      show ';'.utf8Size = 1 from rfl]
    omega
  -- the parenthesis stands in what is left behind the semicolon
  have hremaining₂ : Remaining all loop.semicolon.stop ts₂ := by
    rw [List.append_cons] at hremaining
    apply hremaining.tail (by omega)
    intro t ht
    rcases List.mem_append.mp ht with ht | ht
    · have := hcut.stop_le t ht
      omega
    · rw [List.mem_singleton.mp ht]
  have hmem₂ : loop.paren ∈ ts₂ :=
    hremaining₂.mem (htokens _ (by simp [Change.tokens])) (by omega)
  have hreads₃ : Reads loop.semicolon.stop (D ++ (loop.paren.text.toList ++ B)) ts₂ := by
    rwa [htext']
  obtain ⟨increment, ts₃, rfl, -, hstop₂, hreads₄, -⟩ := hreads₃.cut_token hmem₂ hparen_start
  have hremaining₃ : Remaining all loop.paren.start (loop.paren :: ts₃) :=
    hremaining₂.tail (by omega) hstop₂
  rw [htext] at hcut
  rw [htext'] at hreads₄
  exact ⟨ts₁, increment, ts₃, rfl, hstop, hcut, hreads₂, hreads₄, hremaining₃⟩

/-- The text of an increment is left out. -/
theorem Rewritten.of_removal {D : List Char}
    (hreads : Reads offset (A ++ ';' :: (D ++ ')' :: B)) ts) (hremaining : Remaining all offset ts)
    (hsemicolon : loop.semicolon.start = offset + byteLength A)
    (hparen : loop.paren.start = offset + byteLength (A ++ ';' :: D))
    (hproper : (Change.removal loop).Proper) (htokens : ∀ t ∈ (Change.removal loop).tokens, t ∈ all)
    (ih : ∀ {ts' : List Token}, Reads loop.paren.start (')' :: B) ts' →
      Remaining all loop.paren.start ts' → Rewritten all ts' rest (shapes B')) :
    Rewritten all ts (.removal loop :: rest) (shapes (A ++ ';' :: B')) := by
  obtain ⟨ts₁, increment, ts₂, rfl, -, hcut, -, hreads', hremaining'⟩ :=
    exists_of_removal hreads hremaining hsemicolon hparen hproper htokens
  have hnext := hcut.shapes_eq [] ';' (D ++ ')' :: B) ';' B' rfl ⟨by decide, by decide, rfl⟩
    (fun _ h => by cases h)
  rw [List.nil_append, shapes_punctuation (by decide),
    ← Token.shape_of_isOperator hproper.1] at hnext
  rw [hnext]
  exact .removal (ih hreads' hremaining')

/-- No word ends directly in front of a brace, if none ends there in front of the last blanks. -/
theorem not_glued {cs : List Char} {ts₁ blanks ts₂ : List Token}
    (hreads : Reads offset cs (ts₁ ++ (blanks ++ loop.brace :: ts₂)))
    (hremaining : Remaining all offset (ts₁ ++ (blanks ++ loop.brace :: ts₂)))
    (hlt : offset < loop.brace.start)
    (hword : ∀ t ∈ ts₁, t.isWord = true → t.stop ≠ loop.brace.start)
    (hblanks : ∀ t ∈ blanks, t.text.toList.all isBlank = true) : ¬ Glued all loop := by
  rintro ⟨t, ht, hword', hstop⟩
  have hpos := hremaining.nonempty t ht
  rcases hremaining.mem_or t ht with hmem | hle
  · have hmem₀ := hmem
    rw [List.mem_append, List.mem_append, List.mem_cons] at hmem
    rcases hmem with hmem | hmem | rfl | hmem
    · exact hword t hmem hword' hstop
    · obtain ⟨c, w, rest, htext, -, hlex⟩ := hreads.exists_lexeme hmem₀
      have hc := isWordPart_of_isWordStart (isWordStart_of_isWord hword' hlex)
      have hblank := hblanks t hmem
      rw [htext, List.all_cons, Bool.and_eq_true] at hblank
      rw [isWordPart_eq_false_of_isBlank hblank.1] at hc
      cases hc
    · omega
    · rw [← List.append_assoc] at hreads
      have := (hreads.ordered.around rfl).2 t hmem
      have := hremaining.nonempty loop.brace (hremaining.mem_all _ (by simp))
      omega
  · omega

theorem Rewritten.of_ownLine {before : List Char} {indent : Nat}
    (hreads : Reads offset (A ++ (before ++ '\x7d' :: B)) ts)
    (hremaining : Remaining all offset ts) (hA : A.getLast? = some '\n')
    (hblank : before.all isBlank = true) (hline : '\n' ∉ before)
    (hbrace : loop.brace.start = offset + byteLength (A ++ before))
    (hproper : (Change.ownLine loop (offset + byteLength A) indent).Proper)
    (htokens : ∀ t ∈ (Change.ownLine loop (offset + byteLength A) indent).tokens, t ∈ all)
    (ih : ∀ {ts' : List Token}, Reads (offset + byteLength A) (before ++ '\x7d' :: B) ts' →
      Remaining all (offset + byteLength A) ts' → Rewritten all ts' rest (shapes B')) :
    Rewritten all ts (.ownLine loop (offset + byteLength A) indent :: rest)
      (shapes (A ++
        (List.replicate indent ' ' ++ (uncheckedBlock loop.counter ++ '\n' :: B')))) := by
  obtain ⟨hbrace', hname⟩ := hproper
  have htext : loop.brace.text.toList = ['\x7d'] := Token.toList_of_isOperator hbrace'
  rw [byteLength_append, ← Nat.add_assoc] at hbrace
  have hmem : loop.brace ∈ ts := hremaining.mem (htokens _ (by simp [Change.tokens])) (by omega)
  obtain ⟨ts₁, ts₂, rfl, hstop₁, hreads₂, hshapes⟩ := hreads.cut rfl hmem hbrace hblank hline
    (Or.inr (Or.inr hA))
  have hremaining₂ : Remaining all (offset + byteLength A) ts₂ := hremaining.tail (by omega) hstop₁
  have hmem₂ : loop.brace ∈ ts₂ :=
    hremaining₂.mem (htokens _ (by simp [Change.tokens])) (by omega)
  have hreads₃ : Reads (offset + byteLength A) (before ++ (loop.brace.text.toList ++ B)) ts₂ := by
    rwa [htext]
  obtain ⟨blanks, ts₃, rfl, -, hstop₂, -, -⟩ := hreads₃.cut_token hmem₂ hbrace
  have hblanks : ∀ t ∈ blanks, t.text.toList.all isBlank = true := by
    intro t ht
    have hle := hstop₂ t ht
    rw [hbrace] at hle
    exact hreads₂.all_isBlank_of_stop_le (List.mem_append_left _ ht) hblank hle
  -- a word in front of the brace would end with a line feed, or with a blank
  have hglue : ∀ t ∈ ts₁, t.isWord = true → t.stop ≠ offset + byteLength A := by
    intro t ht hword hstop
    obtain ⟨e, he, hpart⟩ := hreads.getLast?_of_isWord (List.mem_append_left _ ht) hword hstop
    rw [hA, Option.some.injEq] at he
    rw [← he] at hpart
    cases hpart
  have hpos : 0 < byteLength A := byteLength_pos (by rintro rfl; cases hA)
  have hfree : ¬ Glued all loop := by
    refine not_glued hreads hremaining (by omega) (fun t ht hword hstop => ?_) hblanks
    have hle := hstop₁ t ht
    exact hglue t ht hword (by omega)
  obtain ⟨d, Z, d', Z', hd, hd', halike⟩ := @exists_alike before (List.replicate indent ' ') '\x7d'
    'u' B ("nchecked".toList ++ (blockBody loop.counter ++ '\n' :: B')) hblank
    (by simp [show isBlank ' ' = true by decide]) (by decide) (by decide) (by decide) (by decide)
  have hnext := hshapes [] d Z d' Z' hd halike fun _ _ => hglue
  rw [List.nil_append, ← hd', ← uncheckedBlock_append, shapes_replicate_append,
    shapes_uncheckedBlock hname, shapes_blank (by decide)] at hnext
  rw [hnext]
  exact @Rewritten.addition all ts₁ blanks ts₃ rest _ (.ownLine loop _ indent) (by simp) hfree
    hblanks (ih hreads₂ hremaining₂)

/-- The block is put directly in front of the brace. -/
theorem Rewritten.of_inline (hreads : Reads offset (A ++ '\x7d' :: B) ts)
    (hremaining : Remaining all offset ts) (hA : EndsSolid A)
    (hbrace : loop.brace.start = offset + byteLength A) (hproper : (Change.inline loop).Proper)
    (htokens : ∀ t ∈ (Change.inline loop).tokens, t ∈ all)
    (ih : ∀ {ts' : List Token}, Reads loop.brace.start ('\x7d' :: B) ts' →
      Remaining all loop.brace.start ts' → Rewritten all ts' rest (shapes B')) :
    Rewritten all ts (.inline loop :: rest)
      (shapes (A ++ (uncheckedBlock loop.counter ++ ' ' :: B'))) := by
  obtain ⟨hbrace', hname⟩ := hproper
  have htext : loop.brace.text.toList = ['\x7d'] := Token.toList_of_isOperator hbrace'
  have hmem : loop.brace ∈ ts := hremaining.mem (htokens _ (by simp [Change.tokens])) (by omega)
  have hreads' : Reads offset (A ++ (loop.brace.text.toList ++ B)) ts := by
    rwa [htext]
  by_cases hglued : Glued ts loop
  · obtain ⟨word, hmem', hword, hstop⟩ := hglued
    have hword_all := hremaining.mem_all word hmem'
    have hpos := hremaining.nonempty word hword_all
    obtain ⟨c, w, rest', hchars, -, hlex⟩ := hreads.exists_lexeme hmem'
    have hc := isWordStart_of_isWord hword hlex
    have hw := (runLength_of_lexeme hc hlex).1
    -- the text is cut in front of the word, which changes behind its last character
    obtain ⟨P, hA', hstart⟩ := hreads.exists_append_of_stop_eq hmem' (hstop.trans hbrace)
    rw [hA', List.append_assoc] at hreads
    obtain ⟨ts₁, ts₂, rfl, hreads₂, hstop₁, -, hshapes⟩ := hreads.cut_token hmem' hstart
    have hremaining₂ : Remaining all loop.brace.start ts₂ := by
      rw [List.append_cons] at hremaining
      apply hremaining.tail (by omega)
      intro t ht
      rcases List.mem_append.mp ht with ht | ht
      · have := hstop₁ t ht
        omega
      · rw [List.mem_singleton.mp ht, hstop]
    have hmem₂ : loop.brace ∈ ts₂ := hremaining₂.mem (htokens _ (by simp [Change.tokens])) le_rfl
    rw [hstop] at hreads₂
    have hreads₃ : Reads loop.brace.start (loop.brace.text.toList ++ B) ts₂ := by
      rwa [htext]
    obtain ⟨ts₃, rfl, -⟩ := hreads₃.exists_cons hmem₂ rfl
    obtain ⟨kind, hkind, hblock⟩ := shapes_glued hchars hc hw hname (' ' :: B')
    have hne : word.text.toList ≠ [] := by
      rw [hchars]
      exact List.cons_ne_nil c w
    have hnext := hshapes word.text.toList '\x7d' B 'u'
      ("nchecked".toList ++ (blockBody loop.counter ++ ' ' :: B')) rfl
      ⟨by decide, by decide, rfl⟩ fun hnil => absurd hnil hne
    rw [← uncheckedBlock_append, hblock, shapes_blank (by decide)] at hnext
    rw [hA', List.append_assoc, hnext]
    exact .glued hword hstop hkind ⟨word, hword_all, hword, hstop⟩ (ih hreads₂ hremaining₂)
  · obtain ⟨ts₁, ts₂, rfl, -, hstop₁, hreads₂, hshapes⟩ := hreads'.cut_token hmem hbrace
    have hglue : ∀ t ∈ ts₁, t.isWord = true → t.stop ≠ loop.brace.start :=
      fun t ht hword hstop => hglued ⟨t, List.mem_append_left _ ht, hword, hstop⟩
    have hpos : 0 < byteLength A := byteLength_pos hA.ne_nil
    have hfree : ¬ Glued all loop :=
      @not_glued _ _ _ _ ts₁ [] ts₂ hreads hremaining (by omega) hglue (by simp)
    rw [htext] at hshapes hreads₂
    have hnext := hshapes [] '\x7d' B 'u'
      ("nchecked".toList ++ (blockBody loop.counter ++ ' ' :: B'))
      rfl ⟨by decide, by decide, rfl⟩ fun _ _ => hglue
    rw [List.nil_append, ← uncheckedBlock_append, shapes_uncheckedBlock hname,
      shapes_blank (by decide)] at hnext
    rw [hnext]
    exact @Rewritten.addition all ts₁ [] ts₂ rest _ (.inline loop) (by simp) hfree (by simp)
      (ih hreads₂ (hremaining.tail (by omega) hstop₁))

end Steps

/-! ## All changes -/

/-- **What is done to the text is done to the tokens.** -/
theorem Moved.rewritten {offset : Nat} {cs R : List Char} {changes : List Change}
    (h : Moved offset cs changes R) {all ts : List Token} (hreads : Reads offset cs ts)
    (hremaining : Remaining all offset ts) (hproper : ∀ change ∈ changes, change.Proper)
    (htokens : ∀ change ∈ changes, ∀ t ∈ change.tokens, t ∈ all) :
    Rewritten all ts changes (shapes R) := by
  -- the induction is on the changes, of which each cuts the reading at its place
  induction h generalizing ts with
  | done =>
      rw [hreads.shapes_eq]
      exact .done
  | @removal offset A D B B' rest loop hsemicolon hparen h ih =>
      refine .of_removal hreads hremaining hsemicolon hparen (hproper _ List.mem_cons_self)
        (htokens _ List.mem_cons_self) fun hreads' hremaining' => ?_
      exact ih hreads' hremaining' (fun c hc => hproper c (List.mem_cons_of_mem _ hc))
        fun c hc => htokens c (List.mem_cons_of_mem _ hc)
  | @ownLine offset A before B B' rest loop indent hA hblank hline hbrace h ih =>
      refine .of_ownLine hreads hremaining hA hblank hline hbrace (hproper _ List.mem_cons_self)
        (htokens _ List.mem_cons_self) fun hreads' hremaining' => ?_
      exact ih hreads' hremaining' (fun c hc => hproper c (List.mem_cons_of_mem _ hc))
        fun c hc => htokens c (List.mem_cons_of_mem _ hc)
  | @inline offset A B B' rest loop hA hbrace h ih =>
      refine .of_inline hreads hremaining hA hbrace (hproper _ List.mem_cons_self)
        (htokens _ List.mem_cons_self) fun hreads' hremaining' => ?_
      exact ih hreads' hremaining' (fun c hc => hproper c (List.mem_cons_of_mem _ hc))
        fun c hc => htokens c (List.mem_cons_of_mem _ hc)

/-- The changes of a loop are proper, and made at its tokens. -/
theorem LoopSite.proper_of_mem {F : List Char} {ts : List Token} {loop : CountedLoop}
    (settings : EditorSettings) (hreads : Reads 0 F ts) (site : LoopSite ts loop) {change : Change}
    (h : change ∈ finalChanges settings F loop) :
    change.Proper ∧ ∀ t ∈ change.tokens, t ∈ ts := by
  simp only [finalChanges, List.mem_cons, List.not_mem_nil, or_false] at h
  rcases h with rfl | rfl
  · have hbrace : ∀ t ∈ [loop.brace], t ∈ ts := by
      intro t ht
      rw [List.mem_singleton.mp ht]
      exact site.brace_mem
    rcases addition_cases settings F loop with h | ⟨place, indent, h⟩
    · rw [h]
      exact ⟨⟨site.brace, site.isName hreads⟩, hbrace⟩
    · rw [h]
      exact ⟨⟨site.brace, site.isName hreads⟩, hbrace⟩
  · refine ⟨⟨site.semicolon, site.paren⟩, fun t ht => ?_⟩
    simp only [Change.tokens, List.mem_cons, List.not_mem_nil, or_false] at ht
    rcases ht with rfl | rfl
    · exact site.semicolon_mem
    · exact site.paren_mem

/-- The changes of all counted loops are proper, in whatever order, and have their tokens among
those of the text. -/
theorem proper_of_mem_perm {settings : EditorSettings} {F : List Char} {ts : List Token}
    {all : List Change} (hreads : Reads 0 F ts)
    (hperm : all.Perm ((countedLoops ts).flatMap (finalChanges settings F))) :
    ∀ change ∈ all, change.Proper ∧ ∀ t ∈ change.tokens, t ∈ ts := by
  intro change hmem
  obtain ⟨loop, hloop, hmem⟩ := List.mem_flatMap.mp (hperm.mem_iff.mp hmem)
  obtain ⟨site⟩ := exists_site hloop
  exact site.proper_of_mem settings hreads hmem

/-- **Optimising rewrites the significant tokens** by the changes of all counted loops. -/
theorem exists_rewritten_optimizeText (settings : EditorSettings) (text : List Char)
    {ts : List Token} (hts : significantTokens (tokensFrom 0 (formatText settings text)) = ts) :
    ∃ all, all.Perm ((countedLoops ts).flatMap (finalChanges settings (formatText settings text))) ∧
      Rewritten ts ts all (shapes (optimizeText settings text)) := by
  have hreads : Reads 0 (formatText settings text) ts := hts ▸ reads_significantTokens 0 _
  obtain ⟨all, hperm, hmoved⟩ := exists_moved_optimizeText settings text hts
  have hchange := proper_of_mem_perm hreads hperm
  refine ⟨all, hperm, hmoved.rewritten hreads ?_ (fun c hc => (hchange c hc).1)
    fun c hc => (hchange c hc).2⟩
  exact ⟨fun t ht => hreads.start_lt_stop ht, fun t ht => ht, fun t ht => Or.inl ht⟩

end SolidityTools.Layout

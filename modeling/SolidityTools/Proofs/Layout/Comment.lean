import SolidityTools.Proofs.Layout.Increment

set_option autoImplicit false

/-! # Comments of an optimised text

Counted loops are recognised by their significant tokens alone, but they are changed by cutting
pieces out of the text, and what lies between two tokens goes with the piece. Formatting again only
moves blocks of its own, so a comment of the formatted text is lost exactly if it lies in the piece
that is cut out of the header, between the last semicolon and the closing parenthesis
(`map_text_comments_optimize`). All other comments stay as they are and in their order: every
change is made between two tokens, and the inserted block has no comments.
-/

namespace SolidityTools

open Text

namespace Layout

open Lexer

/-! ## Comments and changes -/

/-- The texts of the comments that some changes leave. -/
def keptTexts (changes : List Change) (cs : List Token) : List String :=
  (cs.filter fun c => !changes.any (Change.removes c)).map (·.text)

variable {offset : Nat} {cs A B B' R : List Char} {rest changes : List Change}
  {loop : CountedLoop}

/-- What is changed stands behind the text that has been passed. -/
theorem Moved.le_semicolon (h : Moved offset cs changes R) (hloop : .removal loop ∈ changes) :
    offset ≤ loop.semicolon.start := by
  induction h with
  | done => cases hloop
  | removal hsemicolon hparen h ih =>
      rcases List.mem_cons.mp hloop with heq | hmem
      · obtain rfl := Change.removal.inj heq
        omega
      · have := ih hmem
        omega
  | ownLine hA hblank hline hbrace h ih =>
      have := ih ((List.mem_cons.mp hloop).resolve_left (by simp))
      omega
  | inline hA hbrace h ih =>
      have := ih ((List.mem_cons.mp hloop).resolve_left (by simp))
      omega

/-- A comment in front of some changes is not taken out by them. -/
theorem Moved.removes_eq_false (h : Moved offset cs changes R) {c : Token}
    (hpos : c.start < c.stop) (hstop : c.stop ≤ offset) :
    changes.any (Change.removes c) = false := by
  refine List.any_eq_false.mpr fun change hchange => ?_
  cases change with
  | removal loop =>
      have hle := h.le_semicolon hchange
      have hsemicolon : loop.semicolon.start ≤ loop.semicolon.stop := Nat.le_add_right _ _
      rw [Change.removes, CountedLoop.inIncrement_eq_true_iff]
      omega
  | ownLine => exact Bool.false_ne_true
  | inline => exact Bool.false_ne_true

/-- Comments in front of some changes stay. -/
theorem Moved.keptTexts_append (h : Moved offset cs changes R) {front : List Token}
    (hfront : ∀ c ∈ front, c.start < c.stop ∧ c.stop ≤ offset) (ts : List Token) :
    keptTexts changes (front ++ ts) = front.map (·.text) ++ keptTexts changes ts := by
  have hall : front.filter (fun c => !changes.any (Change.removes c)) = front :=
    List.filter_eq_self.mpr fun c hc => by
      rw [h.removes_eq_false (hfront c hc).1 (hfront c hc).2]
      rfl
  rw [keptTexts, List.filter_append, List.map_append, hall]
  rfl

/-- What lies in an increment is taken out with it, and what lies behind is not. -/
theorem keptTexts_removal {inside behind : List Token}
    (hinside : ∀ c ∈ inside, loop.inIncrement c = true)
    (hbehind : ∀ c ∈ behind, loop.inIncrement c = false) :
    keptTexts (.removal loop :: rest) (inside ++ behind) = keptTexts rest behind := by
  have hnone : inside.filter
      (fun c => !(Change.removal loop :: rest).any (Change.removes c)) = [] :=
    List.filter_eq_nil_iff.mpr fun c hc => by simp [Change.removes, hinside c hc]
  have hsame : behind.filter (fun c => !(Change.removal loop :: rest).any (Change.removes c))
      = behind.filter fun c => !rest.any (Change.removes c) :=
    List.filter_congr fun c hc => by simp [Change.removes, hbehind c hc]
  rw [keptTexts, keptTexts, List.filter_append, hnone, List.nil_append, hsame]

/-! ## One change -/

section Steps

variable {all ts : List Token}

/-- A reading that is cut in front of a token, with the comments in front of the cut. -/
theorem exists_cut_comments (before : List Char) {Y : List Char} {t : Token}
    (h : Reads offset (A ++ (before ++ Y)) ts) (ht : t ∈ ts)
    (hstart : t.start = offset + byteLength A + byteLength before)
    (hblank : before.all isBlank = true) (hline : '\n' ∉ before)
    (hcut : before = [] ∨ A = [] ∨ A.getLast? = some '\n') {d : Char} {Z : List Char}
    (hY : before ++ Y = d :: Z) (hd : isNeutral d = true) :
    ∃ ts₁ ts₂ front, ts = ts₁ ++ ts₂ ∧ Cut (offset + byteLength A) A (before ++ Y) ts₁ ts₂ ∧
      (∀ c ∈ front, offset ≤ c.start ∧ c.start < c.stop ∧ c.stop ≤ offset + byteLength A) ∧
      commentsFrom offset (A ++ (before ++ Y))
        = front ++ commentsFrom (offset + byteLength A) (before ++ Y) ∧
      ∀ d' Z', isNeutral d' = true → (isWordPart d' = true → isWordStart d' = true) →
        comments (A ++ d' :: Z') = front.map (·.text) ++ comments (d' :: Z') := by
  obtain ⟨ts₁, ts₂, hts, hfront, hreads⟩ := h.exists_front rfl ht hstart hblank hline hcut
  have hplace := hfront.cut hreads
  rw [hY] at hfront hplace ⊢
  obtain ⟨front, hstop, hcomments, hchange⟩ := hfront.exists_comments hd
  refine ⟨ts₁, ts₂, front, hts, hplace, fun c hc => ?_, hcomments, hchange⟩
  have hmem : c ∈ commentsFrom offset (A ++ d :: Z) := by
    rw [hcomments]
    exact List.mem_append_left _ hc
  have hle := le_start_of_mem_commentsFrom hmem
  exact ⟨hle.1, hle.2.1, hstop c hc⟩

/-- Blanks in front of a character begin with one that can stand behind a cut. -/
theorem exists_cons_of_blanks {blanks : List Char} (hblanks : blanks.all isBlank = true) {e : Char}
    (he : isNeutral e = true) (he' : isWordPart e = true → isWordStart e = true) (X : List Char) :
    ∃ d Z, blanks ++ e :: X = d :: Z ∧ isNeutral d = true ∧
      (isWordPart d = true → isWordStart d = true) := by
  cases blanks with
  | nil => exact ⟨e, X, rfl, he, he'⟩
  | cons d blanks =>
      rw [List.all_cons, Bool.and_eq_true] at hblanks
      refine ⟨d, _, rfl, isNeutral_of_isBlank hblanks.1, fun hpart => ?_⟩
      rw [isWordPart_eq_false_of_isBlank hblanks.1] at hpart
      cases hpart

/-- The comments of an increment are taken out with it. -/
theorem comments_of_removal {D : List Char}
    (hreads : Reads offset (A ++ ';' :: (D ++ ')' :: B)) ts) (hremaining : Remaining all offset ts)
    (hsemicolon : loop.semicolon.start = offset + byteLength A)
    (hparen : loop.paren.start = offset + byteLength (A ++ ';' :: D))
    (hproper : (Change.removal loop).Proper) (htokens : ∀ t ∈ (Change.removal loop).tokens, t ∈ all)
    (hrest : Moved loop.paren.start (')' :: B) rest B')
    (ih : ∀ {ts' : List Token}, Reads loop.paren.start (')' :: B) ts' →
      Remaining all loop.paren.start ts' →
        comments B' = keptTexts rest (commentsFrom loop.paren.start (')' :: B))) :
    comments (A ++ ';' :: B')
      = keptTexts (.removal loop :: rest) (commentsFrom offset (A ++ ';' :: (D ++ ')' :: B))) := by
  obtain ⟨ts₁, increment, ts₂, rfl, hstop, -, hreads₂, hreads₃, hremaining₃⟩ :=
    exists_of_removal hreads hremaining hsemicolon hparen hproper htokens
  have hparen_start : loop.paren.start = loop.semicolon.stop + byteLength D := by
    rw [hparen, hstop, hsemicolon, byteLength_append, byteLength_cons,
      show ';'.utf8Size = 1 from rfl]
    omega
  obtain ⟨-, -, front, -, -, hfront, hcomments, hchange⟩ := exists_cut_comments [] hreads
    (t := loop.semicolon) (by simp) (by simpa using hsemicolon) rfl (by simp) (Or.inl rfl) rfl
    (by decide)
  obtain ⟨-, -, inside, -, -, hinside, hcomments', -⟩ := exists_cut_comments [] hreads₂
    (t := loop.paren) (by simp) (by simpa using hparen_start) rfl (by simp) (Or.inl rfl) rfl
    (by decide)
  rw [← hsemicolon, List.nil_append] at hcomments
  rw [← hparen_start, List.nil_append] at hcomments'
  rw [← hsemicolon] at hfront
  have hsplit : commentsFrom loop.semicolon.start (';' :: (D ++ ')' :: B))
      = inside ++ commentsFrom loop.paren.start (')' :: B) := by
    rw [← hcomments', hstop]
    exact commentsFrom_punctuation _ (by decide) _
  have hmoved : Moved loop.semicolon.start ([] ++ ';' :: (D ++ ')' :: B)) (.removal loop :: rest)
      ([] ++ ';' :: B') := by
    refine .removal (by simp) ?_ hrest
    rw [hparen, hsemicolon, byteLength_append, List.nil_append, Nat.add_assoc]
  have hin : ∀ c ∈ inside, loop.inIncrement c = true := by
    intro c hc
    have hle := hinside c hc
    rw [CountedLoop.inIncrement_eq_true_iff]
    omega
  have hout : ∀ c ∈ commentsFrom loop.paren.start (')' :: B), loop.inIncrement c = false := by
    intro c hc
    have hle := le_start_of_mem_commentsFrom hc
    rw [CountedLoop.inIncrement_eq_false_iff]
    omega
  rw [hcomments, hmoved.keptTexts_append (fun c hc => (hfront c hc).2), hsplit,
    keptTexts_removal hin hout, hchange ';' B' (by decide) (by decide),
    comments_punctuation (by decide), ih hreads₃ hremaining₃]

theorem comments_of_ownLine {before : List Char} {indent : Nat}
    (hreads : Reads offset (A ++ (before ++ '\x7d' :: B)) ts)
    (hremaining : Remaining all offset ts) (hA : A.getLast? = some '\n')
    (hblank : before.all isBlank = true) (hline : '\n' ∉ before)
    (hbrace : loop.brace.start = offset + byteLength (A ++ before))
    (hproper : (Change.ownLine loop (offset + byteLength A) indent).Proper)
    (htokens : ∀ t ∈ (Change.ownLine loop (offset + byteLength A) indent).tokens, t ∈ all)
    (hrest : Moved (offset + byteLength A) (before ++ '\x7d' :: B) rest B')
    (ih : ∀ {ts' : List Token}, Reads (offset + byteLength A) (before ++ '\x7d' :: B) ts' →
      Remaining all (offset + byteLength A) ts' →
        comments B'
          = keptTexts rest (commentsFrom (offset + byteLength A) (before ++ '\x7d' :: B))) :
    comments (A ++ (List.replicate indent ' ' ++ (uncheckedBlock loop.counter ++ '\n' :: B')))
      = keptTexts (.ownLine loop (offset + byteLength A) indent :: rest)
          (commentsFrom offset (A ++ (before ++ '\x7d' :: B))) := by
  obtain ⟨-, hname⟩ := hproper
  rw [byteLength_append, ← Nat.add_assoc] at hbrace
  have hmem : loop.brace ∈ ts := hremaining.mem (htokens _ (by simp [Change.tokens])) (by omega)
  obtain ⟨d, Z, hd, hneutral, -⟩ := exists_cons_of_blanks hblank (e := '\x7d') (by decide)
    (by decide) B
  obtain ⟨ts₁, ts₂, front, rfl, ⟨hstop₁, hreads₂, -⟩, hfront, hcomments, hchange⟩ :=
    exists_cut_comments before hreads hmem hbrace hblank hline (Or.inr (Or.inr hA)) hd hneutral
  have hspaces : (List.replicate indent ' ').all isBlank = true := by
    simp [show isBlank ' ' = true by decide]
  obtain ⟨d', Z', hd', hneutral', hstart⟩ := exists_cons_of_blanks hspaces (e := 'u') (by decide)
    (by decide) ("nchecked".toList ++ (blockBody loop.counter ++ '\n' :: B'))
  have hblock : comments (List.replicate indent ' ' ++
      (uncheckedBlock loop.counter ++ '\n' :: B')) = comments B' := by
    rw [comments_replicate_append, comments_uncheckedBlock hname, comments_blank (by decide)]
  have hkept : ∀ cs, keptTexts (.ownLine loop (offset + byteLength A) indent :: rest) cs
      = keptTexts rest cs := fun _ => rfl
  rw [uncheckedBlock_append, hd', hchange d' Z' hneutral' hstart, ← hd', ← uncheckedBlock_append,
    hblock, hkept, hcomments, hrest.keptTexts_append fun c hc => (hfront c hc).2,
    ih hreads₂ (hremaining.tail (by omega) hstop₁)]

/-- A block directly in front of the brace leaves all comments. -/
theorem comments_of_inline (hreads : Reads offset (A ++ '\x7d' :: B) ts)
    (hremaining : Remaining all offset ts)
    (hbrace : loop.brace.start = offset + byteLength A) (hproper : (Change.inline loop).Proper)
    (htokens : ∀ t ∈ (Change.inline loop).tokens, t ∈ all)
    (hrest : Moved loop.brace.start ('\x7d' :: B) rest B')
    (ih : ∀ {ts' : List Token}, Reads loop.brace.start ('\x7d' :: B) ts' →
      Remaining all loop.brace.start ts' →
        comments B' = keptTexts rest (commentsFrom loop.brace.start ('\x7d' :: B))) :
    comments (A ++ (uncheckedBlock loop.counter ++ ' ' :: B'))
      = keptTexts (.inline loop :: rest) (commentsFrom offset (A ++ '\x7d' :: B)) := by
  obtain ⟨-, hname⟩ := hproper
  have hmem : loop.brace ∈ ts := hremaining.mem (htokens _ (by simp [Change.tokens])) (by omega)
  obtain ⟨ts₁, ts₂, front, rfl, ⟨hstop₁, hreads₂, -⟩, hfront, hcomments, hchange⟩ :=
    exists_cut_comments [] hreads hmem (by simpa using hbrace) rfl (by simp) (Or.inl rfl) rfl
      (by decide)
  rw [← hbrace] at hstop₁ hreads₂ hfront hcomments
  rw [List.nil_append] at hreads₂ hcomments
  have hkept : ∀ cs, keptTexts (.inline loop :: rest) cs = keptTexts rest cs := fun _ => rfl
  have hcomments' : comments (A ++ (uncheckedBlock loop.counter ++ ' ' :: B'))
      = front.map (·.text) ++ comments B' := by
    rw [uncheckedBlock_append, hchange 'u' _ (by decide) (by decide), ← uncheckedBlock_append,
      comments_uncheckedBlock hname, comments_blank (by decide)]
  rw [hcomments', hkept, hcomments, hrest.keptTexts_append fun c hc => (hfront c hc).2,
    ih hreads₂ (hremaining.tail (by omega) hstop₁)]

end Steps

/-! ## All changes -/

/-- **What is not taken out stays**: the changes leave the other comments as they are. -/
theorem Moved.comments_eq (h : Moved offset cs changes R) {all ts : List Token}
    (hreads : Reads offset cs ts) (hremaining : Remaining all offset ts)
    (hproper : ∀ change ∈ changes, change.Proper)
    (htokens : ∀ change ∈ changes, ∀ t ∈ change.tokens, t ∈ all) :
    comments R = keptTexts changes (commentsFrom offset cs) := by
  -- the induction is on the changes, of which each cuts the reading at its place
  induction h generalizing ts with
  | @done offset cs =>
      rw [keptTexts, List.filter_eq_self.mpr (by simp), map_text_commentsFrom]
  | removal hsemicolon hparen h ih =>
      refine comments_of_removal hreads hremaining hsemicolon hparen
        (hproper _ List.mem_cons_self) (htokens _ List.mem_cons_self) h
        fun hreads' hremaining' => ?_
      exact ih hreads' hremaining' (fun c hc => hproper c (List.mem_cons_of_mem _ hc))
        fun c hc => htokens c (List.mem_cons_of_mem _ hc)
  | ownLine hA hblank hline hbrace h ih =>
      refine comments_of_ownLine hreads hremaining hA hblank hline hbrace
        (hproper _ List.mem_cons_self) (htokens _ List.mem_cons_self) h
        fun hreads' hremaining' => ?_
      exact ih hreads' hremaining' (fun c hc => hproper c (List.mem_cons_of_mem _ hc))
        fun c hc => htokens c (List.mem_cons_of_mem _ hc)
  | inline hA hbrace h ih =>
      refine comments_of_inline hreads hremaining hbrace (hproper _ List.mem_cons_self)
        (htokens _ List.mem_cons_self) h fun hreads' hremaining' => ?_
      exact ih hreads' hremaining' (fun c hc => hproper c (List.mem_cons_of_mem _ hc))
        fun c hc => htokens c (List.mem_cons_of_mem _ hc)

/-- The comments of a source text that has been laid out, but not yet optimised. -/
def formattedComments (settings : EditorSettings) (source : String) : List Token :=
  commentTokens (tokenize (format settings source))

/-- **Optimising leaves the comments outside the increments**, with their texts and in their order.
-/
theorem map_text_comments_optimize (settings : EditorSettings) (source : String) :
    (commentTokens (tokenize (optimize settings source))).map (·.text) =
      ((formattedComments settings source).filter fun c =>
        !(countedLoops (formattedTokens settings source)).any (·.inIncrement c)).map (·.text) := by
  have hts := significantTokens_formatText settings source
  generalize formattedTokens settings source = ts at hts ⊢
  have hreads : Reads 0 (formatText settings source.toList) ts := hts ▸ reads_significantTokens 0 _
  obtain ⟨all, hperm, hmoved⟩ := exists_moved_optimizeText settings source.toList hts
  have hchange := proper_of_mem_perm hreads hperm
  have hremaining : Remaining ts 0 ts :=
    ⟨fun t ht => hreads.start_lt_stop ht, fun t ht => ht, fun t ht => Or.inl ht⟩
  have hcomments := hmoved.comments_eq hreads hremaining (fun c hc => (hchange c hc).1)
    fun c hc => (hchange c hc).2
  rw [formattedComments, tokenize, tokenize, optimize, format, String.toList_ofList,
    String.toList_ofList]
  refine hcomments.trans ?_
  rw [keptTexts]
  congr 1
  refine List.filter_congr fun c _ => ?_
  rw [any_removes_eq hperm c]

/-- The comments of a source text line by line, each line without the blanks around it. -/
def commentLines (source : String) : List (List (List Char)) :=
  (commentTokens (tokenize source)).map fun c => (splitLines c.text.toList).map trim

/-- **When optimising keeps all comments**: none of them may lie in the increment of a loop that is
changed. -/
theorem commentLines_optimize_iff (settings : EditorSettings) (source : String) :
    commentLines (optimize settings source) = commentLines (format settings source) ↔
      ∀ loop ∈ countedLoops (formattedTokens settings source),
        ∀ c ∈ formattedComments settings source, loop.inIncrement c = false := by
  have hlines : ∀ source, commentLines source
      = ((commentTokens (tokenize source)).map (·.text)).map
        fun text => (splitLines text.toList).map trim := by
    intro source
    rw [List.map_map]
    rfl
  have hkept : (∀ loop ∈ countedLoops (formattedTokens settings source),
      ∀ c ∈ formattedComments settings source, loop.inIncrement c = false) ↔
      ∀ c ∈ formattedComments settings source,
        (!(countedLoops (formattedTokens settings source)).any (·.inIncrement c)) = true := by
    simp only [Bool.not_eq_true', List.any_eq_false, Bool.not_eq_true]
    exact ⟨fun h c hc loop hloop => h loop hloop c hc, fun h loop hloop c hc => h c hc loop hloop⟩
  rw [hkept, hlines, hlines, map_text_comments_optimize]
  constructor
  · intro h
    -- a comment that is taken out is missing in the count
    have hlength := congrArg List.length h
    simp only [List.length_map] at hlength
    exact List.length_filter_eq_length_iff.mp hlength
  · intro h
    rw [List.filter_eq_self.mpr h]
    rfl

/-- The comment behind an increment is lost. -/
theorem commentLines_optimize_step :
    let source := "for (uint i = 0; i < n; i++ /* step */) \x7b x; \x7d"
    optimize .standard source
        = "for (uint i = 0; i < n;) \x7b x; unchecked \x7b ++i; \x7d \x7d" ∧
      commentLines (optimize .standard source) ≠ commentLines (format .standard source) := by
  decide +kernel

end Layout

end SolidityTools

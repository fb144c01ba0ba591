import SolidityTools.Proofs.Layout.Place

set_option autoImplicit false

/-! # The second formatting

After the edits the text is formatted once more. Its lines are laid out already: an increment that
was taken out joins the beginning of one laid out line with the end of another one, a block that
was put into a line changes its middle. Only a block on a line of its own may be indented anew, so
the result is what the same changes make of the text with other indentations (`Change.relaid`).
-/

namespace SolidityTools.Layout

open Text Lexer

variable {settings : EditorSettings}

/-! ## Solid lines -/

theorem endsSolid_concat (text : List Char) {e : Char} (he : isBlank e = false) :
    EndsSolid (text ++ [e]) := by
  have hne : '\n' ∉ [e] := by
    rw [List.mem_singleton]
    rintro rfl
    cases he
  obtain ⟨before, u, htext⟩ := exists_splitLines_eq text
  exact ⟨_, _, e, splitLines_append htext (splitLines_of_not_mem hne), by simp, he⟩

/-- What stands in front does not matter for the last line being solid. -/
theorem EndsSolid.append_left {A : List Char} (h : EndsSolid A) (P : List Char) :
    EndsSolid (P ++ A) := by
  obtain ⟨before, u, b, hsplit, hb, hb'⟩ := h
  obtain ⟨before', u', hP⟩ := exists_splitLines_eq P
  cases before with
  | nil => exact ⟨_, _, b, splitLines_append hP hsplit, List.mem_append_right _ hb, hb'⟩
  | cons v before =>
      refine ⟨before' ++ (u' ++ v) :: before, u, b, ?_, hb, hb'⟩
      rw [splitLines_append hP hsplit, List.append_assoc]
      rfl

/-! ## The inserted block -/

theorem newline_not_mem_uncheckedBlock {counter : String} (h : IsName counter) :
    '\n' ∉ uncheckedBlock counter := by
  obtain ⟨c, w, htext, hc, hw⟩ := h.word
  have hcounter : '\n' ∉ counter.toList := by
    rw [htext, List.mem_cons, not_or]
    refine ⟨?_, fun hmem => ?_⟩
    · rintro rfl
      cases hc
    · have := List.all_eq_true.mp hw _ hmem
      cases this
  simp [uncheckedBlock, hcounter]

theorem formatLine_uncheckedBlock (indent : List Char) (counter : String)
    (hindent : indent.all isIndent = true) :
    formatLine settings (indent ++ uncheckedBlock counter)
      = reindent settings indent ++ uncheckedBlock counter := by
  obtain ⟨t, ht, hlast⟩ : ∃ t, uncheckedBlock counter = 'u' :: t ∧
      ('u' :: t).getLast? = some '\x7d' := by
    refine ⟨("nchecked \x7b ++" ++ counter ++ ";").toList ++ [' ', '\x7d'], ?_, ?_⟩
    · simp [uncheckedBlock]
    · rw [← List.cons_append, List.getLast?_append_of_ne_nil _ (List.cons_ne_nil _ _)]
      rfl
  have htrimmed : trimmed settings ('u' :: t) = 'u' :: t := by
    rw [trimmed_eq_self_iff, hlast]
    intro _ e he
    obtain rfl := Option.some.inj he
    decide
  rw [ht, formatLine_append t hindent (by decide), htrimmed]
  rfl

/-! ## The result of both steps -/

def Change.loop : Change → CountedLoop
  | .removal loop => loop
  | .ownLine loop _ _ => loop
  | .inline loop => loop

/-- A change with the indentation that the second formatting gives it. -/
def Change.relaid (settings : EditorSettings) : Change → Change
  | .removal loop => .removal loop
  | .ownLine loop place indent =>
    .ownLine loop place (reindent settings (List.replicate indent ' ')).length
  | .inline loop => .inline loop

/-- **Formatting again only indents the blocks on lines of their own.** -/
theorem Moved.formatText_eq {offset : Nat} {cs R : List Char} {changes : List Change}
    (h : Moved offset cs changes R) (hname : ∀ change ∈ changes, IsName change.loop.counter)
    {P : List Char} (hlaid : LaidOut settings (P ++ cs)) :
    ∃ R', Moved offset cs (changes.map (Change.relaid settings)) R' ∧
      formatText settings (P ++ R) = P ++ R' := by
  induction h generalizing P with
  | done => exact ⟨_, .done, hlaid.formatText_eq⟩
  | @removal offset A D B B' rest loop hsemicolon hparen h ih =>
      have hjoin : LaidOut settings ((P ++ A ++ [';']) ++ ([] ++ ')' :: B)) := by
        refine LaidOut.join (x := D ++ ')' :: B) (y := P ++ A ++ ';' :: D)
          (endsSolid_concat _ (by decide)) ?_ ?_ (by decide) (by simp)
        · simpa using hlaid
        · simpa using hlaid
      obtain ⟨R', hmoved, hformat⟩ := ih (fun c hc => hname c (List.mem_cons_of_mem _ hc)) hjoin
      refine ⟨_, .removal hsemicolon hparen hmoved, ?_⟩
      simpa using hformat
  | @ownLine offset A before B B' rest loop indent hA hblank hline hbrace h ih =>
      -- the block is a line, and the lines before and behind it are laid out for themselves
      obtain ⟨A, rfl⟩ := List.getLast?_eq_some_iff.mp hA
      have hsplit : LaidOut settings ((P ++ A) ++ '\n' :: (before ++ '\x7d' :: B)) := by
        simpa using hlaid
      rw [laidOut_append_newline] at hsplit
      obtain ⟨R', hmoved, hformat⟩ := @ih (fun c hc => hname c (List.mem_cons_of_mem _ hc)) []
        hsplit.2
      rw [List.nil_append, List.nil_append] at hformat
      refine ⟨_, .ownLine hA hblank hline hbrace hmoved, ?_⟩
      have hblock : '\n' ∉ List.replicate indent ' ' ++ uncheckedBlock loop.counter := by
        have : '\n' ∉ uncheckedBlock loop.counter :=
          newline_not_mem_uncheckedBlock (hname _ List.mem_cons_self)
        simp [this]
      have hline' : formatText settings (List.replicate indent ' ' ++ uncheckedBlock loop.counter)
          = List.replicate (reindent settings (List.replicate indent ' ')).length ' '
            ++ uncheckedBlock loop.counter := by
        rw [formatText_of_not_mem hblock, formatLine_uncheckedBlock _ _ (by simp [isIndent]),
          ← reindent_eq_replicate]
      calc formatText settings (P ++ ((A ++ ['\n']) ++ (List.replicate indent ' ' ++
              (uncheckedBlock loop.counter ++ '\n' :: B'))))
          = formatText settings ((P ++ A) ++ '\n' :: ((List.replicate indent ' ' ++
              uncheckedBlock loop.counter) ++ '\n' :: B')) := by simp
        _ = (P ++ A) ++ '\n' :: ((List.replicate
              (reindent settings (List.replicate indent ' ')).length ' ' ++
                uncheckedBlock loop.counter) ++ '\n' :: R') := by
            rw [formatText_append_newline, formatText_append_newline, hsplit.1.formatText_eq,
              hline', hformat]
        _ = _ := by simp
  | @inline offset A B B' rest loop hA hbrace h ih =>
      have hnewline : '\n' ∉ uncheckedBlock loop.counter :=
        newline_not_mem_uncheckedBlock (hname _ List.mem_cons_self)
      -- the brace moves to the right on its line, whose indentation is decided in front of it
      have hjoin : LaidOut settings
          ((P ++ A) ++ ((uncheckedBlock loop.counter ++ [' ']) ++ '\x7d' :: B)) := by
        refine LaidOut.join (x := '\x7d' :: B) (y := P ++ A) (hA.append_left P) ?_ ?_ (by decide)
          (by simpa using hnewline)
        · simpa using hlaid
        · simpa using hlaid
      rw [← List.append_assoc] at hjoin
      obtain ⟨R', hmoved, hformat⟩ := ih (fun c hc => hname c (List.mem_cons_of_mem _ hc)) hjoin
      refine ⟨_, .inline hA hbrace hmoved, ?_⟩
      simpa using hformat

/-- The changes that optimising makes to a loop. -/
def finalChanges (settings : EditorSettings) (text : List Char) (loop : CountedLoop) :
    List Change :=
  [(addition settings text loop).relaid settings, .removal loop]

theorem loop_addition (settings : EditorSettings) (text : List Char) (loop : CountedLoop) :
    (addition settings text loop).loop = loop := by
  rcases addition_cases settings text loop with h | ⟨place, indent, h⟩
  · rw [h]
    rfl
  · rw [h]
    rfl

theorem loop_mem_of_mem_changes {settings : EditorSettings} {text : List Char}
    {loops : List CountedLoop} {change : Change}
    (h : change ∈ loops.flatMap (changes settings text)) : change.loop ∈ loops := by
  obtain ⟨loop, hloop, hchange⟩ := List.mem_flatMap.mp h
  simp only [changes, List.mem_cons, List.not_mem_nil, or_false] at hchange
  rcases hchange with rfl | rfl
  · rwa [loop_addition]
  · exact hloop

theorem Change.loop_relaid (settings : EditorSettings) (change : Change) :
    (change.relaid settings).loop = change.loop := by
  cases change <;> rfl

/-- What optimising makes of a loop is what is first made of it, laid out again. -/
theorem map_relaid_changes (settings : EditorSettings) (text : List Char)
    (loops : List CountedLoop) :
    (loops.flatMap (changes settings text)).map (Change.relaid settings)
      = loops.flatMap (finalChanges settings text) := by
  rw [List.map_flatMap]
  rfl

theorem loop_mem_of_mem_finalChanges {settings : EditorSettings} {text : List Char}
    {loops : List CountedLoop} {change : Change}
    (h : change ∈ loops.flatMap (finalChanges settings text)) : change.loop ∈ loops := by
  rw [← map_relaid_changes] at h
  obtain ⟨first, hfirst, rfl⟩ := List.mem_map.mp h
  rw [Change.loop_relaid]
  exact loop_mem_of_mem_changes hfirst

/-- **Optimising makes the changes of all counted loops**, each once and in the order of the
text, and nothing else. -/
theorem exists_moved_optimizeText (settings : EditorSettings) (text : List Char) {ts : List Token}
    (hts : significantTokens (tokensFrom 0 (formatText settings text)) = ts) :
    ∃ all, all.Perm ((countedLoops ts).flatMap (finalChanges settings (formatText settings text))) ∧
      Moved 0 (formatText settings text) all (optimizeText settings text) := by
  generalize hF : formatText settings text = F at hts ⊢
  have hlaid : LaidOut settings ([] ++ F) := by
    rw [List.nil_append, ← hF]
    exact laidOut_formatText text
  have hreads : Reads 0 F ts := hts ▸ reads_significantTokens 0 F
  unfold optimizeText
  simp only [hF, hts]
  by_cases hempty : (countedLoops ts).isEmpty = true
  · rw [if_pos hempty]
    rw [List.isEmpty_iff] at hempty
    exact ⟨[], by simp [hempty], .done⟩
  · rw [if_neg hempty]
    obtain ⟨all, R, hperm, hmoved, hedits⟩ := exists_moved settings hreads
    have hname : ∀ change ∈ all, IsName change.loop.counter := by
      intro change hchange
      obtain ⟨site⟩ := exists_site (loop_mem_of_mem_changes (hperm.mem_iff.mp hchange))
      exact site.isName hreads
    obtain ⟨R', hmoved', hformat⟩ := hmoved.formatText_eq hname hlaid
    rw [List.nil_append, List.nil_append] at hformat
    refine ⟨all.map (Change.relaid settings), ?_, ?_⟩
    · rw [← map_relaid_changes]
      exact hperm.map (Change.relaid settings)
    · rwa [hedits, hformat]

end SolidityTools.Layout

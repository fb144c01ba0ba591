import SolidityTools.Proofs.Layout.Line
import SolidityTools.Proofs.Layout.Loop
import SolidityTools.Proofs.StableOrder
import SolidityTools.Proofs.Token.Cut

set_option autoImplicit false

/-! # Applying the edits of all loops

The edits of the counted loops are collected against one text and applied from its end towards its
beginning. Here they become one relation between the text before and the text after: `Moved`
reads both from left to right and names the change it passes, with what stands around it.

That works because the changes are *apart*: each has a stretch of text of its own, from the
semicolon to the closing parenthesis for the increment and from the line's beginning to the
closing brace for the block. Applied in descending order, every edit finds the text in front of it
untouched (`Moved.exists_of_fits`).
-/

namespace SolidityTools.Layout

open Text Lexer

/-! ## Changes -/

/-- What is done to a loop. -/
inductive Change where
  /-- The increment is taken out of the header. -/
  | removal (loop : CountedLoop)
  /-- The block is put on a line of its own in front of the line of the brace. -/
  | ownLine (loop : CountedLoop) (place indent : Nat)
  /-- The block is put directly in front of the brace. -/
  | inline (loop : CountedLoop)

namespace Change

def edit : Change → Edit
  | .removal loop => deletion loop
  | .ownLine loop place indent =>
    ⟨place, place, List.replicate indent ' ' ++ uncheckedBlock loop.counter ++ ['\n']⟩
  | .inline loop =>
    ⟨loop.brace.start, loop.brace.start, uncheckedBlock loop.counter ++ [' ']⟩

def apply (change : Change) (text : List Char) : List Char :=
  replaceBytes text change.edit.start change.edit.stop change.edit.text

/-- Where the stretch of text begins that belongs to a change. -/
def low : Change → Nat
  | .removal loop => loop.semicolon.start
  | .ownLine _ place _ => place
  | .inline loop => loop.brace.start

/-- Where the stretch of text ends that belongs to a change: behind its closing bracket. -/
def high : Change → Nat
  | .removal loop => loop.paren.start + 1
  | .ownLine loop _ _ => loop.brace.start + 1
  | .inline loop => loop.brace.start + 1

/-- That a change finds in the text what it is made for. -/
def Fits (text : List Char) : Change → Prop
  | .removal loop =>
    ∃ P D S, text = P ++ ';' :: (D ++ ')' :: S) ∧ loop.semicolon.start = byteLength P ∧
      loop.semicolon.stop = byteLength (P ++ [';']) ∧
      loop.paren.start = byteLength (P ++ ';' :: D)
  | .ownLine loop place _ =>
    ∃ P before S, text = P ++ (before ++ '\x7d' :: S) ∧ place = byteLength P ∧
      loop.brace.start = byteLength (P ++ before) ∧ P.getLast? = some '\n' ∧
      before.all isBlank = true ∧ '\n' ∉ before
  | .inline loop =>
    ∃ P S, text = P ++ '\x7d' :: S ∧ loop.brace.start = byteLength P ∧ EndsSolid P

end Change

/-- Where the block of a loop goes. -/
def addition (settings : EditorSettings) (text : List Char) (loop : CountedLoop) : Change :=
  let before := lineBefore text loop.brace.start
  if isBlankText before then
    .ownLine loop (loop.brace.start - byteLength before)
      (columns settings before + unit settings).toNat
  else .inline loop

theorem addition_cases (settings : EditorSettings) (text : List Char) (loop : CountedLoop) :
    addition settings text loop = .inline loop ∨
      ∃ place indent, addition settings text loop = .ownLine loop place indent := by
  unfold addition
  by_cases hblank : isBlankText (lineBefore text loop.brace.start) = true
  · exact Or.inr ⟨_, _, if_pos hblank⟩
  · exact Or.inl (if_neg hblank)

def changes (settings : EditorSettings) (text : List Char) (loop : CountedLoop) : List Change :=
  [addition settings text loop, .removal loop]

theorem map_edit_changes (settings : EditorSettings) (text : List Char) (loop : CountedLoop) :
    (changes settings text loop).map Change.edit = loopEdits settings text loop := by
  simp only [changes, loopEdits, addition, insertion, List.map_cons, List.map_nil]
  split <;> rfl

/-! ## The text before and after -/

/-- A text that stands at a byte offset, and what some changes make of it. -/
inductive Moved : Nat → List Char → List Change → List Char → Prop
  | done {offset : Nat} {cs : List Char} : Moved offset cs [] cs
  | removal {offset : Nat} {A D B B' : List Char} {rest : List Change} {loop : CountedLoop}
      (hsemicolon : loop.semicolon.start = offset + byteLength A)
      (hparen : loop.paren.start = offset + byteLength (A ++ ';' :: D))
      (h : Moved loop.paren.start (')' :: B) rest B') :
      Moved offset (A ++ ';' :: (D ++ ')' :: B)) (.removal loop :: rest) (A ++ ';' :: B')
  | ownLine {offset : Nat} {A before B B' : List Char} {rest : List Change} {loop : CountedLoop}
      {indent : Nat} (hA : A.getLast? = some '\n') (hblank : before.all isBlank = true)
      (hline : '\n' ∉ before) (hbrace : loop.brace.start = offset + byteLength (A ++ before))
      (h : Moved (offset + byteLength A) (before ++ '\x7d' :: B) rest B') :
      Moved offset (A ++ (before ++ '\x7d' :: B))
        (.ownLine loop (offset + byteLength A) indent :: rest)
        (A ++ (List.replicate indent ' ' ++ (uncheckedBlock loop.counter ++ '\n' :: B')))
  | inline {offset : Nat} {A B B' : List Char} {rest : List Change} {loop : CountedLoop}
      (hA : EndsSolid A) (hbrace : loop.brace.start = offset + byteLength A)
      (h : Moved loop.brace.start ('\x7d' :: B) rest B') :
      Moved offset (A ++ '\x7d' :: B) (.inline loop :: rest)
        (A ++ (uncheckedBlock loop.counter ++ ' ' :: B'))

/-- Replacing a piece of a text whose places are known. -/
theorem replaceBytes_append (as bs cs new : List Char) :
    replaceBytes (as ++ bs ++ cs) (byteLength as) (byteLength (as ++ bs)) new
      = as ++ new ++ cs := by
  rw [replaceBytes, dropBytes_byteLength_append, List.append_assoc as bs cs,
    takeBytes_byteLength_append]

theorem EndsSolid.ne_nil {A : List Char} (h : EndsSolid A) : A ≠ [] := by
  rintro rfl
  obtain ⟨before, u, b, hsplit, hb, -⟩ := h
  have hnil : [[]] = before ++ [u] := hsplit
  have := congrArg List.getLast? hnil
  rw [List.getLast?_concat, List.getLast?_singleton, Option.some.injEq] at this
  rw [← this] at hb
  cases hb

/-- What stands behind a solid character ends with a solid line if the whole text does. -/
theorem EndsSolid.of_append {Q A : List Char} {e : Char} (h : EndsSolid (Q ++ A)) (he : e ∈ A)
    (he' : isBlank e = false) : EndsSolid A := by
  obtain ⟨before, u, b, hsplit, hb, hb'⟩ := h
  obtain ⟨before', u', hQ⟩ := exists_splitLines_eq Q
  obtain ⟨v, behind, hA⟩ := List.exists_cons_of_ne_nil (splitLines_ne_nil A)
  rw [splitLines_append hQ hA] at hsplit
  rcases List.eq_nil_or_concat behind with rfl | ⟨lines, w, rfl⟩
  · -- the second text is one line
    refine ⟨[], v, e, hA, ?_, he'⟩
    have := joinLines_splitLines A
    rw [hA] at this
    rwa [← this] at he
  · -- the last line of both texts is the same
    have hlast := congrArg List.getLast? hsplit
    rw [List.concat_eq_append, ← List.cons_append, ← List.append_assoc, List.getLast?_concat,
      List.getLast?_concat, Option.some.injEq] at hlast
    subst hlast
    exact ⟨v :: lines, w, b, by rw [hA]; simp, hb, hb'⟩

/-- The rest of a text begins with something solid in front of all changes that are left, unless it
is the whole text. -/
def Settled (Q cs : List Char) (changes : List Change) : Prop :=
  Q = [] ∨ ∃ v rest, cs = v ++ rest ∧ (∃ e ∈ v, isBlank e = false) ∧
    ∀ change ∈ changes, byteLength (Q ++ v) ≤ change.low

/-- The text between the settled part and a change. -/
theorem Settled.exists_append {Q cs P X : List Char} {changes : List Change} {change : Change}
    (h : Settled Q cs changes) (hmem : change ∈ changes) (htext : Q ++ cs = P ++ X)
    (hlow : change.low = byteLength P) :
    ∃ A, P = Q ++ A ∧ cs = A ++ X ∧ (Q = [] ∨ ∃ e ∈ A, isBlank e = false) := by
  rcases h with rfl | ⟨v, rest, rfl, ⟨e, he, he'⟩, hv⟩
  · exact ⟨P, rfl, htext, Or.inl rfl⟩
  · have hle := hv change hmem
    rw [hlow] at hle
    rw [← List.append_assoc] at htext
    obtain ⟨m, rfl, rfl⟩ := exists_append_of_byteLength_le htext hle
    refine ⟨v ++ m, by simp, by simp, Or.inr ⟨e, List.mem_append_left m he, he'⟩⟩

/-- Behind a change the text goes on with its closing bracket. -/
theorem Settled.of_high {Q v : List Char} {e : Char} {S : List Char} {changes : List Change}
    {change : Change} (he : isBlank e = false) (hsize : e.utf8Size = 1)
    (hhigh : change.high = byteLength (Q ++ v) + 1) (h : ∀ c ∈ changes, change.high ≤ c.low) :
    Settled Q (v ++ e :: S) changes := by
  refine Or.inr ⟨v ++ [e], S, by simp, ⟨e, by simp, he⟩, fun c hc => ?_⟩
  have := h c hc
  rw [hhigh] at this
  rw [← List.append_assoc, byteLength_append, byteLength_cons, byteLength_nil, hsize]
  exact this

/-- **Changes that are apart do not disturb each other.** They are made from the last one to the
first one. -/
theorem Moved.exists_of_fits {text : List Char} {changes : List Change}
    (hfits : ∀ change ∈ changes, change.Fits text)
    (hapart : changes.Pairwise fun c d => c.high ≤ d.low) {Q cs : List Char}
    (htext : text = Q ++ cs) (hsettled : Settled Q cs changes) :
    ∃ R, Moved (byteLength Q) cs changes R ∧ changes.foldr Change.apply text = Q ++ R := by
  -- `Q` is the part of the text that no change is left for; each change moves a piece to it
  induction changes generalizing Q cs with
  | nil => exact ⟨cs, .done, htext⟩
  | cons change rest ih =>
      obtain ⟨hfirst, hrest⟩ := List.pairwise_cons.mp hapart
      have ih := fun {Q cs} => @ih (fun c hc => hfits c (List.mem_cons_of_mem _ hc)) hrest Q cs
      have hchange := hfits change List.mem_cons_self
      cases change with
      | removal loop =>
          obtain ⟨P, D, S, heq, hsemicolon, hstop, hparen⟩ := hchange
          obtain ⟨A, rfl, rfl, -⟩ := hsettled.exists_append List.mem_cons_self
            (htext.symm.trans heq) hsemicolon
          have hsettled' : Settled (Q ++ A ++ ';' :: D) ([] ++ ')' :: S) rest :=
            .of_high (by decide) rfl (by rw [Change.high, hparen, List.append_nil]) hfirst
          obtain ⟨B', hmoved, hfold⟩ :=
            @ih (Q ++ A ++ ';' :: D) (')' :: S) (by simp [heq]) hsettled'
          refine ⟨A ++ ';' :: B', ?_, ?_⟩
          · refine Moved.removal ?_ ?_ (by rwa [hparen])
            · rw [hsemicolon, byteLength_append]
            · rw [hparen]
              simp only [byteLength_append]
              omega
          · have hreplace := replaceBytes_append (Q ++ A ++ [';']) D B' []
            rw [List.foldr_cons, hfold, Change.apply]
            simp only [Change.edit, deletion, hstop, hparen]
            simpa using hreplace
      | ownLine loop place indent =>
          obtain ⟨P, before, S, heq, rfl, hbrace, hlast, hblank, hline⟩ := hchange
          obtain ⟨A, rfl, rfl, hsolid⟩ := hsettled.exists_append List.mem_cons_self
            (htext.symm.trans heq) rfl
          have hsettled' : Settled (Q ++ A) (before ++ '\x7d' :: S) rest :=
            .of_high (by decide) rfl (by rw [Change.high, hbrace]) hfirst
          obtain ⟨B', hmoved, hfold⟩ := @ih (Q ++ A) (before ++ '\x7d' :: S) heq hsettled'
          have hA : A.getLast? = some '\n' := by
            rcases hsolid with rfl | ⟨e, he, -⟩
            · exact hlast
            · rwa [List.getLast?_append_of_ne_nil _ (List.ne_nil_of_mem he)] at hlast
          refine ⟨A ++ (List.replicate indent ' ' ++ (uncheckedBlock loop.counter ++ '\n' :: B')),
            ?_, ?_⟩
          · rw [byteLength_append]
            refine Moved.ownLine hA hblank hline ?_ (by rwa [← byteLength_append])
            rw [hbrace]
            simp only [byteLength_append]
            omega
          · have hreplace := replaceBytes_append (Q ++ A) [] B'
              (List.replicate indent ' ' ++ uncheckedBlock loop.counter ++ ['\n'])
            rw [List.foldr_cons, hfold, Change.apply]
            simp only [Change.edit]
            simpa using hreplace
      | inline loop =>
          obtain ⟨P, S, heq, hbrace, hends⟩ := hchange
          obtain ⟨A, rfl, rfl, hsolid⟩ := hsettled.exists_append List.mem_cons_self
            (htext.symm.trans heq) hbrace
          have hsettled' : Settled (Q ++ A) ([] ++ '\x7d' :: S) rest :=
            .of_high (by decide) rfl (by rw [Change.high, hbrace, List.append_nil]) hfirst
          obtain ⟨B', hmoved, hfold⟩ := @ih (Q ++ A) ('\x7d' :: S) heq hsettled'
          have hA : EndsSolid A := by
            rcases hsolid with rfl | ⟨e, he, he'⟩
            · exact hends
            · exact hends.of_append he he'
          refine ⟨A ++ (uncheckedBlock loop.counter ++ ' ' :: B'),
            Moved.inline hA ?_ (by rwa [hbrace]), ?_⟩
          · rw [hbrace, byteLength_append]
          · have hreplace := replaceBytes_append (Q ++ A) [] B'
              (uncheckedBlock loop.counter ++ [' '])
            rw [List.foldr_cons, hfold, Change.apply]
            simp only [Change.edit, hbrace]
            simpa using hreplace

end SolidityTools.Layout

import SolidityTools.Proofs.Text.Line
import SolidityTools.Text.Offset

set_option autoImplicit false

/-! # Line feeds and the beginnings of lines

The line feeds of a text are known by their byte offsets. Each begins a line one byte behind it, and
the first line begins with the text (`lineStartsFrom`). So in front of a line stand the lines before
it, each with its line feed (`getElem?_lineStartsFrom`).
-/

namespace SolidityTools

open Text

/-- The byte offsets of the line feeds of a text that stands at an offset. -/
def newlineOffsets (offset : Nat) : List Char → List Nat
  | [] => []
  | c :: cs =>
    let behind := newlineOffsets (offset + c.utf8Size) cs
    if c == '\n' then offset :: behind else behind

theorem newlineOffsets_append (offset : Nat) (as bs : List Char) :
    newlineOffsets offset (as ++ bs)
      = newlineOffsets offset as ++ newlineOffsets (offset + byteLength as) bs := by
  induction as generalizing offset with
  | nil => rfl
  | cons c as ih =>
      simp only [List.cons_append, newlineOffsets, ih, byteLength_cons, Nat.add_assoc]
      split
      · rfl
      · rfl

theorem newlineOffsets_of_not_mem {cs : List Char} (h : '\n' ∉ cs) (offset : Nat) :
    newlineOffsets offset cs = [] := by
  induction cs generalizing offset with
  | nil => rfl
  | cons c cs ih =>
      rw [List.mem_cons, not_or] at h
      have hc : ¬(c == '\n') = true := by simpa using Ne.symm h.1
      simp only [newlineOffsets, if_neg hc]
      exact ih h.2 _

theorem le_of_mem_newlineOffsets {offset n : Nat} {cs : List Char}
    (h : n ∈ newlineOffsets offset cs) : offset ≤ n := by
  induction cs generalizing offset with
  | nil => cases h
  | cons c cs ih =>
      have hrest : n ∈ newlineOffsets (offset + c.utf8Size) cs → offset ≤ n := by
        intro h
        have := ih h
        omega
      simp only [newlineOffsets] at h
      split at h
      · rcases List.mem_cons.mp h with rfl | h
        · exact Nat.le_refl n
        · exact hrest h
      · exact hrest h

/-- Each line feed has an offset. -/
theorem length_newlineOffsets (offset : Nat) (cs : List Char) :
    (newlineOffsets offset cs).length = cs.count '\n' := by
  induction cs generalizing offset with
  | nil => rfl
  | cons c cs ih =>
      rw [newlineOffsets, List.count_cons, ← ih (offset + c.utf8Size)]
      split
      · rfl
      · rfl

/-- A text of spaces and line feeds is known by its length and its line feeds. -/
theorem eq_of_newlineOffsets_eq {as bs : List Char} (has : ∀ c ∈ as, c = ' ' ∨ c = '\n')
    (hbs : ∀ c ∈ bs, c = ' ' ∨ c = '\n') (hlength : byteLength as = byteLength bs) {offset : Nat}
    (h : newlineOffsets offset as = newlineOffsets offset bs) : as = bs := by
  have hspace : ∀ (n : Nat) (cs : List Char),
      newlineOffsets n (' ' :: cs) = newlineOffsets (n + 1) cs := fun n cs => rfl
  have hfeed : ∀ (n : Nat) (cs : List Char),
      newlineOffsets n ('\n' :: cs) = n :: newlineOffsets (n + 1) cs := fun n cs => rfl
  have hahead : ∀ (n : Nat) (cs ds : List Char),
      newlineOffsets (n + 1) cs ≠ n :: newlineOffsets (n + 1) ds := by
    intro n cs ds h
    have := le_of_mem_newlineOffsets (h ▸ List.mem_cons_self : n ∈ newlineOffsets (n + 1) cs)
    omega
  have hsize : ∀ c : Char, c = ' ' ∨ c = '\n' → c.utf8Size = 1 := by
    rintro c (rfl | rfl)
    · rfl
    · rfl
  induction as generalizing bs offset with
  | nil =>
      cases bs with
      | nil => rfl
      | cons d bs =>
          have := d.utf8Size_pos
          rw [byteLength_nil, byteLength_cons] at hlength
          omega
  | cons c as ih =>
      cases bs with
      | nil =>
          have := c.utf8Size_pos
          rw [byteLength_nil, byteLength_cons] at hlength
          omega
      | cons d bs =>
          have hc := has c List.mem_cons_self
          have hd := hbs d List.mem_cons_self
          have hrest : newlineOffsets (offset + 1) as = newlineOffsets (offset + 1) bs →
              as = bs := by
            rw [byteLength_cons, byteLength_cons, hsize c hc, hsize d hd] at hlength
            exact ih (fun x hx => has x (List.mem_cons_of_mem c hx))
              (fun x hx => hbs x (List.mem_cons_of_mem d hx)) (by omega)
          rcases hc with rfl | rfl
          · rcases hd with rfl | rfl
            · rw [hspace, hspace] at h
              rw [hrest h]
            · rw [hspace, hfeed] at h
              exact absurd h (hahead offset as bs)
          · rcases hd with rfl | rfl
            · rw [hspace, hfeed] at h
              exact absurd h.symm (hahead offset bs as)
            · rw [hfeed, hfeed] at h
              rw [hrest (List.cons.inj h).2]

/-! ## Lines -/

/-- The byte offsets at which the lines of a text begin that stands at an offset. -/
def lineStartsFrom (offset : Nat) (cs : List Char) : List Nat :=
  offset :: (newlineOffsets offset cs).map (· + 1)

/-- The text of some lines, each with its line feed. -/
def endLines (lines : List (List Char)) : List Char := lines.flatMap (· ++ ['\n'])

theorem endLines_cons (line : List Char) (lines : List (List Char)) :
    endLines (line :: lines) = line ++ '\n' :: endLines lines := by
  rw [endLines, List.flatMap_cons, List.append_assoc]
  rfl

/-- A text is all of its lines but the last with their line feeds, and the last line. -/
theorem eq_endLines_append {cs u : List Char} {before : List (List Char)}
    (h : splitLines cs = before ++ [u]) : cs = endLines before ++ u := by
  have hjoin : ∀ lines, joinLines (lines ++ [u]) = endLines lines ++ u := by
    intro lines
    induction lines with
    | nil => rfl
    | cons line lines ih =>
        have hne : lines ++ [u] ≠ [] := by simp
        calc joinLines (line :: lines ++ [u])
            = joinLines ([line] ++ (lines ++ [u])) := rfl
          _ = joinLines [line] ++ '\n' :: joinLines (lines ++ [u]) :=
              joinLines_append (List.cons_ne_nil line []) hne
          _ = line ++ '\n' :: (endLines lines ++ u) := by
              rw [ih]
              rfl
          _ = endLines (line :: lines) ++ u := by
              rw [endLines_cons, List.append_assoc, List.cons_append]
  calc cs = joinLines (splitLines cs) := (joinLines_splitLines cs).symm
    _ = endLines before ++ u := by rw [h, hjoin]

theorem getElem?_lineStartsFrom {lines : List (List Char)} (hlines : ∀ line ∈ lines, '\n' ∉ line)
    (offset : Nat) (cs : List Char) :
    (lineStartsFrom offset (endLines lines ++ cs))[lines.length]?
      = some (offset + byteLength (endLines lines)) := by
  induction lines generalizing offset with
  | nil => rfl
  | cons line lines ih =>
      have hsize : '\n'.utf8Size = 1 := by decide
      have hline := hlines line List.mem_cons_self
      have hnext := ih (fun l hl => hlines l (List.mem_cons_of_mem line hl))
        (offset + byteLength line + 1)
      have hoffsets : newlineOffsets offset (endLines (line :: lines) ++ cs)
          = (offset + byteLength line)
              :: newlineOffsets (offset + byteLength line + 1) (endLines lines ++ cs) := by
        rw [endLines_cons, List.append_assoc, List.cons_append, newlineOffsets_append,
          newlineOffsets_of_not_mem hline, newlineOffsets, if_pos (by rfl), hsize]
        rfl
      rw [lineStartsFrom, hoffsets, List.map_cons, List.length_cons, List.getElem?_cons_succ]
      show (lineStartsFrom (offset + byteLength line + 1) (endLines lines ++ cs))[lines.length]? = _
      rw [hnext, endLines_cons, byteLength_append, byteLength_cons, hsize]
      refine congrArg some ?_
      omega

/-- A text has as many line beginnings as lines. -/
theorem length_lineStartsFrom (offset : Nat) (cs : List Char) :
    (lineStartsFrom offset cs).length = (splitLines cs).length := by
  rw [lineStartsFrom, List.length_cons, List.length_map, length_newlineOffsets, length_splitLines]

/-- The first lines of a text end at a line feed or at the end of the text. -/
theorem exists_append_takeLines (n offset : Nat) (cs : List Char) :
    ∃ rest, cs = takeLines (n + 1) cs ++ rest ∧
      ((newlineOffsets offset cs)[n]?).getD (offset + byteLength cs)
        = offset + byteLength (takeLines (n + 1) cs) := by
  induction cs generalizing n offset with
  | nil =>
      have hnil : takeLines (n + 1) [] = [] := by
        rw [takeLines, splitLines, splitWhere, List.take_succ_cons, List.take_nil]
        rfl
      exact ⟨[], by rw [hnil]; rfl, by rw [hnil]; rfl⟩
  | cons c cs ih =>
      by_cases hc : c = '\n'
      · subst hc
        cases n with
        | zero => exact ⟨_, by rw [takeLines_one_newline]; rfl, by rw [takeLines_one_newline]; rfl⟩
        | succ n =>
            obtain ⟨rest, hrest, hend⟩ := ih n (offset + '\n'.utf8Size)
            refine ⟨rest, ?_, ?_⟩
            · rw [takeLines_newline, List.cons_append, ← hrest]
            · rw [takeLines_newline, byteLength_cons, byteLength_cons, ← Nat.add_assoc,
                ← Nat.add_assoc, ← hend]
              rfl
      · obtain ⟨rest, hrest, hend⟩ := ih n (offset + c.utf8Size)
        refine ⟨rest, ?_, ?_⟩
        · rw [takeLines_cons hc, List.cons_append, ← hrest]
        · rw [takeLines_cons hc, byteLength_cons, byteLength_cons, ← Nat.add_assoc,
            ← Nat.add_assoc, ← hend, newlineOffsets, if_neg (by simpa using hc)]

end SolidityTools

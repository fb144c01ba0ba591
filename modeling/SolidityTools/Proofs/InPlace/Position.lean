import SolidityTools.Proofs.InPlace.Access

set_option autoImplicit false

/-! # Positions in place

A position is found by searching the beginnings of the lines for the last one that is not behind the
offset and counting the characters from there. The first line begins at the beginning of the text,
so there always is such a line, and a line begins between two characters. An offset behind the end
of the text or inside a character is not excluded: the offset itself is never used to cut the text.
-/

namespace SolidityTools

open Text

namespace InPlace

/-- The byte offsets of the characters of a text that stands at an offset. -/
def characterOffsets (offset : Nat) : List Char → List Nat
  | [] => []
  | c :: cs => offset :: characterOffsets (offset + c.utf8Size) cs

/-- The position of a byte offset, or of the end of the text if the offset is behind it. -/
def positionAt? (source : String) (offset : Nat) : Option Position := do
  let cs := source.toList
  let offset := min offset (byteLength cs)
  let starts := lineStarts source
  let line ← predecessor? (starts.takeWhile (· ≤ offset)).length
  let start ← starts[line]?
  let rest ← rest? cs start
  let column := ((characterOffsets start rest).takeWhile (· < offset)).length
  some ⟨line + 1, column + 1⟩

/-! ## Counting up to an offset -/

theorem length_takeWhile_append {α : Type} {p : α → Bool} {xs ys : List α}
    (hxs : ∀ x ∈ xs, p x = true) (hys : ∀ y ∈ ys, p y = false) :
    ((xs ++ ys).takeWhile p).length = xs.length := by
  have hbehind : ys.takeWhile p = [] := by
    cases ys with
    | nil => rfl
    | cons y ys => exact List.takeWhile_cons_of_neg (by simp [hys y List.mem_cons_self])
  rw [List.takeWhile_append_of_pos hxs, hbehind, List.append_nil]

theorem characterOffsets_append (offset : Nat) (as bs : List Char) :
    characterOffsets offset (as ++ bs)
      = characterOffsets offset as ++ characterOffsets (offset + byteLength as) bs := by
  induction as generalizing offset with
  | nil => rfl
  | cons c as ih =>
      simp only [List.cons_append, characterOffsets, ih, byteLength_cons, Nat.add_assoc]

theorem length_characterOffsets (offset : Nat) (cs : List Char) :
    (characterOffsets offset cs).length = cs.length := by
  induction cs generalizing offset with
  | nil => rfl
  | cons c cs ih => rw [characterOffsets, List.length_cons, ih, List.length_cons]

theorem le_of_mem_characterOffsets {offset n : Nat} {cs : List Char}
    (h : n ∈ characterOffsets offset cs) : offset ≤ n := by
  induction cs generalizing offset with
  | nil => cases h
  | cons c cs ih =>
      rcases List.mem_cons.mp h with rfl | h
      · exact Nat.le_refl n
      · exact Nat.le_trans (Nat.le_add_right _ _) (ih h)

/-- A line feed is a character. -/
theorem mem_characterOffsets_of_mem_newlineOffsets {offset n : Nat} {cs : List Char}
    (h : n ∈ newlineOffsets offset cs) : n ∈ characterOffsets offset cs := by
  induction cs generalizing offset with
  | nil => cases h
  | cons c cs ih =>
      simp only [newlineOffsets] at h
      split at h
      · rcases List.mem_cons.mp h with rfl | h
        · exact List.mem_cons_self
        · exact List.mem_cons_of_mem _ (ih h)
      · exact List.mem_cons_of_mem _ (ih h)

theorem lt_of_mem_characterOffsets_takeBytes {n m offset : Nat} {cs : List Char}
    (h : m ∈ characterOffsets offset (takeBytes n cs)) : m < offset + n := by
  induction cs generalizing n offset with
  | nil => cases n <;> cases h
  | cons c cs ih =>
      cases n with
      | zero => cases h
      | succ n =>
          rcases List.mem_cons.mp h with rfl | h
          · omega
          · rcases Nat.lt_or_ge c.utf8Size (n + 1) with hsize | hsize
            · have := ih h
              omega
            · -- the offset is inside this character or right behind it
              rw [Nat.sub_eq_zero_of_le hsize, takeBytes_zero] at h
              cases h

/-- The characters that are left start at the offset or behind it, or there are none. -/
theorem le_byteLength_takeBytes (n : Nat) (cs : List Char) :
    min n (byteLength cs) ≤ byteLength (takeBytes n cs) := by
  induction cs generalizing n with
  | nil => cases n <;> simp
  | cons c cs ih =>
      cases n with
      | zero => simp
      | succ n =>
          have := ih (n + 1 - c.utf8Size)
          rw [takeBytes, byteLength_cons, byteLength_cons]
          omega

/-- An offset behind the end stands for the end. -/
theorem takeBytes_min (n : Nat) (cs : List Char) :
    takeBytes (min n (byteLength cs)) cs = takeBytes n cs := by
  induction cs generalizing n with
  | nil => cases n <;> rfl
  | cons c cs ih =>
      cases n with
      | zero => rw [Nat.zero_min]
      | succ n =>
          have hsize := c.utf8Size_pos
          obtain ⟨k, hk⟩ : ∃ k, min (n + 1) (byteLength (c :: cs)) = k + 1 := by
            refine ⟨min (n + 1) (byteLength (c :: cs)) - 1, ?_⟩
            rw [byteLength_cons]
            omega
          have hrest : k + 1 - c.utf8Size = min (n + 1 - c.utf8Size) (byteLength cs) := by
            rw [← hk, byteLength_cons]
            omega
          rw [hk, takeBytes, takeBytes, hrest, ih]

/-! ## The position -/

/-- The lines that begin up to an offset are those of the text in front of it. -/
theorem length_takeWhile_lineStarts {P S : List Char} {offset : Nat}
    (hP : ∀ n ∈ characterOffsets 0 P, n < offset) (hS : offset ≤ byteLength P) :
    ((lineStartsFrom 0 (P ++ S)).takeWhile (· ≤ offset)).length = (lineStartsFrom 0 P).length := by
  have hsplit : lineStartsFrom 0 (P ++ S)
      = lineStartsFrom 0 P ++ (newlineOffsets (byteLength P) S).map (· + 1) := by
    rw [lineStartsFrom, newlineOffsets_append, List.map_append, Nat.zero_add]
    rfl
  rw [hsplit]
  apply length_takeWhile_append
  · -- a line begins one byte behind a line feed, which is in front of the offset
    intro n hn
    rcases List.mem_cons.mp hn with rfl | hn
    · simp
    · obtain ⟨m, hm, rfl⟩ := List.mem_map.mp hn
      have := hP m (mem_characterOffsets_of_mem_newlineOffsets hm)
      simp only [decide_eq_true_eq]
      omega
  · intro n hn
    obtain ⟨m, hm, rfl⟩ := List.mem_map.mp hn
    have := le_of_mem_newlineOffsets hm
    simp only [decide_eq_false_iff_not]
    omega

/-- The characters of a line that start before an offset are those in front of it. -/
theorem length_takeWhile_characterOffsets {A u S : List Char} {offset : Nat}
    (hP : ∀ n ∈ characterOffsets 0 (A ++ u), n < offset) (hS : offset ≤ byteLength (A ++ u)) :
    ((characterOffsets (byteLength A) (u ++ S)).takeWhile (· < offset)).length = u.length := by
  rw [characterOffsets_append, ← byteLength_append, ← length_characterOffsets (byteLength A) u]
  apply length_takeWhile_append
  · intro n hn
    have hmem : n ∈ characterOffsets 0 (A ++ u) := by
      rw [characterOffsets_append, Nat.zero_add]
      exact List.mem_append_right _ hn
    simpa using hP n hmem
  · intro n hn
    have := le_of_mem_characterOffsets hn
    simp only [decide_eq_false_iff_not]
    omega

/-- **Every offset has a position**, also one inside a character or behind the end. -/
theorem positionAt?_eq (source : String) (offset : Nat) :
    positionAt? source offset = some (positionAt source offset) := by
  obtain ⟨P, hP⟩ : ∃ P, takeBytes offset source.toList = P := ⟨_, rfl⟩
  obtain ⟨S, hsource⟩ : ∃ S, source.toList = P ++ S :=
    ⟨_, hP ▸ (takeBytes_append_dropBytes offset source.toList).symm⟩
  have htaken : ∀ n ∈ characterOffsets 0 P, n < min offset (byteLength source.toList) := by
    rw [← hP, ← takeBytes_min]
    intro n hn
    have := lt_of_mem_characterOffsets_takeBytes hn
    omega
  have hend : min offset (byteLength source.toList) ≤ byteLength P := by
    rw [← hP]
    exact le_byteLength_takeBytes _ _
  -- the text in front of the offset is some lines and the beginning of one
  obtain ⟨before, u, hlines⟩ := exists_splitLines_eq P
  have hPlines := eq_endLines_append hlines
  have hfeed : ∀ line ∈ splitLines P, '\n' ∉ line :=
    fun line hline => newline_not_mem_of_mem_splitLines hline
  rw [hlines] at hfeed
  have hbefore : ∀ line ∈ before, '\n' ∉ line := fun line hline =>
    hfeed line (List.mem_append_left [u] hline)
  have hu : '\n' ∉ u := hfeed u (List.mem_append_right before (List.mem_singleton_self u))
  have hline : ((lineStarts source).takeWhile
      (· ≤ min offset (byteLength source.toList))).length = before.length + 1 := by
    have hstarts : lineStarts source = lineStartsFrom 0 (P ++ S) := by rw [lineStarts, hsource]
    rw [hstarts, length_takeWhile_lineStarts htaken hend, length_lineStartsFrom, hlines,
      List.length_append, List.length_singleton]
  have hstart : (lineStarts source)[before.length]? = some (byteLength (endLines before)) := by
    rw [lineStarts, hsource, hPlines, List.append_assoc, getElem?_lineStartsFrom hbefore,
      Nat.zero_add]
  have hrest : rest? source.toList (byteLength (endLines before)) = some (u ++ S) := by
    rw [hsource, hPlines, List.append_assoc]
    exact rest?_append _ _
  have hposition : positionAt source offset = ⟨1 + before.length, 1 + u.length⟩ := by
    rw [positionAt, hP, hPlines]
    exact Position.after_endLines_append hbefore hu
  rw [hPlines] at htaken hend
  rw [positionAt?, hposition]
  simp only [hline, predecessor?, hstart, hrest, Option.bind_eq_bind, Option.bind_some,
    length_takeWhile_characterOffsets htaken hend, Nat.add_comm 1]

end InPlace

end SolidityTools

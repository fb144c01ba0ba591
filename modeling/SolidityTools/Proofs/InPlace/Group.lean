import SolidityTools.Lint.Pattern
import SolidityTools.Proofs.InPlace.Access
import SolidityTools.Proofs.Lint.Place
import SolidityTools.Proofs.Text.Ascii

set_option autoImplicit false

/-! # Pieces of the masked text in place

The rules that search the masked text cut pieces out of it: the group of parentheses that a header
begins, and the first lines. The ends of these pieces are found by counting parentheses among the
bytes and line feeds among the characters. Parentheses and line feeds are bytes by themselves, so
the ends lie between two characters.
-/

namespace SolidityTools

open Text Lint

namespace InPlace

/-! ## Groups of parentheses -/

/-- The byte offset behind the parenthesis that closes the outermost of `depth` groups, or the group
that opens first. The bytes stand at an offset. -/
def closingOffset? (depth offset : Nat) : List UInt8 → Option Nat
  | [] => none
  | b :: bs =>
    if byteIs (· == '(') b then closingOffset? (depth + 1) (offset + 1) bs
    else if byteIs (· == ')') b then
      if depth - 1 = 0 then some (offset + 1) else closingOffset? (depth - 1) (offset + 1) bs
    else closingOffset? depth (offset + 1) bs

/-- The byte offset behind the group that opens at an offset, or the end of the text. -/
def groupEnd (cs : List Char) (paren : Nat) : Nat :=
  (closingOffset? 0 paren ((bytes cs).drop paren)).getD (byteLength cs)

/-- The group whose opening parenthesis is the last character before an offset, and the offset of
that parenthesis. -/
def groupBefore? (cs : List Char) (stop : Nat) : Option (Nat × List Char) := do
  let paren ← predecessor? stop
  let group ← slice? cs paren (groupEnd cs paren)
  some (paren, group)

/-- Bytes that are not characters are passed. -/
theorem closingOffset?_append {M : List UInt8} (hM : ∀ b ∈ M, characterOf? b = none)
    (depth offset : Nat) (bs : List UInt8) :
    closingOffset? depth offset (M ++ bs) = closingOffset? depth (offset + M.length) bs := by
  induction M generalizing offset with
  | nil => rfl
  | cons b M ih =>
      have hb := hM b List.mem_cons_self
      have hnext := ih (fun m hm => hM m (List.mem_cons_of_mem b hm)) (offset + 1)
      rw [List.cons_append, closingOffset?]
      simp only [byteIs_of_characterOf?_eq_none hb, Bool.false_eq_true, if_false]
      rw [hnext, List.length_cons, Nat.add_right_comm, Nat.add_assoc]

theorem closingOffset?_getD (depth offset : Nat) (cs : List Char) :
    (closingOffset? depth offset (bytes cs)).getD (offset + byteLength cs)
      = offset + byteLength (groupText depth cs) := by
  induction cs generalizing depth offset with
  | nil => rfl
  | cons c cs ih =>
      have hnext : ∀ n, (closingOffset? n (offset + c.utf8Size) (bytes cs)).getD
          (offset + byteLength (c :: cs)) = offset + byteLength (c :: groupText n cs) := by
        intro n
        rw [byteLength_cons, byteLength_cons, ← Nat.add_assoc, ← Nat.add_assoc]
        exact ih n _
      rw [bytes_cons, groupText]
      rcases utf8EncodeChar_cases c with ⟨b, hb, hc⟩ | ⟨hsize, hall⟩
      · have hsize : c.utf8Size = 1 := by
          rw [← String.length_utf8EncodeChar, hb]
          rfl
        rw [hsize] at hnext
        rw [hb, List.singleton_append, closingOffset?, byteIs_of_characterOf? hc,
          byteIs_of_characterOf? hc]
        by_cases hopens : (c == '(') = true
        · rw [if_pos hopens, if_pos hopens]
          exact hnext (depth + 1)
        · rw [if_neg hopens, if_neg hopens]
          by_cases hcloses : (c == ')') = true
          · rw [if_pos hcloses, if_pos hcloses]
            by_cases hlast : depth ≤ 1
            · rw [if_pos (by omega), if_pos hlast, Option.getD_some, byteLength_cons, hsize]
              rfl
            · rw [if_neg (by omega), if_neg hlast]
              exact hnext (depth - 1)
          · rw [if_neg hcloses, if_neg hcloses]
            exact hnext depth
      · -- the character is no parenthesis, and its bytes are not taken for one
        have hnot : ∀ d : Char, d.utf8Size = 1 → ¬(c == d) = true := by
          intro d hd h
          rw [eq_of_beq h] at hsize
          exact hsize hd
        rw [closingOffset?_append hall, String.length_utf8EncodeChar,
          if_neg (hnot '(' (by decide)), if_neg (hnot ')' (by decide))]
        exact hnext depth

theorem groupEnd_append (before cs : List Char) :
    groupEnd (before ++ cs) (byteLength before)
      = byteLength before + byteLength (groupText 0 cs) := by
  have hdrop : (bytes (before ++ cs)).drop (byteLength before) = bytes cs := by
    rw [bytes_append, ← length_bytes, List.drop_left]
  rw [groupEnd, hdrop, byteLength_append]
  exact closingOffset?_getD 0 _ cs

/-- A group can be cut out of the text. -/
theorem slice?_groupEnd (before cs : List Char) :
    slice? (before ++ cs) (byteLength before) (groupEnd (before ++ cs) (byteLength before))
      = some (groupText 0 cs) := by
  obtain ⟨X, hX⟩ := exists_append_groupText 0 cs
  have h := slice?_append before (groupText 0 cs) X
  rwa [← hX, ← groupEnd_append] at h

/-- The group of a header is cut out of the text in which the header was found. -/
theorem groupBefore?_eq {words : List String}
    (hwords : words.all (·.toList.head?.any (!isAsciiBlank ·)) = true) {header : Hit String}
    {cs : List Char} (h : header ∈ (Pattern.headerOf words).hits cs) :
    groupBefore? cs (header.start + byteLength header.phrase)
      = some (header.groupStart, header.group) := by
  have hcuts := (Pattern.headerOf_recognises hwords).cuts (fun _ _ h => h.beginsSolid.ne_nil) h
  obtain ⟨lead, hlead, -⟩ := hcuts.phrase
  have hsize : '('.utf8Size = 1 := by decide
  have hcs : cs = (header.before.reverse ++ lead) ++ '(' :: header.behind := by
    rw [hcuts.eq_append, hlead]
    simp
  have hstop : header.start + byteLength header.phrase
      = byteLength (header.before.reverse ++ lead) + 1 := by
    rw [header.start_eq, hlead]
    simp only [byteLength_append, byteLength_cons, byteLength_nil, hsize]
    omega
  have hgroup := slice?_groupEnd (header.before.reverse ++ lead) ('(' :: header.behind)
  rw [← hcs] at hgroup
  rw [groupBefore?, Hit.groupStart, hstop]
  simp only [predecessor?, Option.bind_eq_bind, Option.bind_some, hgroup, Nat.add_sub_cancel]
  rfl

/-! ## The first lines -/

/-- The byte offset of the line feed that ends the first lines of a text, or the end of the text. -/
def headerEnd (cs : List Char) (lines : Nat) : Nat :=
  ((newlineOffsets 0 cs)[lines - 1]?).getD (byteLength cs)

/-- The first lines can be cut out of the text, and there is always one. -/
theorem slice?_headerEnd (cs : List Char) (lines : Nat) :
    slice? cs 0 (headerEnd cs lines) = some (takeLines (max lines 1) cs) := by
  obtain ⟨rest, hrest, hend⟩ := exists_append_takeLines (lines - 1) 0 cs
  have hlines : lines - 1 + 1 = max lines 1 := by omega
  rw [Nat.zero_add, Nat.zero_add, hlines] at hend
  rw [hlines] at hrest
  have h := slice?_append [] (takeLines (max lines 1) cs) rest
  rw [List.nil_append, ← hrest, byteLength_nil, Nat.zero_add] at h
  rw [headerEnd, hend, h]

end InPlace

end SolidityTools

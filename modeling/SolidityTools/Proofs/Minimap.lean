import SolidityTools.Minimap
import SolidityTools.Proofs.Text.Bytes
import SolidityTools.Proofs.Text.Split
import SolidityTools.Proofs.Token.Blank
import SolidityTools.Proofs.Token.Group
import Mathlib.Algebra.Ring.Nat
import Mathlib.Data.List.Induction
import Mathlib.Data.List.TakeWhile

set_option autoImplicit false

/-! # The style that stands for a line

The table of weights has the styles of a line in the order in which they first appear, each with
the sum of the weights of its tokens (`weights_eq`), and the search through the table finds the
first of the greatest sums (`exists_heaviest?`). The weight of a token is its length in bytes. So
the style that stands for a line covers the most bytes of it (`IsWeighed.firstMost`), and this is
the style that covers the most characters unless another one makes up for its characters by
further bytes (`lineStyle_eq_iff`).
-/

namespace SolidityTools.Minimap

open Text

/-! ## The first of the greatest scores -/

/-- A style has the greatest score of some styles, and it is the first one that has it. -/
def FirstMost (score : TokenStyle → Nat) (styles : List TokenStyle) (s : TokenStyle) : Prop :=
  ∃ before after, styles = before ++ s :: after ∧ (∀ k ∈ before, score k < score s) ∧
    ∀ k ∈ after, score k ≤ score s

namespace FirstMost

variable {score : TokenStyle → Nat} {styles : List TokenStyle} {s k : TokenStyle}

theorem le (h : FirstMost score styles s) (hk : k ∈ styles) : score k ≤ score s := by
  obtain ⟨before, after, rfl, hbefore, hafter⟩ := h
  rcases List.mem_append.mp hk with hk | hk
  · exact Nat.le_of_lt (hbefore k hk)
  · rcases List.mem_cons.mp hk with rfl | hk
    · exact Nat.le_refl _
    · exact hafter k hk

theorem cons (h : FirstMost score styles s) (hk : score k < score s) :
    FirstMost score (k :: styles) s := by
  obtain ⟨before, after, rfl, hbefore, hafter⟩ := h
  refine ⟨k :: before, after, rfl, fun l hl => ?_, hafter⟩
  rcases List.mem_cons.mp hl with rfl | hl
  · exact hk
  · exact hbefore l hl

/-- A style with no greater score may come after the first one. -/
theorem insert {b : TokenStyle} (h : FirstMost score (b :: styles) s) (hk : score k ≤ score b) :
    FirstMost score (b :: k :: styles) s := by
  obtain ⟨before, after, heq, hbefore, hafter⟩ := h
  cases before with
  | nil =>
      obtain ⟨rfl, rfl⟩ := List.cons.inj heq
      refine ⟨[], k :: styles, rfl, hbefore, fun l hl => ?_⟩
      rcases List.mem_cons.mp hl with rfl | hl
      · exact hk
      · exact hafter l hl
  | cons c before =>
      obtain ⟨rfl, rfl⟩ := List.cons.inj heq
      have hb := hbefore b List.mem_cons_self
      refine ⟨b :: k :: before, after, rfl, fun l hl => ?_, hafter⟩
      rcases List.mem_cons.mp hl with rfl | hl
      · exact hb
      · rcases List.mem_cons.mp hl with rfl | hl
        · exact Nat.lt_of_le_of_lt hk hb
        · exact hbefore l (List.mem_cons_of_mem b hl)

theorem eq {s' : TokenStyle} (h : FirstMost score styles s) (h' : FirstMost score styles s') :
    s = s' := by
  have hle := h.le (k := s') (by obtain ⟨_, _, rfl, -, -⟩ := h'; simp)
  have hle' := h'.le (k := s) (by obtain ⟨_, _, rfl, -, -⟩ := h; simp)
  obtain ⟨before, after, rfl, hbefore, -⟩ := h
  obtain ⟨before', after', heq, hbefore', -⟩ := h'
  rcases append_cons_cases heq with ⟨u, rfl⟩ | ⟨u, rfl, hu⟩
  · have hlt := hbefore' s (by simp)
    omega
  · cases u with
    | nil => exact (List.cons.inj hu).1.symm
    | cons c u =>
        obtain ⟨rfl, -⟩ := List.cons.inj hu
        have hlt := hbefore s' (by simp)
        omega

/-- A style that appears once is the first of the greatest scores exactly if those in front of it
have smaller ones and those behind it no greater ones. -/
theorem iff_of_nodup {before after : List TokenStyle} (hnodup : styles.Nodup)
    (hstyles : styles = before ++ s :: after) :
    FirstMost score styles s
      ↔ (∀ k ∈ before, score k < score s) ∧ ∀ k ∈ after, score k ≤ score s := by
  constructor
  · rintro ⟨before', after', hstyles', hbefore, hafter⟩
    obtain ⟨rfl, rfl⟩ := Group.eq_of_nodup hnodup hstyles hstyles'
    exact ⟨hbefore, hafter⟩
  · rintro ⟨hbefore, hafter⟩
    exact ⟨before, after, hstyles, hbefore, hafter⟩

end FirstMost

/-- The search goes on with the heavier of the first two entries, and with the first one if they
weigh the same. -/
theorem heaviest?_cons_cons (a b : TokenStyle × Nat) (entries : List (TokenStyle × Nat)) :
    heaviest? (a :: b :: entries) = heaviest? ((if b.2 ≤ a.2 then a else b) :: entries) := by
  unfold heaviest?
  rw [List.foldl_cons, List.foldl_cons, List.foldl_cons]
  by_cases h : b.2 ≤ a.2
  · rw [if_pos h]
    simp only [if_pos h]
  · rw [if_neg h]
    simp only [if_neg h]

/-- **The search finds the first of the greatest scores.** -/
theorem exists_heaviest? (score : TokenStyle → Nat) (s : TokenStyle) (styles : List TokenStyle) :
    ∃ k, heaviest? ((s :: styles).map fun k => (k, score k)) = some (k, score k) ∧
      FirstMost score (s :: styles) k := by
  induction styles generalizing s with
  | nil => exact ⟨s, rfl, [], [], rfl, by simp, by simp⟩
  | cons t styles ih =>
      rw [List.map_cons, List.map_cons, heaviest?_cons_cons]
      by_cases h : score t ≤ score s
      · rw [if_pos h]
        obtain ⟨k, hk, hfirst⟩ := ih s
        exact ⟨k, hk, hfirst.insert h⟩
      · rw [if_neg h]
        obtain ⟨k, hk, hfirst⟩ := ih t
        have hle := hfirst.le List.mem_cons_self
        exact ⟨k, hk, hfirst.cons (by omega)⟩

/-! ## The table of weights -/

/-- The styles of some tokens, each once, in the order in which they first appear. -/
def styles (tokens : List Token) : List TokenStyle := (tokens.map Token.style).eraseDups

def total (weight : Token → Nat) (tokens : List Token) (s : TokenStyle) : Nat :=
  ((tokens.filter (·.style == s)).map weight).sum

theorem mem_styles {tokens : List Token} {s : TokenStyle} :
    s ∈ styles tokens ↔ ∃ t ∈ tokens, t.style = s := by
  rw [styles, List.mem_eraseDups, List.mem_map]

/-- A token adds its style at the end, if it is a new one. -/
theorem styles_concat (tokens : List Token) (t : Token) :
    styles (tokens ++ [t])
      = if t.style ∈ styles tokens then styles tokens else styles tokens ++ [t.style] := by
  have hstyles : styles (tokens ++ [t])
      = styles tokens ++ (List.removeAll [t.style] (tokens.map Token.style)).eraseDups := by
    rw [styles, List.map_append, List.eraseDups_append]
    rfl
  rw [hstyles]
  by_cases h : t.style ∈ styles tokens
  · have hmem : t.style ∈ tokens.map Token.style := List.mem_eraseDups.mp h
    rw [if_pos h, List.removeAll, List.filter_cons_of_neg (by simpa using hmem)]
    simp
  · have hmem : t.style ∉ tokens.map Token.style := fun hmem => h (List.mem_eraseDups.mpr hmem)
    rw [if_neg h, List.removeAll, List.filter_cons_of_pos (by simpa using hmem), List.filter_nil]
    rfl

theorem nodup_styles (tokens : List Token) : (styles tokens).Nodup := by
  induction tokens using List.reverseRecOn with
  | nil => exact List.nodup_nil
  | append_singleton tokens t ih =>
      rw [styles_concat]
      by_cases h : t.style ∈ styles tokens
      · rwa [if_pos h]
      · rw [if_neg h]
        refine List.nodup_append.mpr ⟨ih, by simp, ?_⟩
        rintro a ha b hb rfl
        exact h (List.mem_singleton.mp hb ▸ ha)

section Total

variable (weight : Token → Nat) (tokens : List Token)

theorem total_concat (t : Token) (s : TokenStyle) :
    total weight (tokens ++ [t]) s = if s = t.style then total weight tokens s + weight t
      else total weight tokens s := by
  rw [total, List.filter_append, List.map_append, List.sum_append, ← total]
  by_cases h : s = t.style
  · rw [if_pos h, List.filter_cons_of_pos (by simp [h])]
    simp
  · rw [if_neg h, List.filter_cons_of_neg (by simpa using Ne.symm h)]
    simp

theorem total_eq_zero {s : TokenStyle} (h : s ∉ styles tokens) : total weight tokens s = 0 := by
  have hnone : tokens.filter (·.style == s) = [] := by
    refine List.filter_eq_nil_iff.mpr fun t ht hs => h (mem_styles.mpr ⟨t, ht, ?_⟩)
    exact beq_iff_eq.mp hs
  rw [total, hnone]
  rfl

/-- What the tokens weigh by two measures, they weigh by their sum. -/
theorem total_add (weight' : Token → Nat) (s : TokenStyle) :
    total (fun t => weight t + weight' t) tokens s
      = total weight tokens s + total weight' tokens s := by
  unfold total
  induction tokens.filter (·.style == s) with
  | nil => rfl
  | cons t ts ih =>
      simp only [List.map_cons, List.sum_cons, ih]
      omega

end Total

/-- Adding a weight to a table without repetitions adds it to the entry of the style. A new style
gets an entry behind the others. -/
theorem addWeight_map {s : TokenStyle} {score : TokenStyle → Nat} {keys : List TokenStyle}
    (hnodup : keys.Nodup) (hnew : s ∉ keys → score s = 0) (weight : Nat) :
    addWeight s weight (keys.map fun k => (k, score k))
      = (if s ∈ keys then keys else keys ++ [s]).map
          fun k => (k, if k = s then score k + weight else score k) := by
  induction keys with
  | nil => simp [addWeight, hnew]
  | cons k keys ih =>
      obtain ⟨hk, hnodup⟩ := List.nodup_cons.mp hnodup
      rw [List.map_cons, addWeight]
      by_cases hks : k = s
      · -- the entry is found, and it is the only one of its style
        subst hks
        have hrest : ∀ l ∈ keys,
            (l, score l) = (l, if l = k then score l + weight else score l) := by
          intro l hl
          have hne : l ≠ k := by
            rintro rfl
            exact hk hl
          rw [if_neg hne]
        rw [if_pos rfl, if_pos List.mem_cons_self, List.map_cons, if_pos rfl,
          List.map_congr_left hrest]
      · have hmem : s ∈ k :: keys ↔ s ∈ keys := by
          rw [List.mem_cons]
          exact or_iff_right (Ne.symm hks)
        have hrest := ih hnodup fun hs => hnew (mt hmem.mp hs)
        rw [if_neg hks, hrest]
        by_cases hs : s ∈ keys
        · rw [if_pos hs, if_pos (hmem.mpr hs), List.map_cons, if_neg hks]
        · rw [if_neg hs, if_neg (mt hmem.mp hs), List.cons_append, List.map_cons, if_neg hks]

/-! ## Lines -/

def size (t : Token) : Nat := byteLength t.text.toList

def width (t : Token) : Nat := t.text.length

/-- The bytes of a token behind the first ones of its characters. -/
def excess (t : Token) : Nat := size t - width t

/-- The tokens that weigh: those of a line behind its indentation, white space left out. -/
def weighed (line : List Char) : List Token :=
  (Lexer.tokensFrom 0 (trimStart line)).filter (·.kind != .whitespace)

/-- **The table has the bytes of each style, in the order in which the styles appear.** -/
theorem weights_eq (tokens : List Token) :
    weights tokens = (styles (tokens.filter (·.kind != .whitespace))).map
      fun s => (s, total size (tokens.filter (·.kind != .whitespace)) s) := by
  unfold weights
  induction tokens.filter (·.kind != .whitespace) using List.reverseRecOn with
  | nil => rfl
  | append_singleton ts t ih =>
      have hnew : t.style ∉ styles ts → total size ts t.style = 0 := total_eq_zero size ts
      rw [List.foldl_append, List.foldl_cons, List.foldl_nil, ih,
        addWeight_map (nodup_styles ts) hnew, styles_concat]
      exact List.map_congr_left fun s _ => by rw [total_concat, size]

/-- The bytes of a style are its characters and the further bytes of these. -/
theorem total_size (tokens : List Token) (s : TokenStyle) :
    total size tokens s = total width tokens s + total excess tokens s := by
  have hsize : size = fun t => width t + excess t := by
    funext t
    have hle := length_le_byteLength t.text.toList
    rw [String.length_toList] at hle
    rw [excess, width, size]
    omega
  rw [hsize, total_add]

/-- A style that is behind another one in characters is behind it in bytes, unless it makes up for
them by further bytes. -/
theorem total_size_lt_iff {tokens : List Token} {k s : TokenStyle}
    (h : total width tokens k ≤ total width tokens s) :
    total size tokens k < total size tokens s ↔ total excess tokens k
      < total excess tokens s + (total width tokens s - total width tokens k) := by
  rw [total_size, total_size]
  omega

theorem total_size_le_iff {tokens : List Token} {k s : TokenStyle}
    (h : total width tokens k ≤ total width tokens s) :
    total size tokens k ≤ total size tokens s ↔ total excess tokens k
      ≤ total excess tokens s + (total width tokens s - total width tokens k) := by
  rw [total_size, total_size]
  omega

/-- The search through the table finds the first of the styles with the most bytes. -/
theorem exists_heaviest?_weights {tokens : List Token}
    (h : tokens.filter (·.kind != .whitespace) ≠ []) :
    ∃ s weight, heaviest? (weights tokens) = some (s, weight) ∧
      FirstMost (total size (tokens.filter (·.kind != .whitespace)))
        (styles (tokens.filter (·.kind != .whitespace))) s := by
  obtain ⟨t, ts, hts⟩ := List.exists_cons_of_ne_nil h
  have hne : styles (tokens.filter (·.kind != .whitespace)) ≠ [] :=
    List.ne_nil_of_mem (mem_styles.mpr ⟨t, by rw [hts]; exact List.mem_cons_self, rfl⟩)
  obtain ⟨s, ss, hstyles⟩ := List.exists_cons_of_ne_nil hne
  obtain ⟨k, hk, hfirst⟩ :=
    exists_heaviest? (total size (tokens.filter (·.kind != .whitespace))) s ss
  rw [weights_eq, hstyles]
  exact ⟨k, _, hk, hfirst⟩

theorem weighed_ne_nil {line : List Char} (h : isBlankText line = false) : weighed line ≠ [] := by
  obtain ⟨c, cs, htext, hc⟩ : ∃ c cs, trimStart line = c :: cs ∧ isBlank c = false := by
    have hhead := List.head?_dropWhile_not isBlank line
    rw [trimStart]
    cases htext : line.dropWhile isBlank with
    | nil =>
        have hall : line.all isBlank = true := by
          rw [List.all_eq_true]
          exact List.dropWhile_eq_nil_iff.mp htext
        rw [isBlankText, hall] at h
        cases h
    | cons c cs =>
        rw [htext] at hhead
        exact ⟨c, cs, rfl, by simpa using hhead⟩
  have hvisible : isAsciiBlank c = false := by
    by_contra hascii
    rw [Bool.not_eq_false] at hascii
    rw [isBlank_of_isAsciiBlank hascii] at hc
    cases hc
  have hkind := Lexer.lexeme_ne_whitespace hvisible cs
  rw [weighed, htext, Lexer.tokensFrom_cons, List.filter_cons_of_pos (by simpa using hkind)]
  exact List.cons_ne_nil _ _

/-! ## Lines that are weighed -/

/-- A line that reads neither as blank nor as a comment nor as a declaration. -/
structure IsWeighed (line : List Char) : Prop where
  not_blank : isBlankText line = false
  not_comment : readsAsComment (trimStart line) = false
  not_declaration : ∀ t ∈ (Lexer.tokensFrom 0 (trimStart line)).head?,
    ¬(t.kind = .keyword ∧ t.text ∈ declarationKeywords)

theorem IsWeighed.lineStyle_eq {line : List Char} (h : IsWeighed line) {s : TokenStyle}
    {weight : Nat}
    (hheaviest : heaviest? (weights (Lexer.tokensFrom 0 (trimStart line))) = some (s, weight)) :
    lineStyle line = s := by
  obtain ⟨-, hcomment, hfirst⟩ := h
  unfold lineStyle
  rw [if_neg (by simp [hcomment])]
  cases htokens : Lexer.tokensFrom 0 (trimStart line) with
  | nil =>
      rw [htokens] at hheaviest
      cases hheaviest
  | cons first rest =>
      rw [htokens] at hfirst hheaviest
      show (if _ then TokenStyle.keyword else _) = s
      rw [if_neg (hfirst first rfl), hheaviest]

/-- **The style that stands for a line covers the most bytes of it.** -/
theorem IsWeighed.firstMost {line : List Char} (h : IsWeighed line) :
    FirstMost (total size (weighed line)) (styles (weighed line)) (lineStyle line) := by
  obtain ⟨s, weight, hheaviest, hfirst⟩ := exists_heaviest?_weights (weighed_ne_nil h.not_blank)
  rwa [h.lineStyle_eq hheaviest]

theorem exists_firstMost (score : TokenStyle → Nat) {styles : List TokenStyle} (h : styles ≠ []) :
    ∃ s, FirstMost score styles s := by
  obtain ⟨s, ss, rfl⟩ := List.exists_cons_of_ne_nil h
  obtain ⟨k, -, hfirst⟩ := exists_heaviest? score s ss
  exact ⟨k, hfirst⟩

/-- **The style that stands for a line.** Let a line read neither as blank nor as a comment nor as
a declaration. The style that stands for it is the one that covers the most bytes of it, and the
first of these. Let `s` be the one that covers the most characters, and the first of these. It
stands for the line exactly if no other style makes up for the characters that it is behind `s` by
further bytes of its characters. A style that appears in front of `s` would not even have to outdo
it. -/
theorem lineStyle_eq_iff {line : List Char} (h : IsWeighed line) :
    FirstMost (total size (weighed line)) (styles (weighed line)) (lineStyle line) ∧
      ∃ before s after, styles (weighed line) = before ++ s :: after ∧
        (∀ k ∈ before, total width (weighed line) k < total width (weighed line) s) ∧
        (∀ k ∈ after, total width (weighed line) k ≤ total width (weighed line) s) ∧
        (lineStyle line = s ↔
          (∀ k ∈ before, total excess (weighed line) k < total excess (weighed line) s +
            (total width (weighed line) s - total width (weighed line) k)) ∧
          ∀ k ∈ after, total excess (weighed line) k ≤ total excess (weighed line) s +
            (total width (weighed line) s - total width (weighed line) k)) := by
  have hbytes := h.firstMost
  have hne : styles (weighed line) ≠ [] := by
    obtain ⟨before, after, heq, -, -⟩ := hbytes
    simp [heq]
  obtain ⟨s, before, after, hstyles, hbefore, hafter⟩ :=
    exists_firstMost (total width (weighed line)) hne
  have hstands : lineStyle line = s
      ↔ FirstMost (total size (weighed line)) (styles (weighed line)) s :=
    ⟨fun heq => heq ▸ hbytes, hbytes.eq⟩
  refine ⟨hbytes, before, s, after, hstyles, hbefore, hafter, ?_⟩
  rw [hstands, FirstMost.iff_of_nodup (nodup_styles _) hstyles]
  exact and_congr (forall₂_congr fun k hk => total_size_lt_iff (Nat.le_of_lt (hbefore k hk)))
    (forall₂_congr fun k hk => total_size_le_iff (hafter k hk))

/-- A string that makes up for its one character less by accents. -/
theorem lineStyle_ne_of_accents :
    let line := "abcde \"éé\"".toList
    IsWeighed line ∧ FirstMost (total width (weighed line)) (styles (weighed line)) .plain ∧
      lineStyle line = .string := by
  intro line
  refine ⟨⟨by decide, by decide, by decide +kernel⟩, ⟨[], [.string], ?_, ?_, ?_⟩, ?_⟩ <;>
    decide +kernel

/-- A string that comes up to the bytes of what stands in front of it, and no further. -/
theorem lineStyle_eq_of_accents :
    let line := "abcdef \"éé\"".toList
    IsWeighed line ∧
      FirstMost (total size (weighed line)) (styles (weighed line)) (lineStyle line) := by
  intro line
  have h : IsWeighed line := ⟨by decide, by decide, by decide +kernel⟩
  exact ⟨h, (lineStyle_eq_iff h).1⟩

end SolidityTools.Minimap

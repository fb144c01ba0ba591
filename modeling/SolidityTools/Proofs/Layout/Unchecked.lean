import SolidityTools.Proofs.Token.Group
import SolidityTools.Proofs.Token.Reading

set_option autoImplicit false

/-! # Unchecked blocks inside one another

The compiler rejects an `unchecked` block inside another one. What that means is said by cutting
the closed blocks out of the tokens (`uncheckedBlocks`, `NestsUnchecked`); how it changes when
blocks are put in is easier to see in a scan that runs from the last token to the first (`scan`).
For every closing brace whose group has not begun yet the scan remembers whether a block stands in
the group. The brace that begins the group takes the answer off, and hands it on to the group
around.

The scan can also be told that blocks are going to be put in front of some closing braces
(`filled`), so that it says of the tokens before what will hold of the tokens afterwards.
-/

namespace SolidityTools

namespace Layout

open Lexer

/-! ## Blocks -/

/-- The `unchecked` block that begins a list of tokens, if one does and it is closed. -/
def uncheckedBlock? : List Token → Option Group
  | keyword :: brace :: ts =>
    if keyword.isKeyword "unchecked" && brace.isOperator "\x7b" then Group.braces? ts else none
  | _ => none

/-- The closed `unchecked` blocks among the tokens, in source order. -/
def uncheckedBlocks : List Token → List Group
  | [] => []
  | t :: ts => (uncheckedBlock? (t :: ts)).toList ++ uncheckedBlocks ts

/-- An `unchecked` block stands inside another one. -/
def NestsUnchecked (ts : List Token) : Prop :=
  ∃ block ∈ uncheckedBlocks ts, uncheckedBlocks block.inside ≠ []

instance (ts : List Token) : Decidable (NestsUnchecked ts) :=
  inferInstanceAs (Decidable (∃ block ∈ uncheckedBlocks ts, uncheckedBlocks block.inside ≠ []))

theorem uncheckedBlock?_eq_some_iff {ts : List Token} {g : Group} :
    uncheckedBlock? ts = some g ↔ ∃ keyword brace us, ts = keyword :: brace :: us ∧
      keyword.isKeyword "unchecked" = true ∧ brace.isOperator "\x7b" = true ∧
      Group.braces? us = some g := by
  constructor
  · intro h
    unfold uncheckedBlock? at h
    split at h
    · next keyword brace us =>
        split at h
        · next hif =>
            rw [Bool.and_eq_true] at hif
            exact ⟨keyword, brace, us, rfl, hif.1, hif.2, h⟩
        · cases h
    · cases h
  · rintro ⟨keyword, brace, us, rfl, hkeyword, hbrace, hg⟩
    rw [uncheckedBlock?, hkeyword, hbrace]
    exact hg

theorem uncheckedBlock?_cons_of_ne {t : Token} (ht : t.isKeyword "unchecked" = false)
    (ts : List Token) : uncheckedBlock? (t :: ts) = none := by
  rw [Option.eq_none_iff_forall_ne_some]
  intro g hg
  obtain ⟨keyword, brace, us, hts, hkeyword, -⟩ := uncheckedBlock?_eq_some_iff.mp hg
  rw [← (List.cons.inj hts).1, ht] at hkeyword
  cases hkeyword

theorem uncheckedBlocks_cons_of_ne {t : Token} (ht : t.isKeyword "unchecked" = false)
    (ts : List Token) : uncheckedBlocks (t :: ts) = uncheckedBlocks ts := by
  rw [uncheckedBlocks, uncheckedBlock?_cons_of_ne ht]
  rfl

theorem exists_of_mem_uncheckedBlocks {ts : List Token} {block : Group}
    (h : block ∈ uncheckedBlocks ts) :
    ∃ front keyword brace us, ts = front ++ keyword :: brace :: us ∧
      keyword.isKeyword "unchecked" = true ∧ brace.isOperator "\x7b" = true ∧
      Group.braces? us = some block := by
  induction ts with
  | nil => cases h
  | cons t ts ih =>
      rw [uncheckedBlocks, List.mem_append, Option.mem_toList] at h
      rcases h with h | h
      · obtain ⟨keyword, brace, us, hts, hkeyword, hbrace, hg⟩ := uncheckedBlock?_eq_some_iff.mp h
        exact ⟨[], keyword, brace, us, hts, hkeyword, hbrace, hg⟩
      · obtain ⟨front, keyword, brace, us, hts, hkeyword, hbrace, hg⟩ := ih h
        exact ⟨t :: front, keyword, brace, us, by rw [hts]; rfl, hkeyword, hbrace, hg⟩

/-! ## The scan -/

/-- What the scan looks at. -/
inductive Mark where
  /-- The keyword `unchecked`. -/
  | keyword
  /-- An opening brace. -/
  | opener
  /-- A closing brace, and whether a block is going to be put in front of it. -/
  | closer (filled : Bool)
  | other
deriving DecidableEq

def mark (filled : Bool) (shape : TokenKind × String) : Mark :=
  if shape = (.keyword, "unchecked") then .keyword
  else if shape = (.operator, "\x7b") then .opener
  else if shape = (.operator, "\x7d") then .closer filled
  else .other

/-- What has been seen of the tokens behind a place. -/
structure Scan where
  /-- If the first of the tokens opens a group: whether a block stands in it. -/
  front : Option Bool
  /-- Whether a block stands in front of the first brace that closes a group around. -/
  inner : Bool
  /-- The same for the stretches between the braces that close groups around. -/
  outer : List Bool
  /-- Whether a block stands inside another one. -/
  nested : Bool
deriving DecidableEq

def Scan.start : Scan := ⟨none, false, [], false⟩

/-- Goes on by one token to the left. -/
def Scan.step (m : Mark) (σ : Scan) : Scan :=
  match m with
  | .keyword =>
    { σ with front := none, inner := σ.inner || σ.front.isSome,
             nested := σ.nested || σ.front == some true }
  | .opener =>
    match σ.outer with
    | [] => { σ with front := none }
    | o :: outer => { σ with front := some σ.inner, inner := σ.inner || o, outer := outer }
  | .closer filled => { σ with front := none, inner := filled, outer := σ.inner :: σ.outer }
  | .other => { σ with front := none }

def scan (marks : List Mark) : Scan := marks.foldr Scan.step Scan.start

def marks (filled : Token → Bool) (ts : List Token) : List Mark :=
  ts.map fun t => mark (filled t) t.shape

/-! ## What the scan finds -/

section Spec

variable {filled : Token → Bool} {t : Token} {ts : List Token} {σ : Scan}

/-- A block stands in the group, or is going to. -/
def Holds (filled : Token → Bool) (g : Group) : Prop :=
  uncheckedBlocks g.inside ≠ [] ∨ ∃ t ∈ g.inside ++ [g.closer], filled t = true

theorem holds_push_iff (filled : Token → Bool) (t : Token) (g : Group) :
    Holds filled (g.push t) ↔
      (∃ i, uncheckedBlock? (t :: g.inside) = some i) ∨ filled t = true ∨ Holds filled g := by
  have hblocks : uncheckedBlocks (t :: g.inside) ≠ [] ↔
      (∃ i, uncheckedBlock? (t :: g.inside) = some i) ∨ uncheckedBlocks g.inside ≠ [] := by
    rw [uncheckedBlocks]
    cases uncheckedBlock? (t :: g.inside) <;> simp
  have hfilled : (∃ u ∈ t :: g.inside ++ [g.closer], filled u = true) ↔
      filled t = true ∨ ∃ u ∈ g.inside ++ [g.closer], filled u = true := by
    rw [List.cons_append]
    simp
  simp only [Holds, Group.push, hblocks, hfilled]
  rw [or_assoc, or_left_comm (a := uncheckedBlocks g.inside ≠ [])]

/-- What the scan of some tokens is. -/
structure Describes (filled : Token → Bool) (ts : List Token) (σ : Scan) : Prop where
  /-- There is a stretch for each brace that closes a group around. -/
  closes : ∀ d, (∃ g, Group.close? "\x7b" "\x7d" d ts = some g) ↔ d < σ.outer.length
  holds : ∀ d g, Group.close? "\x7b" "\x7d" d ts = some g →
    (Holds filled g ↔ ((σ.inner :: σ.outer).take (d + 1)).any id = true)
  front : ∀ b, σ.front = some b ↔ ∃ brace us g, ts = brace :: us ∧
    brace.isOperator "\x7b" = true ∧ Group.braces? us = some g ∧ (b = true ↔ Holds filled g)
  nested : σ.nested = true ↔ ∃ block ∈ uncheckedBlocks ts, Holds filled block

theorem describes_start : Describes filled [] Scan.start := by
  refine ⟨fun d => ?_, fun d g h => ?_, fun b => ?_, ?_⟩
  · simp [Group.close?, Scan.start]
  · cases h
  · simp [Scan.start]
  · simp [Scan.start, uncheckedBlocks]

/-- A token that is neither the keyword nor a closing brace adds nothing to a group. -/
theorem holds_push_of_ne (hkeyword : t.isKeyword "unchecked" = false) (hfilled : filled t = false)
    (g : Group) : Holds filled (g.push t) ↔ Holds filled g := by
  rw [holds_push_iff, uncheckedBlock?_cons_of_ne hkeyword, hfilled]
  simp

/-- Tokens that do not begin with an opening brace begin with no group. -/
theorem front_none_iff (hopen : ¬t.isOperator "\x7b" = true) (b : Bool) :
    none = some b ↔ ∃ brace us g, t :: ts = brace :: us ∧ brace.isOperator "\x7b" = true ∧
      Group.braces? us = some g ∧ (b = true ↔ Holds filled g) := by
  constructor
  · intro h
    cases h
  · rintro ⟨brace, us, g, hts, hbrace, -⟩
    rw [(List.cons.inj hts).1] at hopen
    exact absurd hbrace hopen

/-- A brace that closes a group around ends a stretch. -/
theorem Describes.closer (h : Describes filled ts σ) (ht : t.isOperator "\x7d" = true)
    (hopen : ¬t.isOperator "\x7b" = true) (hkeyword : t.isKeyword "unchecked" = false) :
    Describes filled (t :: ts) (σ.step (.closer (filled t))) := by
  refine ⟨fun d => ?_, fun d g hg => ?_, fun b => ?_, ?_⟩
  · cases d with
    | zero => simp [Group.close?_closer_zero hopen ht, Scan.step]
    | succ d =>
        rw [Group.close?_closer_succ hopen ht]
        simp [Scan.step, ← h.closes d, Option.map_eq_some_iff]
  · cases d with
    | zero =>
        rw [Group.close?_closer_zero hopen ht] at hg
        obtain rfl := Option.some.inj hg
        simp [Holds, Scan.step, uncheckedBlocks]
    | succ d =>
        rw [Group.close?_closer_succ hopen ht] at hg
        obtain ⟨g', hg', rfl⟩ := Option.map_eq_some_iff.mp hg
        rw [holds_push_iff, uncheckedBlock?_cons_of_ne hkeyword, h.holds d g' hg', Scan.step,
          List.take_succ_cons, List.any_cons, Bool.or_eq_true]
        simp
  · exact front_none_iff hopen b
  · rw [uncheckedBlocks_cons_of_ne hkeyword]
    exact h.nested

/-- A brace that begins a group takes the first stretch off. -/
theorem Describes.opener (h : Describes filled ts σ) (ht : t.isOperator "\x7b" = true)
    (hkeyword : t.isKeyword "unchecked" = false) (hfilled : filled t = false) :
    Describes filled (t :: ts) (σ.step .opener) := by
  have hnested := h.nested
  rw [← uncheckedBlocks_cons_of_ne hkeyword] at hnested
  cases houter : σ.outer with
  | nil =>
      -- no brace is left that could close the group
      have hnone : ∀ d, ¬∃ g, Group.close? "\x7b" "\x7d" d ts = some g := by
        intro d
        rw [h.closes, houter]
        simp
      refine ⟨fun d => ?_, fun d g hg => ?_, fun b => ?_, ?_⟩
      · rw [Group.close?_opener ht]
        simpa [Scan.step, houter] using hnone (d + 1)
      · rw [Group.close?_opener ht] at hg
        obtain ⟨g', hg', -⟩ := Option.map_eq_some_iff.mp hg
        exact absurd ⟨g', hg'⟩ (hnone (d + 1))
      · simp only [Scan.step, houter, reduceCtorEq, false_iff]
        rintro ⟨brace, us, g, hts, -, hg, -⟩
        rw [← (List.cons.inj hts).2] at hg
        exact hnone 0 ⟨g, hg⟩
      · simpa only [Scan.step, houter] using hnested
  | cons o outer =>
      refine ⟨fun d => ?_, fun d g hg => ?_, fun b => ?_, ?_⟩
      · have hcloses := h.closes (d + 1)
        rw [houter, List.length_cons] at hcloses
        rw [Group.close?_opener ht]
        simp only [Option.map_eq_some_iff, Scan.step, houter]
        constructor
        · rintro ⟨g, g', hg', -⟩
          have := hcloses.mp ⟨g', hg'⟩
          omega
        · intro hd
          obtain ⟨g', hg'⟩ := hcloses.mpr (by omega)
          exact ⟨g'.push t, g', hg', rfl⟩
      · rw [Group.close?_opener ht] at hg
        obtain ⟨g', hg', rfl⟩ := Option.map_eq_some_iff.mp hg
        rw [holds_push_of_ne hkeyword hfilled, h.holds (d + 1) g' hg', houter]
        simp only [Scan.step, houter, List.take_succ_cons, List.any_cons, id, Bool.or_assoc]
      · -- the group that begins here is the first stretch
        obtain ⟨g, hg⟩ := (h.closes 0).mpr (by rw [houter]; simp)
        have hholds := h.holds 0 g hg
        simp only [List.take_succ_cons, List.take_zero, List.any_cons, List.any_nil, id,
          Bool.or_false] at hholds
        simp only [Scan.step, houter, Option.some.injEq]
        constructor
        · rintro rfl
          exact ⟨t, ts, g, rfl, ht, hg, hholds.symm⟩
        · rintro ⟨brace, us, g', hts, -, hg', hb⟩
          rw [← (List.cons.inj hts).2] at hg'
          obtain rfl : g = g' := Option.some.inj (hg.symm.trans hg')
          rw [hholds] at hb
          exact (Bool.eq_iff_iff.mpr hb).symm
      · simpa only [Scan.step, houter] using hnested

/-- A group behind the keyword begins in the tokens if it begins in what stands in front of a
closing brace. -/
theorem exists_uncheckedBlock?_inside (ht : t.isKeyword "unchecked" = true) {d : Nat} {g : Group}
    (hg : Group.close? "\x7b" "\x7d" d ts = some g) :
    (∃ i, uncheckedBlock? (t :: g.inside) = some i) ↔ ∃ i, uncheckedBlock? (t :: ts) = some i := by
  simp only [uncheckedBlock?_eq_some_iff]
  constructor
  · rintro ⟨i, keyword, brace, us, hinside, hkeyword, hbrace, -⟩
    obtain ⟨-, hinside⟩ := List.cons.inj hinside
    have hts := Group.inside_append_of_close? hg
    rw [hinside, List.cons_append] at hts
    rw [← hts, Group.close?_opener hbrace] at hg
    obtain ⟨g', hg', -⟩ := Option.map_eq_some_iff.mp hg
    rw [show d + 1 = 0 + d + 1 by omega] at hg'
    obtain ⟨⟨i', hi'⟩, -⟩ := Group.exists_inside hg'
    exact ⟨i', t, brace, _, by rw [hts], ht, hbrace, hi'⟩
  · rintro ⟨i, keyword, brace, us, hts, hkeyword, hbrace, -⟩
    obtain ⟨rfl, rfl⟩ := List.cons.inj hts
    rw [Group.close?_opener hbrace] at hg
    obtain ⟨g', hg', rfl⟩ := Option.map_eq_some_iff.mp hg
    rw [show d + 1 = 0 + d + 1 by omega] at hg'
    obtain ⟨-, i', hi'⟩ := Group.exists_inside hg'
    exact ⟨i', t, brace, g'.inside, rfl, ht, hbrace, hi'⟩

/-- The keyword begins a block if an opening brace follows. -/
theorem Describes.keyword (h : Describes filled ts σ) (ht : t.isKeyword "unchecked" = true)
    (hopen : ¬t.isOperator "\x7b" = true) (hclose : ¬t.isOperator "\x7d" = true)
    (hfilled : filled t = false) :
    Describes filled (t :: ts) (σ.step .keyword) := by
  have hblock : ∀ b, σ.front = some b ↔
      ∃ g, uncheckedBlock? (t :: ts) = some g ∧ (b = true ↔ Holds filled g) := by
    intro b
    rw [h.front]
    simp only [uncheckedBlock?_eq_some_iff]
    constructor
    · rintro ⟨brace, us, g, rfl, hbrace, hg, hb⟩
      exact ⟨g, ⟨t, brace, us, rfl, ht, hbrace, hg⟩, hb⟩
    · rintro ⟨g, ⟨keyword, brace, us, hts, -, hbrace, hg⟩, hb⟩
      exact ⟨brace, us, g, (List.cons.inj hts).2, hbrace, hg, hb⟩
  -- the scan waits at an opening brace exactly if the keyword begins a block
  have hfront : σ.front.isSome = true ↔ ∃ i, uncheckedBlock? (t :: ts) = some i := by
    rw [Option.isSome_iff_exists]
    constructor
    · rintro ⟨b, hb⟩
      obtain ⟨g, hg, -⟩ := (hblock b).mp hb
      exact ⟨g, hg⟩
    · rintro ⟨g, hg⟩
      by_cases hholds : Holds filled g
      · exact ⟨true, (hblock true).mpr ⟨g, hg, by simpa using hholds⟩⟩
      · exact ⟨false, (hblock false).mpr ⟨g, hg, by simpa using hholds⟩⟩
  refine ⟨fun d => ?_, fun d g hg => ?_, fun b => ?_, ?_⟩
  · rw [Group.close?_other hopen hclose]
    simp [Scan.step, ← h.closes d, Option.map_eq_some_iff]
  · rw [Group.close?_other hopen hclose] at hg
    obtain ⟨g', hg', rfl⟩ := Option.map_eq_some_iff.mp hg
    have hholds := h.holds d g' hg'
    rw [List.take_succ_cons, List.any_cons, Bool.or_eq_true, id] at hholds
    rw [holds_push_iff, exists_uncheckedBlock?_inside ht hg', ← hfront, hfilled, hholds, Scan.step,
      List.take_succ_cons, List.any_cons, id, Bool.or_eq_true, Bool.or_eq_true]
    simp only [Bool.false_eq_true, false_or]
    rw [or_assoc, or_left_comm]
  · exact front_none_iff hopen b
  · have htrue := hblock true
    simp only [true_iff] at htrue
    rw [Scan.step, Bool.or_eq_true, beq_iff_eq, htrue, h.nested, uncheckedBlocks]
    simp only [List.mem_append, Option.mem_toList, or_and_right, exists_or]
    exact or_comm

/-- Any other token stands between the blocks. -/
theorem Describes.other (h : Describes filled ts σ) (hkeyword : t.isKeyword "unchecked" = false)
    (hopen : ¬t.isOperator "\x7b" = true) (hclose : ¬t.isOperator "\x7d" = true)
    (hfilled : filled t = false) :
    Describes filled (t :: ts) (σ.step .other) := by
  refine ⟨fun d => ?_, fun d g hg => ?_, fun b => ?_, ?_⟩
  · rw [Group.close?_other hopen hclose]
    simp [Scan.step, ← h.closes d, Option.map_eq_some_iff]
  · rw [Group.close?_other hopen hclose] at hg
    obtain ⟨g', hg', rfl⟩ := Option.map_eq_some_iff.mp hg
    rw [holds_push_of_ne hkeyword hfilled]
    exact h.holds d g' hg'
  · exact front_none_iff hopen b
  · rw [uncheckedBlocks_cons_of_ne hkeyword]
    exact h.nested

theorem Describes.cons (h : Describes filled ts σ) (t : Token)
    (hfilled : filled t = true → t.isOperator "\x7d" = true) :
    Describes filled (t :: ts) (σ.step (mark (filled t) t.shape)) := by
  -- a token is at most one of the keyword and the two braces
  have hne : ∀ text text', text ≠ text' → t.isOperator text = true →
      ¬t.isOperator text' = true := by
    intro text text' hne htext htext'
    rw [Token.isOperator_iff] at htext htext'
    exact hne (congrArg Prod.snd (htext.symm.trans htext'))
  have hne' : ∀ text, t.isOperator text = true → t.isKeyword "unchecked" = false := by
    intro text htext
    rw [← Bool.not_eq_true, Token.isKeyword_iff]
    rw [Token.isOperator_iff] at htext
    intro hkeyword
    cases congrArg Prod.fst (htext.symm.trans hkeyword)
  have hnot : ¬t.isOperator "\x7d" = true → filled t = false := by
    intro hclose
    rw [← Bool.not_eq_true]
    exact fun htrue => hclose (hfilled htrue)
  unfold mark
  simp only [← Token.isKeyword_iff, ← Token.isOperator_iff]
  by_cases hkeyword : t.isKeyword "unchecked" = true
  · rw [if_pos hkeyword]
    have hop : ∀ text, ¬t.isOperator text = true := by
      intro text htext
      rw [hne' text htext] at hkeyword
      cases hkeyword
    exact h.keyword hkeyword (hop _) (hop _) (hnot (hop _))
  · rw [if_neg hkeyword]
    rw [Bool.not_eq_true] at hkeyword
    by_cases hopen : t.isOperator "\x7b" = true
    · rw [if_pos hopen]
      exact h.opener hopen hkeyword (hnot (hne _ _ (by decide) hopen))
    · rw [if_neg hopen]
      by_cases hclose : t.isOperator "\x7d" = true
      · rw [if_pos hclose]
        exact h.closer hclose hopen hkeyword
      · rw [if_neg hclose]
        exact h.other hkeyword hopen hclose (hnot hclose)

/-- **The scan describes the tokens**, if only closing braces are filled. -/
theorem describes_scan (hfilled : ∀ t, filled t = true → t.isOperator "\x7d" = true)
    (ts : List Token) : Describes filled ts (scan (marks filled ts)) := by
  induction ts with
  | nil => exact describes_start
  | cons t ts ih => exact ih.cons t (hfilled t)

end Spec

/-- Without blocks to put in, the scan finds the nested blocks. -/
theorem nestsUnchecked_iff_scan (ts : List Token) :
    NestsUnchecked ts ↔ (scan (marks (fun _ => false) ts)).nested = true := by
  have h := @describes_scan (fun _ => false) (by simp) ts
  rw [h.nested]
  simp [NestsUnchecked, Holds]

end Layout

end SolidityTools

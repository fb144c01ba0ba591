import SolidityTools.Proofs.Lint.Partner

set_option autoImplicit false

/-! # Braces without a partner

The rule on braces keeps the open braces on a stack. What it reports is what has no partner.

The link is the shape of the tokens read so far (`Leaves`): balanced pieces, with closing braces that
close nothing between them, and then with braces that are still open. A token that is read keeps this
shape, so the whole file has it (`leaves_unmatchedBraces`), and the shape shows where partners are.
-/

namespace SolidityTools.Lint

variable {t u : Token} {ts us front behind closers opened : List Token}

/-! ## The tokens read so far -/

/-- The tokens leave closing braces without an opening one, and then open braces, each latest first.
All pieces between these are balanced. -/
inductive Leaves : List Token → List Token → List Token → Prop
  | balanced {ts : List Token} (h : Balances 0 ts) : Leaves ts [] []
  | closer {ts us closers : List Token} {t : Token} (h : Leaves ts closers [])
      (ht : t.isOperator "\x7d" = true) (hus : Balances 0 us) :
      Leaves (ts ++ t :: us) (t :: closers) []
  | opener {ts us closers opened : List Token} {t : Token} (h : Leaves ts closers opened)
      (ht : t.isOperator "\x7b" = true) (hus : Balances 0 us) :
      Leaves (ts ++ t :: us) closers (t :: opened)

namespace Leaves

theorem nil : Leaves [] [] [] := .balanced (balances_nil.mpr rfl)

theorem append (h : Leaves ts closers opened) (hus : Balances 0 us) :
    Leaves (ts ++ us) closers opened := by
  cases h with
  | balanced h => exact .balanced (h.append hus)
  | closer h ht hbehind =>
      rw [List.append_assoc, List.cons_append]
      exact .closer h ht (hbehind.append hus)
  | opener h ht hbehind =>
      rw [List.append_assoc, List.cons_append]
      exact .opener h ht (hbehind.append hus)

/-- A closing brace closes the brace opened last. What is between them is balanced. -/
theorem close (h : Leaves ts closers (t :: opened)) (hu : u.isOperator "\x7d" = true) :
    Leaves (ts ++ [u]) closers opened := by
  cases h with
  | @opener front between _ _ _ h ht hbetween =>
      have := h.append (hbetween.enclosed ht hu)
      rwa [List.append_assoc, List.cons_append]

/-- One more token, and the tokens to come. -/
theorem run (h : Leaves ts closers opened) (us : List Token) :
    Leaves (ts ++ us) ((unmatchedBraces opened us).1.reverse ++ closers)
      (unmatchedBraces opened us).2.reverse := by
  induction us generalizing ts closers opened with
  | nil => simpa [unmatchedBraces] using h
  | cons t us ih =>
      rw [List.append_cons]
      cases hopen : t.isOperator "\x7b" with
      | true =>
          rw [unmatchedBraces_opener hopen]
          exact ih (.opener h hopen (balances_nil.mpr rfl))
      | false =>
          cases hclose : t.isOperator "\x7d" with
          | true =>
              cases opened with
              | nil =>
                  have := ih (.closer h hclose (balances_nil.mpr rfl))
                  rw [unmatchedBraces_closer_nil hopen hclose]
                  simpa using this
              | cons last opened =>
                  rw [unmatchedBraces_closer hopen hclose]
                  exact ih (h.close hclose)
          | false =>
              rw [unmatchedBraces_other hopen hclose]
              exact ih (h.append ((balances_other hopen hclose).mpr (balances_nil.mpr rfl)))

end Leaves

theorem leaves_unmatchedBraces (ts : List Token) :
    Leaves ts (unmatchedBraces [] ts).1.reverse (unmatchedBraces [] ts).2.reverse := by
  simpa using Leaves.nil.run ts

namespace Leaves

/-- Closing braces come before open ones, and all stand in the order of the tokens. -/
theorem sublist (h : Leaves ts closers opened) : (closers.reverse ++ opened.reverse).Sublist ts := by
  induction h with
  | balanced => exact List.nil_sublist _
  | @closer ts us closers t h ht hus ih =>
      rw [List.reverse_nil, List.append_nil] at ih ⊢
      rw [List.reverse_cons]
      exact ih.append (List.singleton_sublist.mpr List.mem_cons_self)
  | @opener ts us closers opened t h ht hus ih =>
      rw [List.reverse_cons, ← List.append_assoc]
      exact ih.append (List.singleton_sublist.mpr List.mem_cons_self)

theorem subset (h : Leaves ts closers opened) : closers ++ opened ⊆ ts := by
  intro t ht
  exact h.sublist.subset (by simpa using ht)

/-- A closing brace that is left stands where none is open. -/
theorem exists_of_mem_closers (h : Leaves ts closers opened) (ht : t ∈ closers) :
    t.isOperator "\x7d" = true ∧
      ∃ front behind left, ts = front ++ t :: behind ∧ Leaves front left [] := by
  induction h with
  | balanced => cases ht
  | @closer ts us closers u h hu hus ih =>
      rcases List.mem_cons.mp ht with rfl | ht
      · exact ⟨hu, ts, us, closers, rfl, h⟩
      · obtain ⟨hclose, front, behind, left, rfl, hfront⟩ := ih ht
        exact ⟨hclose, front, behind ++ u :: us, left, by simp, hfront⟩
  | @opener ts us closers opened u h hu hus ih =>
      obtain ⟨hclose, front, behind, left, rfl, hfront⟩ := ih ht
      exact ⟨hclose, front, behind ++ u :: us, left, by simp, hfront⟩

/-- Behind an open brace that is left there are only open ones. -/
theorem exists_of_mem_opened (h : Leaves ts closers opened) (ht : t ∈ opened) :
    t.isOperator "\x7b" = true ∧
      ∃ front behind left, ts = front ++ t :: behind ∧ Leaves behind [] left := by
  induction h with
  | balanced => cases ht
  | closer => cases ht
  | @opener ts us closers opened u h hu hus ih =>
      rcases List.mem_cons.mp ht with rfl | ht
      · exact ⟨hu, ts, us, [], rfl, .balanced hus⟩
      · obtain ⟨hopen, front, behind, left, rfl, hbehind⟩ := ih ht
        exact ⟨hopen, front, behind ++ u :: us, u :: left, by simp, .opener hbehind hu hus⟩

/-- If no closing brace is left, no beginning closes more than it opens. -/
theorem closings_le (h : Leaves ts [] opened) (hfront : front <+: ts) :
    closings front ≤ openings front := by
  generalize hclosers : ([] : List Token) = closers at h
  induction h generalizing front with
  | balanced h => simpa using h.covered front hfront
  | closer => cases hclosers
  | @opener ts us closers opened u h hu hus ih =>
      rcases prefix_append_cases hfront with hfront | ⟨rest, hrest, rfl⟩
      · exact ih hfront hclosers
      · have hts := ih List.prefix_rfl hclosers
        rw [openings_append, closings_append]
        rcases List.prefix_cons_iff.mp hrest with rfl | ⟨inner, rfl, hinner⟩
        · simpa [openings, closings] using hts
        · have hcounts := counts_opener hu inner
          have hcovered := hus.covered inner hinner
          omega

/-- If no brace is left open, no ending opens more than it closes. -/
theorem openings_le (h : Leaves ts closers []) (hbehind : behind <:+ ts) :
    openings behind ≤ closings behind := by
  generalize hopened : ([] : List Token) = opened at h
  induction h generalizing behind with
  | balanced h => exact h.openings_le hbehind
  | @closer ts us closers u h hu hus ih =>
      have hcounts := counts_closer hu us
      have hsettled := hus.settled
      rcases suffix_append_cases hbehind with hbehind | ⟨rest, hrest, rfl⟩
      · rcases List.suffix_cons_iff.mp hbehind with rfl | hbehind
        · omega
        · exact hus.openings_le hbehind
      · have hts := ih hrest rfl
        rw [openings_append, closings_append]
        omega
  | opener => cases hopened

theorem exists_first (h : Leaves ts closers opened) (hne : closers ≠ []) :
    ∃ front u behind, ts = front ++ u :: behind ∧ Balances 0 front ∧ u.isOperator "\x7d" = true := by
  induction h with
  | balanced => exact absurd rfl hne
  | @closer ts us closers u h hu hus ih =>
      cases h with
      | balanced h => exact ⟨ts, u, us, rfl, h, hu⟩
      | closer h' ht hbehind =>
          obtain ⟨front, v, behind, hts, hfront, hv⟩ := ih (List.cons_ne_nil _ _)
          exact ⟨front, v, behind ++ u :: us, by simp [hts], hfront, hv⟩
  | @opener ts us closers opened u h hu hus ih =>
      obtain ⟨front, v, behind, rfl, hfront, hv⟩ := ih hne
      exact ⟨front, v, behind ++ u :: us, by simp, hfront, hv⟩

end Leaves

/-! ## What has a partner -/

theorem Partners.of_leaves (h : Leaves ts closers (t :: opened)) (hu : u.isOperator "\x7d" = true)
    (behind : List Token) : Partners (ts ++ u :: behind) t u := by
  cases h with
  | @opener front between _ _ _ h ht hbetween =>
      exact ⟨ht, hu, front, between, behind, by simp, hbetween⟩

theorem Partners.exists_of_leaves (h : Leaves ts closers opened) (hne : closers ≠ [])
    (ht : t.isOperator "\x7b" = true) (front : List Token) :
    ∃ u, Partners (front ++ t :: ts) t u := by
  obtain ⟨between, u, behind, rfl, hbetween, hu⟩ := h.exists_first hne
  exact ⟨u, ht, hu, front, between, behind, rfl, hbetween⟩

/-- The tokens behind an opening brace close more than they open, if the whole is balanced. So they
leave a closing brace. -/
theorem Balances.hasPartner_opener (h : Balances 0 (front ++ t :: behind))
    (ht : t.isOperator "\x7b" = true) : HasPartner (front ++ t :: behind) t := by
  have hleaves := leaves_unmatchedBraces behind
  have hne : (unmatchedBraces [] behind).1.reverse ≠ [] := by
    intro hnil
    rw [hnil] at hleaves
    have hle := hleaves.closings_le List.prefix_rfl
    have hsuffix := h.openings_le (List.suffix_append front _)
    have hcounts := counts_opener ht behind
    omega
  obtain ⟨u, hu⟩ := Partners.exists_of_leaves hleaves hne ht front
  exact ⟨u, .inl hu⟩

/-- The tokens in front of a closing brace open more than they close, if the whole is balanced. So
they leave an open brace. -/
theorem Balances.hasPartner_closer (h : Balances 0 (front ++ t :: behind))
    (ht : t.isOperator "\x7d" = true) : HasPartner (front ++ t :: behind) t := by
  have hleaves := leaves_unmatchedBraces front
  cases hopened : (unmatchedBraces [] front).2.reverse with
  | nil =>
      rw [hopened] at hleaves
      have hle := hleaves.openings_le List.suffix_rfl
      have hcovered := h.covered (front ++ [t]) (by simp)
      have hcounts : openings [t] = 0 ∧ closings [t] = 1 := counts_closer ht []
      rw [openings_append, closings_append] at hcovered
      omega
  | cons u opened =>
      rw [hopened] at hleaves
      exact ⟨u, .inr (.of_leaves hleaves ht behind)⟩

/-- Among balanced tokens every brace has a partner. -/
theorem Balances.hasPartner (h : Balances 0 ts) (ht : t ∈ ts)
    (hbrace : t.isOperator "\x7b" = true ∨ t.isOperator "\x7d" = true) : HasPartner ts t := by
  obtain ⟨front, behind, rfl⟩ := List.append_of_mem ht
  rcases hbrace with hopen | hclose
  · exact h.hasPartner_opener hopen
  · exact h.hasPartner_closer hclose

/-- A token taken out of tokens none of which occurs twice. -/
theorem filter_notMem_append (left : List Token) {left' : List Token} (hnodup : (ts ++ t :: us).Nodup)
    (hleft : left ⊆ ts) (hleft' : ∀ u, u ∈ left' ↔ u = t ∨ u ∈ left) :
    (ts ++ t :: us).filter (fun u => decide (u ∉ left'))
      = ts.filter (fun u => decide (u ∉ left)) ++ us := by
  obtain ⟨-, hbehind, hdisjoint⟩ := List.nodup_append.mp hnodup
  have hfront : ∀ u ∈ ts, decide (u ∉ left') = decide (u ∉ left) := by
    intro u hu
    simp [hleft', hdisjoint u hu t List.mem_cons_self]
  have hus : ∀ u ∈ us, decide (u ∉ left') = true := by
    intro u hu
    have hne : u ≠ t := fun h => (List.nodup_cons.mp hbehind).1 (h ▸ hu)
    have hnot : u ∉ left := fun h => hdisjoint u (hleft h) u (List.mem_cons_of_mem t hu) rfl
    simp [hleft', hne, hnot]
  rw [List.filter_append, List.filter_cons_of_neg (by simp [hleft']), List.filter_congr hfront,
    List.filter_eq_self.mpr hus]

namespace Leaves

/-- Every brace that is not left has a partner. -/
theorem hasPartner (h : Leaves ts closers opened) (ht : t ∈ ts)
    (hbrace : t.isOperator "\x7b" = true ∨ t.isOperator "\x7d" = true) (hclosers : t ∉ closers)
    (hopened : t ∉ opened) : HasPartner ts t := by
  induction h with
  | balanced h => exact h.hasPartner ht hbrace
  | @closer ts us closers u h hu hus ih =>
      rw [List.mem_cons, not_or] at hclosers
      rcases List.mem_append.mp ht with ht | ht
      · simpa using (ih ht hclosers.2 hopened).append [] (u :: us)
      · have ht := (List.mem_cons.mp ht).resolve_left hclosers.1
        simpa using (hus.hasPartner ht hbrace).append (ts ++ [u]) []
  | @opener ts us closers opened u h hu hus ih =>
      rw [List.mem_cons, not_or] at hopened
      rcases List.mem_append.mp ht with ht | ht
      · simpa using (ih ht hclosers hopened.2).append [] (u :: us)
      · have ht := (List.mem_cons.mp ht).resolve_left hopened.1
        simpa using (hus.hasPartner ht hbrace).append (ts ++ [u]) []

section Nodup

variable (hnodup : ts.Nodup)
include hnodup

/-- The closing braces that are left are those without a partner. -/
theorem mem_closers_iff (h : Leaves ts closers opened) :
    t ∈ closers ↔ t ∈ ts ∧ t.isOperator "\x7d" = true ∧ ¬HasPartner ts t := by
  constructor
  · intro ht
    obtain ⟨hclose, front, behind, left, hts, hfront⟩ := h.exists_of_mem_closers ht
    refine ⟨by simp [hts], hclose, ?_⟩
    rintro ⟨u, hu | hu⟩
    · exact not_isOperator_closer hu.1 hclose
    · exact Partners.not_of_closed hnodup hts (fun rest => hfront.openings_le) hu
  · rintro ⟨ht, hclose, hnone⟩
    by_contra hclosers
    refine hnone (h.hasPartner ht (.inr hclose) hclosers fun hopened => ?_)
    exact not_isOperator_closer (h.exists_of_mem_opened hopened).1 hclose

/-- The opening braces that are left are those without a partner. -/
theorem mem_opened_iff (h : Leaves ts closers opened) :
    t ∈ opened ↔ t ∈ ts ∧ t.isOperator "\x7b" = true ∧ ¬HasPartner ts t := by
  constructor
  · intro ht
    obtain ⟨hopen, front, behind, left, hts, hbehind⟩ := h.exists_of_mem_opened ht
    refine ⟨by simp [hts], hopen, ?_⟩
    rintro ⟨u, hu | hu⟩
    · exact Partners.not_of_covered hnodup hts (fun rest => hbehind.closings_le) hu
    · exact not_isOperator_closer hopen hu.2.1
  · rintro ⟨ht, hopen, hnone⟩
    by_contra hopened
    refine hnone (h.hasPartner ht (.inl hopen) (fun hclosers => ?_) hopened)
    exact not_isOperator_closer hopen (h.exists_of_mem_closers hclosers).1

/-- Without the braces that are left, the tokens are balanced. -/
theorem balances (h : Leaves ts closers opened) :
    Balances 0 (ts.filter fun t => decide (t ∉ closers ++ opened)) := by
  induction h with
  | balanced h => simpa using h
  | @closer ts us closers t h ht hus ih =>
      rw [filter_notMem_append (closers ++ []) hnodup (by simpa using h.subset) (by simp)]
      exact (ih (List.nodup_append.mp hnodup).1).append hus
  | @opener ts us closers opened t h ht hus ih =>
      rw [filter_notMem_append (closers ++ opened) hnodup h.subset (by simp [or_left_comm])]
      exact (ih (List.nodup_append.mp hnodup).1).append hus

end Nodup

end Leaves

/-! ## What is reported -/

/-- The rule reports closing braces exactly if they have no partner. -/
theorem mem_unmatchedBraces_fst_iff (hnodup : ts.Nodup) : t ∈ (unmatchedBraces [] ts).1 ↔
    t ∈ ts ∧ t.isOperator "\x7d" = true ∧ ¬HasPartner ts t := by
  rw [← (leaves_unmatchedBraces ts).mem_closers_iff hnodup, List.mem_reverse]

/-- The rule reports opening braces exactly if they have no partner. -/
theorem mem_unmatchedBraces_snd_iff (hnodup : ts.Nodup) : t ∈ (unmatchedBraces [] ts).2 ↔
    t ∈ ts ∧ t.isOperator "\x7b" = true ∧ ¬HasPartner ts t := by
  rw [← (leaves_unmatchedBraces ts).mem_opened_iff hnodup, List.mem_reverse]

theorem balances_filter_braces (hnodup : ts.Nodup) : Balances 0 ((braces ts).filter fun t =>
    decide (t ∉ (unmatchedBraces [] ts).1 ++ (unmatchedBraces [] ts).2)) := by
  have hbalances := (leaves_unmatchedBraces ts).balances hnodup
  rw [← balances_braces] at hbalances
  simpa [braces, List.filter_filter, Bool.and_comm] using hbalances

/-- The braces that are not reported are those with exactly one partner. -/
theorem notMem_unmatchedBraces_iff (hnodup : ts.Nodup) (ht : t ∈ braces ts) :
    t ∉ (unmatchedBraces [] ts).1 ++ (unmatchedBraces [] ts).2 ↔
      ∃! u, Partners ts t u ∨ Partners ts u t := by
  obtain ⟨hmem, hbrace⟩ : t ∈ ts ∧ (t.isOperator "\x7b" = true ∨ t.isOperator "\x7d" = true) := by
    simpa [braces] using ht
  rw [List.mem_append, mem_unmatchedBraces_fst_iff hnodup, mem_unmatchedBraces_snd_iff hnodup]
  constructor
  · intro hnot
    refine HasPartner.existsUnique hnodup ?_
    by_contra hnone
    rcases hbrace with hopen | hclose
    · exact hnot (.inr ⟨hmem, hopen, hnone⟩)
    · exact hnot (.inl ⟨hmem, hclose, hnone⟩)
  · rintro ⟨u, hu, -⟩ (⟨-, -, hnone⟩ | ⟨-, -, hnone⟩)
    · exact hnone ⟨u, hu⟩
    · exact hnone ⟨u, hu⟩

theorem unbalancedBraces_eq (settings : LintSettings) (source : String) :
    unbalancedBraces (.ofSource settings source)
      = (unmatchedBraces [] (tokenizeSignificant source)).1.map
          (fun t => ⟨t.start, "Unmatched closing brace"⟩)
        ++ (unmatchedBraces [] (tokenizeSignificant source)).2.map
          (fun t => ⟨t.start, "Unclosed brace"⟩) := rfl

/-- Where the rule reports an unclosed brace. -/
theorem mem_unbalancedBraces_iff (settings : LintSettings) (source : String) (offset : Nat) :
    ⟨offset, "Unclosed brace"⟩ ∈ unbalancedBraces (.ofSource settings source) ↔
      ∃ t ∈ tokenizeSignificant source, t.isOperator "\x7b" = true ∧
        ¬HasPartner (tokenizeSignificant source) t ∧ t.start = offset := by
  rw [unbalancedBraces_eq, List.mem_append, List.mem_map, List.mem_map]
  simp only [mem_unmatchedBraces_snd_iff (Lexer.ordered_tokenizeSignificant source).nodup,
    Finding.mk.injEq]
  constructor
  · rintro (⟨t, -, -, hmessage⟩ | ⟨t, ⟨ht, hopen, hnone⟩, hoffset, -⟩)
    · exact absurd hmessage (by decide)
    · exact ⟨t, ht, hopen, hnone, hoffset⟩
  · rintro ⟨t, ht, hopen, hnone, hoffset⟩
    exact .inr ⟨t, ⟨ht, hopen, hnone⟩, hoffset, trivial⟩

/-- **The rule reports the braces without a partner**, each one once and in source order, the closing
ones first. Without them the braces are balanced, and each of the others has exactly one partner. So
nothing is reported exactly if the braces are balanced as they are. -/
theorem unbalancedBraces_exact (settings : LintSettings) (source : String) :
    ∃ closers openers : List Token,
      unbalancedBraces (.ofSource settings source)
          = closers.map (fun t => ⟨t.start, "Unmatched closing brace"⟩)
            ++ openers.map (fun t => ⟨t.start, "Unclosed brace"⟩) ∧
        (closers ++ openers).Pairwise (·.start < ·.start) ∧
        (∀ t, t ∈ closers ↔ t ∈ tokenizeSignificant source ∧ t.isOperator "\x7d" = true ∧
          ¬HasPartner (tokenizeSignificant source) t) ∧
        (∀ t, t ∈ openers ↔ t ∈ tokenizeSignificant source ∧ t.isOperator "\x7b" = true ∧
          ¬HasPartner (tokenizeSignificant source) t) ∧
        Balances 0 ((braces (tokenizeSignificant source)).filter fun t =>
          decide (t ∉ closers ++ openers)) ∧
        (∀ t ∈ braces (tokenizeSignificant source), t ∉ closers ++ openers ↔
          ∃! u, Partners (tokenizeSignificant source) t u ∨
            Partners (tokenizeSignificant source) u t) ∧
        (unbalancedBraces (.ofSource settings source) = []
          ↔ Balances 0 (braces (tokenizeSignificant source))) := by
  have hordered := Lexer.ordered_tokenizeSignificant source
  have hnodup := hordered.nodup
  refine ⟨_, _, unbalancedBraces_eq settings source, ?_, fun t => mem_unmatchedBraces_fst_iff hnodup,
    fun t => mem_unmatchedBraces_snd_iff hnodup, balances_filter_braces hnodup,
    fun t => notMem_unmatchedBraces_iff hnodup, ?_⟩
  · -- what is reported stands among the tokens in this order, and these stand one behind the other
    have hsublist := (leaves_unmatchedBraces (tokenizeSignificant source)).sublist
    rw [List.reverse_reverse, List.reverse_reverse] at hsublist
    refine List.Pairwise.sublist hsublist (hordered.pairwise.imp_of_mem fun {t u} ht hu hle => ?_)
    exact Nat.lt_of_lt_of_le (hordered.start_lt_stop t ht) hle
  · rw [balances_braces, unbalancedBraces_eq]
    refine Iff.trans ?_ (unmatchedBraces_eq_nil_iff [] (tokenizeSignificant source))
    simp [Prod.ext_iff]

/-- The closing brace and the second of the opening ones have no partner. -/
example : unbalancedBraces (.ofSource .standard "\x7d if \x7b \x7b \x7d")
    = [⟨0, "Unmatched closing brace"⟩, ⟨5, "Unclosed brace"⟩] := by
  decide +kernel

end SolidityTools.Lint

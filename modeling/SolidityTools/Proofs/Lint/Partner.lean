import SolidityTools.Proofs.Lint.Delimiter
import SolidityTools.Proofs.Token.Place

set_option autoImplicit false

/-! # Braces and their partners

Two braces are partners if the tokens between them are balanced. That speaks of the tokens only, and
not of a search: neither of the depth that is counted to find the end of a group, nor of a stack of
open braces. The group that an opening brace begins ends with its partner (`Partners.exists_group`),
and no brace has two (`HasPartner.existsUnique`).
-/

namespace SolidityTools.Lint

variable {depth depth' : Nat} {t u : Token} {ts us front behind : List Token}

/-! ## Balanced tokens -/

theorem openings_append (ts us : List Token) : openings (ts ++ us) = openings ts + openings us :=
  List.countP_append

theorem closings_append (ts us : List Token) : closings (ts ++ us) = closings ts + closings us :=
  List.countP_append

theorem isOperator_opener_of_closer (h : t.isOperator "\x7d" = true) :
    t.isOperator "\x7b" = false := by
  rw [Token.isOperator_eq_decide, Token.shape_of_isOperator h]
  decide

/-- No brace opens and closes at once. -/
theorem not_isOperator_closer (h : t.isOperator "\x7b" = true) : ¬t.isOperator "\x7d" = true := by
  simp [isOperator_closer_of_opener h]

theorem counts_opener (h : t.isOperator "\x7b" = true) (ts : List Token) :
    openings (t :: ts) = openings ts + 1 ∧ closings (t :: ts) = closings ts := by
  rw [openings_cons, closings_cons, h, isOperator_closer_of_opener h]
  exact ⟨rfl, rfl⟩

theorem counts_closer (h : t.isOperator "\x7d" = true) (ts : List Token) :
    openings (t :: ts) = openings ts ∧ closings (t :: ts) = closings ts + 1 := by
  rw [openings_cons, closings_cons, h, isOperator_opener_of_closer h]
  exact ⟨rfl, rfl⟩

/-- A beginning of two lists ends in the first or in the second. -/
theorem prefix_append_cases (h : front <+: ts ++ us) :
    front <+: ts ∨ ∃ rest, rest <+: us ∧ front = ts ++ rest := by
  rcases List.prefix_or_prefix_of_prefix h (List.prefix_append ts us) with h' | ⟨rest, rfl⟩
  · exact .inl h'
  · exact .inr ⟨rest, (List.prefix_append_right_inj ts).mp h, rfl⟩

/-- An ending of two lists begins in the second or in the first. -/
theorem suffix_append_cases (h : behind <:+ ts ++ us) :
    behind <:+ us ∨ ∃ rest, rest <:+ ts ∧ behind = rest ++ us := by
  rcases List.suffix_or_suffix_of_suffix h (List.suffix_append ts us) with h' | ⟨rest, rfl⟩
  · exact .inl h'
  · exact .inr ⟨rest, ((List.suffix_append_inj_of_length_eq rfl).mp h).1, rfl⟩

theorem Balances.append (h : Balances depth ts) (hus : Balances depth' us) :
    Balances (depth + depth') (ts ++ us) := by
  have hsettled := h.settled
  refine ⟨fun front hfront => ?_, ?_⟩
  · rcases prefix_append_cases hfront with hfront | ⟨rest, hrest, rfl⟩
    · have := h.covered front hfront
      omega
    · have := hus.covered rest hrest
      rw [openings_append, closings_append]
      omega
  · have := hus.settled
    rw [openings_append, closings_append]
    omega

/-- Braces around balanced tokens. -/
theorem Balances.enclosed (h : Balances 0 ts) (ht : t.isOperator "\x7b" = true)
    (hu : u.isOperator "\x7d" = true) : Balances 0 (t :: (ts ++ [u])) := by
  have hcloser : Balances 1 [u] :=
    (balances_closer (isOperator_opener_of_closer hu) hu).mpr (balances_nil.mpr rfl)
  have := h.append hcloser
  rw [Nat.zero_add] at this
  exact (balances_opener ht).mpr this

/-- No ending of balanced tokens opens more braces than it closes. -/
theorem Balances.openings_le (h : Balances 0 ts) (hus : us <:+ ts) : openings us ≤ closings us := by
  obtain ⟨ts, rfl⟩ := hus
  have hcovered := h.covered ts (List.prefix_append ts us)
  have hsettled := h.settled
  rw [openings_append, closings_append] at hsettled
  omega

def braces (ts : List Token) : List Token :=
  ts.filter fun t => t.isOperator "\x7b" || t.isOperator "\x7d"

theorem balances_braces : Balances depth (braces ts) ↔ Balances depth ts := by
  rw [braces]
  induction ts generalizing depth with
  | nil => rfl
  | cons t ts ih =>
      cases hopen : t.isOperator "\x7b" with
      | true =>
          rw [List.filter_cons_of_pos (by simp [hopen]), balances_opener hopen, ih,
            balances_opener hopen]
      | false =>
          cases hclose : t.isOperator "\x7d" with
          | true =>
              rw [List.filter_cons_of_pos (by simp [hclose])]
              cases depth with
              | zero =>
                  exact iff_of_false (not_balances_closer hopen hclose)
                    (not_balances_closer hopen hclose)
              | succ depth =>
                  rw [balances_closer hopen hclose, ih, balances_closer hopen hclose]
          | false =>
              rw [List.filter_cons_of_neg (by simp [hopen, hclose]), ih, balances_other hopen hclose]

/-! ## Groups of braces -/

/-- Balanced tokens inside a group are passed, and the closing brace behind them ends it. -/
theorem Balances.close?_eq (h : Balances depth ts) (hu : u.isOperator "\x7d" = true)
    (behind : List Token) :
    Group.close? "\x7b" "\x7d" depth (ts ++ u :: behind) = some ⟨ts, u, behind⟩ := by
  induction ts generalizing depth with
  | nil =>
      rw [balances_nil.mp h]
      exact Group.close?_closer_zero (by simp [isOperator_opener_of_closer hu]) hu behind
  | cons t ts ih =>
      rw [List.cons_append]
      cases hopen : t.isOperator "\x7b" with
      | true => rw [Group.close?_opener hopen, ih ((balances_opener hopen).mp h)]; rfl
      | false =>
          have hnot : ¬t.isOperator "\x7b" = true := by simp [hopen]
          cases hclose : t.isOperator "\x7d" with
          | true =>
              cases depth with
              | zero => exact absurd h (not_balances_closer hopen hclose)
              | succ depth =>
                  rw [Group.close?_closer_succ hnot hclose, ih ((balances_closer hopen hclose).mp h)]
                  rfl
          | false =>
              rw [Group.close?_other hnot (by simp [hclose]), ih ((balances_other hopen hclose).mp h)]
              rfl

theorem balances_inside {group : Group}
    (h : Group.close? "\x7b" "\x7d" depth ts = some group) : Balances depth group.inside := by
  induction ts generalizing depth group with
  | nil => cases h
  | cons t ts ih =>
      cases hopen : t.isOperator "\x7b" with
      | true =>
          rw [Group.close?_opener hopen] at h
          obtain ⟨inner, hinner, rfl⟩ := Option.map_eq_some_iff.mp h
          exact (balances_opener hopen).mpr (ih hinner)
      | false =>
          have hnot : ¬t.isOperator "\x7b" = true := by simp [hopen]
          cases hclose : t.isOperator "\x7d" with
          | true =>
              cases depth with
              | zero =>
                  rw [Group.close?_closer_zero hnot hclose] at h
                  obtain rfl := Option.some.inj h
                  exact balances_nil.mpr rfl
              | succ depth =>
                  rw [Group.close?_closer_succ hnot hclose] at h
                  obtain ⟨inner, hinner, rfl⟩ := Option.map_eq_some_iff.mp h
                  exact (balances_closer hopen hclose).mpr (ih hinner)
          | false =>
              rw [Group.close?_other hnot (by simp [hclose])] at h
              obtain ⟨inner, hinner, rfl⟩ := Option.map_eq_some_iff.mp h
              exact (balances_other hopen hclose).mpr (ih hinner)

/-! ## Partners -/

/-- An opening and a closing brace with balanced tokens between them. -/
def Partners (ts : List Token) (t u : Token) : Prop :=
  t.isOperator "\x7b" = true ∧ u.isOperator "\x7d" = true ∧
    ∃ before between behind, ts = before ++ t :: (between ++ u :: behind) ∧ Balances 0 between

/-- A brace has a partner behind it or in front of it. -/
def HasPartner (ts : List Token) (t : Token) : Prop := ∃ u, Partners ts t u ∨ Partners ts u t

namespace Partners

theorem append (h : Partners ts t u) (front behind : List Token) :
    Partners (front ++ (ts ++ behind)) t u := by
  obtain ⟨ht, hu, before, between, rest, rfl, hbetween⟩ := h
  exact ⟨ht, hu, front ++ before, between, rest ++ behind, by simp, hbetween⟩

/-- Partners have their places among the tokens. -/
theorem mem (h : Partners ts t u) : t ∈ ts ∧ u ∈ ts := by
  obtain ⟨-, -, before, between, rest, rfl, -⟩ := h
  simp

theorem not_partners_opener (h : Partners ts t u) (v : Token) : ¬Partners ts v t :=
  fun hv => not_isOperator_closer h.1 hv.2.1

section Nodup

variable (hnodup : ts.Nodup)
include hnodup

/-- The group that an opening brace begins ends with its partner. -/
theorem exists_group (hts : ts = front ++ t :: behind) (h : Partners ts t u) :
    ∃ group, Group.braces? behind = some group ∧ group.closer = u := by
  obtain ⟨-, hu, before, between, rest, htokens, hbetween⟩ := h
  obtain ⟨-, rfl⟩ := Group.eq_of_nodup hnodup hts htokens
  exact ⟨_, hbetween.close?_eq hu rest, rfl⟩

/-- The partner of a closing brace, seen from its place. -/
theorem exists_front (hts : ts = front ++ u :: behind) (h : Partners ts t u) :
    ∃ rest between, front = rest ++ t :: between ∧ Balances 0 between := by
  obtain ⟨-, -, before, between, rest, htokens, hbetween⟩ := h
  rw [← List.cons_append, ← List.append_assoc] at htokens
  exact ⟨before, between, (Group.eq_of_nodup hnodup hts htokens).1, hbetween⟩

/-- An opening brace has no partner if no beginning behind it closes more than it opens. -/
theorem not_of_covered (hts : ts = front ++ t :: behind)
    (h : ∀ rest, rest <+: behind → closings rest ≤ openings rest) : ¬Partners ts t u := by
  intro hpartners
  obtain ⟨group, hgroup, rfl⟩ := hpartners.exists_group hnodup hts
  have hle := h (group.inside ++ [group.closer]) ⟨group.rest, by
    rw [List.append_assoc]
    exact Group.inside_append_of_close? hgroup⟩
  have hcounts : openings [group.closer] = 0 ∧ closings [group.closer] = 1 :=
    counts_closer hpartners.2.1 []
  have hsettled := (balances_inside hgroup).settled
  rw [openings_append, closings_append] at hle
  omega

/-- A closing brace has no partner if no ending in front of it opens more than it closes. -/
theorem not_of_closed (hts : ts = front ++ u :: behind)
    (h : ∀ rest, rest <:+ front → openings rest ≤ closings rest) : ¬Partners ts t u := by
  intro hpartners
  obtain ⟨rest, between, rfl, hbetween⟩ := hpartners.exists_front hnodup hts
  have hle := h (t :: between) (List.suffix_append rest _)
  have hcounts := counts_opener hpartners.1 between
  have hsettled := hbetween.settled
  omega

/-- An opening brace has one partner only. -/
theorem closer_unique {u' : Token} (h : Partners ts t u) (h' : Partners ts t u') : u = u' := by
  obtain ⟨front, behind, hts⟩ := List.append_of_mem h.mem.1
  obtain ⟨group, hgroup, rfl⟩ := h.exists_group hnodup hts
  obtain ⟨group', hgroup', rfl⟩ := h'.exists_group hnodup hts
  rw [Option.some.inj (hgroup.symm.trans hgroup')]

/-- A closing brace has one partner only. -/
theorem opener_unique {t' : Token} (h : Partners ts t u) (h' : Partners ts t' u) : t = t' := by
  obtain ⟨front, behind, hts⟩ := List.append_of_mem h.mem.1
  obtain ⟨front', behind', hts'⟩ := List.append_of_mem h'.mem.1
  obtain ⟨group, hgroup, hcloser⟩ := h.exists_group hnodup hts
  obtain ⟨group', hgroup', hcloser'⟩ := h'.exists_group hnodup hts'
  obtain rfl := Group.eq_of_closer_eq hnodup hts hts' h.1 h'.1 hgroup hgroup'
    (hcloser.trans hcloser'.symm)
  exact (List.cons.inj (List.append_cancel_left (hts.symm.trans hts'))).1

end Nodup

end Partners

theorem HasPartner.existsUnique (hnodup : ts.Nodup) (h : HasPartner ts t) :
    ∃! u, Partners ts t u ∨ Partners ts u t := by
  obtain ⟨u, hu | hu⟩ := h
  · refine ⟨u, .inl hu, fun v hv => ?_⟩
    exact Partners.closer_unique hnodup (hv.resolve_right (hu.not_partners_opener v)) hu
  · refine ⟨u, .inr hu, fun v hv => ?_⟩
    rcases hv with hv | hv
    · exact absurd hu (hv.not_partners_opener u)
    · exact Partners.opener_unique hnodup hv hu

theorem HasPartner.append (h : HasPartner ts t) (front behind : List Token) :
    HasPartner (front ++ (ts ++ behind)) t := by
  obtain ⟨u, hu | hu⟩ := h
  · exact ⟨u, .inl (hu.append front behind)⟩
  · exact ⟨u, .inr (hu.append front behind)⟩

end SolidityTools.Lint

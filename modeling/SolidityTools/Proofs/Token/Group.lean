import SolidityTools.Token.Group
import Mathlib.Data.List.Nodup

set_option autoImplicit false

/-! # Nested groups

Groups are nested: a group that opens inside another one is closed before it. So two opening
brackets never share a closing one. The comparison is made by what stands behind the groups:
the outer group leaves less behind.
-/

namespace SolidityTools

/-- White space and comments are no operators. -/
theorem Token.isOperator_of_isTrivia {t : Token} (h : t.isTrivia = true) (text : String) :
    t.isOperator text = false := by
  simp only [Token.isTrivia, Bool.or_eq_true, beq_iff_eq] at h
  rcases h with h | h <;> simp [Token.isOperator, h]

/-! ## Cuts -/

section Cuts

variable {α : Type} {p : α → Bool} {as bs xs ys : List α} {a b : α}

/-- A list is cut behind its first elements that pass a test in one way only. -/
theorem append_inj_of_all (has : as.all p = true) (hbs : bs.all p = true)
    (hxs : ∀ x ∈ xs.head?, p x = false) (hys : ∀ y ∈ ys.head?, p y = false)
    (h : as ++ xs = bs ++ ys) : as = bs ∧ xs = ys := by
  have hfront : ∀ {as xs : List α}, as.all p = true → (∀ x ∈ xs.head?, p x = false) →
      (as ++ xs).takeWhile p = as := by
    intro as xs has hxs
    rw [List.takeWhile_append_of_pos (by simpa using has)]
    cases xs with
    | nil => simp
    | cons x xs => rw [List.takeWhile_cons_of_neg (by simp [hxs x rfl]), List.append_nil]
  have hsame := congrArg (List.takeWhile p) h
  rw [hfront has hxs, hfront hbs hys] at hsame
  subst hsame
  exact ⟨rfl, List.append_cancel_left h⟩

/-- A list is cut at the first element that passes a test in one way only. -/
theorem append_cons_inj_of_first (has : ∀ x ∈ as, p x = false) (hbs : ∀ x ∈ bs, p x = false)
    (ha : p a = true) (hb : p b = true) (h : as ++ a :: xs = bs ++ b :: ys) :
    as = bs ∧ a = b ∧ xs = ys := by
  obtain ⟨hfront, hrest⟩ := append_inj_of_all (p := (!p ·)) (by simpa using has)
    (by simpa using hbs) (by simpa using ha) (by simpa using hb) h
  exact ⟨hfront, List.cons.inj hrest⟩

/-- A list is cut at the last element that passes a test in one way only. -/
theorem append_cons_inj_of_last (ha : p a = true) (hb : p b = true)
    (hxs : ∀ x ∈ xs, p x = false) (hys : ∀ y ∈ ys, p y = false)
    (h : as ++ a :: xs = bs ++ b :: ys) : as = bs ∧ a = b ∧ xs = ys := by
  have hreverse : xs.reverse ++ a :: as.reverse = ys.reverse ++ b :: bs.reverse := by
    simpa using congrArg List.reverse h
  obtain ⟨hbehind, hcut, hfront⟩ :=
    append_cons_inj_of_first (by simpa using hxs) (by simpa using hys) ha hb hreverse
  exact ⟨List.reverse_injective hfront, hcut, List.reverse_injective hbehind⟩

/-- An element passes a test and none behind it passes another one. With one more element at the end
this is so exactly if that element passes the first test, or if it was so before and that element
does not pass the second. -/
theorem exists_since_concat {q : α → Bool} :
    (∃ before x between, xs ++ [a] = before ++ x :: between ∧ p x = true ∧
        ∀ y ∈ between, q y = false) ↔
      p a = true ∨ q a = false ∧ ∃ before x between, xs = before ++ x :: between ∧ p x = true ∧
        ∀ y ∈ between, q y = false := by
  constructor
  · rintro ⟨before, x, between, h, hx, hbetween⟩
    rcases List.eq_nil_or_concat between with rfl | ⟨between, last, rfl⟩
    · obtain ⟨-, hlast⟩ := List.append_inj' h rfl
      obtain rfl := List.singleton_inj.mp hlast
      exact Or.inl hx
    · rw [List.concat_eq_append, ← List.cons_append, ← List.append_assoc] at h
      obtain ⟨rfl, hlast⟩ := List.append_inj' h rfl
      obtain rfl := List.singleton_inj.mp hlast
      refine Or.inr ⟨hbetween a (by simp), before, x, between, rfl, hx, fun y hy => ?_⟩
      exact hbetween y (by simp [hy])
  · rintro (ha | ⟨ha, before, x, between, rfl, hx, hbetween⟩)
    · exact ⟨xs, a, [], rfl, ha, by simp⟩
    · refine ⟨before, x, between ++ [a], by simp, hx, fun y hy => ?_⟩
      rcases List.mem_append.mp hy with hy | hy
      · exact hbetween y hy
      · rwa [List.mem_singleton.mp hy]

end Cuts

namespace Group

variable {opener closer : String}

@[simp] theorem rest_push (t : Token) (g : Group) : (push t g).rest = g.rest := rfl

/-! ## The search, token by token -/

section Steps

variable {t : Token}

theorem close?_opener (hopen : t.isOperator opener = true) (depth : Nat) (ts : List Token) :
    close? opener closer depth (t :: ts) = (close? opener closer (depth + 1) ts).map (push t) := by
  cases depth <;> rw [close?, if_pos hopen]

theorem close?_closer_zero (hopen : ¬t.isOperator opener = true)
    (hclose : t.isOperator closer = true) (ts : List Token) :
    close? opener closer 0 (t :: ts) = some ⟨[], t, ts⟩ := by
  rw [close?, if_neg hopen, if_pos hclose]

theorem close?_closer_succ (hopen : ¬t.isOperator opener = true)
    (hclose : t.isOperator closer = true) (depth : Nat) (ts : List Token) :
    close? opener closer (depth + 1) (t :: ts) = (close? opener closer depth ts).map (push t) := by
  rw [close?, if_neg hopen, if_pos hclose]

theorem close?_other (hopen : ¬t.isOperator opener = true) (hclose : ¬t.isOperator closer = true)
    (depth : Nat) (ts : List Token) :
    close? opener closer depth (t :: ts) = (close? opener closer depth ts).map (push t) := by
  cases depth <;> rw [close?, if_neg hopen, if_neg hclose]

end Steps

/-- The group without white space and comments. -/
def significant (g : Group) : Group :=
  ⟨significantTokens g.inside, g.closer, significantTokens g.rest⟩

/-- White space and comments do not matter for a group. -/
theorem close?_significantTokens (depth : Nat) (ts : List Token) :
    close? opener closer depth (significantTokens ts)
      = (close? opener closer depth ts).map significant := by
  induction ts generalizing depth with
  | nil => rfl
  | cons t ts ih =>
      by_cases ht : t.isTrivia = true
      · have hpush : ∀ g : Group, significant (push t g) = significant g := by
          intro g
          simp [significant, push, significantTokens, ht]
        have hnone : ∀ text, ¬t.isOperator text = true := fun text => by
          simp [Token.isOperator_of_isTrivia ht]
        rw [significantTokens, List.filter_cons_of_neg (by simpa using ht),
          close?_other (hnone _) (hnone _), Option.map_map]
        simp only [Function.comp_def, hpush]
        exact ih depth
      · have hpush : ∀ g : Option Group,
            (g.map significant).map (push t) = (g.map (push t)).map significant := by
          intro g
          cases g with
          | none => rfl
          | some g => simp [significant, push, significantTokens, ht]
        have hcons : significantTokens (t :: ts) = t :: significantTokens ts :=
          List.filter_cons_of_pos (by simpa using ht)
        rw [hcons]
        by_cases hopen : t.isOperator opener = true
        · rw [close?_opener hopen, close?_opener hopen, ih, hpush]
        · by_cases hclose : t.isOperator closer = true
          · cases depth with
            | zero =>
                rw [close?_closer_zero hopen hclose, close?_closer_zero hopen hclose]
                rfl
            | succ depth =>
                rw [close?_closer_succ hopen hclose, close?_closer_succ hopen hclose, ih, hpush]
          · rw [close?_other hopen hclose, close?_other hopen hclose, ih, hpush]

/-- What stands behind a group is shorter than the tokens that were searched. -/
theorem length_rest_lt {depth : Nat} {ts : List Token} {g : Group}
    (h : close? opener closer depth ts = some g) : g.rest.length < ts.length := by
  rw [← inside_append_of_close? h, List.length_append, List.length_cons]
  omega

/-! ## Groups around groups -/

/-- A group around others holds them, up to their closing brackets. -/
theorem exists_inside {k d : Nat} {ts : List Token} {g : Group}
    (h : close? opener closer (k + d + 1) ts = some g) :
    (∃ i, close? opener closer k ts = some i) ∧ ∃ i, close? opener closer k g.inside = some i := by
  induction ts generalizing k g with
  | nil => cases h
  | cons t ts ih =>
      by_cases hopen : t.isOperator opener = true
      · rw [close?_opener hopen, show k + d + 1 + 1 = (k + 1) + d + 1 by omega] at h
        obtain ⟨g', hg', rfl⟩ := Option.map_eq_some_iff.mp h
        obtain ⟨⟨i, hi⟩, j, hj⟩ := ih hg'
        exact ⟨⟨push t i, by rw [close?_opener hopen, hi]; rfl⟩,
          push t j, by rw [push, close?_opener hopen, hj]; rfl⟩
      · by_cases hclose : t.isOperator closer = true
        · rw [close?_closer_succ hopen hclose] at h
          obtain ⟨g', hg', rfl⟩ := Option.map_eq_some_iff.mp h
          cases k with
          | zero =>
              -- the bracket that closes the inner group is in the outer one
              exact ⟨⟨_, close?_closer_zero hopen hclose ts⟩,
                _, close?_closer_zero hopen hclose g'.inside⟩
          | succ k =>
              rw [show k + 1 + d = k + d + 1 by omega] at hg'
              obtain ⟨⟨i, hi⟩, j, hj⟩ := ih hg'
              exact ⟨⟨push t i, by rw [close?_closer_succ hopen hclose, hi]; rfl⟩,
                push t j, by rw [push, close?_closer_succ hopen hclose, hj]; rfl⟩
        · rw [close?_other hopen hclose] at h
          obtain ⟨g', hg', rfl⟩ := Option.map_eq_some_iff.mp h
          obtain ⟨⟨i, hi⟩, j, hj⟩ := ih hg'
          exact ⟨⟨push t i, by rw [close?_other hopen hclose, hi]; rfl⟩,
            push t j, by rw [push, close?_other hopen hclose, hj]; rfl⟩

/-- With more groups open, the closing bracket comes later. -/
theorem length_rest_lt_of_depth {k d : Nat} {ts : List Token} {g g' : Group}
    (h : close? opener closer k ts = some g)
    (h' : close? opener closer (k + d + 1) ts = some g') : g'.rest.length < g.rest.length := by
  induction ts generalizing k g g' with
  | nil => cases h
  | cons t ts ih =>
      by_cases hopen : t.isOperator opener = true
      · rw [close?_opener hopen] at h h'
        obtain ⟨i, hi, rfl⟩ := Option.map_eq_some_iff.mp h
        obtain ⟨i', hi', rfl⟩ := Option.map_eq_some_iff.mp h'
        rw [show k + d + 1 + 1 = (k + 1) + d + 1 by omega] at hi'
        simpa using ih hi hi'
      · by_cases hclose : t.isOperator closer = true
        · rw [close?_closer_succ hopen hclose] at h'
          obtain ⟨i', hi', rfl⟩ := Option.map_eq_some_iff.mp h'
          cases k with
          | zero =>
              -- the inner group ends here, and the outer one is still open
              rw [close?_closer_zero hopen hclose] at h
              obtain rfl := Option.some.inj h
              simpa using length_rest_lt hi'
          | succ k =>
              rw [close?_closer_succ hopen hclose] at h
              obtain ⟨i, hi, rfl⟩ := Option.map_eq_some_iff.mp h
              rw [show k + 1 + d = k + d + 1 by omega] at hi'
              simpa using ih hi hi'
        · rw [close?_other hopen hclose] at h h'
          obtain ⟨i, hi, rfl⟩ := Option.map_eq_some_iff.mp h
          obtain ⟨i', hi', rfl⟩ := Option.map_eq_some_iff.mp h'
          simpa using ih hi hi'

/-- **A group closes after the groups inside it.** -/
theorem length_rest_lt_of_nested {d : Nat} {z ts : List Token} {t : Token} {g g' : Group}
    (ht : t.isOperator opener = true) (h : close? opener closer 0 ts = some g)
    (h' : close? opener closer d (z ++ t :: ts) = some g')
    (hin : g'.rest.length < (t :: ts).length) :
    g'.rest.length < g.rest.length := by
  induction z generalizing d g' with
  | nil =>
      rw [List.nil_append, close?_opener ht] at h'
      obtain ⟨i', hi', rfl⟩ := Option.map_eq_some_iff.mp h'
      rw [show d + 1 = 0 + d + 1 by omega] at hi'
      simpa using length_rest_lt_of_depth h hi'
  | cons u z ih =>
      rw [List.cons_append] at h'
      by_cases hopen : u.isOperator opener = true
      · rw [close?_opener hopen] at h'
        obtain ⟨i', hi', rfl⟩ := Option.map_eq_some_iff.mp h'
        simpa using ih hi' (by simpa using hin)
      · by_cases hclose : u.isOperator closer = true
        · cases d with
          | zero =>
              -- the outer group would end in front of the inner one
              rw [close?_closer_zero hopen hclose] at h'
              obtain rfl := Option.some.inj h'
              simp only [List.length_append] at hin
              omega
          | succ d =>
              rw [close?_closer_succ hopen hclose] at h'
              obtain ⟨i', hi', rfl⟩ := Option.map_eq_some_iff.mp h'
              simpa using ih hi' (by simpa using hin)
        · rw [close?_other hopen hclose] at h'
          obtain ⟨i', hi', rfl⟩ := Option.map_eq_some_iff.mp h'
          simpa using ih hi' (by simpa using hin)

/-! ## Different groups -/

/-- An element that occurs once cuts a list in one way only. -/
theorem eq_of_nodup {α : Type} {ts X Z X' Z' : List α} {t : α} (hnodup : ts.Nodup)
    (h : ts = X ++ t :: Z) (h' : ts = X' ++ t :: Z') : X = X' ∧ Z = Z' := by
  rw [h, List.nodup_middle, List.nodup_cons, List.mem_append, not_or] at hnodup
  have heq : X ++ t :: Z = X' ++ t :: Z' := h.symm.trans h'
  obtain ⟨hX, -, hZ⟩ := (List.append_cons_inj_of_notMem hnodup.1.1 hnodup.1.2).mp heq
  exact ⟨hX, hZ⟩

/-- Of two tokens among some tokens, one is behind the other. -/
theorem exists_between {ts X Z X' Z' : List Token} {t t' : Token} (h : ts = X ++ t :: Z)
    (h' : ts = X' ++ t' :: Z') (hlt : X.length < X'.length) :
    ∃ between, X' = X ++ t :: between ∧ Z = between ++ t' :: Z' := by
  rcases List.append_eq_append_iff.mp (h.symm.trans h') with ⟨m, hm, hcons⟩ | ⟨m, hm, -⟩
  · cases m with
    | nil => simp [hm] at hlt
    | cons u between =>
        obtain ⟨rfl, hZ⟩ := List.cons.inj hcons
        exact ⟨between, hm, hZ⟩
  · rw [hm, List.length_append] at hlt
    omega

theorem exists_between_or {ts X Z X' Z' : List Token} {t t' : Token} (h : ts = X ++ t :: Z)
    (h' : ts = X' ++ t' :: Z') (hne : t ≠ t') :
    (∃ between, X' = X ++ t :: between ∧ Z = between ++ t' :: Z') ∨
      ∃ between, X = X' ++ t' :: between ∧ Z' = between ++ t :: Z := by
  rcases Nat.lt_trichotomy X.length X'.length with hlt | heq | hgt
  · exact .inl (exists_between h h' hlt)
  · have hcons := (List.append_inj (h.symm.trans h') heq).2
    exact absurd (List.cons.inj hcons).1 hne
  · exact .inr (exists_between h' h hgt)

section Closer

variable {ts us us' X X' : List Token} {t t' : Token} {g g' : Group}

/-- A group that opens earlier is closed by another bracket. -/
theorem closer_ne_of_length_lt (hnodup : ts.Nodup) (hts : ts = X ++ t :: us)
    (hts' : ts = X' ++ t' :: us') (ht' : t'.isOperator opener = true)
    (hg : close? opener closer 0 us = some g) (hg' : close? opener closer 0 us' = some g')
    (hlt : X.length < X'.length) : g.closer ≠ g'.closer := by
  intro h
  have hrest : g.rest = g'.rest := by
    have hcut : ts = (X ++ t :: g.inside) ++ g.closer :: g.rest := by
      rw [hts, ← inside_append_of_close? hg]
      simp
    have hcut' : ts = (X' ++ t' :: g'.inside) ++ g.closer :: g'.rest := by
      rw [hts', ← inside_append_of_close? hg', h]
      simp
    exact (eq_of_nodup hnodup hcut hcut').2
  obtain ⟨between, -, rfl⟩ := exists_between hts hts' hlt
  -- the inner group lies in the outer one, so the outer one closes later
  have hin : g.rest.length < (t' :: us').length := by
    have := length_rest_lt hg'
    rw [hrest, List.length_cons]
    omega
  have := length_rest_lt_of_nested ht' hg' hg hin
  rw [hrest] at this
  exact Nat.lt_irrefl _ this

/-- **A closing bracket closes one group only.** -/
theorem eq_of_closer_eq (hnodup : ts.Nodup) (hts : ts = X ++ t :: us) (hts' : ts = X' ++ t' :: us')
    (ht : t.isOperator opener = true) (ht' : t'.isOperator opener = true)
    (hg : close? opener closer 0 us = some g) (hg' : close? opener closer 0 us' = some g')
    (h : g.closer = g'.closer) : X = X' := by
  rcases Nat.lt_trichotomy X.length X'.length with hlt | heq | hgt
  · exact absurd h (closer_ne_of_length_lt hnodup hts hts' ht' hg hg' hlt)
  · exact (List.append_inj (hts.symm.trans hts') heq).1
  · exact absurd h.symm (closer_ne_of_length_lt hnodup hts' hts ht hg' hg hgt)

end Closer

end Group

end SolidityTools

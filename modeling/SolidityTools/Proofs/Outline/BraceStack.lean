import SolidityTools.Proofs.Lint.Partner
import SolidityTools.Proofs.Outline.Scan

set_option autoImplicit false

/-! # The stack of open braces

The pass that looks for state variables keeps no stack. It counts the open braces, and of those that
belong to containers it keeps the heights. The two stand for the stack of all open braces
(`Represents`), whatever the text is: one token changes both alike, so all tokens do. Nothing can go
wrong with a closing brace where none is open, which is ignored, or with a container that has been
announced, which waits for its brace however long that takes.

The stack itself has exactly the braces that no closing brace behind them closes
(`mem_openBraces_iff`).
-/

namespace SolidityTools

open Lint

variable {s : MemberScan} {t brace : Token} {ts us front before behind : List Token}
  {opened below : List (List Token)} {height : Nat}

/-! ## Announced containers -/

/-- A container has been announced and no brace has opened since. So a brace that opens here is the
first one behind the keyword, and belongs to the container. -/
def AwaitsContainer (front : List Token) : Prop :=
  ∃ before keyword between, front = before ++ keyword :: between ∧
    ["contract", "interface", "library"].any keyword.isKeyword = true ∧
    ∀ t ∈ between, t.isOperator "\x7b" = false

theorem not_awaitsContainer_nil : ¬AwaitsContainer [] := by
  rintro ⟨before, keyword, between, h, -⟩
  simp at h

/-- A keyword announces a container, a brace opens it, and nothing else matters. -/
theorem awaitsContainer_concat : AwaitsContainer (front ++ [t]) ↔
    ["contract", "interface", "library"].any t.isKeyword = true ∨
      t.isOperator "\x7b" = false ∧ AwaitsContainer front :=
  exists_since_concat

/-- Containers have three keywords. -/
theorem any_isContainer_announced? : (TypeKind.announced? t).any (·.isContainer) = true ↔
    ["contract", "interface", "library"].any t.isKeyword = true := by
  constructor
  · intro h
    obtain ⟨kind, hkind, hcontainer⟩ := (Option.any_eq_true _ _).mp h
    have hkeyword := List.find?_some hkind
    cases kind <;> simp_all [TypeKind.isContainer, TypeKind.keyword]
  · intro h
    have hannounces : ∀ kind : TypeKind, kind.isContainer = true → t.isKeyword kind.keyword = true →
        (TypeKind.announced? t).any (·.isContainer) = true := by
      intro kind hcontainer hkeyword
      rw [(TypeKind.announced?_of_isKeyword hkeyword).1]
      exact hcontainer
    simp only [List.any_cons, List.any_nil, Bool.or_false, Bool.or_eq_true] at h
    rcases h with h | h | h
    · exact hannounces .contract rfl h
    · exact hannounces .interface rfl h
    · exact hannounces .library rfl h

/-- No operator announces a container. -/
theorem any_isKeyword_of_isOperator {text : String} (h : t.isOperator text = true) :
    ["contract", "interface", "library"].any t.isKeyword = false := by
  simp [Token.isKeyword, Token.kind_of_isOperator h]

/-! ## The stack -/

/-- The open braces behind a token, innermost first. Each is given by the tokens in front of it;
`front` are those in front of the token. A closing brace closes the innermost one, if there is one.
-/
def bracesBehind (front : List Token) (opened : List (List Token)) (t : Token) :
    List (List Token) :=
  if t.isOperator "\x7b" then front :: opened
  else if t.isOperator "\x7d" then opened.tail
  else opened

def openBracesFrom (front : List Token) (opened : List (List Token)) :
    List Token → List (List Token)
  | [] => opened
  | t :: ts => openBracesFrom (front ++ [t]) (bracesBehind front opened t) ts

/-- The braces that are open behind some tokens, innermost first, each given by the tokens in front
of it. -/
def openBraces (ts : List Token) : List (List Token) := openBracesFrom [] [] ts

theorem bracesBehind_opener (h : t.isOperator "\x7b" = true) :
    bracesBehind front opened t = front :: opened := by
  rw [bracesBehind, if_pos h]

theorem bracesBehind_closer (h : t.isOperator "\x7d" = true) :
    bracesBehind front opened t = opened.tail := by
  rw [bracesBehind, if_neg (by simp [isOperator_opener_of_closer h]), if_pos h]

theorem bracesBehind_other (h : ¬t.isOperator "\x7b" = true) (h' : ¬t.isOperator "\x7d" = true) :
    bracesBehind front opened t = opened := by
  rw [bracesBehind, if_neg h, if_neg h']

theorem openBracesFrom_append (ts us : List Token) :
    openBracesFrom front opened (ts ++ us)
      = openBracesFrom (front ++ ts) (openBracesFrom front opened ts) us := by
  induction ts generalizing front opened with
  | nil => rw [List.nil_append, List.append_nil, openBracesFrom]
  | cons t ts ih =>
      rw [List.cons_append, openBracesFrom, ih, openBracesFrom, List.append_assoc,
        List.singleton_append]

theorem openBraces_opener (h : brace.isOperator "\x7b" = true) (front behind : List Token) :
    openBraces (front ++ brace :: behind)
      = openBracesFrom (front ++ [brace]) (front :: openBraces front) behind := by
  rw [openBraces, openBracesFrom_append, List.nil_append, openBracesFrom, bracesBehind_opener h]
  rfl

/-! ### Order -/

/-- What is open stands in front of what has been read, and the outer braces stand in front of the
inner ones. -/
def Nested (front : List Token) (opened : List (List Token)) : Prop :=
  (front :: opened).Pairwise fun inner outer => outer.length < inner.length

namespace Nested

theorem length_lt (h : Nested front opened) (hbefore : before ∈ opened) :
    before.length < front.length :=
  (List.pairwise_cons.mp h).1 before hbefore

/-- More tokens are read, and no brace opens. -/
theorem append (h : Nested front opened) (ts : List Token) : Nested (front ++ ts) opened := by
  refine List.pairwise_cons.mpr ⟨fun before hbefore => ?_, (List.pairwise_cons.mp h).2⟩
  have hlt := h.length_lt hbefore
  rw [List.length_append]
  omega

theorem step (h : Nested front opened) (t : Token) :
    Nested (front ++ [t]) (bracesBehind front opened t) := by
  by_cases hopen : t.isOperator "\x7b" = true
  · rw [bracesBehind_opener hopen]
    refine List.pairwise_cons.mpr ⟨fun before hbefore => ?_, h⟩
    rw [List.length_append, List.length_singleton]
    rcases List.mem_cons.mp hbefore with rfl | hbefore
    · omega
    · have := h.length_lt hbefore
      omega
  · by_cases hclose : t.isOperator "\x7d" = true
    · rw [bracesBehind_closer hclose]
      exact append (h.sublist ((List.tail_sublist opened).cons_cons front)) [t]
    · rw [bracesBehind_other hopen hclose]
      exact h.append [t]

theorem run (h : Nested front opened) (ts : List Token) :
    Nested (front ++ ts) (openBracesFrom front opened ts) := by
  induction ts generalizing front opened with
  | nil => rwa [List.append_nil]
  | cons t ts ih =>
      rw [List.append_cons]
      exact ih (h.step t)

end Nested

theorem nested_openBraces (ts : List Token) : Nested ts (openBraces ts) := by
  have hnil : Nested [] [] := List.pairwise_singleton _ _
  exact hnil.run ts

/-! ### What is on the stack -/

/-- No closing brace is the partner of the opening one in front: what stands between the two is
never balanced. -/
def StaysOpen (behind : List Token) : Prop :=
  ∀ between closer rest, behind = between ++ closer :: rest → Balances 0 between →
    closer.isOperator "\x7d" = false

theorem staysOpen_iff : StaysOpen behind ↔ Group.braces? behind = none := by
  constructor
  · intro h
    cases hgroup : Group.braces? behind with
    | none => rfl
    | some group =>
        have hclosed := h group.inside group.closer group.rest
          (Group.inside_append_of_close? hgroup).symm (balances_inside hgroup)
        rw [Group.isOperator_closer_of_close? hgroup] at hclosed
        cases hclosed
  · rintro h between closer rest rfl hbetween
    by_contra hclose
    rw [Bool.not_eq_false] at hclose
    have hgroup := hbetween.close?_eq hclose rest
    rw [← Group.braces?, h] at hgroup
    cases hgroup

/-- A brace that is open was open before, or it has been read since. -/
theorem exists_of_mem_openBracesFrom (h : before ∈ openBracesFrom front opened ts) :
    before ∈ opened ∨ ∃ passed brace behind, ts = passed ++ brace :: behind ∧
      before = front ++ passed ∧ brace.isOperator "\x7b" = true := by
  induction ts generalizing front opened with
  | nil => exact .inl h
  | cons t ts ih =>
      rcases ih h with h | ⟨passed, brace, behind, rfl, rfl, hbrace⟩
      · unfold bracesBehind at h
        split at h
        · next hopen =>
            rcases List.mem_cons.mp h with rfl | h
            · exact .inr ⟨[], t, ts, rfl, (List.append_nil _).symm, hopen⟩
            · exact .inl h
        · split at h
          · exact .inl (List.mem_of_mem_tail h)
          · exact .inl h
      · exact .inr ⟨t :: passed, brace, behind, rfl, by simp, hbrace⟩

/-- A brace that has left the stack does not come back. -/
theorem notMem_openBracesFrom (h : Nested front (before :: below)) (t : Token) (ts : List Token) :
    before ∉ openBracesFrom (front ++ [t]) below ts := by
  intro hmem
  rcases exists_of_mem_openBracesFrom hmem with hmem | ⟨passed, -, -, -, heq, -⟩
  · have := Nested.length_lt (List.pairwise_cons.mp h).2 hmem
    omega
  · -- whatever is read later has more in front of it
    have hlt := h.length_lt List.mem_cons_self
    have hlength := congrArg List.length heq
    rw [List.length_append, List.length_append] at hlength
    omega

/-- A brace stays on the stack exactly if the search for the end of its group, in which the braces
above it are open, finds nothing. -/
theorem mem_openBracesFrom_iff (above : List (List Token))
    (h : Nested front (above ++ before :: below)) :
    before ∈ openBracesFrom front (above ++ before :: below) ts ↔
      Group.close? "\x7b" "\x7d" above.length ts = none := by
  induction ts generalizing front above with
  | nil => simp [openBracesFrom, Group.close?]
  | cons t ts ih =>
      have hnext := h.step t
      rw [openBracesFrom]
      by_cases hopen : t.isOperator "\x7b" = true
      · rw [bracesBehind_opener hopen, ← List.cons_append] at hnext ⊢
        rw [ih (front :: above) hnext, Group.close?_opener hopen, Option.map_eq_none_iff,
          List.length_cons]
      · by_cases hclose : t.isOperator "\x7d" = true
        · rw [bracesBehind_closer hclose] at hnext ⊢
          cases above with
          | nil =>
              -- the brace is closed here
              rw [List.length_nil, Group.close?_closer_zero hopen hclose]
              exact iff_of_false (notMem_openBracesFrom h t ts) (Option.some_ne_none _)
          | cons last above =>
              rw [List.cons_append, List.tail_cons] at hnext ⊢
              rw [ih above hnext, List.length_cons, Group.close?_closer_succ hopen hclose,
                Option.map_eq_none_iff]
        · rw [bracesBehind_other hopen hclose] at hnext ⊢
          rw [ih above hnext, Group.close?_other hopen hclose, Option.map_eq_none_iff]

theorem mem_openBraces_opener_iff (h : brace.isOperator "\x7b" = true) :
    before ∈ openBraces (before ++ brace :: behind) ↔ StaysOpen behind := by
  have hnested := (nested_openBraces before).step brace
  rw [bracesBehind_opener h] at hnested
  rw [openBraces_opener h, staysOpen_iff]
  exact mem_openBracesFrom_iff [] hnested

/-- **The stack has the braces that stay open**, and no other. -/
theorem mem_openBraces_iff : before ∈ openBraces ts ↔
    ∃ brace behind, ts = before ++ brace :: behind ∧ brace.isOperator "\x7b" = true ∧
      StaysOpen behind := by
  constructor
  · intro h
    obtain ⟨passed, brace, behind, rfl, rfl, hbrace⟩ :=
      (exists_of_mem_openBracesFrom h).resolve_left List.not_mem_nil
    exact ⟨brace, behind, rfl, hbrace, (mem_openBraces_opener_iff hbrace).mp h⟩
  · rintro ⟨brace, behind, rfl, hbrace, hopen⟩
    exact (mem_openBraces_opener_iff hbrace).mpr hopen

/-! ## The counters -/

/-- The endings of a list without its first element are the shorter ones of the list. -/
theorem cons_suffix_tail_iff {α : Type} {x : α} {xs ys : List α} :
    x :: xs <:+ ys.tail ↔ x :: xs <:+ ys ∧ xs.length + 1 < ys.length := by
  cases ys with
  | nil => simp
  | cons y ys =>
      rw [List.tail_cons, List.suffix_cons_iff, List.length_cons]
      constructor
      · intro hsuffix
        have hle := hsuffix.length_le
        rw [List.length_cons] at hle
        exact ⟨.inr hsuffix, by omega⟩
      · rintro ⟨heq | hsuffix, hlength⟩
        · obtain ⟨-, rfl⟩ := List.cons.inj heq
          omega
        · exact hsuffix

namespace MemberScan

/-- What the pass knows behind some tokens. -/
def after (ts : List Token) : MemberScan := ts.foldl step start

/-- The tokens lead to what the pass knows behind them. -/
theorem passes_foldl (s : MemberScan) (ts : List Token) :
    s.Passes ts (s.allDeclared ts) (ts.foldl step s) := by
  intro rest
  induction ts generalizing s with
  | nil => rfl
  | cons t ts ih => rw [List.cons_append, allDeclared, allDeclared, ih, List.append_assoc]; rfl

/-- What is known stands for the stack of open braces: their number, the heights of those that
belong to containers, innermost first, and whether the next one will. -/
structure Represents (s : MemberScan) (front : List Token) (opened : List (List Token)) : Prop where
  depth_eq : s.depth = opened.length
  pending_iff : s.pending = true ↔ AwaitsContainer front
  descending : s.containers.Pairwise (· > ·)
  mem_containers_iff : ∀ height, height ∈ s.containers ↔ ∃ before outer,
    before :: outer <:+ opened ∧ AwaitsContainer before ∧ height = outer.length + 1

namespace Represents

theorem start : Represents start [] [] where
  depth_eq := rfl
  pending_iff := iff_of_false Bool.false_ne_true not_awaitsContainer_nil
  descending := .nil
  mem_containers_iff height := by simp [MemberScan.start]

/-- No brace is higher than the stack. -/
theorem le_depth (h : s.Represents front opened) (hheight : height ∈ s.containers) :
    height ≤ s.depth := by
  obtain ⟨before, outer, hsuffix, -, rfl⟩ := (h.mem_containers_iff height).mp hheight
  rw [h.depth_eq]
  exact hsuffix.length_le

/-- The containers are searched at their end only, but there the greatest height stands. -/
theorem inContainer_iff_mem (h : s.Represents front opened) :
    s.inContainer = true ↔ s.depth ∈ s.containers := by
  rw [inContainer, beq_iff_eq]
  cases hcontainers : s.containers with
  | nil => simp
  | cons innermost outer =>
      have hle : innermost ≤ s.depth := h.le_depth (by simp [hcontainers])
      have hlt := (List.pairwise_cons.mp (hcontainers ▸ h.descending)).1
      rw [List.head?_cons, Option.some.injEq, List.mem_cons]
      constructor
      · intro heq
        exact .inl heq.symm
      · rintro (heq | hmem)
        · exact heq.symm
        · -- then the depth would be below the innermost container
          have := hlt s.depth hmem
          omega

/-- The innermost open brace is at the height of the stack. -/
theorem inContainer_iff (h : s.Represents front opened) :
    s.inContainer = true ↔ ∃ before outer, opened = before :: outer ∧ AwaitsContainer before := by
  rw [h.inContainer_iff_mem, h.mem_containers_iff, h.depth_eq]
  constructor
  · rintro ⟨before, outer, hsuffix, hawaits, hlength⟩
    exact ⟨before, outer, (hsuffix.eq_of_length hlength.symm).symm, hawaits⟩
  · rintro ⟨before, outer, rfl, hawaits⟩
    exact ⟨before, outer, List.suffix_rfl, hawaits, rfl⟩

/-- The brace that opens is the highest one, and a container's if one has been announced. -/
theorem openBrace (h : s.Represents front opened) (ht : t.isOperator "\x7b" = true) :
    (s.openBrace t).Represents (front ++ [t]) (front :: opened) where
  depth_eq := congrArg (· + 1) h.depth_eq
  pending_iff := by
    rw [awaitsContainer_concat, any_isKeyword_of_isOperator ht, ht]
    simp [MemberScan.openBrace]
  descending := by
    simp only [MemberScan.openBrace]
    split
    · exact List.pairwise_cons.mpr
        ⟨fun height hheight => Nat.lt_succ_of_le (h.le_depth hheight), h.descending⟩
    · exact h.descending
  mem_containers_iff height := by
    have hheights : height ∈ (s.openBrace t).containers ↔
        s.pending = true ∧ height = s.depth + 1 ∨ height ∈ s.containers := by
      simp only [MemberScan.openBrace]
      split <;> simp_all
    rw [hheights, h.pending_iff, h.mem_containers_iff, h.depth_eq]
    constructor
    · rintro (⟨hawaits, rfl⟩ | ⟨before, outer, hsuffix, hrest⟩)
      · exact ⟨front, opened, List.suffix_rfl, hawaits, rfl⟩
      · exact ⟨before, outer, hsuffix.trans (List.suffix_cons front opened), hrest⟩
    · rintro ⟨before, outer, hsuffix, hawaits, rfl⟩
      rcases List.suffix_cons_iff.mp hsuffix with heq | hsuffix
      · obtain ⟨rfl, rfl⟩ := List.cons.inj heq
        exact .inl ⟨hawaits, rfl⟩
      · exact .inr ⟨before, outer, hsuffix, hawaits, rfl⟩

/-- A closing brace takes the height of the stack from the containers, where that is one of them. -/
theorem mem_containers_closeBrace (h : s.Represents front opened) :
    height ∈ (s.closeBrace t).containers ↔ height ∈ s.containers ∧ height < s.depth := by
  simp only [MemberScan.closeBrace]
  split
  · next hin =>
      cases hcontainers : s.containers with
      | nil => simp
      | cons innermost outer =>
          have hlt := (List.pairwise_cons.mp (hcontainers ▸ h.descending)).1
          have hdepth : innermost = s.depth := by simpa [inContainer, hcontainers] using hin
          rw [List.tail_cons, List.mem_cons, ← hdepth]
          constructor
          · intro hmem
            exact ⟨.inr hmem, hlt height hmem⟩
          · rintro ⟨rfl | hmem, hheight⟩
            · omega
            · exact hmem
  · next hout =>
      -- the innermost brace is no container's, so its height is not there to begin with
      refine (and_iff_left_of_imp fun hmem => ?_).symm
      refine Nat.lt_of_le_of_ne (h.le_depth hmem) ?_
      rintro rfl
      exact hout (h.inContainer_iff_mem.mpr hmem)

theorem closeBrace (h : s.Represents front opened) (ht : t.isOperator "\x7d" = true) :
    (s.closeBrace t).Represents (front ++ [t]) opened.tail where
  depth_eq := by
    rw [List.length_tail, ← h.depth_eq]
    rfl
  pending_iff := by
    rw [awaitsContainer_concat, any_isKeyword_of_isOperator ht, isOperator_opener_of_closer ht,
      ← h.pending_iff]
    simp [MemberScan.closeBrace]
  descending := by
    simp only [MemberScan.closeBrace]
    split
    · exact h.descending.sublist (List.tail_sublist _)
    · exact h.descending
  mem_containers_iff height := by
    rw [h.mem_containers_closeBrace, h.mem_containers_iff, h.depth_eq]
    simp only [cons_suffix_tail_iff]
    constructor
    · rintro ⟨⟨before, outer, hsuffix, hawaits, rfl⟩, hlt⟩
      exact ⟨before, outer, ⟨hsuffix, hlt⟩, hawaits, rfl⟩
    · rintro ⟨before, outer, ⟨hsuffix, hlt⟩, hawaits, rfl⟩
      exact ⟨⟨before, outer, hsuffix, hawaits, rfl⟩, hlt⟩

/-- **One more token changes both alike.** -/
theorem step (h : s.Represents front opened) (t : Token) :
    (s.step t).Represents (front ++ [t]) (bracesBehind front opened t) := by
  rw [MemberScan.step]
  by_cases hopen : t.isOperator "\x7b" = true
  · rw [if_pos hopen, bracesBehind_opener hopen]
    exact h.openBrace hopen
  · by_cases hclose : t.isOperator "\x7d" = true
    · rw [if_neg hopen, if_pos hclose, bracesBehind_closer hclose]
      exact h.closeBrace hclose
    · rw [if_neg hopen, if_neg hclose, bracesBehind_other hopen hclose]
      -- no height changes; only a keyword can announce a container
      refine ⟨h.depth_eq, ?_, h.descending, h.mem_containers_iff⟩
      rw [awaitsContainer_concat, ← any_isContainer_announced?, ← h.pending_iff, Bool.or_eq_true,
        or_comm, Bool.eq_false_iff]
      exact or_congr_right (and_iff_right hopen).symm

/-- **All tokens together do.** -/
theorem run (h : s.Represents front opened) (ts : List Token) :
    (ts.foldl MemberScan.step s).Represents (front ++ ts) (openBracesFrom front opened ts) := by
  induction ts generalizing s front opened with
  | nil => rwa [List.append_nil]
  | cons t ts ih =>
      rw [List.append_cons]
      exact ih (h.step t)

end Represents

theorem represents_after (ts : List Token) : (after ts).Represents ts (openBraces ts) :=
  Represents.start.run ts

/-- **The counters stand for the stack of open braces**, wherever the pass is and whatever it has
read. Behind any tokens it goes on from what it knows there. The depth is then the height of the
stack. The containers are the heights of those open braces that are the first ones behind the
keyword of a contract, interface or library; from the outermost one on they ascend. So the pass is
directly in a container exactly if the innermost open brace is a container's.

The stack itself has the inner braces behind the outer ones: each opening brace that no closing
brace behind it closes, and no other. -/
theorem counters_represent_stack (ts : List Token) :
    start.Passes ts (stateVariables ts) (after ts) ∧
      (after ts).depth = (openBraces ts).length ∧
      (after ts).containers.reverse.Pairwise (· < ·) ∧
      (∀ height, height ∈ (after ts).containers ↔ ∃ before outer,
        before :: outer <:+ openBraces ts ∧ AwaitsContainer before ∧ height = outer.length + 1) ∧
      ((after ts).inContainer = true ↔
        ∃ before outer, openBraces ts = before :: outer ∧ AwaitsContainer before) ∧
      (openBraces ts).Pairwise (fun inner outer => outer.length < inner.length) ∧
      ∀ before, before ∈ openBraces ts ↔ ∃ brace behind, ts = before ++ brace :: behind ∧
        brace.isOperator "\x7b" = true ∧ StaysOpen behind := by
  have h := represents_after ts
  exact ⟨passes_foldl start ts, h.depth_eq, List.pairwise_reverse.mpr h.descending,
    h.mem_containers_iff, h.inContainer_iff, (List.pairwise_cons.mp (nested_openBraces ts)).2,
    fun before => mem_openBraces_iff⟩

/-- The brace in front closes nothing. The keyword in the function waits for the brace of the
struct, and the last brace belongs to no container. -/
example : (after (tokenizeSignificant
      "\x7d contract A \x7b function f() \x7b contract \x7d struct S \x7b \x7b")).containers
    = [2, 1] := by
  decide +kernel

end MemberScan

end SolidityTools

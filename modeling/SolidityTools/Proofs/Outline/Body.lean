import SolidityTools.Proofs.Lint.Brace
import SolidityTools.Proofs.Outline.Function

set_option autoImplicit false

/-! # Where bodies end

The body of a function begins behind a brace, and a search from there ends it. The rule on braces
goes over the whole file once and never looks for the end of a body. Still they agree, since both
ask whether the brace has a partner (`closed_bodyFrom_iff`): a body is left open exactly if its brace
is reported.

Two bodies are apart or one contains the other. A body that is closed is balanced, so a brace in it
has its partner there.
-/

namespace SolidityTools

open Lint

variable {sourceLength index : Nat} {brace brace' : Token}
  {ts front behind front' behind' between rest : List Token}

/-! ## Bodies behind a brace -/

section BodyFrom

variable {group : Group}

theorem bodyFrom_of_some (h : Group.braces? behind = some group) :
    bodyFrom sourceLength index brace behind
      = ⟨index, group.inside, brace.start, group.closer.stop, true⟩ := by
  rw [bodyFrom, h]

theorem bodyFrom_of_none (h : Group.braces? behind = none) :
    bodyFrom sourceLength index brace behind = ⟨index, behind, brace.start, sourceLength, false⟩ := by
  rw [bodyFrom, h]

@[simp] theorem first_bodyFrom :
    (bodyFrom sourceLength index brace behind).first = index := by
  cases h : Group.braces? behind <;> rw [bodyFrom, h]

@[simp] theorem start_bodyFrom :
    (bodyFrom sourceLength index brace behind).start = brace.start := by
  cases h : Group.braces? behind <;> rw [bodyFrom, h]

/-- A body ends with the file at the latest. -/
theorem stop_bodyFrom_le (hstop : ∀ t ∈ behind, t.stop ≤ sourceLength) :
    (bodyFrom sourceLength index brace behind).stop ≤ sourceLength := by
  cases hgroup : Group.braces? behind with
  | none =>
      rw [bodyFrom_of_none hgroup]
  | some group =>
      have hsplit := Group.inside_append_of_close? hgroup
      rw [bodyFrom_of_some hgroup]
      exact hstop group.closer (by simp [← hsplit])

theorem length_tokens_bodyFrom_le :
    (bodyFrom sourceLength index brace behind).tokens.length ≤ behind.length := by
  cases hgroup : Group.braces? behind with
  | none =>
      rw [bodyFrom_of_none hgroup]
  | some group =>
      rw [bodyFrom_of_some hgroup, ← Group.inside_append_of_close? hgroup, List.length_append]
      exact Nat.le_add_right _ _

end BodyFrom

/-- The body of a listed function begins behind a brace, which stands in front of the body. -/
theorem exists_bodyFrom {f : FunctionDeclaration} {body : FunctionBody}
    (hf : f ∈ functionDeclarations sourceLength 0 ts) (hbody : f.body = some body) :
    ∃ front brace behind, ts = front ++ brace :: behind ∧ brace.isOperator "\x7b" = true ∧
      body = bodyFrom sourceLength (front.length + 1) brace behind := by
  obtain ⟨p, rfl, hof⟩ := FunctionParts.exists_of_mem_functionDeclarations hf
  have hat := hof.body.symm.trans hbody
  cases hending : p.ending with
  | nil =>
      rw [hending] at hat
      cases hat
  | cons brace behind =>
      rw [hending, bodyAt?] at hat
      split at hat
      · next hopen =>
          refine ⟨p.front ++ p.attributes, brace, behind, ?_, hopen, ?_⟩
          · rw [FunctionParts.tokens, FunctionParts.behind, hending, List.append_assoc]
          · rw [List.length_append, ← Option.some.inj hat, Nat.zero_add]
      · cases hat

/-- A brace whose body is closed has a partner, and no other brace has. -/
theorem closed_bodyFrom_iff (hnodup : ts.Nodup) (hts : ts = front ++ brace :: behind)
    (hbrace : brace.isOperator "\x7b" = true) :
    (bodyFrom sourceLength index brace behind).closed = true ↔ HasPartner ts brace := by
  rw [bodyFrom]
  cases hgroup : Group.braces? behind with
  | some group =>
      refine iff_of_true rfl ⟨group.closer, .inl ⟨hbrace, Group.isOperator_closer_of_close? hgroup,
        front, group.inside, group.rest, ?_, balances_inside hgroup⟩⟩
      rw [hts, Group.inside_append_of_close? hgroup]
  | none =>
      refine iff_of_false Bool.false_ne_true ?_
      rintro ⟨u, hu | hu⟩
      · obtain ⟨group, hsome, -⟩ := hu.exists_group hnodup hts
        rw [hgroup] at hsome
        cases hsome
      · exact not_isOperator_closer hbrace hu.2.1

/-- What stands around a body, and what is in it. -/
structure FunctionBody.StandsIn (body : FunctionBody) (sourceLength : Nat) (ts front : List Token)
    (brace : Token) (ending : List Token) : Prop where
  tokens_eq : ts = front ++ brace :: (body.tokens ++ ending)
  first_eq : body.first = front.length + 1
  opener : brace.isOperator "\x7b" = true
  start_eq : body.start = brace.start
  /-- No beginning of the body closes more braces than it opens. -/
  covered : ∀ beginning, beginning <+: body.tokens → closings beginning ≤ openings beginning
  /-- A closed body is balanced, and its closing brace is behind it. -/
  closed : body.closed = true → Balances 0 body.tokens ∧
    ∃ closer rest, ending = closer :: rest ∧ closer.isOperator "\x7d" = true ∧
      body.stop = closer.stop
  /-- An open body reaches to the end of the file. -/
  unclosed : body.closed = false → ending = [] ∧ body.stop = sourceLength

theorem exists_standsIn (hnodup : ts.Nodup) (hts : ts = front ++ brace :: behind)
    (hbrace : brace.isOperator "\x7b" = true) :
    ∃ ending, (bodyFrom sourceLength (front.length + 1) brace behind).StandsIn sourceLength ts front
      brace ending := by
  have hpartner : (bodyFrom sourceLength (front.length + 1) brace behind).closed = true ↔
      HasPartner ts brace := closed_bodyFrom_iff hnodup hts hbrace
  rw [bodyFrom] at hpartner ⊢
  cases hgroup : Group.braces? behind with
  | some group =>
      have hbalances : Balances 0 group.inside := balances_inside hgroup
      have hcloser := Group.isOperator_closer_of_close? hgroup
      refine ⟨group.closer :: group.rest, ?_, rfl, hbrace, rfl, ?_, ?_, nofun⟩
      · rw [hts, Group.inside_append_of_close? hgroup]
      · intro beginning hbeginning
        simpa using hbalances.covered beginning hbeginning
      · exact fun _ => ⟨hbalances, group.closer, group.rest, rfl, hcloser, rfl⟩
  | none =>
      rw [hgroup] at hpartner
      -- a closing brace left behind would be the partner
      have hleaves := leaves_unmatchedBraces behind
      have hnil : (unmatchedBraces [] behind).1.reverse = [] := by
        by_contra hne
        obtain ⟨u, hu⟩ := Partners.exists_of_leaves hleaves hne hbrace front
        exact Bool.false_ne_true (hpartner.mpr (hts ▸ ⟨u, .inl hu⟩))
      rw [hnil] at hleaves
      refine ⟨[], by rw [List.append_nil]; exact hts, rfl, hbrace, rfl, ?_, nofun,
        fun _ => ⟨rfl, rfl⟩⟩
      exact fun beginning => hleaves.closings_le

/-! ## Two bodies -/

namespace FunctionBody

/-- One body ends before the other begins. -/
structure Precedes (a b : FunctionBody) : Prop where
  stop_le : a.stop ≤ b.start
  tokens_le : a.first + a.tokens.length ≤ b.first

/-- One body lies in the other. -/
structure Within (a b : FunctionBody) : Prop where
  start_le : b.start ≤ a.start
  stop_le : a.stop ≤ b.stop
  first_le : b.first ≤ a.first
  tokens_le : a.first + a.tokens.length ≤ b.first + b.tokens.length

end FunctionBody

/-- In balanced tokens a group that opens is closed, whatever comes behind them. -/
theorem exists_braces?_of_balances {inside : List Token} (hnodup : inside.Nodup)
    (h : Balances 0 inside) (hinside : inside = between ++ brace :: rest)
    (hbrace : brace.isOperator "\x7b" = true) :
    ∃ inner : Group, rest = inner.inside ++ inner.closer :: inner.rest ∧
      ∀ behind, Group.braces? (rest ++ behind)
        = some ⟨inner.inside, inner.closer, inner.rest ++ behind⟩ := by
  obtain ⟨u, hu | hu⟩ := h.hasPartner (by simp [hinside]) (.inl hbrace)
  · obtain ⟨inner, hinner, -⟩ := hu.exists_group hnodup hinside
    have hrest := Group.inside_append_of_close? hinner
    refine ⟨inner, hrest.symm, fun behind => ?_⟩
    rw [← hrest, List.append_assoc]
    exact (balances_inside hinner).close?_eq (Group.isOperator_closer_of_close? hinner) _
  · exact absurd hu.2.1 (not_isOperator_closer hbrace)

section TwoBodies

variable (hordered : Lexer.Ordered ts) (hstop : ∀ t ∈ ts, t.stop ≤ sourceLength)
  (hts : ts = front ++ brace :: behind)
include hordered hts

include hstop in
/-- A body that is not closed contains those that begin in it. -/
theorem bodyFrom_within_of_none (hgroup : Group.braces? behind = none)
    (hbehind : behind = between ++ brace' :: behind') :
    (bodyFrom sourceLength (front.length + 1 + between.length + 1) brace' behind').Within
      (bodyFrom sourceLength (front.length + 1) brace behind) := by
  have hbraces : brace.stop ≤ brace'.start := (hordered.around hts).2 brace' (by simp [hbehind])
  have hbrace := hordered.start_lt_stop brace (by simp [hts])
  have hbody : (bodyFrom sourceLength (front.length + 1 + between.length + 1) brace'
      behind').tokens.length ≤ behind'.length := length_tokens_bodyFrom_le
  have hlengths : behind.length = between.length + (behind'.length + 1) := by
    rw [hbehind, List.length_append, List.length_cons]
  rw [bodyFrom_of_none hgroup]
  constructor
  · show brace.start ≤ _
    rw [start_bodyFrom]
    omega
  · exact stop_bodyFrom_le fun t ht => hstop t (by simp [hts, hbehind, ht])
  · show front.length + 1 ≤ _
    rw [first_bodyFrom]
    omega
  · show _ ≤ front.length + 1 + behind.length
    rw [first_bodyFrom]
    omega

/-- A body that begins behind the closing brace of another one. -/
theorem bodyFrom_precedes {group : Group} (hgroup : Group.braces? behind = some group)
    (hrest : brace' ∈ group.rest) (hindex : front.length + 1 + group.inside.length ≤ index) :
    (bodyFrom sourceLength (front.length + 1) brace behind).Precedes
      (bodyFrom sourceLength index brace' behind') := by
  have hcloser : ts = (front ++ brace :: group.inside) ++ group.closer :: group.rest := by
    rw [hts, ← Group.inside_append_of_close? hgroup]
    simp
  rw [bodyFrom_of_some hgroup]
  constructor
  · rw [start_bodyFrom]
    exact (hordered.around hcloser).2 brace' hrest
  · rw [first_bodyFrom]
    exact hindex

/-- A body that begins in a closed one is closed there. -/
theorem bodyFrom_within_of_some {group : Group} (hgroup : Group.braces? behind = some group)
    (hbrace' : brace'.isOperator "\x7b" = true)
    (hinside : group.inside = between ++ brace' :: rest) :
    (bodyFrom sourceLength (front.length + 1 + between.length + 1) brace'
        (rest ++ group.closer :: group.rest)).Within
      (bodyFrom sourceLength (front.length + 1) brace behind) := by
  have hsplit := Group.inside_append_of_close? hgroup
  have hcloser : ts = ((front ++ [brace]) ++ group.inside) ++ group.closer :: group.rest := by
    rw [hts, ← hsplit]
    simp
  have hnodup : group.inside.Nodup := by
    rw [hcloser] at hordered
    exact hordered.left.right.nodup
  -- the search goes no further than the inner closing brace
  obtain ⟨inner, rfl, hgroup'⟩ :=
    exists_braces?_of_balances hnodup (balances_inside hgroup) hinside hbrace'
  have hbraces : brace.stop ≤ brace'.start :=
    (hordered.around hts).2 brace' (by simp [← hsplit, hinside])
  have hbrace := hordered.start_lt_stop brace (by simp [hts])
  have hclosers : inner.closer.stop ≤ group.closer.start :=
    (hordered.around hcloser).1 inner.closer (by simp [hinside])
  have hclosed := hordered.start_lt_stop group.closer (by simp [hcloser])
  have hlengths : group.inside.length
      = between.length + (inner.inside.length + (inner.rest.length + 1) + 1) := by
    rw [hinside]
    simp
  rw [bodyFrom_of_some hgroup, bodyFrom_of_some (hgroup' _)]
  constructor
  · show brace.start ≤ brace'.start
    omega
  · show inner.closer.stop ≤ group.closer.stop
    omega
  · show front.length + 1 ≤ front.length + 1 + between.length + 1
    omega
  · show front.length + 1 + between.length + 1 + inner.inside.length
      ≤ front.length + 1 + group.inside.length
    omega

include hstop in
/-- **A body that begins later is behind a body or in it.** -/
theorem bodyFrom_precedes_or_within (hts' : ts = front' ++ brace' :: behind')
    (hbrace' : brace'.isOperator "\x7b" = true) (hlt : front.length < front'.length) :
    (bodyFrom sourceLength (front.length + 1) brace behind).Precedes
        (bodyFrom sourceLength (front'.length + 1) brace' behind') ∨
      (bodyFrom sourceLength (front'.length + 1) brace' behind').Within
        (bodyFrom sourceLength (front.length + 1) brace behind) := by
  obtain ⟨between, hfront', hbehind⟩ := Group.exists_between hts hts' hlt
  have hlength : front'.length + 1 = front.length + 1 + between.length + 1 := by
    rw [hfront', List.length_append, List.length_cons]
    omega
  rw [hlength]
  cases hgroup : Group.braces? behind with
  | none => exact .inr (bodyFrom_within_of_none hordered hstop hts hgroup hbehind)
  | some group =>
      have hcloser := Group.isOperator_closer_of_close? hgroup
      have hne : group.closer ≠ brace' := fun h => not_isOperator_closer hbrace' (h ▸ hcloser)
      rcases Group.exists_between_or (Group.inside_append_of_close? hgroup).symm hbehind hne with
        ⟨between', hbetween, hrest⟩ | ⟨rest, hinside, hrest⟩
      · refine .inl (bodyFrom_precedes hordered hts hgroup (by simp [hrest]) ?_)
        rw [hbetween, List.length_append]
        omega
      · rw [hrest]
        exact .inr (bodyFrom_within_of_some hordered hts hgroup hbrace' hinside)

end TwoBodies

/-- **Bodies are nested, and left open where the rule on braces says so.** A body stands behind its
brace, and no beginning of it closes more braces than it opens. If it is closed it is balanced and
its closing brace comes next, and otherwise it reaches to the end of the file. Two bodies are apart,
the same, or one lies in the other. A body is left open exactly if its brace is reported as
unclosed. -/
theorem functionBody_nested (settings : LintSettings) (source : String) {f : FunctionDeclaration}
    (hf : f ∈ (Outline.ofSource source).functions) {body : FunctionBody}
    (hbody : f.body = some body) :
    (∃ front brace ending, body.StandsIn (Text.byteLength source.toList) (tokenizeSignificant source)
        front brace ending) ∧
      (∀ g ∈ (Outline.ofSource source).functions, ∀ other, g.body = some other →
        body.Precedes other ∨ other.Precedes body ∨ body = other ∨ body.Within other ∨
          other.Within body) ∧
      (body.closed = false ↔
        ⟨body.start, "Unclosed brace"⟩ ∈ unbalancedBraces (.ofSource settings source)) := by
  have hordered := Lexer.ordered_tokenizeSignificant source
  have hstop : ∀ t ∈ tokenizeSignificant source, t.stop ≤ Text.byteLength source.toList := by
    intro t ht
    simpa using (Lexer.reads_significantTokens 0 source.toList).stop_le ht
  obtain ⟨front, brace, behind, (hts : tokenizeSignificant source = _), hbrace, rfl⟩ :=
    exists_bodyFrom hf hbody
  refine ⟨⟨front, brace, exists_standsIn hordered.nodup hts hbrace⟩, ?_, ?_⟩
  · intro g hg other hother
    obtain ⟨front', brace', behind', hts', hbrace', rfl⟩ := exists_bodyFrom hg hother
    rcases Nat.lt_trichotomy front.length front'.length with hlt | heq | hgt
    · rcases bodyFrom_precedes_or_within hordered hstop hts hts' hbrace' hlt with h | h
      · exact .inl h
      · exact .inr (.inr (.inr (.inr h)))
    · obtain ⟨rfl, hcons⟩ := List.append_inj (hts.symm.trans hts') heq
      obtain ⟨rfl, rfl⟩ := List.cons.inj hcons
      exact .inr (.inr (.inl rfl))
    · rcases bodyFrom_precedes_or_within hordered hstop hts' hts hbrace hgt with h | h
      · exact .inr (.inl h)
      · exact .inr (.inr (.inr (.inl h)))
  · rw [← Bool.not_eq_true, closed_bodyFrom_iff hordered.nodup hts hbrace, mem_unbalancedBraces_iff,
      start_bodyFrom]
    have hmem : brace ∈ tokenizeSignificant source := by simp [hts]
    constructor
    · exact fun hnone => ⟨brace, hmem, hbrace, hnone, rfl⟩
    · rintro ⟨t, ht, -, hnone, hstart⟩
      rwa [← hordered.eq_of_start_eq ht hmem hstart]

/-- The body of the first function is not closed, and contains that of the second. -/
theorem functionBody_nested_unclosed :
    let source := "function f() \x7b \x7b \x7d function g() \x7b \x7d"
    ∃ f ∈ (Outline.ofSource source).functions, ∃ body, f.body = some body ∧ body.closed = false ∧
      (∃ front brace ending, body.StandsIn (Text.byteLength source.toList)
        (tokenizeSignificant source) front brace ending) ∧
      (∃ g ∈ (Outline.ofSource source).functions, ∃ other, g.body = some other ∧
        (body.Precedes other ∨ other.Precedes body ∨ body = other ∨ body.Within other ∨
          other.Within body)) ∧
      ⟨body.start, "Unclosed brace"⟩ ∈ unbalancedBraces (.ofSource .standard source) := by
  intro source
  let f : FunctionDeclaration := ⟨.function, "f", 9, [], .nonpayable, some ⟨5,
    [⟨.operator, "\x7b", 15⟩, ⟨.operator, "\x7d", 17⟩, ⟨.keyword, "function", 19⟩,
      ⟨.function, "g", 28⟩, ⟨.operator, "(", 29⟩, ⟨.operator, ")", 30⟩, ⟨.operator, "\x7b", 32⟩,
      ⟨.operator, "\x7d", 34⟩], 13, 35, false⟩⟩
  let g : FunctionDeclaration := ⟨.function, "g", 28, [], .nonpayable, some ⟨12, [], 32, 35, true⟩⟩
  have hfunctions : (Outline.ofSource source).functions = [f, g] := by decide +kernel
  have hf : f ∈ (Outline.ofSource source).functions := by simp [hfunctions]
  have hg : g ∈ (Outline.ofSource source).functions := by simp [hfunctions]
  obtain ⟨hstands, hnested, hreported⟩ := functionBody_nested .standard source hf rfl
  exact ⟨f, hf, _, rfl, rfl, hstands, ⟨g, hg, _, rfl, hnested g hg _ rfl⟩, hreported.mp rfl⟩

end SolidityTools

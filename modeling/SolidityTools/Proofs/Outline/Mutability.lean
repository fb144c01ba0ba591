import SolidityTools.Gas.Estimate
import SolidityTools.Proofs.Lint.Reentrancy
import SolidityTools.Proofs.Outline.Function
import Mathlib.Data.List.Induction

set_option autoImplicit false

/-! # The mutability of a function

The attributes of a function reach from its parameters to the brace of its body or to its
semicolon (`FunctionParts`). A type among them may have attributes of its own, in parentheses:
`returns (function() external view)` returns a function that is `view` and says nothing about the
function that returns it. So the mutability that a function declares is the last keyword outside
parentheses (`declaredMutability`).

The outline takes the last keyword that counts (`countedMutability`), and while `payable` counts
outside parentheses only, `view` and `pure` count everywhere. The two readings part exactly where
the last keyword that counts stands in parentheses and is not the declared mutability
(`MutabilityOf`).
-/

namespace SolidityTools

/-! ## Keywords among attributes -/

namespace PlacedMutability

/-- A `view` or `pure` in parentheses with no keyword behind it but `payable` in parentheses. -/
def Overrides (ks : List PlacedMutability) (m : Mutability) : Prop :=
  ∃ before parens behind, ks = before ++ ⟨m, parens⟩ :: behind ∧ m.isReadOnly = true ∧
    0 < parens ∧ ∀ k ∈ behind, k.mutability.isReadOnly = false ∧ 0 < k.parens

variable {ks : List PlacedMutability} {m : Mutability}

theorem Overrides.last_counts (h : Overrides ks m) : last (ks.filter counts) = m := by
  obtain ⟨before, parens, behind, rfl, hreadOnly, -, hbehind⟩ := h
  have hnone : behind.filter counts = [] := by
    refine List.filter_eq_nil_iff.mpr fun k hk => ?_
    obtain ⟨hwrites, hparens⟩ := hbehind k hk
    simp [counts, hwrites, Nat.ne_of_gt hparens]
  rw [List.filter_append, List.filter_cons_of_pos (by simp [counts, hreadOnly]), hnone]
  simp [last]

theorem Overrides.isReadOnly (h : Overrides ks m) : m.isReadOnly = true := by
  obtain ⟨-, -, -, -, hreadOnly, -, -⟩ := h
  exact hreadOnly

/-- A keyword at the end that does not count overrides nothing. -/
theorem Overrides.append_singleton {k : PlacedMutability} (h : Overrides ks m)
    (hwrites : k.mutability.isReadOnly = false) (hparens : 0 < k.parens) :
    Overrides (ks ++ [k]) m := by
  obtain ⟨before, parens, behind, rfl, hreadOnly, hinside, hbehind⟩ := h
  refine ⟨before, parens, behind ++ [k], by simp, hreadOnly, hinside, fun k' hk' => ?_⟩
  rcases List.mem_append.mp hk' with hk' | hk'
  · exact hbehind k' hk'
  · obtain rfl := List.mem_singleton.mp hk'
    exact ⟨hwrites, hparens⟩

/-- Where nothing overrides them, the keywords outside parentheses decide. -/
theorem last_counts_of_not_overrides (h : ∀ m, ¬Overrides ks m) :
    last (ks.filter counts) = last (ks.filter (·.parens == 0)) := by
  -- from the end: a keyword outside decides both readings, one in parentheses must not count
  induction ks using List.reverseRecOn with
  | nil => rfl
  | append_singleton ks k ih =>
      rw [List.filter_append, List.filter_append]
      rcases Nat.eq_zero_or_pos k.parens with houter | hinner
      · simp [counts, houter, last]
      · cases hreadOnly : k.mutability.isReadOnly with
        | true =>
            have hlast : Overrides (ks ++ [k]) k.mutability :=
              ⟨ks, k.parens, [], rfl, hreadOnly, hinner, List.forall_mem_nil _⟩
            exact absurd hlast (h k.mutability)
        | false =>
            have hinside : k.counts = false := by simp [counts, hreadOnly, Nat.ne_of_gt hinner]
            have hparens : (k.parens == 0) = false := by simp [Nat.ne_of_gt hinner]
            rw [List.filter_cons_of_neg (by simp [hinside]),
              List.filter_cons_of_neg (by simp [hparens]), List.filter_nil, List.append_nil]
            simpa using ih fun m hm => h m (hm.append_singleton hreadOnly hinner)

/-- **When the last keyword that counts is the last one outside parentheses.** -/
theorem last_counts_eq_iff : last (ks.filter counts) = last (ks.filter (·.parens == 0)) ↔
    ∀ m, Overrides ks m → m = last (ks.filter (·.parens == 0)) := by
  constructor
  · intro heq m hm
    rw [← heq, hm.last_counts]
  · intro h
    by_cases hany : ∃ m, Overrides ks m
    · obtain ⟨m, hm⟩ := hany
      rw [hm.last_counts, ← h m hm]
    · exact last_counts_of_not_overrides fun m hm => hany ⟨m, hm⟩

theorem isReadOnly_last_counts_iff (ks : List PlacedMutability) :
    (last (ks.filter counts)).isReadOnly = true ↔
    (last (ks.filter (·.parens == 0))).isReadOnly = true ∨ ∃ m, Overrides ks m := by
  by_cases hany : ∃ m, Overrides ks m
  · obtain ⟨m, hm⟩ := hany
    rw [hm.last_counts]
    exact iff_of_true hm.isReadOnly (Or.inr ⟨m, hm⟩)
  · rw [last_counts_of_not_overrides fun m hm => hany ⟨m, hm⟩]
    exact (or_iff_left hany).symm

end PlacedMutability

open PlacedMutability

/-! ## The two readings of a mutability -/

/-- A function as it would be outlined if its mutability were the declared one. -/
def FunctionDeclaration.asDeclared (f : FunctionDeclaration) (p : FunctionParts) :
    FunctionDeclaration :=
  { f with mutability := declaredMutability p.attributes }

theorem isReadOnly_iff_of_counted {p : FunctionParts} {f : FunctionDeclaration}
    (h : f.mutability = countedMutability p.attributes) : f.mutability.isReadOnly = true ↔
      (declaredMutability p.attributes).isReadOnly = true ∨
        ∃ m, Overrides (placedMutabilities 0 p.attributes) m := by
  rw [h]
  exact isReadOnly_last_counts_iff (placedMutabilities 0 p.attributes)

/-- The gas of a function and whether it is read-only are those of the declared mutability, unless
a keyword in parentheses overrides one that is not read-only. -/
theorem entryOf_eq_iff {p : FunctionParts} {f : FunctionDeclaration}
    (h : f.mutability = countedMutability p.attributes)
    (weights : GasWeights) (source : String) (o : Outline) :
    Gas.entryOf weights source o f = Gas.entryOf weights source o (f.asDeclared p) ↔
      ∀ m, Overrides (placedMutabilities 0 p.attributes) m →
        (declaredMutability p.attributes).isReadOnly = true := by
  constructor
  · intro heq m hm
    have hflag : f.mutability.isReadOnly = (declaredMutability p.attributes).isReadOnly :=
      congrArg Gas.FunctionGas.readOnly heq
    rw [← hflag]
    exact (isReadOnly_iff_of_counted h).mpr (Or.inr ⟨m, hm⟩)
  · intro hdeclared
    have hflag : f.mutability.isReadOnly = (declaredMutability p.attributes).isReadOnly := by
      rw [Bool.eq_iff_iff, isReadOnly_iff_of_counted h]
      exact or_iff_left_of_imp fun ⟨m, hm⟩ => hdeclared m hm
    simp only [Gas.entryOf, hflag]
    rfl

/-- The exemption of read-only functions goes by what the attributes declare, and by what overrides
it. -/
theorem reentrant_iff_asDeclared {p : FunctionParts} {f : FunctionDeclaration}
    (h : f.mutability = countedMutability p.attributes) (o : Outline) :
    Lint.Reentrant o f ↔ Lint.Reentrant o (f.asDeclared p) ∧
      ¬∃ m, Overrides (placedMutabilities 0 p.attributes) m := by
  have hwrites : f.mutability.isReadOnly = false ↔
      (declaredMutability p.attributes).isReadOnly = false ∧
        ¬∃ m, Overrides (placedMutabilities 0 p.attributes) m := by
    rw [← Bool.not_eq_true, isReadOnly_iff_of_counted h, not_or, Bool.not_eq_true]
  simp only [Lint.Reentrant, hwrites, FunctionDeclaration.asDeclared,
    FunctionDeclaration.bodyTokens]
  constructor
  · rintro ⟨hbody, ⟨hdeclared, hnone⟩, hlate⟩
    exact ⟨⟨hbody, hdeclared, hlate⟩, hnone⟩
  · rintro ⟨⟨hbody, hdeclared, hlate⟩, hnone⟩
    exact ⟨hbody, ⟨hdeclared, hnone⟩, hlate⟩

/-- A function of a file at its parts, and what its mutability has to do with the one its attributes
declare. -/
structure MutabilityOf (source : String) (f : FunctionDeclaration) (p : FunctionParts) : Prop where
  tokens_eq : p.tokens = (Outline.ofSource source).tokens
  parts : p.Of (Text.byteLength source.toList) 0 f
  /-- The file is cut at the parts of the function in one way only. -/
  unique : ∀ q : FunctionParts, q.tokens = (Outline.ofSource source).tokens →
    q.Of (Text.byteLength source.toList) 0 f → q = p
  /-- A `view` or `pure` in parentheses that overrides the other keywords is the mutability. -/
  overridden : ∀ m, Overrides (placedMutabilities 0 p.attributes) m → f.mutability = m
  /-- The mutability is the declared one unless another one overrides it. -/
  declared_iff : f.mutability = declaredMutability p.attributes ↔
    ∀ m, Overrides (placedMutabilities 0 p.attributes) m → m = declaredMutability p.attributes
  /-- The gas entry is that of the declared mutability unless a keyword in parentheses makes a
  function read-only that is not declared so. -/
  entry_iff : ∀ weights, Gas.entryOf weights source (.ofSource source) f
      = Gas.entryOf weights source (.ofSource source) (f.asDeclared p) ↔
    ∀ m, Overrides (placedMutabilities 0 p.attributes) m →
      (declaredMutability p.attributes).isReadOnly = true
  /-- The rule on late writes exempts a function if it is declared read-only or if a keyword in
  parentheses overrides what it declares. -/
  reentrant_iff : Lint.Reentrant (.ofSource source) f ↔
    Lint.Reentrant (.ofSource source) (f.asDeclared p) ∧
      ¬∃ m, Overrides (placedMutabilities 0 p.attributes) m

/-- **When the mutability of a function is the declared one.** Every function of a file has its
parts, in one way only, and these decide what its mutability has to do with the declared one. -/
theorem mutability_eq_declared_iff (source : String) {f : FunctionDeclaration}
    (hf : f ∈ (Outline.ofSource source).functions) : ∃ p, MutabilityOf source f p := by
  obtain ⟨p, htokens, hof⟩ := FunctionParts.exists_of_mem_functionDeclarations hf
  have hread : f.mutability = countedMutability p.attributes :=
    hof.mutability.trans (mutabilityBehind_eq_counted p.attributes)
  have hordered : Lexer.Ordered (Outline.ofSource source).tokens :=
    (Lexer.reads_significantTokens 0 source.toList).ordered
  refine ⟨p, htokens, hof, ?_, ?_, ?_, ?_, reentrant_iff_asDeclared hread _⟩
  · exact fun q htokens' hof' => hof'.unique hordered hof htokens' htokens
  · intro m hm
    rw [hread]
    exact hm.last_counts
  · rw [hread]
    exact last_counts_eq_iff
  · exact fun weights => entryOf_eq_iff hread weights source _

/-- A function that is `view` and returns a function which is `view`. -/
def viewReturningView : FunctionParts where
  before := [⟨.keyword, "function", 0⟩]
  name := ⟨.function, "f", 9⟩
  opener := ⟨.operator, "(", 10⟩
  parameters := []
  closer := ⟨.operator, ")", 11⟩
  attributes := [⟨.keyword, "view", 13⟩, ⟨.keyword, "returns", 18⟩, ⟨.operator, "(", 26⟩,
    ⟨.keyword, "function", 27⟩, ⟨.operator, "(", 35⟩, ⟨.operator, ")", 36⟩,
    ⟨.keyword, "view", 38⟩, ⟨.operator, ")", 42⟩]
  ending := [⟨.operator, ";", 43⟩]

/-- Its mutability is the declared one. -/
theorem mutability_of_viewReturningView :
    let source := "function f() view returns (function() view);"
    ∃ f ∈ (Outline.ofSource source).functions,
      viewReturningView.Of (Text.byteLength source.toList) 0 f ∧
      f.mutability = declaredMutability viewReturningView.attributes := by
  intro source
  have hfunctions : (Outline.ofSource source).functions
      = [⟨.function, "f", 9, [], .view, none⟩] := by decide +kernel
  have htokens : viewReturningView.tokens = (Outline.ofSource source).tokens := by decide +kernel
  obtain ⟨f, hf⟩ := List.exists_mem_of_ne_nil (Outline.ofSource source).functions
    (by rw [hfunctions]; exact List.cons_ne_nil _ _)
  have hof : viewReturningView.Of (Text.byteLength source.toList) 0 f := by
    rw [hfunctions, List.mem_singleton] at hf
    obtain rfl := hf
    refine ⟨.function rfl (by decide) rfl, rfl, rfl, rfl, by decide, rfl, ?_, by decide, by decide⟩
    exact attributesEnd_iff.mpr (by decide)
  obtain ⟨p, hp⟩ := mutability_eq_declared_iff source hf
  obtain rfl := hp.unique _ htokens hof
  refine ⟨f, hf, hof, hp.declared_iff.mpr fun m hm => ?_⟩
  rw [← hm.last_counts]
  decide

/-- A function that returns a function which is `view`. -/
def returnsView : FunctionParts where
  before := [⟨.keyword, "function", 0⟩]
  name := ⟨.function, "f", 9⟩
  opener := ⟨.operator, "(", 10⟩
  parameters := []
  closer := ⟨.operator, ")", 11⟩
  attributes := [⟨.keyword, "returns", 13⟩, ⟨.operator, "(", 21⟩, ⟨.keyword, "function", 22⟩,
    ⟨.operator, "(", 30⟩, ⟨.operator, ")", 31⟩, ⟨.keyword, "view", 33⟩, ⟨.operator, ")", 37⟩]
  ending := [⟨.operator, "\x7b", 39⟩, ⟨.operator, "\x7d", 41⟩]

/-- It is taken for `view` itself, though it declares no mutability. -/
theorem mutability_of_returnsView :
    let source := "function f() returns (function() view) \x7b \x7d"
    returnsView.tokens = (Outline.ofSource source).tokens ∧
      ∃ f ∈ (Outline.ofSource source).functions,
        returnsView.Of (Text.byteLength source.toList) 0 f ∧ f.mutability = .view ∧
        declaredMutability returnsView.attributes = .nonpayable := by
  intro source
  have hfunctions : (Outline.ofSource source).functions
      = [⟨.function, "f", 9, [], .view, some ⟨12, [], 39, 42, true⟩⟩] := by decide +kernel
  refine ⟨by decide +kernel, ?_⟩
  rw [hfunctions]
  refine ⟨_, List.mem_singleton_self _, ?_, rfl, by decide⟩
  refine ⟨.function rfl (by decide) rfl, rfl, rfl, rfl, by decide, rfl, ?_, by decide,
    by decide +kernel⟩
  exact attributesEnd_iff.mpr (by decide)

end SolidityTools

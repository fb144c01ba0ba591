import SolidityTools.Lint
import SolidityTools.Proofs.StableOrder
import Mathlib.Data.Prod.Lex

set_option autoImplicit false

/-! # Rules do not get in each other's way

A report is put together from what each enabled rule finds by itself. It is the stable order of all
that is found, by line, column and the rank of the rule (`Issue.key`). The codes of disabled rules
decide which rules run and nothing else (`Rule.findings_disabling`). So disabling more rules leaves
out their issues and keeps all others as they stand: both sides are stable orders of the same
issues, and there is only one.
-/

namespace SolidityTools

def LintSettings.disabling (settings : LintSettings) (codes : List String) : LintSettings :=
  { settings with disabledRules := settings.disabledRules ++ codes }

namespace Lint

/-! ## The order of reports -/

/-- What decides the place of an issue in a report: the line, then the column, then the rule. -/
def Issue.key (issue : Issue) : Nat ×ₗ Nat ×ₗ Nat :=
  toLex (issue.position.line, toLex (issue.position.column, issue.rule.rank))

theorem Issue.le_iff (a b : Issue) : Issue.le a b = true ↔ a.key ≤ b.key := by
  unfold Issue.le Issue.key
  rw [Prod.Lex.toLex_le_toLex, Prod.Lex.toLex_le_toLex]
  simp

/-! ## What is found -/

/-- All that the rules find that the settings do not disable, rule by rule. -/
def found (settings : LintSettings) (source : String) : List Issue :=
  (Rule.all.filter fun rule => rule.code ∉ settings.disabledRules).flatMap fun rule =>
    (rule.findings (.ofSource settings source)).map fun f =>
      ⟨rule, positionAt source f.offset, f.message⟩

theorem enabledRules_eq (settings : LintSettings) :
    enabledRules settings = Rule.all.filter fun rule => rule.code ∉ settings.disabledRules := by
  refine List.filter_congr fun rule _ => ?_
  simp [LintSettings.isEnabled]

theorem Rule.findings_disabling (rule : Rule) (settings : LintSettings) (codes : List String)
    (source : String) :
    rule.findings (.ofSource (settings.disabling codes) source)
      = rule.findings (.ofSource settings source) := by
  cases rule <;> rfl

/-- Disabling more rules leaves out what they find. -/
theorem found_disabling (settings : LintSettings) (codes : List String) (source : String) :
    found (settings.disabling codes) source
      = (found settings source).filter fun issue => issue.rule.code ∉ codes := by
  have hrules : (Rule.all.filter fun rule => rule.code ∉ (settings.disabling codes).disabledRules)
      = (Rule.all.filter fun rule => rule.code ∉ settings.disabledRules).filter
          fun rule => rule.code ∉ codes := by
    rw [List.filter_filter]
    refine List.filter_congr fun rule _ => ?_
    simp [LintSettings.disabling, Bool.and_comm]
  simp only [found, hrules, Rule.findings_disabling]
  generalize (Rule.all.filter fun rule => rule.code ∉ settings.disabledRules) = rules
  induction rules with
  | nil => rfl
  | cons rule rules ih =>
      rw [List.flatMap_cons, List.filter_append, ← ih, List.filter_map]
      by_cases hcode : rule.code ∉ codes
      · have hall : (rule.findings (.ofSource settings source)).filter
            ((fun issue : Issue => decide (issue.rule.code ∉ codes)) ∘ fun f =>
              ⟨rule, positionAt source f.offset, f.message⟩)
            = rule.findings (.ofSource settings source) :=
          List.filter_eq_self.mpr fun f _ => by simpa using hcode
        rw [List.filter_cons_of_pos (by simpa using hcode), List.flatMap_cons, hall]
      · have hnone : (rule.findings (.ofSource settings source)).filter
            ((fun issue : Issue => decide (issue.rule.code ∉ codes)) ∘ fun f =>
              ⟨rule, positionAt source f.offset, f.message⟩) = [] :=
          List.filter_eq_nil_iff.mpr fun f _ => by simpa using hcode
        rw [List.filter_cons_of_neg (by simpa using hcode), hnone]
        rfl

/-! ## Reports -/

theorem isStableOrder_lint (settings : LintSettings) (source : String) :
    StableOrder.IsStableOrder Issue.key (found settings source) (lint settings source) := by
  have hlint : lint settings source = StableOrder.sort Issue.le (found settings source) := by
    rw [lint, enabledRules_eq]
    rfl
  rw [hlint]
  exact StableOrder.isStableOrder_sort Issue.le_iff _

/-- **A report is what its rules find, in order.** It is the stable order, by line, column and rule,
of all that the rules find that are not disabled. With more rules disabled it is the same report
without their issues, the others in the same order: no rule changes what another one reports. -/
theorem lint_composes (settings : LintSettings) (source : String) :
    StableOrder.IsStableOrder Issue.key (found settings source) (lint settings source) ∧
      ∀ codes, lint (settings.disabling codes) source
        = (lint settings source).filter fun issue => issue.rule.code ∉ codes := by
  constructor
  · exact isStableOrder_lint settings source
  · intro codes
    have hless := isStableOrder_lint (settings.disabling codes) source
    rw [found_disabling] at hless
    exact hless.eq ((isStableOrder_lint settings source).filter _)

end Lint

end SolidityTools

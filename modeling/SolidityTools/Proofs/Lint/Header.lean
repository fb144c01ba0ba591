import SolidityTools.Proofs.Lint.Directive
import SolidityTools.Proofs.Lint.Line

set_option autoImplicit false

/-! # The region of the header rules

Both header rules search the first lines of a file, as many as the settings say. One of them takes
lines of the source, the other cuts the masked text at a line feed. The two regions have the same
lines, since masking keeps the line feeds (`takeLines_mask`). Only if no line is to be searched do
they differ: the rule on the version directive searches the first line all the same
(`headerRules_region`).
-/

namespace SolidityTools

open Text

/-- A text occurs in another one, searched from left to right. -/
theorem Text.containsText_iff {part cs : List Char} : containsText part cs = true ↔ part <:+: cs := by
  induction cs with
  | nil => rw [containsText, List.isEmpty_iff, List.infix_nil]
  | cons c cs ih =>
      rw [containsText, Bool.or_eq_true, List.isPrefixOf_iff_prefix, ih, List.infix_cons_iff]

namespace Lint

/-- A line of the source carries a licence identifier. -/
def HasLicence (line : List Char) : Prop := licenceMarker.toList <:+: line

theorem missingLicence_eq_nil_iff {s : Subject} :
    missingLicence s = [] ↔
      ∃ line ∈ (splitLines s.source.toList).take s.settings.headerLines.toNat, HasLicence line := by
  have hany : ((splitLines s.source.toList).take s.settings.headerLines.toNat).any
        (containsText licenceMarker.toList) = true ↔
      ∃ line ∈ (splitLines s.source.toList).take s.settings.headerLines.toNat, HasLicence line := by
    simp only [List.any_eq_true, containsText_iff, HasLicence]
  simp only [missingLicence]
  split
  · next hfound => exact iff_of_true rfl (hany.mp hfound)
  · next hnone => exact iff_of_false (List.cons_ne_nil _ _) fun hfound => hnone (hany.mpr hfound)

theorem missingPragma_eq_nil_iff {s : Subject} :
    missingPragma s = [] ↔ HasDirective (takeLines (max s.settings.headerLines.toNat 1) s.masked) := by
  simp only [missingPragma]
  split
  · next hempty =>
      rw [List.isEmpty_iff, pragmaDirective_hits_eq_nil_iff] at hempty
      exact iff_of_false (List.cons_ne_nil _ _) hempty
  · next hempty =>
      rw [List.isEmpty_iff, pragmaDirective_hits_eq_nil_iff, not_not] at hempty
      exact iff_of_true rfl hempty

/-- Nothing stands in no line. -/
theorem not_hasDirective_nil : ¬HasDirective [] := by
  rintro ⟨before, phrase, behind, hdirective, -⟩
  obtain ⟨w, rfl⟩ := hdirective.phrase.exists_cons
  have := hdirective.eq_append
  simp at this

/-- **The region of the header rules.** A licence is missing exactly if none of the first lines of the
source carries its identifier. The masked text of these lines is the first lines of the masked text,
and a version directive is missing exactly if it has none, unless no line is to be searched: then the
first line is searched all the same, and a directive in it is not reported as missing. -/
theorem headerRules_region (settings : LintSettings) (source : String) :
    let s := Subject.ofSource settings source
    let n := settings.headerLines.toNat
    (missingLicence s ≠ [] ↔ ∀ line ∈ (splitLines source.toList).take n, ¬HasLicence line) ∧
      takeLines n s.masked = mask (tokenize (String.ofList (takeLines n source.toList))) ∧
      (missingPragma s ≠ [] ↔ ¬HasDirective (takeLines (max n 1) s.masked)) ∧
      ((missingPragma s ≠ [] ↔ ¬HasDirective (takeLines n s.masked)) ↔
        n ≠ 0 ∨ ¬HasDirective (takeLines 1 s.masked)) := by
  intro s n
  have hpragma : missingPragma s ≠ [] ↔ ¬HasDirective (takeLines (max n 1) s.masked) :=
    not_congr missingPragma_eq_nil_iff
  refine ⟨?_, takeLines_mask n source, hpragma, ?_⟩
  · rw [Ne, missingLicence_eq_nil_iff]
    show ¬(∃ line ∈ (splitLines source.toList).take n, HasLicence line) ↔ _
    simp only [not_exists, not_and]
  · rw [hpragma]
    by_cases hn : n = 0
    · have hnone : takeLines n s.masked = [] := by rw [hn]; rfl
      rw [hnone, hn]
      simp [not_hasDirective_nil]
    · rw [Nat.max_eq_left (by omega)]
      simp [hn]

/-- No line is to be searched, and a directive in the first line counts, unlike a licence. -/
theorem missingPragma_eq_nil_of_no_lines :
    let s := Subject.ofSource { LintSettings.standard with headerLines := 0 } "pragma solidity ^0.8.0;"
    takeLines 0 s.masked = [] ∧ ¬HasDirective (takeLines 0 s.masked) ∧
      missingLicence s ≠ [] ∧ missingPragma s = [] := by
  refine ⟨rfl, not_hasDirective_nil, by decide +kernel, by decide +kernel⟩

end Lint

end SolidityTools

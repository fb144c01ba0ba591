import SolidityTools.Proofs.InPlace.Gas
import SolidityTools.Proofs.InPlace.Import
import SolidityTools.Proofs.InPlace.Lint
import SolidityTools.Proofs.Lint.Order

set_option autoImplicit false

/-! # No pass fails

Every pass has been rewritten so that it reads the text and the tokens in place, by offsets and
indices that it computes, and so that one access out of range, with its ends in the wrong order or
inside a character makes it yield nothing. Each of them yields what the pass yields. So none of the
accesses fails, whatever the source, the settings, the weights, the tokens, the index and the
offset.
-/

namespace SolidityTools

namespace InPlace

/-- The root that the token at an index writes is read off the tokens on both sides of it. -/
theorem writeTarget?_eq (tokens : List Token) (idx : Nat) :
    writeTarget? tokens idx = some (tokens[idx]?.bind fun t =>
      SolidityTools.writeTarget? (tokens.take idx).reverse t (tokens.drop (idx + 1))) := by
  rcases Nat.lt_or_ge idx tokens.length with h | h
  · have hsplit : tokens
        = (tokens.take idx).reverse.reverse ++ tokens[idx] :: tokens.drop (idx + 1) := by
      rw [List.reverse_reverse, ← List.drop_eq_getElem_cons h, List.take_append_drop]
    have hlength : (tokens.take idx).reverse.length = idx := by
      rw [List.length_reverse, List.length_take_of_le (Nat.le_of_lt h)]
    have htarget := writeTarget?_append (tokens.take idx).reverse tokens[idx]
      (tokens.drop (idx + 1))
    rw [← hsplit, hlength] at htarget
    rw [htarget, List.getElem?_eq_getElem h, Option.bind_some]
  · rw [writeTarget?_of_length_le h, List.getElem?_eq_none h, Option.bind_none]

/-- **No pass fails on any input.** Cutting a source into tokens, outlining a list of tokens,
looking for what a token writes, every rule, the estimate, the imports and the position of any
offset all succeed in place, and yield what the library yields. So does the linter that leaves out
the rules that fail: what an enabled rule finds is always reported. -/
theorem passes_succeed (settings : LintSettings) (weights : GasWeights) (source : String) :
    tokenize? source = some (tokenize source) ∧
      (∀ sourceLength tokens,
        outline? sourceLength tokens = some (Outline.ofTokens sourceLength tokens)) ∧
      (∀ tokens idx, writeTarget? tokens idx = some (tokens[idx]?.bind fun t =>
        SolidityTools.writeTarget? (tokens.take idx).reverse t (tokens.drop (idx + 1)))) ∧
      (∀ rule, findings? rule (.ofSource settings source)
        = some (rule.findings (.ofSource settings source))) ∧
      (lint? settings source = some (lint settings source) ∧
        ∀ rule, settings.isEnabled rule.code = true →
          ∀ f ∈ rule.findings (.ofSource settings source),
            ⟨rule, positionAt source f.offset, f.message⟩ ∈ lint settings source) ∧
      estimate? weights source = some (Gas.estimate weights source) ∧
      importsOf? source = some (importsOf source) ∧
      ∀ offset, positionAt? source offset = some (positionAt source offset) := by
  refine ⟨tokenize?_eq source, outline?_eq, writeTarget?_eq, fun rule => ?_, ⟨?_, ?_⟩,
    estimate?_eq weights source, importsOf?_eq source, positionAt?_eq source⟩
  · exact findings?_eq rule settings source
  · exact lint?_eq settings source
  · intro rule henabled f hf
    have hrule : rule ∈ Lint.Rule.all := by cases rule <;> decide
    have hruns : rule ∈ Lint.enabledRules settings := List.mem_filter.mpr ⟨hrule, henabled⟩
    rw [Lint.enabledRules_eq] at hruns
    have hfound : ⟨rule, positionAt source f.offset, f.message⟩ ∈ Lint.found settings source :=
      List.mem_flatMap.mpr ⟨rule, hruns, List.mem_map.mpr ⟨f, hf, rfl⟩⟩
    exact (Lint.isStableOrder_lint settings source).perm.mem_iff.mpr hfound

end InPlace

end SolidityTools

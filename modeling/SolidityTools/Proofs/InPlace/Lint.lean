import SolidityTools.Lint
import SolidityTools.Proofs.InPlace.Call
import SolidityTools.Proofs.InPlace.Lexer
import SolidityTools.Proofs.InPlace.Literal
import SolidityTools.Proofs.InPlace.Outline
import SolidityTools.Proofs.InPlace.Position

set_option autoImplicit false

/-! # Linting in place

A rule whose accesses all succeed returns its findings. A linter that leaves out the rules that fail
therefore leaves out nothing.
-/

namespace SolidityTools

open Text Lint

namespace InPlace

/-! ## Rules -/

/-- String literals and block comments without their closing delimiter. -/
def unterminatedLiterals? (s : Subject) : Option (List Finding) :=
  collect? (fun t => do
    let terminated ← isTerminated? t
    some (if terminated then [] else
      [⟨t.start, "Unterminated " ++
        (if t.kind = .string then "string literal" else "block comment")⟩])) s.tokens

/-- No version directive in the header. -/
def missingPragma? (s : Subject) : Option (List Finding) := do
  let header ← slice? s.masked 0 (headerEnd s.masked s.settings.headerLines.toNat)
  some (if (Pattern.pragmaDirective.hits header).isEmpty then
    [⟨0, "Missing `pragma solidity` version directive"⟩] else [])

/-- The places where a pattern fits in a group that stands at an offset. -/
def placesFrom (pattern : Pattern Unit) (start : Nat) (group : List Char) : List Nat :=
  (pattern.hits group).map fun hit => start + hit.start

/-- Block values in one condition. -/
def conditionFindings? (masked : List Char) (header : Hit String) : Option (List Finding) := do
  let (paren, group) ← groupBefore? masked (header.start + byteLength header.phrase)
  some <|
    (placesFrom Pattern.blockTime paren group).map
      (fun o => ⟨o, "Control flow depends on the block timestamp, which miners can skew"⟩) ++
    (placesFrom Pattern.blockRandomness paren group).map
      fun o => ⟨o, "Control flow depends on a predictable block value"⟩

/-- Block values in one call of the hash function. -/
def hashFindings? (masked : List Char) (header : Hit String) : Option (List Finding) := do
  let (paren, group) ← groupBefore? masked (header.start + byteLength header.phrase)
  some <|
    (placesFrom Pattern.blockTime paren group ++
      placesFrom Pattern.blockRandomness paren group).map
        fun o => ⟨o, "Block values are not a source of randomness"⟩

/-- Block values that drive control flow or are hashed. -/
def blockValues? (s : Subject) : Option (List Finding) := do
  let conditions ← collect? (conditionFindings? s.masked) (Pattern.condition.hits s.masked)
  let hashes ← collect? (hashFindings? s.masked) (Pattern.hashing.hits s.masked)
  some (firstAtEachOffset [] (conditions ++ hashes))

/-- Loops with the length of a collection in their header. -/
def unboundedLoops? (s : Subject) : Option (List Finding) :=
  collect? (fun hit => do
    let (_, group) ← groupBefore? s.masked (hit.start + byteLength hit.phrase)
    some (if (Pattern.lengthMember.hits group).isEmpty then [] else
      [⟨hit.start, "`" ++ hit.value ++
        "` loop is bounded by a collection length and may run out of gas"⟩]))
    (Pattern.loopHeader.hits s.masked)

/-- What a rule finds in a file. The rules that remain cut nothing out of the text or the tokens. -/
def findings? : Rule → Subject → Option (List Finding)
  | .unterminatedLiteral => unterminatedLiterals?
  | .missingPragma => missingPragma?
  | .uncheckedCall => uncheckedCalls?
  | .reentrancy => reentrantWrites?
  | .blockValue => blockValues?
  | .unboundedLoop => unboundedLoops?
  | .unbalancedBraces => fun s => some (unbalancedBraces s)
  | .missingLicence => fun s => some (missingLicence s)
  | .floatingPragma => fun s => some (floatingPragmas s)
  | .transactionOrigin => fun s => some (transactionOrigins s)
  | .magicNumber => fun s => some (magicNumbers s)
  | .namingConvention => fun s => some (unconventionalNames s)

theorem unterminatedLiterals?_eq {s : Subject} (h : ∀ t ∈ s.tokens, OpensString t) :
    unterminatedLiterals? s = some (unterminatedLiterals s) := by
  rw [unterminatedLiterals, ← List.filterMap_eq_map, List.filterMap_filter]
  refine collect?_toList fun t ht => ?_
  rw [isTerminated?_eq (h t ht)]
  simp only [Option.bind_eq_bind, Option.bind_some]
  cases t.isTerminated with
  | true => rfl
  | false => rfl

theorem missingPragma?_eq (s : Subject) : missingPragma? s = some (missingPragma s) := by
  rw [missingPragma?, slice?_headerEnd]
  rfl

theorem conditionFindings?_eq {masked : List Char} {header : Hit String}
    (h : header ∈ Pattern.condition.hits masked) :
    conditionFindings? masked header = some (conditionFindings header) := by
  rw [conditionFindings?, groupBefore?_eq (by decide) h]
  rfl

theorem hashFindings?_eq {masked : List Char} {header : Hit String}
    (h : header ∈ Pattern.hashing.hits masked) :
    hashFindings? masked header = some (hashFindings header) := by
  rw [hashFindings?, groupBefore?_eq (by decide) h]
  rfl

theorem blockValues?_eq (s : Subject) : blockValues? s = some (blockValues s) := by
  rw [blockValues?, collect?_eq fun header h => conditionFindings?_eq h,
    collect?_eq fun header h => hashFindings?_eq h]
  rfl

theorem unboundedLoops?_eq (s : Subject) : unboundedLoops? s = some (unboundedLoops s) := by
  refine collect?_toList fun hit hhit => ?_
  rw [groupBefore?_eq (by decide) hhit]
  simp only [Option.bind_eq_bind, Option.bind_some]
  split
  · rfl
  · rfl

/-- **Every rule returns its findings on every file.** -/
theorem findings?_eq (rule : Rule) (settings : LintSettings) (source : String) :
    findings? rule (.ofSource settings source)
      = some (rule.findings (.ofSource settings source)) := by
  cases rule with
  | unterminatedLiteral => exact unterminatedLiterals?_eq fun t ht => opensString_of_mem ht
  | missingPragma => exact missingPragma?_eq _
  | uncheckedCall => exact uncheckedCalls?_eq _
  | reentrancy => exact reentrantWrites?_eq _
  | blockValue => exact blockValues?_eq _
  | unboundedLoop => exact unboundedLoops?_eq _
  | unbalancedBraces => rfl
  | missingLicence => rfl
  | floatingPragma => rfl
  | transactionOrigin => rfl
  | magicNumber => rfl
  | namingConvention => rfl

/-! ## Files -/

/-- Prepares a file. -/
def subject? (settings : LintSettings) (source : String) : Option Subject := do
  let tokens ← tokenize? source
  let outline ← outline? (byteLength source.toList) tokens
  some { source, settings, tokens, masked := mask tokens, outline }

/-- The issues that a rule raises. A rule that fails raises none. -/
def issues? (subject : Subject) (rule : Rule) : Option (List Issue) :=
  collect? (fun f => do
    let position ← positionAt? subject.source f.offset
    some [⟨rule, position, f.message⟩]) ((findings? rule subject).getD [])

/-- The issues of a source text, in the order of reports. -/
def lint? (settings : LintSettings) (source : String) : Option (List Issue) := do
  let subject ← subject? settings source
  let issues ← collect? (issues? subject) (enabledRules settings)
  some (StableOrder.sort Issue.le issues)

theorem issues?_eq (settings : LintSettings) (source : String) (rule : Rule) :
    issues? (.ofSource settings source) rule = some (rule.issues (.ofSource settings source)) := by
  rw [issues?, findings?_eq, Option.getD_some, Rule.issues, List.map_eq_flatMap]
  refine collect?_eq fun f _ => ?_
  rw [positionAt?_eq]
  rfl

/-- **Every source can be linted**, and the issues of no enabled rule are missing. -/
theorem lint?_eq (settings : LintSettings) (source : String) :
    lint? settings source = some (lint settings source) := by
  have hsubject : subject? settings source = some (.ofSource settings source) := by
    rw [subject?, tokenize?_eq]
    simp only [Option.bind_eq_bind, Option.bind_some, outline?_eq]
    rfl
  rw [lint?, hsubject]
  simp only [Option.bind_eq_bind, Option.bind_some,
    collect?_eq fun rule _ => issues?_eq settings source rule]
  rfl

end InPlace

end SolidityTools

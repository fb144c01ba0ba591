import SolidityTools.Lint.Style
import SolidityTools.Proofs.Token.Group
import SolidityTools.Proofs.Token.Place
import Mathlib.Data.List.Basic

set_option autoImplicit false

/-! # Which numbers in comparisons are reported

The rule reads the tokens once and carries along whether a directive has begun. Behind every
beginning of the tokens this is so exactly if the word `pragma` stands there with no semicolon
behind it (`opensDirective_concat`). So a number is looked at exactly if it stands outside
directives with a comparison next to it (`mem_comparedNumbers_iff`).

It is reported unless the list of allowed numbers has it. The separators of the literal are left out
for that, but those of the entries are not. So an entry that is written with separators allows
nothing, not even the same literal (`reports_number_iff`).
-/

namespace SolidityTools.Lint

/-! ## Directives among tokens -/

/-- A directive has begun in some tokens: the word `pragma` stands there, with no semicolon behind
it. -/
def OpensDirective (before : List Token) : Prop :=
  ∃ front pragma clause, before = front ++ pragma :: clause ∧ pragma.isKeyword "pragma" = true ∧
    ∀ u ∈ clause, u.isOperator ";" = false

theorem not_opensDirective_nil : ¬OpensDirective [] := by
  rintro ⟨front, pragma, clause, h, -⟩
  simp at h

/-- The word `pragma` begins a directive, a semicolon ends it, and nothing else matters. -/
theorem opensDirective_concat {before : List Token} {t : Token} :
    OpensDirective (before ++ [t]) ↔
      t.isKeyword "pragma" = true ∨ t.isOperator ";" = false ∧ OpensDirective before :=
  exists_since_concat

/-! ## Numbers in comparisons -/

/-- A comparison stands next to a place among tokens. -/
def NextToComparison (before behind : List Token) : Prop :=
  before.getLast?.any isComparison = true ∨ behind.head?.any isComparison = true

theorem opensDirective_concat_number {before : List Token} {t : Token} (ht : t.kind = .number) :
    OpensDirective (before ++ [t]) ↔ OpensDirective before := by
  rw [opensDirective_concat]
  simp [Token.isKeyword, Token.isOperator, ht]

/-- **Which numbers the rule looks at.** The scan goes on behind some tokens, and knows whether a
directive has begun there and what the last of them is. -/
theorem mem_comparedNumbers_iff {inPragma : Bool} {passed ts : List Token} {t : Token}
    (hpassed : inPragma = true ↔ OpensDirective passed) :
    t ∈ comparedNumbers inPragma passed.getLast? ts ↔
      ∃ before behind, ts = before ++ t :: behind ∧ t.kind = .number ∧
        ¬OpensDirective (passed ++ before) ∧ NextToComparison (passed ++ before) behind := by
  induction ts generalizing inPragma passed with
  | nil => simp [comparedNumbers]
  | cons u ts ih =>
      simp only [comparedNumbers]
      generalize hnext : (if u.isKeyword "pragma" = true then true
        else if u.isOperator ";" = true then false else inPragma) = inPragma'
      have hpassed' : inPragma' = true ↔ OpensDirective (passed ++ [u]) := by
        rw [opensDirective_concat, ← hpassed, ← hnext]
        by_cases hpragma : u.isKeyword "pragma" = true
        · simp [hpragma]
        · by_cases hsemicolon : u.isOperator ";" = true
          · simp [hpragma, hsemicolon]
          · simp [hpragma, hsemicolon]
      have hrest := ih hpassed'
      rw [List.getLast?_concat] at hrest
      -- the number stands at this place, or behind it
      have hhere : (!inPragma' && u.kind == .number &&
            (passed.getLast?.any isComparison || ts.head?.any isComparison)) = true ↔
          u.kind = .number ∧ ¬OpensDirective passed ∧ NextToComparison passed ts := by
        rw [Bool.and_eq_true, Bool.and_eq_true, Bool.not_eq_true', beq_iff_eq, Bool.or_eq_true,
          and_comm (a := inPragma' = false), and_assoc, NextToComparison]
        refine and_congr_right fun hu => and_congr_left' ?_
        rw [← opensDirective_concat_number hu, ← hpassed', Bool.not_eq_true]
      have hsplit : (∃ before behind, u :: ts = before ++ t :: behind ∧ t.kind = .number ∧
            ¬OpensDirective (passed ++ before) ∧ NextToComparison (passed ++ before) behind) ↔
          (t = u ∧ u.kind = .number ∧ ¬OpensDirective passed ∧ NextToComparison passed ts) ∨
            t ∈ comparedNumbers inPragma' (some u) ts := by
        rw [hrest]
        constructor
        · rintro ⟨before, behind, hts, hnumber⟩
          cases before with
          | nil =>
              obtain ⟨rfl, rfl⟩ := List.cons.inj hts
              exact Or.inl ⟨rfl, by simpa using hnumber⟩
          | cons v before =>
              obtain ⟨rfl, rfl⟩ := List.cons.inj hts
              exact Or.inr ⟨before, behind, rfl, by simpa using hnumber⟩
        · rintro (⟨rfl, hnumber⟩ | ⟨before, behind, rfl, hnumber⟩)
          · exact ⟨[], ts, rfl, by simpa using hnumber⟩
          · exact ⟨u :: before, behind, rfl, by simpa using hnumber⟩
      rw [hsplit, ← hhere]
      split
      · next hlisted => simp [hlisted]
      · next hlisted => simp [hlisted]

/-! ## Reports -/

/-- A number among the significant tokens of a source, with the tokens around it. -/
structure PlacedNumber (source : String) where
  /-- The tokens in front of the number. -/
  before : List Token
  number : Token
  /-- The tokens behind the number. -/
  behind : List Token
  eq_append : tokenizeSignificant source = before ++ number :: behind
  number_kind : number.kind = .number

/-- The number stands outside directives with a comparison next to it. -/
def PlacedNumber.Compared {source : String} (n : PlacedNumber source) : Prop :=
  ¬OpensDirective n.before ∧ NextToComparison n.before n.behind

/-- An entry of a list means the same number as a literal, however both are separated. -/
def Allows (allowed : List String) (literal : String) : Prop :=
  ∃ entry ∈ allowed, withoutSeparators entry = withoutSeparators literal

def numberFinding (t : Token) : Finding :=
  ⟨t.start, "Magic number `" ++ t.text ++ "` in comparison; consider a named constant"⟩

variable {settings : LintSettings} {source : String}

/-- The findings are those on compared numbers that are not on the list. -/
theorem mem_magicNumbers_iff {f : Finding} :
    f ∈ magicNumbers (.ofSource settings source) ↔
      ∃ n : PlacedNumber source, n.Compared ∧
        withoutSeparators n.number.text ∉ settings.allowedNumbers ∧ numberFinding n.number = f := by
  have hscan : ∀ t, t ∈ comparedNumbers false none (tokenizeSignificant source) ↔
      ∃ n : PlacedNumber source, n.Compared ∧ n.number = t := by
    intro t
    have hnone : false = true ↔ OpensDirective [] := by simp [not_opensDirective_nil]
    rw [← List.getLast?_nil, mem_comparedNumbers_iff hnone]
    constructor
    · rintro ⟨before, behind, hts, hkind, hcompared⟩
      exact ⟨⟨before, t, behind, hts, hkind⟩, hcompared, rfl⟩
    · rintro ⟨n, hcompared, rfl⟩
      exact ⟨n.before, n.behind, n.eq_append, n.number_kind, hcompared⟩
  have hlist : ∀ t, t ∈ (comparedNumbers false none (tokenizeSignificant source)).filter
        (fun t => !settings.allowedNumbers.contains (withoutSeparators t.text)) ↔
      ∃ n : PlacedNumber source, n.Compared ∧
        withoutSeparators n.number.text ∉ settings.allowedNumbers ∧ n.number = t := by
    intro t
    rw [List.mem_filter, hscan, Bool.not_eq_true', List.contains_eq_mem, decide_eq_false_iff_not]
    constructor
    · rintro ⟨⟨n, hcompared, rfl⟩, hlisted⟩
      exact ⟨n, hcompared, hlisted, rfl⟩
    · rintro ⟨n, hcompared, hlisted, rfl⟩
      exact ⟨⟨n, hcompared, rfl⟩, hlisted⟩
  show f ∈ ((comparedNumbers false none (tokenizeSignificant source)).filter _).map numberFinding
    ↔ _
  rw [List.mem_map]
  constructor
  · rintro ⟨t, ht, rfl⟩
    obtain ⟨n, hcompared, hlisted, rfl⟩ := (hlist t).mp ht
    exact ⟨n, hcompared, hlisted, rfl⟩
  · rintro ⟨n, hcompared, hlisted, rfl⟩
    exact ⟨n.number, (hlist _).mpr ⟨n, hcompared, hlisted, rfl⟩, rfl⟩

theorem PlacedNumber.eq_of_start_eq {m n : PlacedNumber source}
    (h : m.number.start = n.number.start) : m = n := by
  obtain ⟨before, number, behind, hsplit, hkind⟩ := m
  obtain ⟨before', number', behind', hsplit', hkind'⟩ := n
  have hordered := Lexer.ordered_tokenizeSignificant source
  obtain rfl : number = number' := hordered.eq_of_start_eq (by simp [hsplit]) (by simp [hsplit']) h
  obtain ⟨rfl, rfl⟩ := Group.eq_of_nodup hordered.nodup hsplit hsplit'
  rfl

theorem withoutSeparators_withoutSeparators (literal : String) :
    withoutSeparators (withoutSeparators literal) = withoutSeparators literal := by
  simp [withoutSeparators, List.filter_filter]

/-- An entry without separators that is on the list means the literal. -/
theorem allows_of_mem {allowed : List String} {literal : String}
    (h : withoutSeparators literal ∈ allowed) : Allows allowed literal :=
  ⟨_, h, withoutSeparators_withoutSeparators literal⟩

/-- **Which numbers are reported.** Only numbers are reported. A number is reported exactly if it
stands outside directives with a comparison next to it and the list does not have its literal
without the separators. These are the numbers that no entry means, separators aside on both sides,
and besides them those that only entries with separators mean. -/
theorem reports_number_iff (settings : LintSettings) (source : String) :
    let found := magicNumbers (.ofSource settings source)
    (∀ f ∈ found, ∃ n : PlacedNumber source, f = numberFinding n.number) ∧
      ∀ n : PlacedNumber source,
        let reported := ∃ f ∈ found, f.offset = n.number.start
        (reported ↔ n.Compared ∧ withoutSeparators n.number.text ∉ settings.allowedNumbers) ∧
          ((reported ↔ n.Compared ∧ ¬Allows settings.allowedNumbers n.number.text) ↔
            ¬(n.Compared ∧ Allows settings.allowedNumbers n.number.text ∧
              withoutSeparators n.number.text ∉ settings.allowedNumbers)) := by
  intro found
  refine ⟨fun f hf => ?_, ?_⟩
  · obtain ⟨n, -, -, rfl⟩ := mem_magicNumbers_iff.mp hf
    exact ⟨n, rfl⟩
  · intro n reported
    have hreported : reported ↔
        n.Compared ∧ withoutSeparators n.number.text ∉ settings.allowedNumbers := by
      constructor
      · rintro ⟨f, hf, hoffset⟩
        obtain ⟨m, hcompared, hlisted, rfl⟩ := mem_magicNumbers_iff.mp hf
        obtain rfl := PlacedNumber.eq_of_start_eq hoffset
        exact ⟨hcompared, hlisted⟩
      · rintro ⟨hcompared, hlisted⟩
        exact ⟨_, mem_magicNumbers_iff.mpr ⟨n, hcompared, hlisted, rfl⟩, rfl⟩
    have hallows : withoutSeparators n.number.text ∈ settings.allowedNumbers →
        Allows settings.allowedNumbers n.number.text := allows_of_mem
    refine ⟨hreported, ?_⟩
    rw [hreported]
    tauto

section Example

/-- The first number in a comparison at the beginning of a source. -/
def comparedNumber {source : String} (name literal : String) (i j : Nat)
    (h : tokenizeSignificant source = ⟨.identifier, name, 0⟩ :: ⟨.operator, "==", i⟩
      :: ⟨.number, literal, j⟩ :: (tokenizeSignificant source).drop 3) : PlacedNumber source where
  before := [⟨.identifier, name, 0⟩, ⟨.operator, "==", i⟩]
  number := ⟨.number, literal, j⟩
  behind := (tokenizeSignificant source).drop 3
  eq_append := h
  number_kind := rfl

/-- A literal with separators is not reported if the list has it without them. -/
theorem not_reports_separated_literal :
    let settings := { LintSettings.standard with allowedNumbers := ["1000"] }
    ∃ n : PlacedNumber "x == 1_000;", n.number.text = "1_000" ∧
      ¬∃ f ∈ magicNumbers (.ofSource settings "x == 1_000;"), f.offset = n.number.start := by
  intro settings
  let n : PlacedNumber "x == 1_000;" := comparedNumber "x" "1_000" 2 5 (by decide +kernel)
  refine ⟨n, rfl, fun hreported => ?_⟩
  exact (((reports_number_iff settings "x == 1_000;").2 n).1.mp hreported).2 (by decide +kernel)

/-- The same literal is reported if the list has it as it is written. -/
theorem reports_listed_literal :
    let settings := { LintSettings.standard with allowedNumbers := ["1_000"] }
    ∃ n : PlacedNumber "x == 1_000;", n.number.text ∈ settings.allowedNumbers ∧
      ∃ f ∈ magicNumbers (.ofSource settings "x == 1_000;"), f.offset = n.number.start := by
  refine ⟨comparedNumber "x" "1_000" 2 5 (by decide +kernel), ?_, ?_⟩
  · exact List.mem_singleton_self _
  · decide +kernel

end Example

end SolidityTools.Lint

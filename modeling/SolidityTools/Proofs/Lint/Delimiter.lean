import SolidityTools.Command.Run
import SolidityTools.Proofs.Lint.Order
import SolidityTools.Proofs.Token.Group
import SolidityTools.Proofs.Token.Unclosed

set_option autoImplicit false

/-! # Files that are broken

Two rules raise errors, and what they find is described from outside. An unterminated literal can
only be the last token of the file. Braces are balanced if no beginning of the file closes more of
them than it opens, and the whole file closes all; the rule keeps the open braces on a stack, of
which only the height matters (`unmatchedBraces_eq_nil_iff`).

`hasError_lint_iff` puts this together: a file is reported with an error exactly if it is `Broken`.
-/

namespace SolidityTools

namespace Lint

/-! ## Braces -/

/-- The number of opening braces. -/
def openings (tokens : List Token) : Nat := tokens.countP (·.isOperator "\x7b")

/-- The number of closing braces. -/
def closings (tokens : List Token) : Nat := tokens.countP (·.isOperator "\x7d")

/-- Behind some open braces the tokens close all braces, and never one that is not open. -/
structure Balances (depth : Nat) (tokens : List Token) : Prop where
  /-- No beginning closes more braces than were opened. -/
  covered : ∀ front, front <+: tokens → closings front ≤ depth + openings front
  /-- As many braces are closed as were opened. -/
  settled : closings tokens = depth + openings tokens

variable {depth : Nat} {t : Token} {ts : List Token}

theorem balances_nil : Balances depth [] ↔ depth = 0 := by
  constructor
  · intro h
    have := h.settled
    simpa [openings, closings] using this.symm
  · rintro rfl
    exact ⟨fun front hfront => by simp [List.prefix_nil.mp hfront, closings], rfl⟩

/-- A token in front changes the number of open braces behind it, whatever comes then. -/
theorem balances_cons_iff {depth' : Nat}
    (hstep : ∀ us, depth + openings (t :: us) + closings us
      = depth' + openings us + closings (t :: us)) :
    Balances depth (t :: ts) ↔ Balances depth' ts := by
  constructor
  · intro h
    refine ⟨fun front hfront => ?_, ?_⟩
    · have := h.covered (t :: front) ((List.prefix_cons_inj t).mpr hfront)
      have := hstep front
      omega
    · have := h.settled
      have := hstep ts
      omega
  · intro h
    refine ⟨fun front hfront => ?_, ?_⟩
    · -- a beginning is empty, or it has the token in front
      rcases List.prefix_cons_iff.mp hfront with rfl | ⟨rest, rfl, hrest⟩
      · simp [closings]
      · have := h.covered rest hrest
        have := hstep rest
        omega
    · have := h.settled
      have := hstep ts
      omega

theorem isOperator_closer_of_opener (h : t.isOperator "\x7b" = true) :
    t.isOperator "\x7d" = false := by
  rw [Token.isOperator_eq_decide, Token.shape_of_isOperator h]
  decide

theorem openings_cons (t : Token) (ts : List Token) :
    openings (t :: ts) = openings ts + if t.isOperator "\x7b" then 1 else 0 :=
  List.countP_cons

theorem closings_cons (t : Token) (ts : List Token) :
    closings (t :: ts) = closings ts + if t.isOperator "\x7d" then 1 else 0 :=
  List.countP_cons

/-- An opening brace is one more to be closed. -/
theorem balances_opener (h : t.isOperator "\x7b" = true) :
    Balances depth (t :: ts) ↔ Balances (depth + 1) ts := by
  refine balances_cons_iff fun us => ?_
  rw [openings_cons, closings_cons, h, isOperator_closer_of_opener h]
  simp only [if_true, Bool.false_eq_true, if_false]
  omega

/-- A closing brace closes the last one that is open. -/
theorem balances_closer (h : t.isOperator "\x7b" = false) (h' : t.isOperator "\x7d" = true) :
    Balances (depth + 1) (t :: ts) ↔ Balances depth ts := by
  refine balances_cons_iff fun us => ?_
  rw [openings_cons, closings_cons, h, h']
  simp only [if_true, Bool.false_eq_true, if_false]
  omega

/-- A closing brace has no partner if none is open. -/
theorem not_balances_closer (h : t.isOperator "\x7b" = false) (h' : t.isOperator "\x7d" = true) :
    ¬Balances 0 (t :: ts) := by
  intro hbalances
  have := hbalances.covered [t] (by simp)
  simp [openings, closings, h, h'] at this

/-- Other tokens do not count. -/
theorem balances_other (h : t.isOperator "\x7b" = false) (h' : t.isOperator "\x7d" = false) :
    Balances depth (t :: ts) ↔ Balances depth ts := by
  refine balances_cons_iff fun us => ?_
  rw [openings_cons, closings_cons, h, h']
  rfl

theorem unmatchedBraces_opener (h : t.isOperator "\x7b" = true) (opened : List Token) :
    unmatchedBraces opened (t :: ts) = unmatchedBraces (t :: opened) ts := by
  rw [unmatchedBraces.eq_def]
  exact if_pos h

theorem unmatchedBraces_closer (h : t.isOperator "\x7b" = false) (h' : t.isOperator "\x7d" = true)
    (last : Token) (opened : List Token) :
    unmatchedBraces (last :: opened) (t :: ts) = unmatchedBraces opened ts := by
  rw [unmatchedBraces.eq_def]
  simp [h, h']

theorem unmatchedBraces_closer_nil (h : t.isOperator "\x7b" = false)
    (h' : t.isOperator "\x7d" = true) : unmatchedBraces [] (t :: ts)
      = (t :: (unmatchedBraces [] ts).1, (unmatchedBraces [] ts).2) := by
  rw [unmatchedBraces.eq_def]
  simp [h, h']

theorem unmatchedBraces_other (h : t.isOperator "\x7b" = false) (h' : t.isOperator "\x7d" = false)
    (opened : List Token) : unmatchedBraces opened (t :: ts) = unmatchedBraces opened ts := by
  rw [unmatchedBraces.eq_def]
  simp [h, h']

/-- Every brace has a partner exactly if the tokens are balanced. -/
theorem unmatchedBraces_eq_nil_iff (opened ts : List Token) :
    unmatchedBraces opened ts = ([], []) ↔ Balances opened.length ts := by
  induction ts generalizing opened with
  | nil => rw [balances_nil, unmatchedBraces.eq_def]; simp
  | cons t ts ih =>
      cases hopen : t.isOperator "\x7b" with
      | true => rw [unmatchedBraces_opener hopen, ih, List.length_cons, balances_opener hopen]
      | false =>
          cases hclose : t.isOperator "\x7d" with
          | true =>
              -- only here the stack is looked at
              cases opened with
              | nil =>
                  refine iff_of_false ?_ (not_balances_closer hopen hclose)
                  simp [unmatchedBraces_closer_nil hopen hclose]
              | cons last opened =>
                  rw [unmatchedBraces_closer hopen hclose, ih, List.length_cons,
                    balances_closer hopen hclose]
          | false => rw [unmatchedBraces_other hopen hclose, ih, balances_other hopen hclose]

/-- White space and comments are no braces. -/
theorem unmatchedBraces_significantTokens (opened ts : List Token) :
    unmatchedBraces opened (significantTokens ts) = unmatchedBraces opened ts := by
  induction ts generalizing opened with
  | nil => rfl
  | cons t ts ih =>
      rw [significantTokens] at ih ⊢
      by_cases ht : t.isTrivia = true
      · rw [List.filter_cons_of_neg (by simpa using ht), ih, unmatchedBraces_other
          (Token.isOperator_of_isTrivia ht _) (Token.isOperator_of_isTrivia ht _)]
      · rw [List.filter_cons_of_pos (by simpa using ht), unmatchedBraces.eq_def opened (_ :: _),
          unmatchedBraces.eq_def opened (t :: ts)]
        simp only [ih]

theorem unbalancedBraces_eq_nil_iff (settings : LintSettings) (source : String) :
    unbalancedBraces (.ofSource settings source) = [] ↔ Balances 0 (tokenize source) := by
  -- the rule looks at the significant tokens only, which hold all braces
  have htokens : (Subject.ofSource settings source).outline.tokens
      = significantTokens (tokenize source) := rfl
  rw [unbalancedBraces, htokens, unmatchedBraces_significantTokens]
  refine Iff.trans ?_ (unmatchedBraces_eq_nil_iff [] (tokenize source))
  simp [Prod.ext_iff]

/-! ## Literals -/

/-- The lexer has to recover at a token: it is the last one, a literal whose closing delimiter does
not come. -/
def Recovers (source : String) (t : Token) : Prop :=
  (tokenize source).getLast? = some t ∧ t.Unclosed

theorem isTerminated_of_getLast? {source : String} {t : Token}
    (h : (tokenize source).getLast? = some t) : t.isTerminated = true ↔ ¬t.Unclosed := by
  rw [← Lexer.isTerminated_eq_false_iff (List.mem_of_getLast? h), Bool.not_eq_false]

/-- The rule finds the one token at which the lexer has to recover, or nothing. -/
theorem unterminatedLiterals_cases (settings : LintSettings) (source : String) :
    (∃ t, Recovers source t ∧ unterminatedLiterals (.ofSource settings source)
        = [⟨t.start, if t.kind = .string then "Unterminated string literal"
            else "Unterminated block comment"⟩]) ∨
      ((∀ t, ¬Recovers source t) ∧ unterminatedLiterals (.ofSource settings source) = []) := by
  have htokens : (Subject.ofSource settings source).tokens = tokenize source := rfl
  rw [unterminatedLiterals, htokens]
  cases hget : (tokenize source).getLast? with
  | none =>
      rw [List.getLast?_eq_none_iff.mp hget]
      exact .inr ⟨fun t ht => by simp [Recovers, hget] at ht, rfl⟩
  | some t =>
      have hlast := isTerminated_of_getLast? hget
      obtain ⟨front, hsplit⟩ := List.getLast?_eq_some_iff.mp hget
      have hfront : front.filter (!·.isTerminated) = [] := by
        refine List.filter_eq_nil_iff.mpr fun u hu => ?_
        have hmem : u ∈ (tokenize source).dropLast := by rwa [hsplit, List.dropLast_concat]
        simp [Lexer.isTerminated_of_mem_dropLast hmem]
      rw [hsplit, List.filter_append, hfront, List.nil_append]
      by_cases hunclosed : t.Unclosed
      · have hopen : t.isTerminated = false := by
          rw [← Bool.not_eq_true, hlast, not_not]
          exact hunclosed
        refine .inl ⟨t, ⟨hget, hunclosed⟩, ?_⟩
        rw [List.filter_cons_of_pos (by simp [hopen]), List.filter_nil, List.map_singleton]
        split <;> rfl
      · refine .inr ⟨?_, ?_⟩
        · rintro u ⟨hu, hopen⟩
          obtain rfl := Option.some.inj (hget.symm.trans hu)
          exact hunclosed hopen
        · rw [List.filter_cons_of_neg (by simp [hlast.mpr hunclosed])]
          rfl

theorem unterminatedLiterals_ne_nil_iff (settings : LintSettings) (source : String) :
    unterminatedLiterals (.ofSource settings source) ≠ [] ↔
      ∃ t, (tokenize source).getLast? = some t ∧ t.Unclosed := by
  rcases unterminatedLiterals_cases settings source with ⟨t, hrecovers, hfound⟩ | ⟨hnone, hfound⟩
  · exact iff_of_true (by simp [hfound]) ⟨t, hrecovers⟩
  · exact iff_of_false (by simp [hfound]) fun ⟨t, hrecovers⟩ => hnone t hrecovers

/-- **Unterminated is what the lexer could not close.** Every token but the last is terminated. The
last one is, too, unless it is a string literal or a block comment in which no closing delimiter
stands. So the rule on unterminated literals finds something exactly if the lexer has to recover, and
then it is this one token. -/
theorem unterminatedLiterals_recover (settings : LintSettings) (source : String) :
    (∀ t ∈ (tokenize source).dropLast, t.isTerminated = true) ∧
      (∀ t, (tokenize source).getLast? = some t → (t.isTerminated = true ↔ ¬t.Unclosed)) ∧
      ((∃ t, Recovers source t ∧ unterminatedLiterals (.ofSource settings source)
          = [⟨t.start, if t.kind = .string then "Unterminated string literal"
              else "Unterminated block comment"⟩]) ∨
        ((∀ t, ¬Recovers source t) ∧ unterminatedLiterals (.ofSource settings source) = [])) :=
  ⟨fun _ ht => Lexer.isTerminated_of_mem_dropLast ht, fun _ ht => isTerminated_of_getLast? ht,
    unterminatedLiterals_cases settings source⟩

/-! ## Errors -/

/-- What makes a file broken, as far as the settings ask for it. -/
inductive Broken (settings : LintSettings) (source : String) : Prop
  /-- The last token is a literal that is not closed. -/
  | literal {t : Token} (enabled : settings.isEnabled "unterminated-literal" = true)
      (last : (tokenize source).getLast? = some t) (unclosed : t.Unclosed)
  /-- The braces are not balanced. -/
  | braces (enabled : settings.isEnabled "unbalanced-braces" = true)
      (unbalanced : ¬Balances 0 (tokenize source))

/-- Only two rules raise errors. -/
theorem Rule.severity_eq_error_iff (rule : Rule) :
    rule.severity = .error ↔ rule = .unterminatedLiteral ∨ rule = .unbalancedBraces := by
  cases rule <;> decide

end Lint

namespace Command

open Lint

/-- Some error is reported exactly if a rule that raises errors is not disabled and finds
something. -/
theorem hasError_lint (settings : LintSettings) (source : String) :
    hasError (SolidityTools.lint settings source) = true ↔
      ∃ rule : Rule, rule.severity = .error ∧ settings.isEnabled rule.code = true ∧
        rule.findings (.ofSource settings source) ≠ [] := by
  rw [hasError, (isStableOrder_lint settings source).perm.any_eq, List.any_eq_true]
  constructor
  · rintro ⟨issue, hissue, herror⟩
    obtain ⟨rule, hrule, hfound⟩ := List.mem_flatMap.mp hissue
    obtain ⟨f, hf, rfl⟩ := List.mem_map.mp hfound
    refine ⟨rule, by simpa using herror, ?_, List.ne_nil_of_mem hf⟩
    simpa [LintSettings.isEnabled] using (List.mem_filter.mp hrule).2
  · rintro ⟨rule, herror, henabled, hfindings⟩
    obtain ⟨f, hf⟩ := List.exists_mem_of_ne_nil _ hfindings
    refine ⟨_, List.mem_flatMap.mpr ⟨rule, List.mem_filter.mpr ⟨?_, ?_⟩, List.mem_map_of_mem hf⟩, ?_⟩
    · cases rule <;> decide
    · simpa [LintSettings.isEnabled] using henabled
    · simpa using herror

/-- **Errors are exact.** A file is reported with an error exactly if it is broken. -/
theorem hasError_lint_iff (settings : LintSettings) (source : String) :
    hasError (SolidityTools.lint settings source) = true ↔ Broken settings source := by
  rw [hasError_lint]
  constructor
  · rintro ⟨rule, herror, henabled, hfindings⟩
    rcases rule.severity_eq_error_iff.mp herror with rfl | rfl
    · obtain ⟨t, hlast, hunclosed⟩ := (unterminatedLiterals_ne_nil_iff settings source).mp hfindings
      exact .literal henabled hlast hunclosed
    · exact .braces henabled fun h => hfindings ((unbalancedBraces_eq_nil_iff settings source).mpr h)
  · rintro (⟨henabled, hlast, hunclosed⟩ | ⟨henabled, hunbalanced⟩)
    · exact ⟨.unterminatedLiteral, rfl, henabled,
        (unterminatedLiterals_ne_nil_iff settings source).mpr ⟨_, hlast, hunclosed⟩⟩
    · exact ⟨.unbalancedBraces, rfl, henabled,
        fun h => hunbalanced ((unbalancedBraces_eq_nil_iff settings source).mp h)⟩

end Command

end SolidityTools

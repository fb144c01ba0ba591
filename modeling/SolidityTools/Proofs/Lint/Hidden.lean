import SolidityTools.Proofs.Lint.Call
import SolidityTools.Proofs.Lint.Mask
import SolidityTools.Lint.Rule

set_option autoImplicit false

/-! # Rules do not read comments and strings

What stands in a comment or a string must not change what the rules find, but for the licence
identifier, which is looked for in comments. There are two ways by which it could. Patterns are
matched against the masked text, which depends on the length and the line feeds of a comment or a
string alone (`mask_eq_of_sameCode`). And the other rules go through the tokens, where comments and
strings are still in place; they find the same in redacted tokens, so they find the same wherever
the redacted tokens are the same (`Subject.SameCode`).
-/

namespace SolidityTools

open Text

/-! ## The same code -/

/-- Two tokens that are the same but for the text of a comment or a string. That text has the same
bytes and line feeds in both, and its closing delimiter is there in both or in neither. -/
structure Token.SameCode (t u : Token) : Prop where
  kind : t.kind = u.kind
  start : t.start = u.start
  stop : t.stop = u.stop
  text : Lint.isMasked t = false → t.text = u.text
  newlines : Lint.isMasked t = true →
    newlineOffsets t.start t.text.toList = newlineOffsets u.start u.text.toList
  terminated : Lint.isMasked t = true → t.isTerminated = u.isTerminated

instance (t u : Token) : Decidable (t.SameCode u) :=
  decidable_of_iff (t.kind = u.kind ∧ t.start = u.start ∧ t.stop = u.stop ∧
      (Lint.isMasked t = false → t.text = u.text) ∧
      (Lint.isMasked t = true →
        newlineOffsets t.start t.text.toList = newlineOffsets u.start u.text.toList) ∧
      (Lint.isMasked t = true → t.isTerminated = u.isTerminated))
    ⟨fun ⟨hkind, hstart, hstop, htext, hnewlines, hterminated⟩ =>
        ⟨hkind, hstart, hstop, htext, hnewlines, hterminated⟩,
      fun h => ⟨h.kind, h.start, h.stop, h.text, h.newlines, h.terminated⟩⟩

namespace Token.SameCode

variable {t u : Token}

theorem eq_of_isMasked_eq_false (h : t.SameCode u) (ht : Lint.isMasked t = false) : t = u := by
  obtain ⟨kind, text, start⟩ := t
  obtain ⟨kind', text', start'⟩ := u
  obtain rfl : kind = kind' := h.kind
  obtain rfl : text = text' := h.text ht
  obtain rfl : start = start' := h.start
  rfl

theorem isMasked_eq (h : t.SameCode u) : Lint.isMasked t = Lint.isMasked u := by
  rw [Lint.isMasked, Lint.isMasked, h.kind]

theorem redacted_eq (h : t.SameCode u) : t.redacted = u.redacted := by
  cases ht : Lint.isMasked t with
  | false => rw [h.eq_of_isMasked_eq_false ht]
  | true =>
      rw [redacted_of_isMasked ht, redacted_of_isMasked (h.isMasked_eq ▸ ht), h.kind, h.start]

theorem isTerminated_eq (h : t.SameCode u) : t.isTerminated = u.isTerminated := by
  cases ht : Lint.isMasked t with
  | false => rw [h.eq_of_isMasked_eq_false ht]
  | true => exact h.terminated ht

end Token.SameCode

theorem map_redacted_eq_of_sameCode {ts us : List Token} (h : List.Forall₂ Token.SameCode ts us) :
    ts.map Token.redacted = us.map Token.redacted := by
  induction h with
  | nil => rfl
  | cons h _ ih => rw [List.map_cons, List.map_cons, h.redacted_eq, ih]

namespace Lint

/-! ## The masked text -/

theorem eq_space_or_newline_of_mem_maskToken {t : Token} (ht : isMasked t = true) {c : Char}
    (hc : c ∈ maskToken t) : c = ' ' ∨ c = '\n' := by
  rw [maskToken, if_pos ht] at hc
  obtain ⟨d, -, hc⟩ := List.mem_flatMap.mp hc
  unfold maskCharacter at hc
  split at hc
  · exact Or.inr (List.mem_singleton.mp hc)
  · exact Or.inl (List.eq_of_mem_replicate hc)

theorem maskToken_eq_of_sameCode {t u : Token} (h : t.SameCode u) : maskToken t = maskToken u := by
  cases ht : isMasked t with
  | false => rw [h.eq_of_isMasked_eq_false ht]
  | true =>
      have hu : isMasked u = true := h.isMasked_eq ▸ ht
      have hstart := h.start
      have hstop := h.stop
      rw [Token.stop, Token.stop] at hstop
      have hlength : byteLength (maskToken t) = byteLength (maskToken u) := by
        rw [byteLength_maskToken, byteLength_maskToken]
        omega
      have hnewlines : newlineOffsets t.start (maskToken t)
          = newlineOffsets t.start (maskToken u) := by
        rw [newlineOffsets_maskToken, newlineOffsets_maskToken, h.newlines ht, hstart]
      exact eq_of_newlineOffsets_eq (fun c => eq_space_or_newline_of_mem_maskToken ht)
        (fun c => eq_space_or_newline_of_mem_maskToken hu) hlength hnewlines

theorem mask_eq_of_sameCode {ts us : List Token} (h : List.Forall₂ Token.SameCode ts us) :
    mask ts = mask us := by
  induction h with
  | nil => rfl
  | cons h _ ih => rw [mask_cons, mask_cons, maskToken_eq_of_sameCode h, ih]

/-! ## Searches in redacted tokens -/

/-- Braces are operators, so they stay as they are. -/
theorem unmatchedBraces_map_redacted (opened ts : List Token) :
    unmatchedBraces opened (ts.map Token.redacted) = unmatchedBraces opened ts := by
  induction ts generalizing opened with
  | nil => rfl
  | cons t ts ih =>
      simp only [List.map_cons, unmatchedBraces, Token.isOperator_redacted, ih]
      split
      · next hopens => rw [Token.redacted_of_isOperator hopens]
      · split
        · next hcloses => rw [Token.redacted_of_isOperator hcloses]
        · rfl

theorem isComparison_redacted (t : Token) : isComparison t.redacted = isComparison t :=
  t.isOperatorIn_redacted _

theorem comparedNumbers_map_redacted (inPragma : Bool) (before : Option Token) (ts : List Token) :
    comparedNumbers inPragma (before.map Token.redacted) (ts.map Token.redacted)
      = comparedNumbers inPragma before ts := by
  have hcomparison : ∀ o : Option Token, (o.map Token.redacted).any isComparison
      = o.any isComparison := by
    intro o
    cases o with
    | none => rfl
    | some t => exact isComparison_redacted t
  induction ts generalizing inPragma before with
  | nil => rfl
  | cons t ts ih =>
      have hrest : ∀ b, comparedNumbers b (some t.redacted) (ts.map Token.redacted)
          = comparedNumbers b (some t) ts := fun b => ih b (some t)
      simp only [List.map_cons, comparedNumbers, Token.isKeyword_redacted,
        Token.isOperator_redacted, Token.kind_redacted, List.head?_map, hcomparison, hrest]
      by_cases hnumber : t.kind = .number
      · rw [Token.redacted_of_kind hnumber (by decide) (by decide)]
      · simp [hnumber]

/-! ## Rules -/

/-- A search that sees no difference between `a` and `r a` finds the same where the `r a` are the
same. -/
theorem filterMap_filter_eq {α β : Type} {r : α → α} {p : α → Bool} {g : α → Option β}
    (hp : ∀ a, p (r a) = p a) (hg : ∀ a, g (r a) = g a) {as bs : List α}
    (h : as.map r = bs.map r) : (as.filter p).filterMap g = (bs.filter p).filterMap g := by
  have hmap : ∀ cs : List α, ((cs.map r).filter p).filterMap g = (cs.filter p).filterMap g := by
    intro cs
    have hp' : p ∘ r = p := funext hp
    have hg' : g ∘ r = g := funext hg
    rw [List.filter_map, List.filterMap_map, hp', hg']
  rw [← hmap as, h, hmap]

/-- Two files that are the same, for the rules, but for comments and strings. -/
structure Subject.SameCode (s s' : Subject) : Prop where
  settings : s.settings = s'.settings
  tokens : List.Forall₂ Token.SameCode s.tokens s'.tokens
  masked : s.masked = s'.masked
  significant : s.outline.tokens.map Token.redacted = s'.outline.tokens.map Token.redacted
  types : s.outline.types = s'.outline.types
  stateVariables : s.outline.stateVariables = s'.outline.stateVariables
  functions : s.outline.functions.map FunctionDeclaration.redacted
    = s'.outline.functions.map FunctionDeclaration.redacted

/-- The same code is prepared in the same way. -/
theorem Subject.sameCode_ofSource (settings : LintSettings) {source source' : String}
    (h : List.Forall₂ Token.SameCode (tokenize source) (tokenize source')) :
    (Subject.ofSource settings source).SameCode (.ofSource settings source') := by
  have hmasked : mask (tokenize source) = mask (tokenize source') := mask_eq_of_sameCode h
  have hlength : byteLength source.toList = byteLength source'.toList := by
    have hbytes : ∀ text : String, byteLength text.toList = byteLength (mask (tokenize text)) := by
      intro text
      rw [byteLength_mask, tokenize, Lexer.flatMap_text_tokensFrom]
    rw [hbytes, hbytes, hmasked]
  have hsignificant : (significantTokens (tokenize source)).map Token.redacted
      = (significantTokens (tokenize source')).map Token.redacted := by
    rw [← significantTokens_map Token.keepsCode_redacted,
      ← significantTokens_map Token.keepsCode_redacted, map_redacted_eq_of_sameCode h]
  constructor
  case settings => rfl
  case tokens => exact h
  case masked => exact hmasked
  case significant => exact hsignificant
  case types =>
    show typeDeclarations _ = typeDeclarations _
    rw [← typeDeclarations_map_redacted, hsignificant, typeDeclarations_map_redacted]
  case stateVariables =>
    show SolidityTools.stateVariables _ = SolidityTools.stateVariables _
    rw [← stateVariables_map_redacted, hsignificant, stateVariables_map_redacted]
  case functions =>
    show (functionDeclarations (byteLength source.toList) 0 _).map _
      = (functionDeclarations (byteLength source'.toList) 0 _).map _
    rw [← functionDeclarations_map_redacted, hsignificant, functionDeclarations_map_redacted,
      hlength]

namespace Subject.SameCode

variable {s s' : Subject}

theorem unterminatedLiterals_eq (h : s.SameCode s') :
    unterminatedLiterals s = unterminatedLiterals s' := by
  have htokens := h.tokens
  unfold unterminatedLiterals
  generalize s.tokens = ts at htokens ⊢
  generalize s'.tokens = us at htokens ⊢
  induction htokens with
  | nil => rfl
  | @cons t u ts us htoken _ ih =>
      rw [List.filter_cons, List.filter_cons, htoken.isTerminated_eq]
      split
      · rw [List.map_cons, List.map_cons, ih, htoken.start, htoken.kind]
      · exact ih

theorem unbalancedBraces_eq (h : s.SameCode s') : unbalancedBraces s = unbalancedBraces s' := by
  rw [unbalancedBraces, unbalancedBraces, ← unmatchedBraces_map_redacted [] s.outline.tokens,
    h.significant, unmatchedBraces_map_redacted]

theorem magicNumbers_eq (h : s.SameCode s') : magicNumbers s = magicNumbers s' := by
  have hnumbers : comparedNumbers false none s.outline.tokens
      = comparedNumbers false none s'.outline.tokens := by
    have hredacted := comparedNumbers_map_redacted false none s.outline.tokens
    rw [h.significant] at hredacted
    rw [← hredacted]
    exact comparedNumbers_map_redacted false none s'.outline.tokens
  rw [magicNumbers, magicNumbers, hnumbers, h.settings]

theorem unconventionalNames_eq (h : s.SameCode s') :
    unconventionalNames s = unconventionalNames s' := by
  rw [unconventionalNames, unconventionalNames, h.types, h.stateVariables]

theorem reentrantWrites_eq (h : s.SameCode s') : reentrantWrites s = reentrantWrites s' := by
  have hstate : s.outline.isMutableState = s'.outline.isMutableState := by
    funext name
    rw [Outline.isMutableState, Outline.isMutableState, Outline.mutableVariables,
      Outline.mutableVariables, h.stateVariables]
  rw [reentrantWrites, reentrantWrites, hstate]
  refine filterMap_filter_eq (r := FunctionDeclaration.redacted) (fun f => rfl) (fun f => ?_)
    h.functions
  -- the late write is a word, so it is found in the redacted body as well
  have hbody : f.redacted.bodyTokens = f.bodyTokens.map Token.redacted := by
    rw [FunctionDeclaration.bodyTokens, FunctionDeclaration.bodyTokens,
      FunctionDeclaration.redacted]
    cases f.body with
    | none => rfl
    | some body => rfl
  rw [hbody, lateWrite?_map_redacted]
  rfl

theorem findings_eq (h : s.SameCode s') {rule : Rule} (hrule : rule ≠ .missingLicence) :
    rule.findings s = rule.findings s' := by
  cases rule with
  | unterminatedLiteral => exact h.unterminatedLiterals_eq
  | unbalancedBraces => exact h.unbalancedBraces_eq
  | missingLicence => exact absurd rfl hrule
  | missingPragma =>
      simp only [Rule.findings, missingPragma, h.settings, h.masked]
  | floatingPragma => simp only [Rule.findings, floatingPragmas, h.masked]
  | uncheckedCall => simp only [Rule.findings, uncheckedCalls, h.masked]
  | reentrancy => exact h.reentrantWrites_eq
  | transactionOrigin => simp only [Rule.findings, transactionOrigins, h.masked]
  | blockValue => simp only [Rule.findings, blockValues, h.masked]
  | unboundedLoop => simp only [Rule.findings, unboundedLoops, h.masked]
  | magicNumber => exact h.magicNumbers_eq
  | namingConvention => exact h.unconventionalNames_eq

end Subject.SameCode

/-- **Comments and strings are not read.** Let two sources have the same tokens but for the texts
of comments and strings, and let these have the same bytes, line feeds and closing delimiters. Then
every rule but the one for the licence finds the same in both. -/
theorem findings_eq_of_sameCode (settings : LintSettings) {source source' : String}
    (h : List.Forall₂ Token.SameCode (tokenize source) (tokenize source')) {rule : Rule}
    (hrule : rule ≠ .missingLicence) :
    rule.findings (.ofSource settings source) = rule.findings (.ofSource settings source') :=
  (Subject.sameCode_ofSource settings h).findings_eq hrule

/-- A string and a comment that differ, around a number that is found in both files. -/
theorem findings_eq_of_other_literals :
    List.Forall₂ Token.SameCode (tokenize "s=\"1==7\";b==77;/*\né*/")
        (tokenize "s=\"\x7bnow\";b==77;/*\n8=*/") ∧
      Rule.magicNumber ≠ .missingLicence ∧
      Rule.magicNumber.findings (.ofSource .standard "s=\"1==7\";b==77;/*\né*/")
        = Rule.magicNumber.findings (.ofSource .standard "s=\"\x7bnow\";b==77;/*\n8=*/") := by
  have h : List.Forall₂ Token.SameCode (tokenize "s=\"1==7\";b==77;/*\né*/")
      (tokenize "s=\"\x7bnow\";b==77;/*\n8=*/") := by
    decide +kernel
  exact ⟨h, by decide, findings_eq_of_sameCode _ h (by decide)⟩

end Lint

end SolidityTools

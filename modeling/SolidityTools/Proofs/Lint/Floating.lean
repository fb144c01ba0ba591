import SolidityTools.Proofs.Lint.Directive
import SolidityTools.Proofs.Lint.Parenthesis
import SolidityTools.Proofs.Token.Alone
import SolidityTools.Proofs.Token.Place

set_option autoImplicit false

/-! # Which floating versions are reported

Among the tokens of a file a floating version is the words `pragma` and `solidity`, and an operator
with one of the marks `^`, `~` and `>` in front of the next semicolon (`FloatingDirective`). In the
masked text the two words have white space between them, since they would be one word otherwise, and
nothing but the operator `;` has a semicolon. So the operator is part of the version that the rule
reads there, if it reads one (`reports_directive_iff`).

It does not read one behind every directive. It wants white space behind `solidity`, which
`solidity^0.8.0` does not have, and it passes over the second directive of a clause
(`reports_floatingDirective_iff`).
-/

namespace SolidityTools

open Text

namespace Lint

/-! ## White space and words -/

/-- The white space outside ASCII. -/
def blankRanges : Ranges :=
  [(0x85, 0x85), (0xA0, 0xA0), (0x1680, 0x1680), (0x2000, 0x200A), (0x2028, 0x2029),
   (0x202F, 0x202F), (0x205F, 0x205F), (0x3000, 0x3000)]

theorem blankRanges_disjoint : ∀ range ∈ wordRanges, ∀ blank ∈ blankRanges,
    range.2 < blank.1 ∨ blank.2 < range.1 := by
  decide +kernel

theorem exists_mem_blankRanges {c : Char} (hascii : ¬c.toNat < 0x80) (h : isBlank c = true) :
    ∃ blank ∈ blankRanges, blank.1 ≤ c.toNat ∧ c.toNat ≤ blank.2 := by
  simp only [isBlank, Bool.or_eq_true, Bool.and_eq_true, decide_eq_true_eq, beq_iff_eq] at h
  simp only [blankRanges, List.exists_mem_cons_iff, List.not_mem_nil, false_and, exists_false,
    or_false]
  omega

theorem isWordCharacter_eq_false_of_isBlank {c : Char} (h : isBlank c = true) :
    isWordCharacter c = false := by
  unfold isWordCharacter
  split
  · have hpart := Lexer.isWordPart_eq_false_of_isBlank h
    rw [Lexer.isWordPart, Bool.or_eq_false_iff] at hpart
    exact hpart.1
  · next hascii =>
      obtain ⟨blank, hblank, hge, hle⟩ := exists_mem_blankRanges hascii h
      rw [Ranges.contains, List.any_eq_false]
      intro range hrange
      have := blankRanges_disjoint range hrange blank hblank
      simp only [Bool.and_eq_true, decide_eq_true_eq]
      omega

/-- A directive with white space behind it ends at a word boundary. -/
theorem OpensVersion.declaresVersion {text before : List Char} (h : OpensVersion text before) :
    DeclaresVersion text before := by
  obtain ⟨phrase, behind, hdirective, hhead⟩ := h
  refine ⟨phrase, behind, hdirective, ?_⟩
  cases behind with
  | nil => rfl
  | cons c behind => exact isWordCharacter_eq_false_of_isBlank (by simpa using hhead)

/-! ## Floating versions -/

/-- The marks that let a version float. -/
def isMark (c : Char) : Bool := c == '^' || c == '~' || c == '>'

theorem isFloating_eq_any (version : List Char) : isFloating version = version.any isMark := rfl

theorem isBlank_eq_false_of_isMark {c : Char} (h : isMark c = true) : isBlank c = false := by
  simp only [isMark, Bool.or_eq_true, beq_iff_eq] at h
  rcases h with (rfl | rfl) | rfl <;> decide

theorem isFloating_dropWhile (version : List Char) :
    isFloating (version.dropWhile isBlank) = isFloating version := by
  induction version with
  | nil => rfl
  | cons c version ih =>
      by_cases hc : isBlank c = true
      · have hmark : isMark c = false := by
          by_contra hmark
          rw [Bool.not_eq_false] at hmark
          rw [isBlank_eq_false_of_isMark hmark] at hc
          cases hc
        rw [List.dropWhile_cons_of_pos hc, ih, isFloating_eq_any, isFloating_eq_any, List.any_cons,
          hmark, Bool.false_or]
      · rw [List.dropWhile_cons_of_neg hc]

/-- Blanks around a version do not matter. -/
theorem isFloating_trim (version : List Char) : isFloating (trim version) = isFloating version := by
  have hreverse : ∀ cs, isFloating cs.reverse = isFloating cs := by
    intro cs
    rw [isFloating_eq_any, isFloating_eq_any, List.any_reverse]
  rw [trim, trimEnd, hreverse, isFloating_dropWhile, hreverse, trimStart, isFloating_dropWhile]

/-- A mark in front of the next semicolon is part of the version that is read. -/
theorem isFloating_version {A : List Char} (hsemicolon : ';' ∉ A) (hfloat : isFloating A = true)
    (B : List Char) : isFloating ((Pattern.blanks (A ++ B)).takeWhile (· != ';')) = true := by
  induction A with
  | nil => cases hfloat
  | cons c A ih =>
      rw [List.mem_cons, not_or] at hsemicolon
      by_cases hc : isBlank c = true
      · rw [← isFloating_dropWhile, List.dropWhile_cons_of_pos hc, isFloating_dropWhile] at hfloat
        rw [List.cons_append, Pattern.blanks, List.dropWhile_cons_of_pos hc]
        exact ih hsemicolon.2 hfloat
      · have hall : ∀ d ∈ c :: A, (d != ';') = true := by
          intro d hd
          rw [bne_iff_ne]
          rintro rfl
          exact (List.mem_cons.mp hd).elim hsemicolon.1 hsemicolon.2
        rw [List.cons_append, Pattern.blanks, List.dropWhile_cons_of_neg hc, ← List.cons_append,
          List.takeWhile_append_of_pos hall, isFloating_eq_any, List.any_append,
          ← isFloating_eq_any, hfloat, Bool.true_or]

/-! ## Reports in a text -/

section Reports

variable {s : Subject} {before phrase : List Char}

/-- A version is reported where it is read and floats. -/
theorem reports_iff_exists_hit {X : List Char} (htext : s.masked = before ++ X) :
    (∃ f ∈ floatingPragmas s, f.offset = byteLength before) ↔
      ∃ hit ∈ Pattern.pragmaVersion.hits s.masked, hit.before.reverse = before ∧
        isFloating hit.value = true := by
  simp only [floatingPragmas, List.mem_filterMap, isFloating_trim]
  constructor
  · rintro ⟨f, ⟨hit, hhit, hf⟩, hoffset⟩
    split at hf
    · next hfloat =>
        obtain rfl := Option.some.inj hf
        obtain ⟨phrase, behind, hreads⟩ := exists_readsVersion hhit
        have hcuts := hreads.directive.eq_append
        rw [htext] at hcuts
        refine ⟨hit, hhit, ?_, hfloat⟩
        exact (Lexer.eq_of_byteLength_eq hcuts (by rw [← hoffset, hit.start_eq])).symm
    · cases hf
  · rintro ⟨hit, hhit, rfl, hfloat⟩
    exact ⟨_, ⟨hit, hhit, if_pos hfloat⟩, hit.start_eq⟩

/-- A floating version is reported exactly if its directive opens one, as the first of its clause.
-/
theorem reports_directive_iff {A B : List Char}
    (htext : s.masked = before ++ (phrase ++ (A ++ B))) (hphrase : IsDirective phrase)
    (hsemicolon : ';' ∉ A) (hfloat : isFloating A = true) :
    (∃ f ∈ floatingPragmas s, f.offset = byteLength before) ↔
      OpensVersion s.masked before ∧ FirstInClause s.masked before := by
  rw [reports_iff_exists_hit htext, ← exists_versionHit_iff]
  constructor
  · rintro ⟨hit, hhit, hbefore, -⟩
    exact ⟨hit, hhit, hbefore⟩
  · rintro ⟨hit, hhit, hbefore⟩
    obtain ⟨phrase', behind, hreads⟩ := exists_readsVersion hhit
    have htext' := hreads.directive.eq_append
    rw [hbefore, htext] at htext'
    obtain ⟨-, rfl⟩ := hphrase.unique hreads.directive.phrase (List.append_cancel_left htext')
    refine ⟨hit, hhit, hbefore, ?_⟩
    rw [← hreads.value]
    exact isFloating_version hsemicolon hfloat B

/-- The directive at a place is the one that stands in the text there. -/
theorem opensVersion_iff {text behind : List Char} (htext : text = before ++ (phrase ++ behind))
    (hphrase : IsDirective phrase) :
    OpensVersion text before ↔ DeclaresVersion text before ∧ behind.head?.any isBlank = true := by
  constructor
  · intro hopens
    refine ⟨hopens.declaresVersion, ?_⟩
    obtain ⟨phrase', behind', hdirective, hhead⟩ := hopens
    have htext' := hdirective.eq_append
    rw [htext] at htext'
    obtain ⟨-, rfl⟩ := hphrase.unique hdirective.phrase (List.append_cancel_left htext')
    exact hhead
  · rintro ⟨⟨phrase', behind', hdirective, -⟩, hhead⟩
    exact ⟨phrase, behind, ⟨htext, hphrase, hdirective.boundary⟩, hhead⟩

end Reports

/-! ## Directives among the tokens -/

section Words

variable {source : String} {t u : Token} {c : Char} {w : List Char}

/-- What begins like a word is a word, and masking leaves it. -/
theorem isWord_and_maskToken (ht : t ∈ tokenize source) (htext : t.text.toList = c :: w)
    (hc : Lexer.isWordStart c = true) : t.isWord = true ∧ maskToken t = t.text.toList := by
  obtain ⟨_, d, v, rest, htext', hlex, -⟩ := Lexer.exists_tokensFrom_of_mem ht
  rw [htext] at htext'
  obtain ⟨rfl, rfl⟩ := List.cons.inj htext'
  have hword := Lexer.isWord_of_lexeme hc hlex
  exact ⟨hword, maskToken_of_isWord hword⟩

/-- What stands between two words is not empty, and masking leaves blanks of white space and
comments. -/
theorem isBlank_mask_between {front gap back : List Token}
    (h : tokenize source = front ++ t :: (gap ++ u :: back)) (ht : t.isWord = true)
    (hu : u.isWord = true) (hgap : significantTokens gap = []) :
    mask gap ≠ [] ∧ (mask gap).all isBlank = true := by
  have hmem : ∀ g ∈ gap, g ∈ tokenize source := by
    intro g hg
    rw [h]
    simp [hg]
  constructor
  · cases gap with
    | nil =>
        -- the two words would be one
        have hchain := Lexer.isChain_tokensFrom 0 source.toList
        rw [List.isChain_iff_forall_rel_of_append_cons_cons] at hchain
        exact absurd ⟨ht, hu⟩ (hchain h).words
    | cons g gap =>
        intro hnil
        rw [mask_cons, List.append_eq_nil_iff] at hnil
        exact maskToken_ne_nil (hmem g List.mem_cons_self) hnil.1
  · rw [mask, List.all_flatMap, List.all_eq_true]
    intro g hg
    obtain ⟨_, c, w, rest, htext, hlex, -⟩ := Lexer.exists_tokensFrom_of_mem (hmem g hg)
    have hhidden : g.kind = .whitespace ∨ isMasked g = true := by
      have htrivia : g.isTrivia = true := by simpa using List.filter_eq_nil_iff.mp hgap g hg
      rw [Token.isTrivia, Bool.or_eq_true, beq_iff_eq, beq_iff_eq] at htrivia
      exact htrivia.imp_right fun hcomment => by simp [isMasked, hcomment]
    have hblank := all_isAsciiBlank_maskToken_of_lexeme htext hlex hhidden
    rw [List.all_eq_true] at hblank ⊢
    exact fun d hd => isBlank_of_isAsciiBlank (hblank d hd)

end Words

/-- A floating version among the significant tokens of a source: the words `pragma` and `solidity`,
and an operator with a mark in front of the next semicolon. -/
structure FloatingDirective (source : String) where
  /-- The tokens in front of the directive. -/
  before : List Token
  /-- The word `pragma`. -/
  pragma : Token
  /-- The word `solidity`. -/
  solidity : Token
  /-- The tokens in front of the operator. -/
  version : List Token
  /-- The operator that lets the version float. -/
  operator : Token
  /-- The tokens behind the operator. -/
  behind : List Token
  eq_append : tokenizeSignificant source
    = before ++ pragma :: solidity :: (version ++ operator :: behind)
  pragma_text : pragma.text = "pragma"
  solidity_text : solidity.text = "solidity"
  version_text : ∀ t ∈ version, t.text ≠ ";"
  operator_kind : operator.kind = .operator
  operator_floats : isFloating operator.text.toList = true

namespace FloatingDirective

variable {source : String}

/-- The tokens of a directive in the source, with white space and comments. -/
theorem exists_tokens (d : FloatingDirective source) :
    ∃ front gap version back,
      tokenize source
        = front ++ d.pragma :: (gap ++ d.solidity :: (version ++ d.operator :: back)) ∧
      significantTokens gap = [] ∧ significantTokens version = d.version := by
  obtain ⟨front, rest, hsource, -, hrest⟩ := exists_append_of_significantTokens d.eq_append
  have hsolidity : significantTokens rest
      = [] ++ d.solidity :: (d.version ++ d.operator :: d.behind) := hrest
  obtain ⟨gap, rest', rfl, hgap, hrest'⟩ := exists_append_of_significantTokens hsolidity
  obtain ⟨version, back, rfl, hversion, -⟩ := exists_append_of_significantTokens hrest'
  exact ⟨front, gap, version, back, hsource, hgap, hversion⟩

/-- The masked text of a directive is a version directive of the masked text. -/
theorem isDirective_mask (d : FloatingDirective source) {front gap back : List Token}
    (h : tokenize source = front ++ d.pragma :: (gap ++ d.solidity :: back))
    (hgap : significantTokens gap = []) :
    IsDirective (maskToken d.pragma ++ (mask gap ++ maskToken d.solidity)) := by
  have hpragma : d.pragma.text.toList = 'p' :: "ragma".toList := by
    rw [d.pragma_text]
    decide
  have hsolidity : d.solidity.text.toList = 's' :: "olidity".toList := by
    rw [d.solidity_text]
    decide
  have hmem : d.pragma ∈ tokenize source := by simp [h]
  have hmem' : d.solidity ∈ tokenize source := by simp [h]
  obtain ⟨hword, hmask⟩ := isWord_and_maskToken hmem hpragma (by decide)
  obtain ⟨hword', hmask'⟩ := isWord_and_maskToken hmem' hsolidity (by decide)
  obtain ⟨hne, hblank⟩ := isBlank_mask_between h hword hword' hgap
  exact ⟨mask gap, hne, hblank, by rw [hmask, hmask', d.pragma_text, d.solidity_text]⟩

/-- In front of the operator and in it there is no semicolon, not even in comments and strings. -/
theorem semicolon_notMem (d : FloatingDirective source) {version : List Token}
    (hmem : ∀ t ∈ version ++ [d.operator], t ∈ tokenize source)
    (hversion : significantTokens version = d.version) : ';' ∉ mask (version ++ [d.operator]) := by
  intro hsemicolon
  obtain ⟨t, ht, hsemicolon⟩ := List.mem_flatMap.mp hsemicolon
  have hoperator : t.isOperator ";" = true :=
    isOperator_of_mem_maskToken (hmem t ht) (by decide) hsemicolon
  have htext := Token.text_of_isOperator hoperator
  rcases List.mem_append.mp ht with ht | ht
  · refine d.version_text t ?_ htext
    rw [← hversion]
    exact List.mem_filter.mpr
      ⟨ht, by simp [Token.isTrivia, Token.kind_of_isOperator hoperator]⟩
  · obtain rfl := List.mem_singleton.mp ht
    have hfloats := d.operator_floats
    rw [htext] at hfloats
    exact absurd hfloats (by decide)

theorem isFloating_mask (d : FloatingDirective source) (version : List Token) :
    isFloating (mask (version ++ [d.operator])) = true := by
  have hmask : maskToken d.operator = d.operator.text.toList :=
    maskToken_of_visible (by simp [isMasked, d.operator_kind])
  have hfloats := d.operator_floats
  have hlast : mask [d.operator] = d.operator.text.toList := by
    rw [mask, List.flatMap_singleton, hmask]
  rw [mask_append, hlast, isFloating_eq_any, List.any_append,
    ← isFloating_eq_any d.operator.text.toList, hfloats, Bool.or_true]

end FloatingDirective

/-- **Which floating versions are reported.** A floating version is reported at the word `pragma`
exactly if its two words stand between word boundaries, the masked text goes on with white space
directly behind them, and no such directive begins in front of it since the last semicolon. White
space there is white space, a comment or a string of the source. -/
theorem reports_floatingDirective_iff (settings : LintSettings) {source : String}
    (d : FloatingDirective source) :
    ∃ front gap back, tokenize source = front ++ d.pragma :: (gap ++ d.solidity :: back) ∧
      significantTokens gap = [] ∧
      ((∃ f ∈ floatingPragmas (.ofSource settings source), f.offset = d.pragma.start) ↔
        DeclaresVersion (mask (tokenize source)) (mask front) ∧
          (mask back).head?.any isBlank = true ∧
          FirstInClause (mask (tokenize source)) (mask front)) := by
  obtain ⟨front, gap, version, back, hsource, hgap, hversion⟩ := d.exists_tokens
  have hphrase := d.isDirective_mask hsource hgap
  have hback : mask (version ++ d.operator :: back)
      = mask (version ++ [d.operator]) ++ mask back := by
    rw [← mask_append, List.append_assoc, List.singleton_append]
  have htext : mask (tokenize source) = mask front
      ++ ((maskToken d.pragma ++ (mask gap ++ maskToken d.solidity))
        ++ mask (version ++ d.operator :: back)) := by
    rw [hsource]
    simp only [mask_append, mask_cons, List.append_assoc]
  have hstart : d.pragma.start = byteLength (mask front) := by
    rw [byteLength_mask, Lexer.start_eq_of_tokensFrom_eq_append hsource, Nat.zero_add]
  have hmem : ∀ t ∈ version ++ [d.operator], t ∈ tokenize source := by
    intro t ht
    rw [hsource]
    rcases List.mem_append.mp ht with ht | ht
    · simp [ht]
    · simp [List.mem_singleton.mp ht]
  refine ⟨front, gap, version ++ d.operator :: back, hsource, hgap, ?_⟩
  have hreports := reports_directive_iff (s := .ofSource settings source) (hback ▸ htext) hphrase
    (d.semicolon_notMem hmem hversion) (d.isFloating_mask version)
  rw [hstart, hreports, ← and_assoc]
  exact and_congr_left' (opensVersion_iff htext hphrase)

section Example

/-- A directive at the beginning of a source, with a caret as the first token of the version. -/
def caretDirective {source : String} (i j : Nat)
    (h : tokenizeSignificant source = ⟨.keyword, "pragma", 0⟩ :: ⟨.keyword, "solidity", i⟩
      :: ⟨.operator, "^", j⟩ :: (tokenizeSignificant source).drop 3) :
    FloatingDirective source where
  before := []
  pragma := ⟨.keyword, "pragma", 0⟩
  solidity := ⟨.keyword, "solidity", i⟩
  version := []
  operator := ⟨.operator, "^", j⟩
  behind := (tokenizeSignificant source).drop 3
  eq_append := h
  pragma_text := rfl
  solidity_text := rfl
  version_text := fun t ht => by cases ht
  operator_kind := rfl
  operator_floats := show isFloating "^".toList = true by decide

/-- Comments alone keep the words and the version apart. -/
theorem reports_caret_behind_comment :
    ∃ d : FloatingDirective "pragma/* */solidity/**/^0.8.0;", d.pragma.start = 0 ∧
      (∃ f ∈ floatingPragmas (.ofSource .standard "pragma/* */solidity/**/^0.8.0;"),
        f.offset = d.pragma.start) ∧
      ∃ front back, (mask back).head?.any isBlank = true ∧
        FirstInClause (mask (tokenize "pragma/* */solidity/**/^0.8.0;")) (mask front) := by
  have hreports : ∃ f ∈ floatingPragmas (.ofSource .standard "pragma/* */solidity/**/^0.8.0;"),
      f.offset = 0 := by
    decide +kernel
  let d : FloatingDirective "pragma/* */solidity/**/^0.8.0;" :=
    caretDirective 11 23 (by decide +kernel)
  obtain ⟨front, gap, back, -, -, hiff⟩ := reports_floatingDirective_iff .standard d
  obtain ⟨-, hblank, hfirst⟩ := hiff.mp hreports
  exact ⟨d, rfl, hreports, front, back, hblank, hfirst⟩

/-- A caret that follows the words directly: the directive is not missing, and it is not reported. -/
theorem not_reports_caret_behind_solidity :
    ∃ d : FloatingDirective "pragma solidity^0.8.0;",
      missingPragma (.ofSource .standard "pragma solidity^0.8.0;") = [] ∧
      ∀ f ∈ floatingPragmas (.ofSource .standard "pragma solidity^0.8.0;"),
        f.offset ≠ d.pragma.start := by
  refine ⟨caretDirective 7 15 (by decide +kernel), ?_, ?_⟩
  · decide +kernel
  · decide +kernel

end Example

end Lint

end SolidityTools

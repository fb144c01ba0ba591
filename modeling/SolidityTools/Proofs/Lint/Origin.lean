import SolidityTools.Proofs.Lint.Directive
import SolidityTools.Proofs.Lint.Edge
import SolidityTools.Proofs.Lint.Phrase
import Mathlib.Data.List.Sort

set_option autoImplicit false

/-! # Which uses of the transaction's origin are reported

The origin of the transaction is used where the word `tx`, a dot and the word `origin` follow one
another among the significant tokens. The rule searches the masked text instead, and its pattern has
notions of its own of where a word begins and ends and of what may stand between. Both are compared
here for two words with a dot between them: whether the two are a use, and whether the pattern
passes them (`mem_transactionOrigins_iff`). They differ for words with a dollar sign, for words next
to numbers, and where strings stand between the words.
-/

namespace SolidityTools.Lint

open Text

/-! ## Two words with a dot between them -/

/-- Two words with a dot between them, with all the tokens of a source around. -/
structure DottedWords (source : String) where
  /-- The tokens in front of the first word. -/
  front : List Token
  first : Token
  /-- The tokens in front of the dot. -/
  gap : List Token
  dot : Token
  /-- The tokens behind the dot. -/
  gap' : List Token
  second : Token
  /-- The tokens behind the second word. -/
  back : List Token
  eq_append : tokenize source = front ++ first :: (gap ++ dot :: (gap' ++ second :: back))
  first_isWord : first.isWord = true
  dot_isOperator : dot.isOperator "." = true
  second_isWord : second.isWord = true

namespace DottedWords

variable {source : String}

/-- The words are a use of the origin: they are `tx` and `origin`, and with the dot they follow one
another among the significant tokens. -/
def IsUse (d : DottedWords source) : Prop :=
  d.first.text = "tx" ∧ d.second.text = "origin" ∧ ∀ t ∈ d.gap ++ d.gap', t.isTrivia = true

/-- The pattern takes the end of the first word for `tx`. -/
def FirstFits (d : DottedWords source) : Prop :=
  d.first.text = "tx" ∧ (∀ u ∈ d.front.getLast?, ¬u.LooksWord) ∨
    "$tx".toList <:+ d.first.text.toList

/-- The pattern takes the beginning of the second word for `origin`. -/
def SecondFits (d : DottedWords source) : Prop :=
  d.second.text = "origin" ∧ (∀ u ∈ d.back.head?, ¬u.LooksWord) ∨
    "origin$".toList <+: d.second.text.toList

def Passes (d : DottedWords source) : Prop :=
  d.FirstFits ∧ d.SecondFits ∧ ∀ t ∈ d.gap ++ d.gap', t.LooksBlank

instance (d : DottedWords source) : Decidable d.IsUse := inferInstanceAs (Decidable (_ ∧ _ ∧ _))

instance (d : DottedWords source) : Decidable d.FirstFits := inferInstanceAs (Decidable (_ ∨ _))

instance (d : DottedWords source) : Decidable d.SecondFits := inferInstanceAs (Decidable (_ ∨ _))

instance (d : DottedWords source) : Decidable d.Passes := inferInstanceAs (Decidable (_ ∧ _ ∧ _))

theorem first_mem (d : DottedWords source) : d.first ∈ tokenize source := by simp [d.eq_append]

theorem second_mem (d : DottedWords source) : d.second ∈ tokenize source := by simp [d.eq_append]

theorem second_eq_append (d : DottedWords source) : tokenize source
    = (d.front ++ d.first :: (d.gap ++ d.dot :: d.gap')) ++ d.second :: d.back := by
  simp [d.eq_append]

/-- The first word fits where `tx` ends it and begins at a word boundary of the masked text. -/
theorem firstFits_iff (d : DottedWords source) :
    d.FirstFits ↔ ∃ lead, d.first.text.toList = lead ++ "tx".toList ∧
      Pattern.atBoundary (mask d.front ++ lead).getLast? = true := by
  have hboundary := atBoundary_mask_iff d.eq_append d.first_isWord
  constructor
  · rintro (⟨htext, hfront⟩ | ⟨lead, htext⟩)
    · exact ⟨[], by rw [htext]; rfl, by rw [List.append_nil]; exact hboundary.mpr hfront⟩
    · refine ⟨lead ++ ['$'], by rw [← htext]; simp, ?_⟩
      rw [← List.append_assoc, List.getLast?_concat]
      rfl
  · rintro ⟨lead, htext, hlead⟩
    rcases List.eq_nil_or_concat lead with rfl | ⟨lead, c, rfl⟩
    · rw [List.append_nil] at hlead
      exact Or.inl ⟨String.toList_inj.mp htext, hboundary.mp hlead⟩
    · rw [List.concat_eq_append] at htext hlead
      have hpart := isWordPart_of_isWord d.first_mem d.first_isWord
      rw [htext] at hpart
      rw [← List.append_assoc, List.getLast?_concat] at hlead
      have hc : c = '$' := by
        refine Lexer.eq_dollar_of_isWordPart (List.all_eq_true.mp hpart c (by simp)) ?_
        simpa [Pattern.atBoundary] using hlead
      exact Or.inr ⟨lead, by rw [htext, hc]; simp⟩

/-- The second word fits where `origin` begins it and ends at a word boundary of the masked text. -/
theorem secondFits_iff (d : DottedWords source) :
    d.SecondFits ↔ ∃ rest, d.second.text.toList = "origin".toList ++ rest ∧
      (rest ++ mask d.back).head?.any isWordCharacter = false := by
  have hboundary := head?_mask_iff d.second_eq_append d.second_isWord
  constructor
  · rintro (⟨htext, hback⟩ | ⟨rest, htext⟩)
    · exact ⟨[], by rw [htext]; rfl, hboundary.mpr hback⟩
    · exact ⟨'$' :: rest, by rw [← htext]; simp, rfl⟩
  · rintro ⟨rest, htext, hrest⟩
    cases rest with
    | nil => exact Or.inl ⟨String.toList_inj.mp (by simpa using htext), hboundary.mp hrest⟩
    | cons c rest =>
        have hpart := isWordPart_of_isWord d.second_mem d.second_isWord
        rw [htext] at hpart
        have hc : c = '$' := Lexer.eq_dollar_of_isWordPart
          (List.all_eq_true.mp hpart c (by simp)) hrest
        exact Or.inr ⟨rest, by rw [htext, hc]; simp⟩

theorem gap_subset (d : DottedWords source) : ∀ t ∈ d.gap ++ d.gap', t ∈ tokenize source := by
  intro t ht
  rw [d.eq_append]
  rcases List.mem_append.mp ht with ht | ht <;> simp [ht]

theorem mask_tokenize (d : DottedWords source) : mask (tokenize source)
    = mask d.front ++ (d.first.text.toList ++ (mask d.gap ++
      '.' :: (mask d.gap' ++ (d.second.text.toList ++ mask d.back)))) := by
  have hdot : maskToken d.dot = ['.'] := maskToken_of_isOperator d.dot_isOperator
  rw [d.eq_append]
  simp only [mask_append, mask_cons, hdot, maskToken_of_isWord d.first_isWord,
    maskToken_of_isWord d.second_isWord, List.singleton_append]

theorem exists_hit (d : DottedWords source) (h : d.Passes) :
    ∃ hit ∈ Pattern.transactionOrigin.hits (mask (tokenize source)),
      hit.start + 2 = d.first.stop := by
  obtain ⟨hfirst, hsecond, hgap⟩ := h
  obtain ⟨lead, htext, hboundary⟩ := d.firstFits_iff.mp hfirst
  obtain ⟨rest, htext', hrest⟩ := d.secondFits_iff.mp hsecond
  rw [looksBlank_mask_iff d.gap_subset, mask_append, List.all_append, Bool.and_eq_true] at hgap
  refine ⟨⟨(mask d.front ++ lead).reverse, (), "tx".toList ++ (mask d.gap ++
    '.' :: (mask d.gap' ++ "origin".toList)), rest ++ mask d.back⟩, ?_, ?_⟩
  · refine Pattern.transactionOrigin_spells.mem_hits_iff.mpr ⟨?_, ?_, ?_⟩
    · rw [d.mask_tokenize, htext, htext']
      simp
    · rw [← List.getLast?_eq_head?_reverse]
      exact hboundary
    · exact ⟨hrest, mask d.gap, mask d.gap', "origin", by simp, hgap.1, hgap.2, rfl⟩
  · have hstart := Lexer.start_eq_of_tokensFrom_eq_append d.eq_append
    have htx : byteLength "tx".toList = 2 := by decide
    rw [Hit.start, byteLength_reverse, byteLength_append, byteLength_mask, Token.stop, hstart,
      htext, byteLength_append, htx]
    omega

end DottedWords

section Hits

variable {source : String} {front behind : List Token} {gap X Y : List Char}

theorem lexeme_dot (cs : List Char) : Lexer.lexeme '.' cs = (.operator, 0) :=
  (Lexer.Scanned.operator rfl rfl rfl rfl
    (Lexer.operatorLength?_of_head (by decide) rfl cs)).lexeme_eq

/-- Where `tx` stands in the masked text and no word goes on behind it, it ends a word. -/
theorem exists_of_tx (h : mask (tokenize source) = X ++ ("tx".toList ++ Y))
    (hY : ∀ c ∈ Y.head?, Lexer.isWordPart c = false) :
    ∃ front first behind lead, tokenize source = front ++ first :: behind ∧
      first.isWord = true ∧ first.text.toList = lead ++ "tx".toList ∧ X = mask front ++ lead ∧
      Y = mask behind := by
  obtain ⟨front, first, behind, lead, tail, hsource, hvisible, htext, hX, htail⟩ :=
    exists_token_of_mask (show mask (tokenize source) = X ++ 't' :: ('x' :: Y) from h) (by decide)
  have hmem : first ∈ tokenize source := by simp [hsource]
  have ht : 't' ∈ first.text.toList := by simp [htext]
  have hword := isWord_of_mem_text hmem hvisible ht (by decide) (by decide)
  have hparts : tail.all Lexer.isWordPart = true := by
    have hall := isWordPart_of_isWord hmem hword
    rw [htext, List.all_append, List.all_cons, Bool.and_eq_true, Bool.and_eq_true] at hall
    exact hall.2.2
  obtain ⟨rfl, rfl⟩ := append_inj_of_all hparts (show ['x'].all Lexer.isWordPart = true from rfl)
    (fun c hc => isWordPart_eq_false_of_mem_head? hsource hword hc) hY
    (show tail ++ mask behind = ['x'] ++ Y from htail.symm)
  exact ⟨front, first, behind, lead, hsource, hword, htext, hX, rfl⟩

/-- Where a dot stands behind blanks of the masked text, it is a token. -/
theorem exists_of_dot (hsource : tokenize source = front ++ behind)
    (h : mask behind = gap ++ '.' :: Y) (hgap : gap.all isBlank = true) :
    ∃ between dot rest, behind = between ++ dot :: rest ∧ (∀ u ∈ between, u.LooksBlank) ∧
      dot.isOperator "." = true ∧ Y = mask rest := by
  have hmem : ∀ t ∈ behind, t ∈ tokenize source := fun t ht => by simp [hsource, ht]
  obtain ⟨between, dot, rest, tail, rfl, hblank, htext, -, rfl⟩ :=
    exists_token_of_blanks hmem h hgap (by decide)
  obtain ⟨_, c, w, X, htext', hlex, -⟩ := Lexer.exists_tokensFrom_of_mem (hmem dot (by simp))
  rw [htext] at htext'
  obtain ⟨rfl, rfl⟩ := List.cons.inj htext'
  rw [lexeme_dot, Prod.mk.injEq] at hlex
  obtain rfl : tail = [] := List.eq_nil_of_length_eq_zero hlex.2.symm
  refine ⟨between, dot, rest, rfl, hblank, ?_, rfl⟩
  rw [Token.isOperator, ← hlex.1, String.toList_inj.mp (htext.trans (by decide : _ = ".".toList))]
  rfl

/-- Where `origin` stands behind blanks of the masked text, it begins a word. -/
theorem exists_of_origin (hsource : tokenize source = front ++ behind)
    (h : mask behind = gap ++ ("origin".toList ++ Y)) (hgap : gap.all isBlank = true) :
    ∃ between second back rest, behind = between ++ second :: back ∧
      (∀ u ∈ between, u.LooksBlank) ∧ second.isWord = true ∧
      second.text.toList = "origin".toList ++ rest ∧ Y = rest ++ mask back := by
  have hmem : ∀ t ∈ behind, t ∈ tokenize source := fun t ht => by simp [hsource, ht]
  obtain ⟨between, second, back, tail, rfl, hblank, htext, -, htail⟩ := exists_token_of_blanks hmem
    (show mask behind = gap ++ 'o' :: ("rigin".toList ++ Y) from h) hgap (by decide)
  have hword := (isWord_and_maskToken (hmem second (by simp)) htext (by decide)).1
  refine ⟨between, second, back, ?_⟩
  rcases List.append_eq_append_iff.mp htail with ⟨rest, rfl, hY⟩ | ⟨m, hm, hmask⟩
  · exact ⟨rest, rfl, hblank, hword, htext, hY⟩
  · cases m with
    | nil =>
        rw [List.append_nil] at hm
        exact ⟨[], rfl, hblank, hword, by rw [htext, ← hm]; rfl, hmask.symm⟩
    | cons c m =>
        -- the word would end in `origin`, and go on behind its end
        have hsplit : tokenize source = (front ++ between) ++ second :: back := by simp [hsource]
        have hc := isWordPart_eq_false_of_mem_head? hsplit hword
          (show c ∈ (mask back).head? by rw [hmask]; rfl)
        have hall : "rigin".toList.all Lexer.isWordPart = true := by decide
        rw [List.all_eq_true.mp hall c (by rw [hm]; simp)] at hc
        cases hc

/-- Where the pattern has a hit, there are two words that it passes. -/
theorem exists_dottedWords {hit : Hit Unit}
    (h : hit ∈ Pattern.transactionOrigin.hits (mask (tokenize source))) :
    ∃ d : DottedWords source, d.Passes ∧ hit.start + 2 = d.first.stop := by
  obtain ⟨htext, hboundary, hnext, gap, gap', member, hmember, hgap, hgap', hphrase⟩ :=
    Pattern.transactionOrigin_spells.mem_hits_iff.mp h
  obtain rfl := List.mem_singleton.mp hmember
  have htext' : mask (tokenize source) = hit.before.reverse ++ ("tx".toList ++ (gap ++
      '.' :: (gap' ++ ("origin".toList ++ hit.behind)))) := by
    rw [htext, hphrase]
    simp
  have hdot : ∀ c ∈ (gap ++ '.' :: (gap' ++ ("origin".toList ++ hit.behind))).head?,
      Lexer.isWordPart c = false := by
    intro c hc
    cases gap with
    | nil => rw [← Option.some.inj hc]; rfl
    | cons e gap =>
        rw [← Option.some.inj hc]
        exact Lexer.isWordPart_eq_false_of_isBlank (List.all_eq_true.mp hgap e List.mem_cons_self)
  obtain ⟨front, first, behind, lead, hsource, hfirst, hlead, hbefore, hbehind⟩ :=
    exists_of_tx htext' hdot
  have hsource' : tokenize source = (front ++ [first]) ++ behind := by simp [hsource]
  obtain ⟨between, dot, rest, rfl, hblank, hoperator, hrest⟩ :=
    exists_of_dot hsource' hbehind.symm hgap
  have hsource'' : tokenize source = (front ++ first :: (between ++ [dot])) ++ rest := by
    simp [hsource]
  obtain ⟨between', second, back, tail, rfl, hblank', hsecond, htail, hback⟩ :=
    exists_of_origin hsource'' hrest.symm hgap'
  let d : DottedWords source :=
    ⟨front, first, between, dot, between', second, back, hsource, hfirst, hoperator, hsecond⟩
  refine ⟨d, ⟨?_, ?_, ?_⟩, ?_⟩
  · refine d.firstFits_iff.mpr ⟨lead, hlead, ?_⟩
    rw [← hbefore, List.getLast?_reverse]
    exact hboundary
  · refine d.secondFits_iff.mpr ⟨tail, htail, ?_⟩
    rw [← hback]
    exact hnext
  · intro t ht
    exact (List.mem_append.mp ht).elim (hblank t) (hblank' t)
  · have hstart := Lexer.start_eq_of_tokensFrom_eq_append hsource
    have htx : byteLength "tx".toList = 2 := by decide
    rw [hit.start_eq, hbefore, byteLength_append, byteLength_mask, Token.stop, hstart, hlead,
      byteLength_append, htx]
    omega

end Hits

/-! ## Two words are known by their place -/

/-- What looks blank is neither an operator nor a word. -/
theorem not_of_looksBlank {t : Token} (h : t.LooksBlank) :
    t.isOperator "." = false ∧ t.isWord = false := by
  rcases h with htrivia | hkind | ⟨hkind, -⟩
  · rw [Token.isTrivia, Bool.or_eq_true, beq_iff_eq, beq_iff_eq] at htrivia
    rcases htrivia with hkind | hkind <;> simp [Token.isOperator, Token.isWord, hkind]
  · simp [Token.isOperator, Token.isWord, hkind]
  · simp [Token.isOperator, Token.isWord, hkind]

namespace DottedWords

variable {source : String}

theorem IsUse.looksBlank {d : DottedWords source} (h : d.IsUse) :
    ∀ t ∈ d.gap ++ d.gap', t.LooksBlank := fun t ht => Or.inl (h.2.2 t ht)

/-- The words and what stands between them are known by where the first word ends. -/
theorem ext_stop (d d' : DottedWords source) (hd : ∀ t ∈ d.gap ++ d.gap', t.LooksBlank)
    (hd' : ∀ t ∈ d'.gap ++ d'.gap', t.LooksBlank) (h : d.first.stop = d'.first.stop) : d = d' := by
  have hordered := Lexer.ordered_tokenize source
  have hfirst := hordered.eq_of_stop_eq d.first_mem d'.first_mem h
  obtain ⟨front, first, gap, dot, gap', second, back, hsplit, hword, hdot, hword'⟩ := d
  obtain ⟨front₂, first₂, gap₂, dot₂, gap₂', second₂, back₂, hsplit₂, hword₂, hdot₂, hword₂'⟩ := d'
  obtain rfl : first = first₂ := hfirst
  obtain ⟨rfl, hbehind⟩ := Group.eq_of_nodup hordered.nodup hsplit hsplit₂
  have hblank : ∀ t ∈ gap ++ gap', t.isOperator "." = false ∧ t.isWord = false :=
    fun t ht => not_of_looksBlank (hd t ht)
  have hblank₂ : ∀ t ∈ gap₂ ++ gap₂', t.isOperator "." = false ∧ t.isWord = false :=
    fun t ht => not_of_looksBlank (hd' t ht)
  obtain ⟨rfl, rfl, hrest⟩ := append_cons_inj_of_first (p := (·.isOperator "."))
    (fun t ht => (hblank t (by simp [ht])).1) (fun t ht => (hblank₂ t (by simp [ht])).1)
    hdot hdot₂ hbehind
  obtain ⟨rfl, rfl, rfl⟩ := append_cons_inj_of_first (p := Token.isWord)
    (fun t ht => (hblank t (by simp [ht])).2) (fun t ht => (hblank₂ t (by simp [ht])).2)
    hword' hword₂' hrest
  rfl

end DottedWords

/-! ## Uses among the significant tokens -/

/-- The places where the origin of the transaction is used. -/
def originUses : List Token → List Nat
  | t :: dot :: u :: ts =>
    if t.isWord && t.text == "tx" && dot.isOperator "." && u.isWord && u.text == "origin" then
      t.start :: originUses (dot :: u :: ts)
    else originUses (dot :: u :: ts)
  | _ => []

theorem originUses_sublist (ts : List Token) : (originUses ts).Sublist (ts.map (·.start)) := by
  fun_induction originUses ts with
  | case1 t dot u ts huse ih => exact ih.cons_cons t.start
  | case2 t dot u ts huse ih => exact ih.cons t.start
  | case3 => exact List.nil_sublist _

def UsesOrigin (t dot u : Token) : Prop :=
  t.isWord = true ∧ t.text = "tx" ∧ dot.isOperator "." = true ∧ u.isWord = true ∧ u.text = "origin"

theorem mem_originUses_iff {ts : List Token} {offset : Nat} :
    offset ∈ originUses ts ↔ ∃ before t dot u behind, ts = before ++ t :: dot :: u :: behind ∧
      UsesOrigin t dot u ∧ t.start = offset := by
  fun_induction originUses ts with
  | case1 t dot u ts huse ih =>
      rw [List.mem_cons, ih]
      constructor
      · rintro (rfl | ⟨before, t', dot', u', behind, hts, huse'⟩)
        · exact ⟨[], t, dot, u, ts, rfl, by simpa [UsesOrigin, and_assoc] using huse, rfl⟩
        · exact ⟨t :: before, t', dot', u', behind, by rw [hts]; rfl, huse'⟩
      · rintro ⟨before, t', dot', u', behind, hts, huse', hoffset⟩
        cases before with
        | nil =>
            rw [(List.cons.inj hts).1]
            exact Or.inl hoffset.symm
        | cons v before =>
            exact Or.inr ⟨before, t', dot', u', behind, (List.cons.inj hts).2, huse', hoffset⟩
  | case2 t dot u ts huse ih =>
      rw [ih]
      constructor
      · rintro ⟨before, t', dot', u', behind, hts, huse'⟩
        exact ⟨t :: before, t', dot', u', behind, by rw [hts]; rfl, huse'⟩
      · rintro ⟨before, t', dot', u', behind, hts, huse', hoffset⟩
        cases before with
        | nil =>
            obtain ⟨rfl, rfl, rfl, -⟩ : t = t' ∧ dot = dot' ∧ u = u' ∧ ts = behind := by
              simpa using hts
            exact absurd (by simpa [UsesOrigin, and_assoc] using huse') huse
        | cons v before =>
            exact ⟨before, t', dot', u', behind, (List.cons.inj hts).2, huse', hoffset⟩
  | case3 ts hshort =>
      refine iff_of_false List.not_mem_nil ?_
      rintro ⟨before, t, dot, u, behind, rfl, -⟩
      rcases before with - | ⟨v, - | ⟨v', - | ⟨v'', before⟩⟩⟩ <;> exact hshort _ _ _ _ rfl

theorem start_add_two {t : Token} (h : t.text = "tx") : t.start + 2 = t.stop := by
  rw [Token.stop, h]
  rfl

/-- Uses are two dotted words. -/
theorem mem_originUses_tokenize_iff {source : String} {offset : Nat} :
    offset ∈ originUses (tokenizeSignificant source) ↔
      ∃ d : DottedWords source, d.IsUse ∧ offset + 2 = d.first.stop := by
  have hnone : ∀ {gap : List Token}, significantTokens gap = [] ↔ ∀ t ∈ gap, t.isTrivia = true := by
    intro gap
    simp [significantTokens, List.filter_eq_nil_iff]
  rw [mem_originUses_iff]
  constructor
  · rintro ⟨before, t, dot, u, behind, hts, ⟨hword, htext, hdot, hword', htext'⟩, rfl⟩
    obtain ⟨front, rest, hsource, -, hrest⟩ := exists_append_of_significantTokens hts
    have hrest : significantTokens rest = [] ++ dot :: (u :: behind) := hrest
    obtain ⟨gap, rest, rfl, hgap, hrest⟩ := exists_append_of_significantTokens hrest
    have hrest : significantTokens rest = [] ++ u :: behind := hrest
    obtain ⟨gap', back, rfl, hgap', -⟩ := exists_append_of_significantTokens hrest
    refine ⟨⟨front, t, gap, dot, gap', u, back, hsource, hword, hdot, hword'⟩,
      ⟨htext, htext', fun v hv => ?_⟩, start_add_two htext⟩
    exact (List.mem_append.mp hv).elim (hnone.mp hgap v) (hnone.mp hgap' v)
  · rintro ⟨d, ⟨htext, htext', hgap⟩, hoffset⟩
    have hgap₁ : significantTokens d.gap = [] := hnone.mpr fun t ht => hgap t (by simp [ht])
    have hgap₂ : significantTokens d.gap' = [] := hnone.mpr fun t ht => hgap t (by simp [ht])
    have hdot : d.dot.isTrivia = false := by
      simp [Token.isTrivia, Token.kind_of_isOperator d.dot_isOperator]
    refine ⟨significantTokens d.front, d.first, d.dot, d.second, significantTokens d.back, ?_,
      ⟨d.first_isWord, htext, d.dot_isOperator, d.second_isWord, htext'⟩, ?_⟩
    · rw [significantTokens] at hgap₁ hgap₂
      simp [tokenizeSignificant, d.eq_append, significantTokens, List.filter_append,
        hgap₁, hgap₂, hdot, Token.isTrivia_of_isWord d.first_isWord,
        Token.isTrivia_of_isWord d.second_isWord]
    · have := start_add_two htext
      omega

/-! ## Reports -/

/-- The hits of a pattern come in order. -/
theorem Pattern.Spells.pairwise_start {pattern : Pattern Unit} {heads : List Char}
    {P : List Char → Option Char → Prop} (h : pattern.Spells heads P) (text : List Char) :
    ((pattern.hits text).map Hit.start).Pairwise (· < ·) := by
  rw [List.pairwise_map]
  refine (Pattern.pairwise_hitsFrom pattern [] text).imp_of_mem fun {a b} ha hb hle => ?_
  have hstands := h.stands_of_mem_hits ha
  have hstands' := h.stands_of_mem_hits hb
  obtain ⟨c, w, hphrase, -⟩ := h.head hstands.phrase
  obtain ⟨m, hm, hne, -⟩ := exists_append_of_length_lt
    (hstands'.eq_append.symm.trans hstands.eq_append) (by
      rw [hphrase, List.length_cons] at hle
      simp only [List.length_reverse]
      omega)
  have hpos := Lexer.byteLength_pos hne
  rw [a.start_eq, b.start_eq, hm, byteLength_append]
  omega

/-- **Which uses of the transaction's origin are reported.** The findings come in order, each two
bytes in front of the end of a first word, and they are those of the dotted words that the pattern
passes. So they are the uses among the significant tokens exactly if the pattern passes the uses and
no other dotted words. -/
theorem mem_transactionOrigins_iff (settings : LintSettings) (source : String) :
    let found := (transactionOrigins (.ofSource settings source)).map (·.offset)
    found.Pairwise (· < ·) ∧
      (∀ offset, offset ∈ found ↔
        ∃ d : DottedWords source, d.Passes ∧ offset + 2 = d.first.stop) ∧
      (found = originUses (tokenizeSignificant source) ↔
        ∀ d : DottedWords source, d.Passes ↔ d.IsUse) := by
  intro found
  have hfound :
      found = (Pattern.transactionOrigin.hits (mask (tokenize source))).map Hit.start := by
    simp [found, transactionOrigins, Subject.ofSource, Function.comp_def]
  have hordered : found.Pairwise (· < ·) := by
    rw [hfound]
    exact Pattern.transactionOrigin_spells.pairwise_start _
  have hmem : ∀ offset, offset ∈ found ↔
      ∃ d : DottedWords source, d.Passes ∧ offset + 2 = d.first.stop := by
    intro offset
    rw [hfound, List.mem_map]
    constructor
    · rintro ⟨hit, hhit, rfl⟩
      exact exists_dottedWords hhit
    · rintro ⟨d, hpasses, hoffset⟩
      obtain ⟨hit, hhit, hstart⟩ := d.exists_hit hpasses
      exact ⟨hit, hhit, by omega⟩
  have huses : (originUses (tokenizeSignificant source)).Pairwise (· < ·) := by
    refine List.Pairwise.sublist (originUses_sublist _) ?_
    have hstands := Lexer.ordered_tokenizeSignificant source
    rw [List.pairwise_map]
    refine hstands.pairwise.imp_of_mem fun {t u} ht hu hle => ?_
    exact Nat.lt_of_lt_of_le (hstands.start_lt_stop t ht) hle
  refine ⟨hordered, hmem, fun heq d => ?_, fun hiff => ?_⟩
  · -- the places are the same, and words are known by their place
    constructor
    · intro hpasses
      obtain ⟨hit, hhit, hstart⟩ := d.exists_hit hpasses
      have hin : hit.start ∈ found := (hmem _).mpr ⟨d, hpasses, hstart⟩
      rw [heq, mem_originUses_tokenize_iff] at hin
      obtain ⟨d', huse, hstart'⟩ := hin
      obtain rfl := d.ext_stop d' hpasses.2.2 huse.looksBlank (hstart.symm.trans hstart')
      exact huse
    · intro huse
      have hin : d.first.start ∈ originUses (tokenizeSignificant source) :=
        mem_originUses_tokenize_iff.mpr ⟨d, huse, start_add_two huse.1⟩
      rw [← heq, hmem] at hin
      obtain ⟨d', hpasses, hstart⟩ := hin
      obtain rfl := d.ext_stop d' huse.looksBlank hpasses.2.2
        ((start_add_two huse.1).symm.trans hstart)
      exact hpasses
  · refine hordered.eq_of_mem_iff huses fun offset => ?_
    rw [hmem, mem_originUses_tokenize_iff]
    exact exists_congr fun d => and_congr_left' (hiff d)

/-- A word of the language may begin with a dollar sign, and is another word then. The pattern does
not count the sign as part of it. -/
theorem transactionOrigins_dollar_word :
    (transactionOrigins (.ofSource .standard "$tx.origin;")).map (·.offset) = [1] ∧
      originUses (tokenizeSignificant "$tx.origin;") = [] := by
  decide +kernel

/-- Comments may stand between the words of a use. -/
example : (transactionOrigins (.ofSource .standard "tx /* a */ . origin;")).map (·.offset) = [0] ∧
    originUses (tokenizeSignificant "tx /* a */ . origin;") = [0] := by
  decide +kernel

end SolidityTools.Lint

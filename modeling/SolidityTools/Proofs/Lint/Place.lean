import SolidityTools.Proofs.Lint.Call
import SolidityTools.Proofs.Lint.Mask
import SolidityTools.Proofs.Lint.Order
import SolidityTools.Proofs.Lint.Pattern
import SolidityTools.Proofs.Outline.Place
import SolidityTools.Proofs.Position
import SolidityTools.Proofs.Token.Tiling

set_option autoImplicit false

/-! # Issues point at what was found

A rule finds an offset, and a report names it by line and column. This is sound only if the offset
lies between two characters. There are three sorts of offsets (`Subject.Shows`): the beginning of
the file; the beginning of a token; and a place in the masked text where a character stands that is
not white space. The last one is where a pattern began. Masking puts as many spaces as a character
has bytes, so most places inside a hidden character exist in the masked text and not in the source;
but at those places white space stands, and no phrase begins with that
(`isBoundary_of_visible_mask`).
-/

namespace SolidityTools

open Text

theorem Text.byteLength_reverse (cs : List Char) : byteLength cs.reverse = byteLength cs := by
  induction cs with
  | nil => rfl
  | cons c cs ih =>
      rw [List.reverse_cons, byteLength_append, ih, byteLength_cons, byteLength_cons,
        byteLength_nil]
      omega

/-- An offset between two characters lies in the source, at a place where it can be cut. -/
theorem IsBoundary.isValid {source : String} {offset : Nat} (h : IsBoundary source.toList offset) :
    offset ≤ source.utf8ByteSize ∧ String.Pos.Raw.IsValid source ⟨offset⟩ := by
  obtain ⟨before, behind, hsource, rfl⟩ := h
  have hstring : source = String.ofList (before ++ behind) := by
    rw [← hsource, String.ofList_toList]
  constructor
  · rw [hstring, ← byteLength_eq_utf8ByteSize, byteLength_append]
    omega
  · rw [hstring]
    exact isValid_ofList_append before behind

namespace Lint

/-! ## Visible places -/

/-- At an offset of a text stands a character that is not white space. -/
def Visible (cs : List Char) (offset : Nat) : Prop :=
  ∃ before c behind, cs = before ++ c :: behind ∧ isAsciiBlank c = false ∧
    byteLength before = offset

theorem BeginsSolid.visible {phrase : List Char} (h : BeginsSolid phrase)
    (before behind : List Char) :
    Visible (before ++ (phrase ++ behind)) (byteLength before) := by
  obtain ⟨c, w, rfl, hc⟩ := h
  exact ⟨before, c, w ++ behind, rfl, hc, rfl⟩

/-- What is visible in the masked text belongs to a token that is not hidden. The induction is on
the tokens: the character stands in the first one, or behind it. -/
theorem exists_token_of_mask {ts : List Token} {X Y : List Char} {c : Char}
    (h : mask ts = X ++ c :: Y) (hc : isAsciiBlank c = false) :
    ∃ front t back lead tail, ts = front ++ t :: back ∧ isMasked t = false ∧
      t.text.toList = lead ++ c :: tail ∧ X = mask front ++ lead ∧ Y = tail ++ mask back := by
  induction ts generalizing X with
  | nil => simp [mask] at h
  | cons t ts ih =>
      have hbehind : ∀ m, X = maskToken t ++ m → mask ts = m ++ c :: Y →
          ∃ front u back lead tail, t :: ts = front ++ u :: back ∧ isMasked u = false ∧
            u.text.toList = lead ++ c :: tail ∧ X = mask front ++ lead ∧ Y = tail ++ mask back := by
        rintro m rfl hm
        obtain ⟨front, u, back, lead, tail, rfl, hvisible, htext, rfl, hY⟩ := ih hm
        exact ⟨t :: front, u, back, lead, tail, rfl, hvisible, htext, by simp [mask_cons], hY⟩
      rw [mask_cons] at h
      rcases List.append_eq_append_iff.mp h with ⟨m, hX, hm⟩ | ⟨m, ht, hm⟩
      · exact hbehind m hX hm
      · cases m with
        | nil =>
            rw [List.append_nil] at ht
            exact hbehind [] (by rw [ht, List.append_nil]) hm.symm
        | cons d m =>
            obtain ⟨rfl, rfl⟩ := List.cons.inj hm
            -- the first token shows something that is not white space, so it is not hidden
            have hvisible : isMasked t = false := by
              by_contra hmasked
              rw [Bool.not_eq_false] at hmasked
              have hall := all_isAsciiBlank_maskToken hmasked
              rw [ht] at hall
              simp [hc] at hall
            rw [maskToken_of_visible hvisible] at ht
            exact ⟨[], t, ts, X, m, rfl, hvisible, ht, rfl, rfl⟩

/-- A place that is visible in the masked text lies between two characters of the source: masking
keeps the bytes of the tokens in front of it. -/
theorem isBoundary_of_visible_mask {ts : List Token} {offset : Nat} (h : Visible (mask ts) offset) :
    IsBoundary (ts.flatMap fun t => t.text.toList) offset := by
  obtain ⟨before, c, behind, hmask, hc, rfl⟩ := h
  obtain ⟨front, t, back, lead, tail, rfl, -, htext, rfl, -⟩ := exists_token_of_mask hmask hc
  refine ⟨(front.flatMap fun t => t.text.toList) ++ lead,
    c :: (tail ++ back.flatMap fun t => t.text.toList), by simp [htext], ?_⟩
  rw [byteLength_append, byteLength_append, byteLength_mask]

/-! ## Places of hits -/

namespace Hit

variable {α : Type} {hit : Hit α} {cs : List Char}

theorem start_eq (hit : Hit α) : hit.start = byteLength hit.before.reverse :=
  (byteLength_reverse hit.before).symm

theorem Cuts.visible (h : hit.Cuts (fun _ phrase => BeginsSolid phrase) cs) :
    Visible cs hit.start := by
  rw [hit.start_eq, h.eq_append]
  exact h.phrase.visible _ _

end Hit

theorem exists_append_groupText (depth : Nat) (cs : List Char) :
    ∃ X, cs = groupText depth cs ++ X := by
  induction cs generalizing depth with
  | nil => exact ⟨[], rfl⟩
  | cons c cs ih =>
      have hnext : ∀ n, ∃ X, c :: cs = c :: groupText n cs ++ X := by
        intro n
        obtain ⟨X, hX⟩ := ih n
        exact ⟨X, by rw [List.cons_append, ← hX]⟩
      rw [groupText]
      split
      · exact hnext (depth + 1)
      · split
        · split
          · exact ⟨cs, rfl⟩
          · exact hnext (depth - 1)
        · exact hnext depth

theorem visible_of_mem_placesInGroup {pattern : Pattern Unit}
    (hpattern : pattern.Recognises fun _ phrase => BeginsSolid phrase) {header : Hit String}
    {cs : List Char} (hheader : header.Cuts (fun _ phrase => IsHeader phrase) cs) {offset : Nat}
    (h : offset ∈ placesInGroup pattern header) : Visible cs offset := by
  obtain ⟨hit, hhit, rfl⟩ := List.mem_map.mp h
  obtain ⟨lead, hlead, -⟩ := hheader.phrase
  have hcuts := hpattern.cuts (fun _ _ h => h.ne_nil) hhit
  obtain ⟨X, hX⟩ := exists_append_groupText 0 ('(' :: header.behind)
  have hcs : cs = (header.before.reverse ++ lead ++ hit.before.reverse)
      ++ (hit.phrase ++ (hit.behind ++ X)) := by
    calc cs = header.before.reverse ++ lead ++ ('(' :: header.behind) := by
          rw [hheader.eq_append, hlead]
          simp
      _ = header.before.reverse ++ lead ++ (header.group ++ X) := by rw [hX]; rfl
      _ = _ := by
          rw [hcuts.eq_append]
          simp
  have hoffset : header.groupStart + hit.start
      = byteLength (header.before.reverse ++ lead ++ hit.before.reverse) := by
    have hsize : '('.utf8Size = 1 := by decide
    rw [Hit.groupStart, header.start_eq, hit.start_eq, hlead]
    simp only [byteLength_append, byteLength_cons, byteLength_nil, hsize]
    omega
  rw [hoffset, hcs]
  exact hcuts.phrase.visible _ _

/-! ## What rules point at -/

/-- What a rule may point at in a file: its beginning, a token, or a character of the masked text
that is not white space. -/
inductive Subject.Shows (s : Subject) : Nat → Prop
  | top : s.Shows 0
  | token {t : Token} (h : t ∈ s.tokens) : s.Shows t.start
  | masked {offset : Nat} (h : Visible s.masked offset) : s.Shows offset

variable {settings : LintSettings} {source : String} {f : Finding}

theorem mem_tokens_of_mem_significantTokens {t : Token}
    (h : t ∈ significantTokens (tokenize source)) :
    t ∈ (Subject.ofSource settings source).tokens :=
  (List.mem_filter.mp h).1

/-! ### Tokens -/

theorem shows_of_mem_unterminatedLiterals {s : Subject} (h : f ∈ unterminatedLiterals s) :
    s.Shows f.offset := by
  obtain ⟨t, ht, rfl⟩ := List.mem_map.mp h
  exact .token (List.mem_filter.mp ht).1

theorem mem_of_mem_unmatchedBraces {opened ts : List Token} {t : Token}
    (h : t ∈ (unmatchedBraces opened ts).1 ++ (unmatchedBraces opened ts).2) :
    t ∈ opened ∨ t ∈ ts := by
  induction ts generalizing opened with
  | nil => exact Or.inl (by simpa [unmatchedBraces] using h)
  | cons u ts ih =>
      unfold unmatchedBraces at h
      split at h
      · rcases ih h with h | h
        · rcases List.mem_cons.mp h with rfl | h
          · exact Or.inr List.mem_cons_self
          · exact Or.inl h
        · exact Or.inr (List.mem_cons_of_mem u h)
      · split at h
        · cases opened with
          | nil =>
              rcases List.mem_cons.mp h with rfl | h
              · exact Or.inr List.mem_cons_self
              · exact (ih h).imp_right (List.mem_cons_of_mem u)
          | cons v opened =>
              exact (ih h).imp (List.mem_cons_of_mem v) (List.mem_cons_of_mem u)
        · exact (ih h).imp_right (List.mem_cons_of_mem u)

theorem shows_of_mem_unbalancedBraces
    (h : f ∈ unbalancedBraces (.ofSource settings source)) :
    (Subject.ofSource settings source).Shows f.offset := by
  have hbrace : ∃ t, t ∈ (unmatchedBraces [] (significantTokens (tokenize source))).1
      ++ (unmatchedBraces [] (significantTokens (tokenize source))).2 ∧ f.offset = t.start := by
    rcases List.mem_append.mp h with h | h
    · obtain ⟨t, ht, rfl⟩ := List.mem_map.mp h
      exact ⟨t, List.mem_append_left _ ht, rfl⟩
    · obtain ⟨t, ht, rfl⟩ := List.mem_map.mp h
      exact ⟨t, List.mem_append_right _ ht, rfl⟩
  obtain ⟨t, ht, hoffset⟩ := hbrace
  rw [hoffset]
  rcases mem_of_mem_unmatchedBraces ht with ht | ht
  · cases ht
  · exact .token (mem_tokens_of_mem_significantTokens ht)

theorem comparedNumbers_sublist (inPragma : Bool) (before : Option Token) (ts : List Token) :
    (comparedNumbers inPragma before ts).Sublist ts := by
  induction ts generalizing inPragma before with
  | nil => exact .refl []
  | cons t ts ih =>
      simp only [comparedNumbers]
      generalize (if t.isKeyword "pragma" = true then true
        else if t.isOperator ";" = true then false else inPragma) = inPragma'
      split
      · exact (ih _ _).cons_cons t
      · exact (ih _ _).cons t

theorem shows_of_mem_magicNumbers (h : f ∈ magicNumbers (.ofSource settings source)) :
    (Subject.ofSource settings source).Shows f.offset := by
  obtain ⟨t, ht, rfl⟩ := List.mem_map.mp h
  exact .token (mem_tokens_of_mem_significantTokens
    ((comparedNumbers_sublist _ _ _).subset (List.mem_filter.mp ht).1))

theorem shows_of_mem_reentrantWrites (h : f ∈ reentrantWrites (.ofSource settings source)) :
    (Subject.ofSource settings source).Shows f.offset := by
  obtain ⟨d, hd, hfinding⟩ := List.mem_filterMap.mp h
  obtain ⟨target, htarget, rfl⟩ := Option.map_eq_some_iff.mp hfinding
  have hstands := standsIn_of_mem_functionDeclarations (List.mem_filter.mp hd).1
  exact .token (mem_tokens_of_mem_significantTokens (hstands.body target
    (exists_of_lateWrite? htarget).1))

theorem offset_eq_of_typeNameFinding? {d : TypeDeclaration} (h : typeNameFinding? d = some f) :
    f.offset = d.offset := by
  unfold typeNameFinding? at h
  split at h
  · cases h
  · rw [← Option.some.inj h]

theorem offset_eq_of_variableNameFinding? {v : StateVariable}
    (h : variableNameFinding? v = some f) : f.offset = v.offset := by
  unfold variableNameFinding? at h
  split at h
  · split at h
    · cases h
    · rw [← Option.some.inj h]
  · split at h
    · rw [← Option.some.inj h]
    · cases h

theorem shows_of_mem_unconventionalNames (h : f ∈ unconventionalNames (.ofSource settings source)) :
    (Subject.ofSource settings source).Shows f.offset := by
  rcases List.mem_append.mp h with h | h
  · obtain ⟨d, hd, hfinding⟩ := List.mem_filterMap.mp h
    obtain ⟨t, ht, -, -, hoffset⟩ := exists_of_mem_typeDeclarations hd
    rw [offset_eq_of_typeNameFinding? hfinding, hoffset]
    exact .token (mem_tokens_of_mem_significantTokens ht)
  · obtain ⟨v, hv, hfinding⟩ := List.mem_filterMap.mp h
    obtain ⟨t, ht, -, -, hoffset⟩ := exists_of_mem_stateVariables hv
    rw [offset_eq_of_variableNameFinding? hfinding, hoffset]
    exact .token (mem_tokens_of_mem_significantTokens ht)

/-! ### Phrases -/

variable {s : Subject}

theorem shows_of_mem_missingLicence (h : f ∈ missingLicence s) : s.Shows f.offset := by
  simp only [missingLicence] at h
  split at h
  · cases h
  · rw [List.mem_singleton.mp h]
    exact .top

theorem shows_of_mem_missingPragma (h : f ∈ missingPragma s) : s.Shows f.offset := by
  simp only [missingPragma] at h
  split at h
  · rw [List.mem_singleton.mp h]
    exact .top
  · cases h

theorem Pattern.Recognises.shows {α : Type} {pattern : Pattern α}
    (hpattern : pattern.Recognises fun _ phrase => BeginsSolid phrase) {hit : Hit α}
    (h : hit ∈ pattern.hits s.masked) : s.Shows hit.start :=
  .masked (hpattern.cuts (fun _ _ h => h.ne_nil) h).visible

theorem shows_of_mem_floatingPragmas (h : f ∈ floatingPragmas s) : s.Shows f.offset := by
  obtain ⟨hit, hhit, hfinding⟩ := List.mem_filterMap.mp h
  simp only at hfinding
  split at hfinding
  · rw [← Option.some.inj hfinding]
    exact Pattern.pragmaVersion_recognises.shows hhit
  · cases hfinding

theorem shows_of_mem_uncheckedCalls (h : f ∈ uncheckedCalls s) : s.Shows f.offset := by
  obtain ⟨hit, hhit, hfinding⟩ := List.mem_filterMap.mp h
  simp only at hfinding
  split at hfinding
  · cases hfinding
  · rw [← Option.some.inj hfinding]
    have hcuts := Pattern.lowLevelCall_recognises.cuts
      (by rintro value phrase ⟨behind, rfl, h⟩; simp [h.ne_nil]) hhit
    obtain ⟨behind, hphrase, hsolid⟩ := hcuts.phrase
    have hvisible := hsolid.visible (hit.before.reverse ++ hit.value.1) hit.behind
    rw [byteLength_append, ← hit.start_eq, List.append_assoc, ← List.append_assoc hit.value.1,
      ← hphrase, ← hcuts.eq_append] at hvisible
    exact .masked hvisible

theorem shows_of_mem_transactionOrigins (h : f ∈ transactionOrigins s) : s.Shows f.offset := by
  obtain ⟨hit, hhit, rfl⟩ := List.mem_map.mp h
  exact Pattern.transactionOrigin_recognises.shows hhit

theorem firstAtEachOffset_sublist (seen : List Nat) (fs : List Finding) :
    (firstAtEachOffset seen fs).Sublist fs := by
  induction fs generalizing seen with
  | nil => exact .refl []
  | cons f fs ih =>
      rw [firstAtEachOffset]
      split
      · exact (ih seen).cons f
      · exact (ih _).cons_cons f

theorem shows_of_mem_blockValues (h : f ∈ blockValues s) : s.Shows f.offset := by
  have hgroup : ∀ {words : List String}, words.all (·.toList.head?.any (!isAsciiBlank ·)) = true →
      ∀ {header : Hit String}, header ∈ (Pattern.headerOf words).hits s.masked →
      f.offset ∈ placesInGroup Pattern.blockTime header ++
        placesInGroup Pattern.blockRandomness header → s.Shows f.offset := by
    intro words hwords header hheader hf
    have hcuts := (Pattern.headerOf_recognises hwords).cuts
      (fun _ _ h => h.beginsSolid.ne_nil) hheader
    rcases List.mem_append.mp hf with hf | hf
    · exact .masked (visible_of_mem_placesInGroup Pattern.blockTime_recognises hcuts hf)
    · exact .masked (visible_of_mem_placesInGroup Pattern.blockRandomness_recognises hcuts hf)
  rcases List.mem_append.mp ((firstAtEachOffset_sublist _ _).subset h) with h | h
  · obtain ⟨header, hheader, hf⟩ := List.mem_flatMap.mp h
    refine hgroup (by decide) hheader ?_
    rcases List.mem_append.mp hf with hf | hf
    · obtain ⟨offset, hoffset, rfl⟩ := List.mem_map.mp hf
      exact List.mem_append_left _ hoffset
    · obtain ⟨offset, hoffset, rfl⟩ := List.mem_map.mp hf
      exact List.mem_append_right _ hoffset
  · obtain ⟨header, hheader, hf⟩ := List.mem_flatMap.mp h
    refine hgroup (by decide) hheader ?_
    obtain ⟨offset, hoffset, rfl⟩ := List.mem_map.mp hf
    exact hoffset

theorem shows_of_mem_unboundedLoops (h : f ∈ unboundedLoops s) : s.Shows f.offset := by
  obtain ⟨hit, hhit, hfinding⟩ := List.mem_filterMap.mp h
  have hheader : Pattern.loopHeader.Recognises fun _ phrase => IsHeader phrase :=
    Pattern.headerOf_recognises (by decide)
  have hcuts := hheader.cuts (fun _ _ h => h.beginsSolid.ne_nil) hhit
  split at hfinding
  · cases hfinding
  · rw [← Option.some.inj hfinding]
    exact .masked (Hit.Cuts.visible ⟨hcuts.eq_append, hcuts.phrase.beginsSolid⟩)

/-- Every rule points at something that the file shows. -/
theorem shows_of_mem_findings {rule : Rule} (h : f ∈ rule.findings (.ofSource settings source)) :
    (Subject.ofSource settings source).Shows f.offset := by
  cases rule with
  | unterminatedLiteral => exact shows_of_mem_unterminatedLiterals h
  | unbalancedBraces => exact shows_of_mem_unbalancedBraces h
  | missingLicence => exact shows_of_mem_missingLicence h
  | missingPragma => exact shows_of_mem_missingPragma h
  | floatingPragma => exact shows_of_mem_floatingPragmas h
  | uncheckedCall => exact shows_of_mem_uncheckedCalls h
  | reentrancy => exact shows_of_mem_reentrantWrites h
  | transactionOrigin => exact shows_of_mem_transactionOrigins h
  | blockValue => exact shows_of_mem_blockValues h
  | unboundedLoop => exact shows_of_mem_unboundedLoops h
  | magicNumber => exact shows_of_mem_magicNumbers h
  | namingConvention => exact shows_of_mem_unconventionalNames h

/-- What a file shows lies between two characters. -/
theorem Subject.Shows.isBoundary {offset : Nat}
    (h : (Subject.ofSource settings source).Shows offset) : IsBoundary source.toList offset := by
  cases h with
  | top => exact ⟨[], source.toList, rfl, rfl⟩
  | token ht =>
      obtain ⟨P, S, hsource, hstart⟩ := Lexer.exists_append_of_mem_tokensFrom ht
      exact ⟨P, _, hsource, by rw [hstart, Nat.zero_add]⟩
  | masked hvisible =>
      have hboundary := isBoundary_of_visible_mask hvisible
      rwa [tokenize, Lexer.flatMap_text_tokensFrom] at hboundary

/-- **Issues point at what was found.** The offset of every finding of every rule lies in the file
and between two characters, and the position of the finding points at it: the line exists, the
column is in it or just behind it, and from the two the offset is found again. The issues of a
report are such findings at their positions. -/
theorem issues_point_at_findings (settings : LintSettings) (source : String) :
    (∀ rule : Rule, ∀ f ∈ rule.findings (.ofSource settings source),
      f.offset ≤ source.utf8ByteSize ∧ String.Pos.Raw.IsValid source ⟨f.offset⟩ ∧
        (positionAt source f.offset).PointsAt source f.offset) ∧
      ∀ issue ∈ lint settings source,
        ∃ f ∈ issue.rule.findings (.ofSource settings source),
          issue.message = f.message ∧ issue.position = positionAt source f.offset ∧
            issue.position.PointsAt source f.offset := by
  have hfinding : ∀ {rule : Rule} {f : Finding}, f ∈ rule.findings (.ofSource settings source) →
      IsBoundary source.toList f.offset := fun h => (shows_of_mem_findings h).isBoundary
  constructor
  · intro rule f hf
    obtain ⟨hle, hvalid⟩ := (hfinding hf).isValid
    exact ⟨hle, hvalid, pointsAt_positionAt (hfinding hf)⟩
  · intro issue hissue
    have hfound : issue ∈ found settings source :=
      (isStableOrder_lint settings source).perm.mem_iff.mp hissue
    obtain ⟨rule, -, hrule⟩ := List.mem_flatMap.mp hfound
    obtain ⟨f, hf, rfl⟩ := List.mem_map.mp hrule
    exact ⟨f, hf, rfl, rfl, pointsAt_positionAt (hfinding hf)⟩

end Lint

end SolidityTools

import SolidityTools.Lint.Header
import SolidityTools.Proofs.Lint.Guard
import Mathlib.Data.List.TakeWhile

set_option autoImplicit false

/-! # Version directives in a text

A version directive is the two words `pragma solidity`, with white space between them, behind a word
boundary (`DirectiveAt`). One rule asks whether there is any that ends at a word boundary, and finds
one exactly if there is (`pragmaDirective_hits_eq_nil_iff`). The other rule reads the version behind
the directive, up to the next semicolon, and wants white space in front of it (`OpensVersion`). What
it has read it does not search again. So it finds the first directive of each clause, and passes over
all others in it (`exists_versionHit_iff`).
-/

namespace SolidityTools.Lint

open Text

/-! ## Disjoint hits -/

namespace Pattern

section Hits

variable {α : Type} {pattern : Pattern α}

/-- A search lists only places that it has not passed yet. -/
theorem length_le_of_mem_hitsFrom {hit : Hit α} {before cs : List Char}
    (h : hit ∈ pattern.hitsFrom before cs) : before.length ≤ hit.before.length := by
  fun_induction hitsFrom pattern before cs with
  | case1 => cases h
  | case2 before c cs hnone ih =>
      have := ih h
      rw [List.length_cons] at this
      omega
  | case3 before c cs value rest hsome n ih =>
      rcases List.mem_cons.mp h with rfl | h
      · exact Nat.le_refl _
      · have := ih h
        rw [List.length_append, List.length_cons] at this
        omega

/-- **Hits do not overlap.** A hit ends in front of all later ones. -/
theorem pairwise_hitsFrom (pattern : Pattern α) (before cs : List Char) :
    (pattern.hitsFrom before cs).Pairwise fun a b =>
      a.before.length + a.phrase.length ≤ b.before.length := by
  fun_induction hitsFrom pattern before cs with
  | case1 => exact .nil
  | case2 before c cs hnone ih => exact ih
  | case3 before c cs value rest hsome n ih =>
      refine .cons (fun hit hhit => ?_) ih
      have := length_le_of_mem_hitsFrom hhit
      rw [List.length_append, List.length_reverse, List.length_cons] at this
      show before.length + (c :: cs.take n).length ≤ hit.before.length
      rw [List.length_cons]
      omega

theorem disjoint_of_mem_hits {text : List Char} {a b : Hit α} (ha : a ∈ pattern.hits text)
    (hb : b ∈ pattern.hits text) (hlt : a.before.length < b.before.length) :
    a.before.length + a.phrase.length ≤ b.before.length := by
  have hpairwise : (pattern.hits text).Pairwise fun a b =>
      a.before.length + a.phrase.length ≤ b.before.length := pairwise_hitsFrom pattern [] text
  rw [List.pairwise_iff_getElem] at hpairwise
  obtain ⟨i, hi, rfl⟩ := List.getElem_of_mem ha
  obtain ⟨j, hj, rfl⟩ := List.getElem_of_mem hb
  rcases Nat.lt_trichotomy i j with hij | rfl | hji
  · exact hpairwise i j hi hj hij
  · exact absurd hlt (Nat.lt_irrefl _)
  · have := hpairwise j i hj hi hji
    omega

/-- Nothing is found exactly if the pattern fits nowhere. -/
theorem hitsFrom_eq_nil_iff {before cs : List Char} :
    pattern.hitsFrom before cs = [] ↔
      ∀ skip rest, cs = skip ++ rest → rest ≠ [] →
        pattern (skip.reverse ++ before).head? rest = none := by
  fun_induction hitsFrom pattern before cs with
  | case1 => simp
  | case2 before c cs hnone ih =>
      rw [ih]
      constructor
      · intro h skip rest hcs hrest
        cases skip with
        | nil =>
            obtain rfl : c :: cs = rest := hcs
            exact hnone
        | cons d skip =>
            obtain ⟨rfl, htail⟩ : c = d ∧ cs = skip ++ rest := List.cons.inj hcs
            simpa using h skip rest htail hrest
      · intro h skip rest hcs hrest
        simpa using h (c :: skip) rest (by rw [hcs, List.cons_append]) hrest
  | case3 before c cs value rest hsome n ih =>
      refine iff_of_false (List.cons_ne_nil _ _) fun h => ?_
      have hnone := h [] (c :: cs) rfl (List.cons_ne_nil c cs)
      rw [List.reverse_nil, List.nil_append, hsome] at hnone
      cases hnone

end Hits

/-! ## Parts of the phrases -/

theorem someBlanks?_append {gap : List Char} (hne : gap ≠ []) (hgap : gap.all isBlank = true)
    (cs : List Char) : someBlanks? (gap ++ cs) = some (blanks cs) := by
  obtain ⟨c, gap, rfl⟩ := List.exists_cons_of_ne_nil hne
  have hc : isBlank c = true := List.all_eq_true.mp hgap c List.mem_cons_self
  rw [someBlanks?, if_pos (by simpa using hc), blanks_append hgap]

theorem exists_of_someBlanks? {cs rest : List Char} (h : someBlanks? cs = some rest) :
    ∃ gap, gap ≠ [] ∧ gap.all isBlank = true ∧ cs = gap ++ rest := by
  unfold someBlanks? at h
  split at h
  · next hhead =>
      obtain ⟨c, w, rfl⟩ : ∃ c w, cs = c :: w := by
        cases cs with
        | nil => cases hhead
        | cons c w => exact ⟨c, w, rfl⟩
      have hc : isBlank c = true := by simpa using hhead
      refine ⟨(c :: w).takeWhile isBlank, ?_, List.all_takeWhile, ?_⟩
      · rw [List.takeWhile_cons_of_pos hc]
        exact List.cons_ne_nil _ _
      · rw [← Option.some.inj h, blanks, List.takeWhile_append_dropWhile]
  · cases h

end Pattern

/-! ## Directives -/

/-- The two words of a version directive with white space between them. -/
def IsDirective (phrase : List Char) : Prop :=
  ∃ gap, gap ≠ [] ∧ gap.all isBlank = true ∧
    phrase = "pragma".toList ++ (gap ++ "solidity".toList)

/-- A version directive stands in a text behind `before`, at a word boundary. -/
structure DirectiveAt (text before phrase behind : List Char) : Prop where
  eq_append : text = before ++ (phrase ++ behind)
  phrase : IsDirective phrase
  boundary : Pattern.atBoundary before.getLast? = true

/-- A version directive that ends at a word boundary stands in a text behind `before`. -/
def DeclaresVersion (text before : List Char) : Prop :=
  ∃ phrase behind, DirectiveAt text before phrase behind ∧
    behind.head?.any isWordCharacter = false

/-- A text has a version directive that ends at a word boundary. -/
def HasDirective (text : List Char) : Prop := ∃ before, DeclaresVersion text before

/-- A version directive with white space behind it stands in a text behind `before`. -/
def OpensVersion (text before : List Char) : Prop :=
  ∃ phrase behind, DirectiveAt text before phrase behind ∧ behind.head?.any isBlank = true

/-- No version directive with white space behind it begins between the last semicolon in front of a
place and the place. -/
def FirstInClause (text before : List Char) : Prop :=
  ∀ front clause, before = front ++ clause → clause ≠ [] → ';' ∉ clause → ¬OpensVersion text front

section Directive

variable {phrase : List Char}

theorem IsDirective.exists_cons (h : IsDirective phrase) : ∃ w, phrase = 'p' :: w := by
  obtain ⟨gap, -, -, rfl⟩ := h
  exact ⟨_, rfl⟩

theorem IsDirective.semicolon_notMem (h : IsDirective phrase) : ';' ∉ phrase := by
  obtain ⟨gap, -, hgap, rfl⟩ := h
  intro hmem
  rcases List.mem_append.mp hmem with hmem | hmem
  · exact absurd hmem (by decide)
  · rcases List.mem_append.mp hmem with hmem | hmem
    · exact absurd (List.all_eq_true.mp hgap _ hmem) (by decide)
    · exact absurd hmem (by decide)

/-- A text has a directive at its front in one way only. -/
theorem IsDirective.unique {phrase' X X' : List Char} (h : IsDirective phrase)
    (h' : IsDirective phrase') (heq : phrase ++ X = phrase' ++ X') : phrase = phrase' ∧ X = X' := by
  obtain ⟨gap, -, hgap, rfl⟩ := h
  obtain ⟨gap', -, hgap', rfl⟩ := h'
  simp only [List.append_assoc] at heq
  have htail := List.append_cancel_left heq
  -- the second word begins where the white space ends
  have hword : ∀ {gap : List Char}, gap.all isBlank = true → ∀ X : List Char,
      (gap ++ ("solidity".toList ++ X)).takeWhile isBlank = gap := by
    intro gap hgap X
    rw [List.takeWhile_append_of_pos (by simpa using hgap)]
    exact List.append_nil gap
  have hgaps := congrArg (List.takeWhile isBlank) htail
  rw [hword hgap, hword hgap'] at hgaps
  subst hgaps
  exact ⟨rfl, List.append_cancel_left (List.append_cancel_left htail)⟩

/-- The steps that both patterns begin with. -/
theorem isDirective_iff {cs behind : List Char} :
    (∃ rest, cs = "pragma".toList ++ rest ∧ ∃ rest',
        Pattern.someBlanks? rest = some rest' ∧ rest' = "solidity".toList ++ behind) ↔
      ∃ phrase, IsDirective phrase ∧ cs = phrase ++ behind := by
  constructor
  · rintro ⟨rest, rfl, rest', hblanks, rfl⟩
    obtain ⟨gap, hne, hgap, rfl⟩ := Pattern.exists_of_someBlanks? hblanks
    exact ⟨_, ⟨gap, hne, hgap, rfl⟩, by rw [List.append_assoc, List.append_assoc]⟩
  · rintro ⟨phrase, ⟨gap, hne, hgap, rfl⟩, rfl⟩
    refine ⟨gap ++ ("solidity".toList ++ behind), ?_, _, ?_, rfl⟩
    · rw [List.append_assoc, List.append_assoc]
    · -- the second word is not blank, so that the gap ends there
      rw [Pattern.someBlanks?_append hne hgap]
      rfl

theorem pragmaDirective_eq_some_iff {before : Option Char} {cs rest : List Char} {u : Unit} :
    Pattern.pragmaDirective before cs = some (u, rest) ↔
      Pattern.atBoundary before = true ∧ (∃ phrase, IsDirective phrase ∧ cs = phrase ++ rest) ∧
        rest.head?.any isWordCharacter = false := by
  simp only [Pattern.pragmaDirective, Option.bind_eq_bind, Option.bind_eq_some_iff,
    Option.guard_eq_some', Pattern.text?_eq_some_iff, Pattern.word?_eq_some_iff]
  constructor
  · rintro ⟨-, hboundary, behind, hpragma, behind', hblanks, last, ⟨hsolidity, hword⟩, h⟩
    obtain ⟨-, rfl⟩ := Prod.mk.inj (Option.some.inj h)
    exact ⟨hboundary, isDirective_iff.mp ⟨behind, hpragma, behind', hblanks, hsolidity⟩, hword⟩
  · rintro ⟨hboundary, hphrase, hword⟩
    obtain ⟨behind, hpragma, behind', hblanks, hsolidity⟩ := isDirective_iff.mpr hphrase
    exact ⟨(), hboundary, behind, hpragma, behind', hblanks, rest, ⟨hsolidity, hword⟩, rfl⟩

theorem pragmaVersion_eq_some_iff {before : Option Char} {cs value rest : List Char} :
    Pattern.pragmaVersion before cs = some (value, rest) ↔
      Pattern.atBoundary before = true ∧ ∃ behind,
        (∃ phrase, IsDirective phrase ∧ cs = phrase ++ behind) ∧
          behind.head?.any isBlank = true ∧
          (Pattern.blanks behind).takeWhile (· != ';') = value ∧
          (Pattern.blanks behind).dropWhile (· != ';') = rest := by
  simp only [Pattern.pragmaVersion, Option.bind_eq_bind, Option.bind_eq_some_iff,
    Option.guard_eq_some', Pattern.text?_eq_some_iff]
  constructor
  · rintro ⟨-, hboundary, behind, hpragma, behind', hblanks, last, hsolidity, version, hlast, h⟩
    obtain ⟨rfl, rfl⟩ := Prod.mk.inj (Option.some.inj h)
    simp only [Pattern.someBlanks?, Option.ite_none_right_eq_some, Option.some.injEq] at hlast
    obtain ⟨hhead, rfl⟩ := hlast
    exact ⟨hboundary, last, isDirective_iff.mp ⟨behind, hpragma, behind', hblanks, hsolidity⟩, hhead,
      rfl, rfl⟩
  · rintro ⟨hboundary, last, hphrase, hhead, rfl, rfl⟩
    obtain ⟨behind, hpragma, behind', hblanks, hsolidity⟩ := isDirective_iff.mpr hphrase
    exact ⟨(), hboundary, behind, hpragma, behind', hblanks, last, hsolidity, Pattern.blanks last,
      by rw [Pattern.someBlanks?, if_pos hhead], rfl⟩

end Directive

/-! ## Any directive -/

/-- **A directive is found exactly if there is one.** -/
theorem pragmaDirective_hits_eq_nil_iff {text : List Char} :
    Pattern.pragmaDirective.hits text = [] ↔ ¬HasDirective text := by
  have hlast : ∀ skip : List Char, (skip.reverse ++ []).head? = skip.getLast? := by
    intro skip
    rw [List.append_nil, ← List.getLast?_eq_head?_reverse]
  rw [Pattern.hits, Pattern.hitsFrom_eq_nil_iff]
  constructor
  · rintro hnone ⟨before, phrase, behind, ⟨rfl, hphrase, hboundary⟩, hword⟩
    obtain ⟨w, hw⟩ := hphrase.exists_cons
    have hsome : Pattern.pragmaDirective before.getLast? (phrase ++ behind) = some ((), behind) :=
      pragmaDirective_eq_some_iff.mpr ⟨hboundary, ⟨phrase, hphrase, rfl⟩, hword⟩
    have h := hnone before (phrase ++ behind) rfl (by simp [hw])
    rw [hlast, hsome] at h
    cases h
  · intro hnone before cs htext _
    rw [hlast, Option.eq_none_iff_forall_ne_some]
    rintro ⟨u, rest⟩ h
    obtain ⟨hboundary, ⟨phrase, hphrase, rfl⟩, hword⟩ := pragmaDirective_eq_some_iff.mp h
    exact hnone ⟨before, phrase, rest, ⟨htext, hphrase, hboundary⟩, hword⟩

/-! ## The first directive of a clause -/

/-- A place where a version is read: a directive with white space behind it stands there, and the
version goes on to the next semicolon or to the end of the text. -/
structure ReadsVersion (text : List Char) (hit : Hit (List Char)) (phrase behind : List Char) :
    Prop where
  directive : DirectiveAt text hit.before.reverse phrase behind
  isBlank_head : behind.head?.any isBlank = true
  value : (Pattern.blanks behind).takeWhile (· != ';') = hit.value
  rest : (Pattern.blanks behind).dropWhile (· != ';') = hit.behind
  append_eq : hit.phrase ++ hit.behind = phrase ++ behind

/-- What stands behind a directive is white space, the version and the rest. -/
theorem append_version (behind : List Char) :
    behind.takeWhile isBlank ++ ((Pattern.blanks behind).takeWhile (· != ';')
      ++ (Pattern.blanks behind).dropWhile (· != ';')) = behind := by
  rw [List.takeWhile_append_dropWhile, Pattern.blanks, List.takeWhile_append_dropWhile]

namespace ReadsVersion

variable {text phrase behind : List Char} {hit : Hit (List Char)}

theorem phrase_eq (h : ReadsVersion text hit phrase behind) :
    hit.phrase = phrase ++ (behind.takeWhile isBlank ++ hit.value) := by
  have hwhole : hit.phrase ++ hit.behind
      = (phrase ++ (behind.takeWhile isBlank ++ hit.value)) ++ hit.behind := by
    calc hit.phrase ++ hit.behind = phrase ++ behind := h.append_eq
      _ = phrase ++ (behind.takeWhile isBlank ++ (hit.value ++ hit.behind)) := by
          rw [← h.value, ← h.rest, append_version]
      _ = _ := by simp only [List.append_assoc]
  exact List.append_cancel_right hwhole

/-- What is passed over has no semicolon. -/
theorem semicolon_notMem (h : ReadsVersion text hit phrase behind) : ';' ∉ hit.phrase := by
  rw [h.phrase_eq, ← h.value]
  intro hmem
  rcases List.mem_append.mp hmem with hmem | hmem
  · exact h.directive.phrase.semicolon_notMem hmem
  · rcases List.mem_append.mp hmem with hmem | hmem
    · exact absurd (List.mem_takeWhile_imp hmem) (by decide)
    · exact absurd (List.mem_takeWhile_imp hmem) (by simp)

/-- The search goes on behind the clause. -/
theorem eq_nil_or_semicolon (h : ReadsVersion text hit phrase behind) :
    hit.behind = [] ∨ ∃ rest, hit.behind = ';' :: rest := by
  rw [← h.rest]
  cases hrest : (Pattern.blanks behind).dropWhile (· != ';') with
  | nil => exact Or.inl rfl
  | cons c rest =>
      have hc := List.head?_dropWhile_not (· != ';') (Pattern.blanks behind)
      rw [hrest] at hc
      obtain rfl : c = ';' := by simpa using hc
      exact Or.inr ⟨rest, rfl⟩

end ReadsVersion

section Version

variable {text before : List Char} {hit : Hit (List Char)}

theorem exists_readsVersion (h : hit ∈ Pattern.pragmaVersion.hits text) :
    ∃ phrase behind, ReadsVersion text hit phrase behind := by
  have hne : ∀ (value phrase : List Char), BeginsSolid phrase → phrase ≠ [] :=
    fun _ _ h => h.ne_nil
  have hcuts := Pattern.pragmaVersion_recognises.cuts hne h
  obtain ⟨hboundary, behind, ⟨phrase, hphrase, htail⟩, hhead, hvalue, hrest⟩ :=
    pragmaVersion_eq_some_iff.mp (Pattern.pragmaVersion_recognises.fits hne h)
  refine ⟨phrase, behind, ⟨?_, hphrase, ?_⟩, hhead, hvalue, hrest, htail⟩
  · rw [← htail]
    exact hcuts.eq_append
  · rwa [List.getLast?_reverse]

theorem opensVersion_of_mem_hits (h : hit ∈ Pattern.pragmaVersion.hits text) :
    OpensVersion text hit.before.reverse := by
  obtain ⟨phrase, behind, hreads⟩ := exists_readsVersion h
  exact ⟨phrase, behind, hreads.directive, hreads.isBlank_head⟩

/-- A version is read behind the first directive of a clause: what is read in front of it does not
reach over a semicolon. -/
theorem exists_hit_of_first (hopens : OpensVersion text before) (hfirst : FirstInClause text before) :
    ∃ hit ∈ Pattern.pragmaVersion.hits text, hit.before.reverse = before := by
  obtain ⟨phrase, behind, ⟨rfl, hphrase, hboundary⟩, hhead⟩ := hopens
  obtain ⟨w, hw⟩ := hphrase.exists_cons
  generalize hvalue : (Pattern.blanks behind).takeWhile (· != ';') = value
  generalize hrest : (Pattern.blanks behind).dropWhile (· != ';') = rest
  have hwhole : phrase ++ behind = phrase ++ (behind.takeWhile isBlank ++ value) ++ rest := by
    rw [List.append_assoc, List.append_assoc, ← hvalue, ← hrest, append_version]
  have hfits : Pattern.pragmaVersion (before.reverse ++ []).head?
      (phrase ++ (behind.takeWhile isBlank ++ value) ++ rest) = some (value, rest) := by
    rw [List.append_nil, ← List.getLast?_eq_head?_reverse, ← hwhole]
    exact pragmaVersion_eq_some_iff.mpr
      ⟨hboundary, behind, ⟨phrase, hphrase, rfl⟩, hhead, hvalue, hrest⟩
  have hmem := Pattern.mem_hitsFrom (by simp [hw]) [] before hfits fun hit hhit hlt => ?_
  · rw [← hwhole] at hmem
    exact ⟨_, hmem, by rw [List.append_nil, List.reverse_reverse]⟩
  · -- a hit that reaches over the place would be an earlier directive of the clause
    rw [List.append_nil, List.length_reverse] at hlt ⊢
    by_contra hle
    rw [Nat.not_le] at hle
    rw [← hwhole] at hhit
    obtain ⟨phrase', behind', hreads⟩ := exists_readsVersion hhit
    have htext := hreads.directive.eq_append
    rw [← hreads.append_eq] at htext
    obtain ⟨clause, hbefore, hne, hclause⟩ :=
      exists_append_of_length_lt htext (by rwa [List.length_reverse])
    rw [hbefore, List.length_append, List.length_reverse] at hle
    obtain ⟨m, hm, -, -⟩ := exists_append_of_length_lt hclause.symm (by omega)
    refine hfirst _ clause hbefore hne (fun hmem => hreads.semicolon_notMem ?_)
      (opensVersion_of_mem_hits hhit)
    rw [hm]
    exact List.mem_append_left m hmem

/-- No version is read behind a later directive of a clause. The induction is on the place of the
earlier one: the first directive of the clause has been read up to the end of the clause. -/
theorem firstInClause_of_mem_hits (h : hit ∈ Pattern.pragmaVersion.hits text) :
    FirstInClause text hit.before.reverse := by
  intro front clause hbefore hne hclause
  induction hn : front.length using Nat.strongRecOn generalizing front clause with
  | _ n ih =>
      intro hopens
      have hfirst : FirstInClause text front := by
        rintro front' clause' rfl hne' hclause'
        rw [List.length_append] at hn
        have hpos := List.length_pos_iff.mpr hne'
        exact ih front'.length (by omega) front' (clause' ++ clause)
          (by rw [hbefore, List.append_assoc]) (by simp [hne]) (by simp [hclause, hclause']) rfl
      obtain ⟨hit', hhit', rfl⟩ := exists_hit_of_first hopens hfirst
      obtain ⟨phrase, behind, hreads⟩ := exists_readsVersion h
      obtain ⟨phrase', behind', hreads'⟩ := exists_readsVersion hhit'
      obtain ⟨w, hw⟩ := hreads.directive.phrase.exists_cons
      have hlength := congrArg List.length hbefore
      have hpos := List.length_pos_iff.mpr hne
      rw [List.length_append, List.length_reverse, List.length_reverse] at hlength
      have hdisjoint := Pattern.disjoint_of_mem_hits hhit' h (by omega)
      -- so the earlier hit ends in the clause, where the text goes on without a semicolon
      have htext : hit'.phrase ++ hit'.behind = clause ++ (phrase ++ behind) := by
        have hcut := hreads'.directive.eq_append
        rw [hreads.directive.eq_append, hbefore, List.append_assoc] at hcut
        rw [hreads'.append_eq, List.append_cancel_left hcut]
      obtain ⟨m, hm⟩ : hit'.phrase <+: clause :=
        List.prefix_of_prefix_length_le (htext ▸ List.prefix_append _ _)
          (List.prefix_append clause (phrase ++ behind)) (by omega)
      rw [← hm, List.append_assoc] at htext
      have hrest : hit'.behind = m ++ (phrase ++ behind) := List.append_cancel_left htext
      rcases hreads'.eq_nil_or_semicolon with hnil | ⟨rest, hsemicolon⟩
      · simp [hnil, hw] at hrest
      · rw [hsemicolon, hw] at hrest
        cases m with
        | nil => simp at hrest
        | cons c m =>
            obtain ⟨rfl, -⟩ := List.cons.inj hrest
            exact hclause (hm ▸ by simp)

/-- **The first directive of each clause.** A version is read exactly behind the first directive of
a clause that has white space behind it. -/
theorem exists_versionHit_iff :
    (∃ hit ∈ Pattern.pragmaVersion.hits text, hit.before.reverse = before) ↔
      OpensVersion text before ∧ FirstInClause text before := by
  constructor
  · rintro ⟨hit, hhit, rfl⟩
    exact ⟨opensVersion_of_mem_hits hhit, firstInClause_of_mem_hits hhit⟩
  · rintro ⟨hopens, hfirst⟩
    exact exists_hit_of_first hopens hfirst

end Version

end SolidityTools.Lint

import SolidityTools.Lint.Pattern
import Mathlib.Data.List.Basic
import Mathlib.Data.Option.Basic

set_option autoImplicit false

/-! # What patterns recognise

A pattern that fits has passed a phrase at the front of the text and left the rest as it was
(`Pattern.Recognises`). What is known of the phrase and of the captured value then holds of every
hit in a text, and a hit takes the text apart at its phrase (`Hit.Cuts`). The phrases of all
patterns begin with a character that is not white space, so they begin in code; and the phrase of a
header ends with its opening parenthesis, so that the group of the header goes on with the text
(`headerOf_recognises`).
-/

namespace SolidityTools.Lint

open Text

/-! ## Parts of phrases -/

namespace Pattern

theorem eq_append_of_text? {text : String} {cs rest : List Char} (h : text? text cs = some rest) :
    cs = text.toList ++ rest := by
  unfold text? at h
  split at h
  · next hprefix =>
      obtain ⟨X, rfl⟩ := List.isPrefixOf_iff_prefix.mp hprefix
      rw [← Option.some.inj h, ← String.length_toList, List.drop_left]
  · cases h

theorem text?_eq_some_iff {text : String} {cs rest : List Char} :
    text? text cs = some rest ↔ cs = text.toList ++ rest := by
  constructor
  · exact eq_append_of_text?
  · rintro rfl
    rw [text?, if_pos (by simp), ← String.length_toList, List.drop_left]

theorem eq_append_of_word? {word : String} {cs rest : List Char} (h : word? word cs = some rest) :
    cs = word.toList ++ rest :=
  eq_append_of_text? (Option.filter_eq_some_iff.mp h).1

theorem word?_eq_some_iff {word : String} {cs rest : List Char} :
    word? word cs = some rest ↔
      cs = word.toList ++ rest ∧ rest.head?.any isWordCharacter = false := by
  rw [word?, Option.filter_eq_some_iff, text?_eq_some_iff, Bool.not_eq_true']

theorem eq_append_of_oneOf? {texts : List String} {cs rest : List Char} {text : String}
    (h : oneOf? texts cs = some (text, rest)) : text ∈ texts ∧ cs = text.toList ++ rest := by
  obtain ⟨text', hmem, hfits⟩ := List.exists_of_findSome?_eq_some h
  obtain ⟨rest', hrest, heq⟩ := Option.map_eq_some_iff.mp hfits
  obtain ⟨rfl, rfl⟩ := Prod.mk.inj heq
  exact ⟨hmem, eq_append_of_text? hrest⟩

theorem exists_append_blanks (cs : List Char) : ∃ u, cs = u ++ blanks cs :=
  ⟨cs.takeWhile isBlank, List.takeWhile_append_dropWhile.symm⟩

theorem exists_append_of_someBlanks? {cs rest : List Char} (h : someBlanks? cs = some rest) :
    ∃ u, cs = u ++ rest := by
  unfold someBlanks? at h
  split at h
  · rw [← Option.some.inj h]
    exact exists_append_blanks cs
  · cases h

theorem exists_append_of_opening? {cs rest : List Char} (h : opening? cs = some rest) :
    ∃ u, cs = u ++ '(' :: rest := by
  obtain ⟨u, hu⟩ := exists_append_blanks cs
  refine ⟨u, hu.trans (congrArg (u ++ ·) ?_)⟩
  exact eq_append_of_text? h

theorem exists_append_of_member? {members : List String} {cs rest : List Char}
    (h : member? members cs = some rest) : ∃ u, cs = u ++ rest := by
  obtain ⟨behindDot, hdot, h⟩ := Option.bind_eq_some_iff.mp h
  obtain ⟨member, -, hmember⟩ := List.exists_of_findSome?_eq_some h
  obtain ⟨u, hu⟩ := exists_append_blanks cs
  obtain ⟨v, hv⟩ := exists_append_blanks behindDot
  refine ⟨u ++ (".".toList ++ (v ++ member.toList)), ?_⟩
  calc cs = u ++ blanks cs := hu
    _ = u ++ (".".toList ++ behindDot) := by rw [eq_append_of_text? hdot]
    _ = u ++ (".".toList ++ (v ++ (member.toList ++ rest))) := by
        rw [← eq_append_of_word? hmember, ← hv]
    _ = u ++ (".".toList ++ (v ++ member.toList)) ++ rest := by simp only [List.append_assoc]

theorem exists_append_of_callOptions? {cs rest : List Char} (h : callOptions? cs = some rest) :
    ∃ u, cs = u ++ rest := by
  unfold callOptions? at h
  split at h
  · next inside =>
      refine ⟨'\x7b' :: (inside.takeWhile (· != '\x7d') ++ "\x7d".toList), ?_⟩
      rw [List.cons_append, List.append_assoc, ← eq_append_of_text? h,
        List.takeWhile_append_dropWhile]
  · exact ⟨[], by rw [Option.some.inj h]; rfl⟩

/-! ## Phrases -/

/-- A pattern passes a phrase and leaves the rest, and the phrase and the captured value are as `P`
says. -/
def Recognises {α : Type} (pattern : Pattern α) (P : α → List Char → Prop) : Prop :=
  ∀ ⦃before cs value rest⦄, pattern before cs = some (value, rest) →
    ∃ phrase, cs = phrase ++ rest ∧ P value phrase

end Pattern

/-- A phrase begins with a character that is not white space. -/
def BeginsSolid (phrase : List Char) : Prop :=
  ∃ c w, phrase = c :: w ∧ isAsciiBlank c = false

theorem BeginsSolid.append {phrase : List Char} (h : BeginsSolid phrase) (X : List Char) :
    BeginsSolid (phrase ++ X) := by
  obtain ⟨c, w, rfl, hc⟩ := h
  exact ⟨c, w ++ X, rfl, hc⟩

theorem BeginsSolid.ne_nil {phrase : List Char} (h : BeginsSolid phrase) : phrase ≠ [] := by
  obtain ⟨c, w, rfl, -⟩ := h
  exact List.cons_ne_nil c w

/-- The phrase of a header: something that does not begin with white space, and then the opening
parenthesis. -/
def IsHeader (phrase : List Char) : Prop := ∃ lead, phrase = lead ++ ['('] ∧ BeginsSolid lead

theorem IsHeader.beginsSolid {phrase : List Char} (h : IsHeader phrase) : BeginsSolid phrase := by
  obtain ⟨lead, rfl, hlead⟩ := h
  exact hlead.append ['(']

theorem beginsSolid_of_head? {text : String}
    (h : text.toList.head?.any (!isAsciiBlank ·) = true) : BeginsSolid text.toList := by
  cases htext : text.toList with
  | nil => simp [htext] at h
  | cons c w => exact ⟨c, w, rfl, by simpa [htext] using h⟩

namespace Pattern

/-- A phrase that begins with a fixed text, whatever the pattern passes behind it. -/
theorem exists_phrase_of_text? {text : String} {cs behind rest : List Char}
    (htext : text? text cs = some behind) (hbehind : ∃ u, behind = u ++ rest)
    (hsolid : text.toList.head?.any (!isAsciiBlank ·) = true) :
    ∃ phrase, cs = phrase ++ rest ∧ BeginsSolid phrase := by
  obtain ⟨u, rfl⟩ := hbehind
  refine ⟨text.toList ++ u, ?_, (beginsSolid_of_head? hsolid).append u⟩
  rw [eq_append_of_text? htext, List.append_assoc]

theorem pragmaVersion_recognises : pragmaVersion.Recognises fun _ phrase => BeginsSolid phrase := by
  intro before cs value rest h
  simp only [pragmaVersion, Option.bind_eq_bind, Option.bind_eq_some_iff] at h
  obtain ⟨-, -, behind, hpragma, behind', hblanks, behind'', hsolidity, last, hlast, h⟩ := h
  obtain ⟨-, rfl⟩ := Prod.mk.inj (Option.some.inj h)
  obtain ⟨u, hu⟩ := exists_append_of_someBlanks? hblanks
  obtain ⟨v, hv⟩ := exists_append_of_someBlanks? hlast
  refine exists_phrase_of_text? hpragma
    ⟨u ++ ("solidity".toList ++ (v ++ last.takeWhile (· != ';'))), ?_⟩ (by decide)
  rw [hu, eq_append_of_text? hsolidity, hv]
  simp only [List.append_assoc, List.takeWhile_append_dropWhile]

theorem transactionOrigin_recognises :
    transactionOrigin.Recognises fun _ phrase => BeginsSolid phrase := by
  intro before cs value rest h
  simp only [transactionOrigin, Option.bind_eq_bind, Option.bind_eq_some_iff] at h
  obtain ⟨-, -, behind, htx, behind', hmember, h⟩ := h
  obtain ⟨-, rfl⟩ := Prod.mk.inj (Option.some.inj h)
  exact exists_phrase_of_text? htx (exists_append_of_member? hmember) (by decide)

theorem blockTime_recognises : blockTime.Recognises fun _ phrase => BeginsSolid phrase := by
  intro before cs value rest h
  simp only [blockTime, Option.bind_eq_bind, Option.bind_eq_some_iff] at h
  obtain ⟨-, -, behind, hbehind, h⟩ := h
  obtain ⟨-, rfl⟩ := Prod.mk.inj (Option.some.inj h)
  rw [Option.orElse_eq_orElse, Option.orElse_eq_or, Option.or_eq_some_iff] at hbehind
  rcases hbehind with htime | ⟨-, hnow⟩
  · obtain ⟨behind', hblock, hmember⟩ := Option.bind_eq_some_iff.mp htime
    exact exists_phrase_of_text? hblock (exists_append_of_member? hmember) (by decide)
  · exact ⟨"now".toList, eq_append_of_word? hnow, beginsSolid_of_head? (by decide)⟩

theorem blockRandomness_recognises :
    blockRandomness.Recognises fun _ phrase => BeginsSolid phrase := by
  intro before cs value rest h
  simp only [blockRandomness, Option.bind_eq_bind, Option.bind_eq_some_iff] at h
  obtain ⟨-, -, behind, hbehind, h⟩ := h
  obtain ⟨-, rfl⟩ := Prod.mk.inj (Option.some.inj h)
  rw [Option.orElse_eq_orElse, Option.orElse_eq_or, Option.or_eq_some_iff] at hbehind
  rcases hbehind with hvalue | ⟨-, hhash⟩
  · obtain ⟨behind', hblock, hmember⟩ := Option.bind_eq_some_iff.mp hvalue
    exact exists_phrase_of_text? hblock (exists_append_of_member? hmember) (by decide)
  · obtain ⟨behind', hblock, hopening⟩ := Option.bind_eq_some_iff.mp hhash
    obtain ⟨u, hu⟩ := exists_append_of_opening? hopening
    exact exists_phrase_of_text? hblock ⟨u ++ ['('], by simpa using hu⟩ (by decide)

/-- The phrase of a header is one of the words, then blanks and the opening parenthesis. -/
theorem headerOf_recognises {words : List String}
    (hwords : words.all (·.toList.head?.any (!isAsciiBlank ·)) = true) :
    (headerOf words).Recognises fun _ phrase => IsHeader phrase := by
  intro before cs value rest h
  simp only [headerOf, Option.bind_eq_bind, Option.bind_eq_some_iff] at h
  obtain ⟨-, -, ⟨word, behind⟩, hword, last, hopening, h⟩ := h
  obtain ⟨-, rfl⟩ := Prod.mk.inj (Option.some.inj h)
  obtain ⟨hmem, hcs⟩ := eq_append_of_oneOf? hword
  obtain ⟨u, rfl⟩ : ∃ u, behind = u ++ '(' :: last := exists_append_of_opening? hopening
  refine ⟨word.toList ++ u ++ ['('], ?_, word.toList ++ u, rfl, ?_⟩
  · rw [hcs]
    simp
  · exact (beginsSolid_of_head? (List.all_eq_true.mp hwords word hmem)).append u

/-- The member of a low-level call stands behind the text that is captured with it. -/
theorem lowLevelCall_recognises :
    lowLevelCall.Recognises fun value phrase =>
      ∃ behind, phrase = value.1 ++ behind ∧ BeginsSolid behind := by
  intro before cs value rest h
  simp only [lowLevelCall, Option.bind_eq_bind, Option.bind_eq_some_iff] at h
  obtain ⟨behind, hdot, ⟨member, behind'⟩, hmember, behind'', hoptions, last, hopening, h⟩ := h
  obtain ⟨rfl, rfl⟩ := Prod.mk.inj (Option.some.inj h)
  obtain ⟨hmem, hbehind⟩ := eq_append_of_oneOf? hmember
  obtain ⟨u, hu⟩ := exists_append_blanks behind'
  obtain ⟨v, hv⟩ := exists_append_of_callOptions? hoptions
  obtain ⟨w, hw⟩ := exists_append_of_opening? hopening
  have hsolid : lowLevelMembers.all (·.toList.head?.any (!isAsciiBlank ·)) = true := by decide
  refine ⟨('.' :: behind.takeWhile isBlank) ++ (member.toList ++ (u ++ (v ++ (w ++ ['('])))), ?_,
    member.toList ++ (u ++ (v ++ (w ++ ['(']))), rfl,
    (beginsSolid_of_head? (List.all_eq_true.mp hsolid member hmem)).append _⟩
  calc cs = '.' :: behind := eq_append_of_text? hdot
    _ = '.' :: (behind.takeWhile isBlank ++ blanks behind) := by
        rw [blanks, List.takeWhile_append_dropWhile]
    _ = '.' :: (behind.takeWhile isBlank
          ++ (member.toList ++ (u ++ (v ++ (w ++ '(' :: last))))) := by
        rw [hbehind, ← hw, ← hv, ← hu]
    _ = _ := by simp

end Pattern

/-! ## Hits -/

/-- A hit takes a text apart, and its phrase and value are as `P` says. -/
structure Hit.Cuts {α : Type} (hit : Hit α) (P : α → List Char → Prop) (cs : List Char) : Prop where
  eq_append : cs = hit.before.reverse ++ (hit.phrase ++ hit.behind)
  phrase : P hit.value hit.phrase

/-- **Every hit has a phrase of its pattern.** -/
theorem Pattern.Recognises.cuts {α : Type} {pattern : Pattern α} {P : α → List Char → Prop}
    (hpattern : pattern.Recognises P) (hne : ∀ value phrase, P value phrase → phrase ≠ [])
    {hit : Hit α} {cs : List Char} (h : hit ∈ pattern.hits cs) : hit.Cuts P cs := by
  have hfrom : ∀ {before cs}, hit ∈ pattern.hitsFrom before cs →
      hit.Cuts P (before.reverse ++ cs) := by
    intro before cs h
    fun_induction Pattern.hitsFrom pattern before cs with
    | case1 => cases h
    | case2 before c cs hnone ih =>
        have hcuts := ih h
        rwa [List.reverse_cons, List.append_assoc] at hcuts
    | case3 before c cs value rest hsome n ih =>
        obtain ⟨phrase, hcs, hphrase⟩ := hpattern hsome
        obtain ⟨d, w, rfl⟩ := List.exists_cons_of_ne_nil (hne _ _ hphrase)
        obtain ⟨rfl, hrest⟩ := List.cons.inj hcs
        change cs = w ++ rest at hrest
        subst hrest
        have hn : n = w.length := by
          show (w ++ rest).length - rest.length = w.length
          rw [List.length_append]
          omega
        -- the phrase is what the pattern passed, and the search goes on behind it
        rw [hn, List.take_left, List.drop_left] at h ih
        rcases List.mem_cons.mp h with rfl | h
        · exact ⟨rfl, hphrase⟩
        · have hcuts := ih h
          simpa using hcuts
  exact hfrom h

end SolidityTools.Lint

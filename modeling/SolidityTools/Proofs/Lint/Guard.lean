import SolidityTools.Lint.Call
import SolidityTools.Proofs.Lint.Pattern
import Mathlib.Data.Bool.AllAny
import Mathlib.Data.List.Basic

set_option autoImplicit false

/-! # Headers in a text

A search goes on behind the phrase just found, so in general a phrase can be missed because another
one covers its beginning. The phrases of headers never cover each other: a keyword begins behind a
word boundary, and inside a header no keyword begins at one. So the hits of a header are all places
where one stands (`exists_hit_iff`), which makes them independent of the text around: a header is
found in a piece of a text exactly if it stands in that piece.

The group of a header closes where its parentheses balance, whatever comes behind.
-/

namespace SolidityTools.Lint

open Text

/-! ## Balanced parentheses -/

/-- A text in which every parenthesis has its partner. -/
inductive Balanced : List Char → Prop
  | nil : Balanced []
  | plain {c : Char} {cs : List Char} (hopen : c ≠ '(') (hclose : c ≠ ')') (h : Balanced cs) :
      Balanced (c :: cs)
  | group {inner rest : List Char} (hinner : Balanced inner) (hrest : Balanced rest) :
      Balanced ('(' :: (inner ++ ')' :: rest))

theorem Balanced.append {as bs : List Char} (ha : Balanced as) (hb : Balanced bs) :
    Balanced (as ++ bs) := by
  induction ha with
  | nil => exact hb
  | plain hopen hclose h ih => exact .plain hopen hclose ih
  | group hinner hrest ihinner ihrest => simpa using Balanced.group hinner ihrest

theorem balanced_of_plain {cs : List Char} (h : ∀ c ∈ cs, c ≠ '(' ∧ c ≠ ')') : Balanced cs := by
  induction cs with
  | nil => exact .nil
  | cons c cs ih =>
      have hc := h c List.mem_cons_self
      exact .plain hc.1 hc.2 (ih fun d hd => h d (List.mem_cons_of_mem c hd))

theorem balanced_of_all_isBlank {cs : List Char} (h : cs.all isBlank = true) : Balanced cs := by
  refine balanced_of_plain fun c hc => ?_
  have hblank := List.all_eq_true.mp h c hc
  constructor <;> rintro rfl <;> exact absurd hblank (by decide)

theorem groupText_opener (depth : Nat) (cs : List Char) :
    groupText depth ('(' :: cs) = '(' :: groupText (depth + 1) cs := by
  rw [groupText, if_pos (beq_self_eq_true _)]

theorem groupText_closer_zero (cs : List Char) : groupText 1 (')' :: cs) = [')'] := by
  rw [groupText, if_neg (by decide), if_pos (beq_self_eq_true _), if_pos (Nat.le_refl 1)]

theorem groupText_closer_succ (depth : Nat) (cs : List Char) :
    groupText (depth + 2) (')' :: cs) = ')' :: groupText (depth + 1) cs := by
  rw [groupText, if_neg (by decide), if_pos (beq_self_eq_true _), if_neg (by omega)]
  rfl

theorem Balanced.groupText_append {cs : List Char} (h : Balanced cs) (depth : Nat)
    (X : List Char) : groupText (depth + 1) (cs ++ X) = cs ++ groupText (depth + 1) X := by
  induction h generalizing depth X with
  | nil => rfl
  | plain hopen hclose h ih =>
      rw [List.cons_append, groupText, if_neg (by simpa using hopen),
        if_neg (by simpa using hclose), ih, List.cons_append]
  | @group inner rest hinner hrest ihinner ihrest =>
      rw [List.cons_append, List.append_assoc, List.cons_append, groupText_opener, ihinner,
        groupText_closer_succ, ihrest]
      simp

theorem Balanced.groupText_eq {inner : List Char} (h : Balanced inner) (X : List Char) :
    groupText 0 ('(' :: (inner ++ ')' :: X)) = '(' :: (inner ++ [')']) := by
  rw [groupText_opener, h.groupText_append, groupText_closer_zero]

/-- A group has been closed in a text that follows its opening parenthesis. -/
def Closes (behind : List Char) : Prop :=
  ∃ inner rest, behind = inner ++ ')' :: rest ∧ Balanced inner

theorem Closes.append {behind : List Char} (h : Closes behind) (X : List Char) :
    Closes (behind ++ X) := by
  obtain ⟨inner, rest, rfl, hinner⟩ := h
  exact ⟨inner, rest ++ X, by simp, hinner⟩

theorem Closes.groupText_append {behind : List Char} (h : Closes behind) (X : List Char) :
    groupText 0 ('(' :: (behind ++ X)) = groupText 0 ('(' :: behind) := by
  obtain ⟨inner, rest, rfl, hinner⟩ := h
  rw [List.append_assoc, List.cons_append, hinner.groupText_eq, hinner.groupText_eq]

theorem Closes.length_groupText_le {behind : List Char} (h : Closes behind) :
    (groupText 0 ('(' :: behind)).length ≤ behind.length + 1 := by
  obtain ⟨inner, rest, rfl, hinner⟩ := h
  rw [hinner.groupText_eq]
  simp only [List.length_cons, List.length_append, List.length_nil]
  omega

theorem Balanced.closes {cs : List Char} (h : Balanced cs) {A B : List Char}
    (hcs : cs = A ++ '(' :: B) : Closes B := by
  induction h generalizing A B with
  | nil => simp at hcs
  | plain hopen hclose h ih =>
      cases A with
      | nil => exact absurd (List.cons.inj hcs).1 hopen
      | cons a A => exact ih (List.cons.inj hcs).2
  | @group inner rest hinner hrest ihinner ihrest =>
      cases A with
      | nil => exact ⟨inner, rest, (List.cons.inj hcs).2.symm, hinner⟩
      | cons a A =>
          obtain ⟨-, hcs⟩ := List.cons.inj hcs
          change inner ++ ')' :: rest = A ++ '(' :: B at hcs
          -- the parenthesis stands in the group or behind it
          rcases List.append_eq_append_iff.mp hcs with ⟨m, rfl, hm⟩ | ⟨m, rfl, hm⟩
          · cases m with
            | nil => simp at hm
            | cons d m => exact ihrest (List.cons.inj hm).2
          · cases m with
            | nil => simp at hm
            | cons d m =>
                obtain ⟨rfl, rfl⟩ := List.cons.inj hm
                exact (ihinner rfl).append _

/-- A group that has not been closed in a text takes in all of it, and goes on behind it. -/
theorem closes_or (cs : List Char) : Closes cs ∨
    ∃ depth, ∀ n X, groupText (n + 1) (cs ++ X) = cs ++ groupText (n + depth + 1) X := by
  match cs with
  | [] => exact Or.inr ⟨0, fun n X => rfl⟩
  | c :: cs =>
      by_cases hclose : c = ')'
      · subst hclose
        exact Or.inl ⟨[], cs, rfl, .nil⟩
      by_cases hopen : c = '('
      · subst hopen
        rcases closes_or cs with ⟨inner, rest, rfl, hinner⟩ | ⟨depth, hdepth⟩
        · -- the inner group ends, and what follows it is looked at next
          rcases closes_or rest with ⟨inner', rest', rfl, hinner'⟩ | ⟨depth, hdepth⟩
          · exact Or.inl ⟨'(' :: (inner ++ ')' :: inner'), rest', by simp, .group hinner hinner'⟩
          · refine Or.inr ⟨depth, fun n X => ?_⟩
            rw [List.cons_append, List.append_assoc, List.cons_append, groupText_opener,
              hinner.groupText_append, groupText_closer_succ, hdepth]
            simp
        · refine Or.inr ⟨depth + 1, fun n X => ?_⟩
          rw [List.cons_append, groupText_opener, hdepth, List.cons_append]
          congr 3
          omega
      · rcases closes_or cs with ⟨inner, rest, rfl, hinner⟩ | ⟨depth, hdepth⟩
        · exact Or.inl ⟨c :: inner, rest, rfl, .plain hopen hclose hinner⟩
        · refine Or.inr ⟨depth, fun n X => ?_⟩
          rw [List.cons_append, groupText, if_neg (by simpa using hopen),
            if_neg (by simpa using hclose), hdepth, List.cons_append]
termination_by cs.length
decreasing_by all_goals simp_all; try omega

/-! ## Hits are found where nothing covers them -/

section Hits

variable {α : Type} {pattern : Pattern α} {P : α → List Char → Prop}

theorem Pattern.Recognises.fits (hpattern : pattern.Recognises P)
    (hne : ∀ value phrase, P value phrase → phrase ≠ []) {hit : Hit α} {before cs : List Char}
    (h : hit ∈ pattern.hitsFrom before cs) :
    pattern hit.before.head? (hit.phrase ++ hit.behind) = some (hit.value, hit.behind) := by
  fun_induction Pattern.hitsFrom pattern before cs with
  | case1 => cases h
  | case2 before c cs hnone ih => exact ih h
  | case3 before c cs value rest hsome n ih =>
      rcases List.mem_cons.mp h with rfl | h
      · obtain ⟨phrase, hcs, hphrase⟩ := hpattern hsome
        obtain ⟨d, w, rfl⟩ := List.exists_cons_of_ne_nil (hne _ _ hphrase)
        obtain ⟨rfl, hrest⟩ := List.cons.inj hcs
        change cs = w ++ rest at hrest
        have hn : n = w.length := by
          show cs.length - rest.length = w.length
          rw [hrest, List.length_append]
          omega
        simp only [List.cons_append, List.take_append_drop, hsome]
        rw [hn, hrest, List.drop_left]
      · exact ih h

/-- Taking the beginning of a text off from what is skipped in it. -/
theorem skip_eq {skip tail cs : List Char} {n : Nat} (hcs : skip ++ tail = cs)
    (hn : n ≤ skip.length) :
    skip = cs.take n ++ skip.drop n ∧ skip.drop n ++ tail = cs.drop n := by
  subst hcs
  rw [List.take_append_of_le_length hn, List.take_append_drop, List.drop_append_of_le_length hn]
  exact ⟨rfl, rfl⟩

/-- A pattern has a hit where it fits, if no other hit covers the place. -/
theorem Pattern.mem_hitsFrom {phrase rest : List Char} {value : α} (hphrase : phrase ≠ [])
    (before skip : List Char)
    (hfits : pattern (skip.reverse ++ before).head? (phrase ++ rest) = some (value, rest))
    (hfree : ∀ hit ∈ pattern.hitsFrom before (skip ++ (phrase ++ rest)),
      hit.before.length < (skip.reverse ++ before).length →
      hit.before.length + hit.phrase.length ≤ (skip.reverse ++ before).length) :
    ⟨skip.reverse ++ before, value, phrase, rest⟩ ∈
      pattern.hitsFrom before (skip ++ (phrase ++ rest)) := by
  generalize hcs : skip ++ (phrase ++ rest) = cs at hfree ⊢
  revert skip
  fun_induction Pattern.hitsFrom pattern before cs with
  | case1 before =>
      intro skip hfits hcs
      simp [hphrase] at hcs
  | case2 before c cs hnone ih =>
      intro skip hfits hcs hfree
      cases skip with
      | nil =>
          rw [List.nil_append] at hcs
          rw [List.reverse_nil, List.nil_append, hcs, hnone] at hfits
          cases hfits
      | cons d skip =>
          rw [List.cons_append] at hcs
          obtain ⟨rfl, htail⟩ := List.cons.inj hcs
          rw [List.reverse_cons, List.append_assoc, List.singleton_append] at hfits hfree ⊢
          exact ih skip hfits htail hfree
  | case3 before c cs value' rest' hsome n ih =>
      intro skip hfits hcs hfree
      have hn : n = cs.length - rest'.length := rfl
      clear_value n
      cases skip with
      | nil =>
          rw [List.nil_append] at hcs
          rw [List.reverse_nil, List.nil_append, hcs, hsome] at hfits
          obtain ⟨rfl, rfl⟩ := Prod.mk.inj (Option.some.inj hfits)
          obtain ⟨d, w, rfl⟩ := List.exists_cons_of_ne_nil hphrase
          rw [List.cons_append] at hcs
          obtain ⟨rfl, rfl⟩ := List.cons.inj hcs
          have hw : n = w.length := by
            rw [hn, List.length_append]
            omega
          refine List.mem_cons.mpr (Or.inl ?_)
          rw [hw, List.take_left, List.drop_left]
          rfl
      | cons d skip =>
          rw [List.cons_append] at hcs
          obtain ⟨rfl, htail⟩ := List.cons.inj hcs
          -- the hit at this place ends in front of the phrase
          have hle := hfree _ List.mem_cons_self (by
            simp only [List.length_append, List.length_reverse, List.length_cons]
            omega)
          have hmin : n ≤ cs.length := by omega
          simp only [List.length_cons, List.length_take, Nat.min_eq_left hmin, List.length_append,
            List.length_reverse] at hle
          obtain ⟨hskip, hdrop⟩ := skip_eq htail (show n ≤ skip.length by omega)
          have hpassed : (d :: skip).reverse ++ before
              = (skip.drop n).reverse ++ ((cs.take n).reverse ++ d :: before) := by
            conv_lhs => rw [hskip]
            simp
          rw [hpassed] at hfits hfree ⊢
          exact List.mem_cons_of_mem _ (ih (skip.drop n) hfits hdrop fun hit hhit =>
            hfree hit (List.mem_cons_of_mem _ hhit))

end Hits

/-! ## Headers -/

/-- Words that are told apart by their beginnings, and from white space and parentheses. -/
structure Keywords (words : List String) : Prop where
  nonempty : ∀ word ∈ words, word.toList ≠ []
  characters : ∀ word ∈ words, ∀ c ∈ word.toList,
    isWordCharacter c = true ∧ isBlank c = false ∧ c ≠ '('
  distinct : ∀ word ∈ words, ∀ word' ∈ words, word.toList <+: word'.toList → word = word'

/-- One of some keywords with its opening parenthesis. -/
def IsHeaderOf (words : List String) (phrase : List Char) : Prop :=
  ∃ word ∈ words, ∃ gap, gap.all isBlank = true ∧ phrase = word.toList ++ (gap ++ ['('])

/-- A header stands in a text behind `before`, at a word boundary. -/
structure HeaderAt (words : List String) (text before phrase behind : List Char) : Prop where
  eq_append : text = before ++ (phrase ++ behind)
  phrase : IsHeaderOf words phrase
  boundary : Pattern.atBoundary before.getLast? = true

section Headers

variable {words : List String}

/-- Behind the keyword of a header no character of a keyword follows. -/
theorem isBlank_or_eq_of_mem {gap : List Char} (hgap : gap.all isBlank = true) {c : Char}
    (hc : c ∈ gap ++ ['(']) : isBlank c = true ∨ c = '(' := by
  rcases List.mem_append.mp hc with hc | hc
  · exact Or.inl (List.all_eq_true.mp hgap c hc)
  · exact Or.inr (List.mem_singleton.mp hc)

theorem IsHeaderOf.ne_nil {phrase : List Char} (h : IsHeaderOf words phrase) : phrase ≠ [] := by
  obtain ⟨word, -, gap, -, rfl⟩ := h
  simp

/-- A header ends with the parenthesis that opens its group. -/
theorem IsHeaderOf.exists_append {phrase : List Char} (h : IsHeaderOf words phrase) :
    ∃ lead, phrase = lead ++ ['('] := by
  obtain ⟨word, -, gap, -, rfl⟩ := h
  exact ⟨word.toList ++ gap, by simp⟩

theorem IsHeaderOf.mono {words' : List String} (hsubset : words ⊆ words') {phrase : List Char}
    (h : IsHeaderOf words phrase) : IsHeaderOf words' phrase := by
  obtain ⟨word, hmem, h⟩ := h
  exact ⟨word, hsubset hmem, h⟩

/-- A header and its group, with a balanced text behind them. -/
theorem IsHeaderOf.balanced (hwords : Keywords words) {phrase inner rest : List Char}
    (h : IsHeaderOf words phrase) (hinner : Balanced inner) (hrest : Balanced rest) :
    Balanced (phrase ++ (inner ++ ')' :: rest)) := by
  obtain ⟨word, hmem, gap, hgap, rfl⟩ := h
  have hword : Balanced word.toList := balanced_of_plain fun c hc => by
    obtain ⟨hpart, -, hparen⟩ := hwords.characters word hmem c hc
    refine ⟨hparen, ?_⟩
    rintro rfl
    exact absurd hpart (by decide)
  have hall := hword.append ((balanced_of_all_isBlank hgap).append (.group hinner hrest))
  simpa using hall

/-- A header begins with a character that is not white space. -/
theorem IsHeaderOf.exists_cons (hwords : Keywords words) {phrase : List Char}
    (h : IsHeaderOf words phrase) : ∃ c w, phrase = c :: w ∧ isBlank c = false := by
  obtain ⟨word, hmem, gap, -, rfl⟩ := h
  obtain ⟨c, w, hword⟩ := List.exists_cons_of_ne_nil (hwords.nonempty word hmem)
  have hc := hwords.characters word hmem c (by rw [hword]; exact List.mem_cons_self)
  exact ⟨c, w ++ (gap ++ ['(']), by rw [hword, List.cons_append], hc.2.1⟩

theorem IsHeaderOf.closer_not_mem (hwords : Keywords words) {phrase : List Char}
    (h : IsHeaderOf words phrase) : ')' ∉ phrase := by
  obtain ⟨word, hmem, gap, hgap, rfl⟩ := h
  intro hclose
  rcases List.mem_append.mp hclose with hclose | hclose
  · exact absurd (hwords.characters word hmem _ hclose).1 (by decide)
  · rcases isBlank_or_eq_of_mem hgap hclose with hblank | hparen
    · exact absurd hblank (by decide)
    · exact absurd hparen (by decide)

/-- Where none of some texts begins another, the one that stands at the front is found. -/
theorem oneOf?_append {texts : List String}
    (hdistinct : ∀ text ∈ texts, ∀ text' ∈ texts, text.toList <+: text'.toList → text = text')
    {text : String} (hmem : text ∈ texts) (tail : List Char) :
    Pattern.oneOf? texts (text.toList ++ tail) = some (text, tail) := by
  have hsome : (Pattern.oneOf? texts (text.toList ++ tail)).isSome = true := by
    rw [Pattern.oneOf?, List.findSome?_isSome_iff]
    refine ⟨text, hmem, ?_⟩
    rw [Pattern.text?, if_pos (by simp)]
    rfl
  obtain ⟨⟨text', tail'⟩, h⟩ := Option.isSome_iff_exists.mp hsome
  obtain ⟨hmem', heq⟩ := Pattern.eq_append_of_oneOf? h
  have htext : text' = text := by
    rcases List.prefix_or_prefix_of_prefix (List.prefix_append text'.toList tail')
      (heq ▸ List.prefix_append text.toList tail) with hprefix | hprefix
    · exact hdistinct _ hmem' _ hmem hprefix
    · exact (hdistinct _ hmem _ hmem' hprefix).symm
  subst htext
  rw [h, List.append_cancel_left heq]

theorem blanks_append {gap : List Char} (hgap : gap.all isBlank = true) (cs : List Char) :
    Pattern.blanks (gap ++ cs) = Pattern.blanks cs :=
  List.dropWhile_append_of_pos (by simpa using hgap)

theorem opening?_append {gap : List Char} (hgap : gap.all isBlank = true) (rest : List Char) :
    Pattern.opening? (gap ++ '(' :: rest) = some rest := by
  rw [Pattern.opening?, blanks_append hgap, Pattern.blanks, List.dropWhile_cons_of_neg (by decide)]
  rfl

/-- Behind blanks the arguments open. -/
theorem exists_of_opening? {cs rest : List Char} (h : Pattern.opening? cs = some rest) :
    ∃ gap, gap.all isBlank = true ∧ cs = gap ++ '(' :: rest := by
  refine ⟨cs.takeWhile isBlank, List.all_takeWhile, ?_⟩
  have hparen : Pattern.blanks cs = '(' :: rest := Pattern.eq_append_of_text? h
  rw [← hparen, Pattern.blanks, List.takeWhile_append_dropWhile]

/-- The pattern of a header fits exactly where one of its words stands with its parenthesis. -/
theorem headerOf_eq_some_iff (hwords : Keywords words) {before : Option Char}
    {cs rest : List Char} {word : String} :
    Pattern.headerOf words before cs = some (word, rest) ↔
      Pattern.atBoundary before = true ∧ word ∈ words ∧
        ∃ gap, gap.all isBlank = true ∧ cs = word.toList ++ (gap ++ '(' :: rest) := by
  simp only [Pattern.headerOf, Option.bind_eq_bind, Option.bind_eq_some_iff, Option.guard_eq_some']
  constructor
  · rintro ⟨-, hboundary, ⟨word', behind⟩, hword, last, hopening, h⟩
    obtain ⟨rfl, rfl⟩ := Prod.mk.inj (Option.some.inj h)
    obtain ⟨hmem, rfl⟩ := Pattern.eq_append_of_oneOf? hword
    obtain ⟨gap, hgap, rfl⟩ := exists_of_opening? hopening
    exact ⟨hboundary, hmem, gap, hgap, rfl⟩
  · rintro ⟨hboundary, hmem, gap, hgap, rfl⟩
    exact ⟨(), hboundary, _, oneOf?_append hwords.distinct hmem _, rest, opening?_append hgap rest,
      rfl⟩

/-- Two headers do not cover each other: a keyword does not begin inside a header. -/
theorem length_le_of_headers (hwords : Keywords words) {phrase phrase' X X' : List Char}
    (hphrase : IsHeaderOf words phrase) (hphrase' : IsHeaderOf words phrase') {skip : List Char}
    (hskip : skip ≠ []) (hboundary : Pattern.atBoundary skip.getLast? = true)
    (heq : skip ++ (phrase ++ X) = phrase' ++ X') : phrase'.length ≤ skip.length := by
  by_contra hlt
  rw [Nat.not_le] at hlt
  obtain ⟨word, hmem, gap, -, rfl⟩ := hphrase
  obtain ⟨word', hmem', gap', hgap', rfl⟩ := hphrase'
  obtain ⟨c, w, hword⟩ := List.exists_cons_of_ne_nil (hwords.nonempty word hmem)
  have hc := hwords.characters word hmem c (by rw [hword]; exact List.mem_cons_self)
  -- `m` is the part of the covering header behind the place, which begins with the keyword
  obtain ⟨m, hm⟩ : ∃ m, word'.toList ++ (gap' ++ ['(']) = skip ++ m := by
    rcases List.append_eq_append_iff.mp heq with ⟨m, hm, -⟩ | ⟨m, hm, -⟩
    · exact ⟨m, hm⟩
    · rw [hm] at hlt
      simp at hlt
  have hhead : ∃ m', m = c :: m' := by
    cases m with
    | nil => simp [hm] at hlt
    | cons d m =>
        rw [hm, List.append_assoc skip] at heq
        have hbehind := List.append_cancel_left heq
        rw [hword] at hbehind
        exact ⟨m, by rw [(List.cons.inj hbehind).1]⟩
  obtain ⟨m', rfl⟩ := hhead
  rcases List.append_eq_append_iff.mp hm with ⟨x, hx, hrest⟩ | ⟨x, hx, hrest⟩
  · -- the place lies behind the covering keyword
    have hmem : c ∈ gap' ++ ['('] := by
      rw [hrest]
      simp
    rcases isBlank_or_eq_of_mem hgap' hmem with hblank | hparen
    · rw [hc.2.1] at hblank
      cases hblank
    · exact hc.2.2 hparen
  · -- the place lies in the covering keyword, behind one of its characters
    have hlast := List.getLast?_eq_some_getLast hskip
    have hin : skip.getLast hskip ∈ word'.toList := by
      rw [hx]
      exact List.mem_append_left _ (List.getLast_mem hskip)
    have := (hwords.characters word' hmem' _ hin).1
    rw [hlast] at hboundary
    simp [Pattern.atBoundary, this] at hboundary

/-- Where a header is found, one stands. -/
theorem headerAt_of_mem_hits (hwords : Keywords words) {text : List Char} {hit : Hit String}
    (h : hit ∈ (Pattern.headerOf words).hits text) :
    HeaderAt words text hit.before.reverse hit.phrase hit.behind := by
  have hrecognises : (Pattern.headerOf words).Recognises fun word phrase =>
      word ∈ words ∧ ∃ gap, gap.all isBlank = true ∧ phrase = word.toList ++ (gap ++ ['(']) := by
    intro before cs word rest h
    obtain ⟨-, hmem, gap, hgap, rfl⟩ := (headerOf_eq_some_iff hwords).mp h
    exact ⟨word.toList ++ (gap ++ ['(']), by simp, hmem, gap, hgap, rfl⟩
  have hne : ∀ (word : String) (phrase : List Char), (word ∈ words ∧
      ∃ gap, gap.all isBlank = true ∧ phrase = word.toList ++ (gap ++ ['('])) → phrase ≠ [] := by
    rintro word phrase ⟨hmem, h⟩
    exact IsHeaderOf.ne_nil ⟨word, hmem, h⟩
  have hcuts := hrecognises.cuts hne h
  have hfits := (headerOf_eq_some_iff hwords).mp (hrecognises.fits hne h)
  refine ⟨hcuts.eq_append, ⟨hit.value, hcuts.phrase⟩, ?_⟩
  rw [List.getLast?_reverse]
  exact hfits.1

/-- What stands in front of a place and behind an earlier one. -/
theorem exists_append_of_length_lt {as bs X Y : List Char} (h : as ++ X = bs ++ Y)
    (hlt : bs.length < as.length) : ∃ m, as = bs ++ m ∧ m ≠ [] ∧ m ++ X = Y := by
  obtain ⟨m, rfl⟩ : bs <+: as :=
    List.prefix_of_prefix_length_le (h ▸ List.prefix_append bs Y) (List.prefix_append as X)
      (Nat.le_of_lt hlt)
  rw [List.append_assoc] at h
  refine ⟨m, rfl, ?_, List.append_cancel_left h⟩
  rintro rfl
  simp at hlt

/-- A header that begins in front of another one ends there, too. -/
theorem HeaderAt.length_le (hwords : Keywords words)
    {text before phrase behind before' phrase' behind' : List Char}
    (h : HeaderAt words text before phrase behind)
    (h' : HeaderAt words text before' phrase' behind') (hlt : before'.length < before.length) :
    before'.length + phrase'.length ≤ before.length := by
  obtain ⟨rfl, hphrase, hboundary⟩ := h
  obtain ⟨skip, rfl, hne, hskip⟩ := exists_append_of_length_lt h'.eq_append hlt
  rw [List.getLast?_append_of_ne_nil _ hne] at hboundary
  have := length_le_of_headers hwords hphrase h'.phrase hne hboundary hskip
  rw [List.length_append]
  omega

/-- **The hits of a header are the places where one stands.** -/
theorem exists_hit_iff (hwords : Keywords words) {text before phrase behind : List Char} :
    (∃ word, ⟨before.reverse, word, phrase, behind⟩ ∈ (Pattern.headerOf words).hits text) ↔
      HeaderAt words text before phrase behind := by
  constructor
  · rintro ⟨word, hhit⟩
    have := headerAt_of_mem_hits hwords hhit
    rwa [List.reverse_reverse] at this
  · intro h
    obtain ⟨rfl, hphrase, hboundary⟩ := id h
    obtain ⟨word, hmem, gap, hgap, hphraseEq⟩ := id hphrase
    refine ⟨word, ?_⟩
    have hfits : Pattern.headerOf words (before.reverse ++ []).head? (phrase ++ behind)
        = some (word, behind) := by
      rw [List.append_nil, ← List.getLast?_eq_head?_reverse]
      exact (headerOf_eq_some_iff hwords).mpr ⟨hboundary, hmem, gap, hgap, by simp [hphraseEq]⟩
    have hmemHits := Pattern.mem_hitsFrom hphrase.ne_nil [] before hfits fun hit hhit hlt => ?_
    · rwa [List.append_nil] at hmemHits
    · rw [List.append_nil, List.length_reverse] at hlt ⊢
      have hother := headerAt_of_mem_hits hwords hhit
      have := h.length_le hwords hother (by rwa [List.length_reverse])
      rwa [List.length_reverse] at this

end Headers

end SolidityTools.Lint

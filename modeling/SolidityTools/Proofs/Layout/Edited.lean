import SolidityTools.Proofs.Layout.Place
import SolidityTools.Proofs.Layout.Shape
import Mathlib.Data.List.Chain

set_option autoImplicit false

/-! # Edited tokens

The tokens before and after loops were changed are compared by `Edited`, which forgets where the
changes come from and keeps what they look like: behind a deleted increment a semicolon stands in
front of a closing parenthesis, and an inserted block ends with a semicolon in front of a closing
brace. In the header of a counted loop, every semicolon is followed by something else. So a header
that is found afterwards was there before, token by token (`Edited.exists_prefix`), and its body was
a body as well (`Edited.bodiesFound`). But of every loop that was there before, the last semicolon
of the header now stands in front of the parenthesis.
-/

namespace SolidityTools.Layout

open Lexer

/-! ## Where a header may be found -/

/-- No semicolon has a closing bracket behind it. -/
def SemicolonsGoOn (ts : List Token) : Prop :=
  ts.IsChain fun t u =>
    t.isOperator ";" = true → u.isOperator ")" = false ∧ u.isOperator "\x7d" = false

theorem SemicolonsGoOn.tail {t : Token} {ts : List Token} (h : SemicolonsGoOn (t :: ts)) :
    SemicolonsGoOn ts :=
  List.IsChain.tail h

theorem SemicolonsGoOn.cons {t : Token} {ts : List Token} (ht : t.isOperator ";" = false)
    (h : SemicolonsGoOn ts) : SemicolonsGoOn (t :: ts) := by
  cases ts with
  | nil => exact List.isChain_singleton t
  | cons u ts =>
      refine List.isChain_cons_cons.mpr ⟨fun hsemicolon => ?_, h⟩
      rw [ht] at hsemicolon
      cases hsemicolon

theorem SemicolonsGoOn.append {A ts : List Token} (hA : ∀ t ∈ A, t.isOperator ";" = false)
    (h : SemicolonsGoOn ts) : SemicolonsGoOn (A ++ ts) := by
  induction A with
  | nil => exact h
  | cons t A ih =>
      exact (ih fun u hu => hA u (List.mem_cons_of_mem _ hu)).cons (hA t List.mem_cons_self)

theorem SemicolonsGoOn.semicolon {t u : Token} {ts : List Token} (h : SemicolonsGoOn (u :: ts))
    (hu : u.isOperator ")" = false ∧ u.isOperator "\x7d" = false) : SemicolonsGoOn (t :: u :: ts) :=
  List.isChain_cons_cons.mpr ⟨fun _ => hu, h⟩

theorem semicolonsGoOn_header {header : List Token} {counter : String} {semicolon : Token}
    (h : countedHeader? header = some (counter, semicolon))
    (hname : ∀ t ∈ header, t.kind = .identifier → IsName t.text) (paren : Token) :
    SemicolonsGoOn (header ++ [paren]) := by
  obtain ⟨type, c, assign, zero, first, condition, a, b, rfl, hkind, htext, hdeclaration, hfirst,
    hcondition, hbound, hsemicolon, hincrement⟩ := countedHeader?_eq_some h
  have hcounter : IsName counter := htext ▸ hname c (by simp) hkind
  have hmark := fun e => @isOperator_eq_false_of_isIncrement counter a b hcounter hincrement e
  -- behind the first semicolon the bound begins with the counter, and behind the last one the
  -- increment
  obtain ⟨left, bound, rfl, hleft⟩ : ∃ left bound, condition = left :: bound ∧
      left.text = counter := by
    unfold isBound at hbound
    split at hbound
    · next left operator bound more =>
        rw [Bool.and_eq_true, beq_iff_eq] at hbound
        exact ⟨left, _, rfl, hbound.1⟩
    · cases hbound
  have hlast : SemicolonsGoOn [semicolon, a, b, paren] := by
    refine .semicolon (.cons (hmark ';' (by decide)).1 (.cons (hmark ';' (by decide)).2 ?_))
      ⟨(hmark ')' (by decide)).1, (hmark '\x7d' (by decide)).1⟩
    exact List.isChain_singleton paren
  have hbehind : SemicolonsGoOn (first :: left :: (bound ++ [semicolon, a, b, paren])) := by
    refine .semicolon (hlast.append hcondition) ⟨?_, ?_⟩
    · exact @isOperator_eq_false_of_isName left ')' (hleft ▸ hcounter) (by decide)
    · exact @isOperator_eq_false_of_isName left '\x7d' (hleft ▸ hcounter) (by decide)
  have hall := hbehind.append hdeclaration
  simpa using hall

/-! ## Edited tokens -/

/-- The tokens of a text before and after some counted loops were changed. No token that is left
alone is `marked`: those are the semicolons in front of the increments. -/
inductive Edited (marked : Token → Prop) : List Token → List Token → Prop
  | done : Edited marked [] []
  | keep {t u : Token} {ts us : List Token} (hshape : u.shape = t.shape) (ht : ¬marked t)
      (h : Edited marked ts us) : Edited marked (t :: ts) (u :: us)
  | block {u : Token} {B ts us : List Token} {counter : String}
      (hu : u.isKeyword "unchecked" = true)
      (hB : B.map Token.shape = (blockShapes counter).tail)
      (hnext : ∀ t ∈ ts.head?, t.isOperator ")" = false) (h : Edited marked ts us) :
      Edited marked ts (u :: (B ++ us))
  | glued {word u : Token} {B ts us : List Token} {counter : String} (hword : word.isWord = true)
      (hblocks : blocksMove word = false) (hu : u.kind ≠ .operator)
      (hfor : u.isKeyword "for" = false) (hB : B.map Token.shape = (blockShapes counter).tail)
      (h : Edited marked ts us) : Edited marked (word :: ts) (u :: (B ++ us))
  | removal {semicolon paren u v : Token} {increment ts us : List Token}
      (hsemicolon : semicolon.isOperator ";" = true) (hparen : paren.isOperator ")" = true)
      (hplain : ∀ t ∈ increment, t.isOperator "\x7b" = false ∧ t.isOperator "\x7d" = false ∧
        blocksMove t = false)
      (hu : u.shape = semicolon.shape) (hv : v.shape = paren.shape) (h : Edited marked ts us) :
      Edited marked (semicolon :: (increment ++ paren :: ts)) (u :: v :: us)

/-- The tokens of an inserted block behind its keyword. -/
theorem exists_of_map_shape_tail {B : List Token} {counter : String}
    (h : B.map Token.shape = (blockShapes counter).tail) :
    ∃ opener plus c semicolon closer, B = [opener, plus, c, semicolon, closer] ∧
      opener.isOperator "\x7b" = true ∧ plus.isOperator "++" = true ∧ c.kind = .identifier ∧
      semicolon.isOperator ";" = true ∧ closer.isOperator "\x7d" = true := by
  simp only [blockShapes, List.tail_cons, List.map_eq_cons_iff, List.map_eq_nil_iff] at h
  obtain ⟨opener, _, rfl, hopener, plus, _, rfl, hplus, c, _, rfl, hc, semicolon, _, rfl,
    hsemicolon, closer, _, rfl, hcloser, rfl⟩ := h
  exact ⟨opener, plus, c, semicolon, closer, rfl, Token.isOperator_iff.mpr hopener,
    Token.isOperator_iff.mpr hplus, congrArg Prod.fst hc, Token.isOperator_iff.mpr hsemicolon,
    Token.isOperator_iff.mpr hcloser⟩

/-- No header begins in front of an inserted block and ends in it or behind it. -/
theorem append_ne_of_map_shape_tail {A B us X : List Token} {paren : Token} {counter : String}
    (hB : B.map Token.shape = (blockShapes counter).tail) (hA : SemicolonsGoOn (A ++ [paren]))
    (hparen : paren.isOperator ")" = true) : B ++ us ≠ A ++ paren :: X := by
  intro heq
  obtain ⟨opener, plus, c, semicolon, closer, rfl, hopener, hplus, hc, hsemicolon, hcloser⟩ :=
    exists_of_map_shape_tail hB
  have hinside : ∀ m, A ≠ [opener, plus, c, semicolon, closer] ++ m := by
    rintro m rfl
    have hchain := (List.isChain_cons_cons.mp hA.tail.tail.tail).1 hsemicolon
    rw [hcloser] at hchain
    cases hchain.2
  rcases List.append_eq_append_iff.mp heq with ⟨m, hm, -⟩ | ⟨m, hm, hX⟩
  · exact hinside m hm
  · cases m with
    | nil => exact hinside [] (by rw [hm, List.append_nil, List.append_nil])
    | cons t m =>
        obtain ⟨rfl, -⟩ := List.cons.inj hX
        have hmem : paren ∈ [opener, plus, c, semicolon, closer] := by
          rw [hm]
          simp
        have hshape := Token.isOperator_iff.mp hparen
        simp only [List.mem_cons, List.not_mem_nil, or_false] at hmem
        rw [Token.isOperator_iff] at hopener hplus hsemicolon hcloser
        rcases hmem with rfl | rfl | rfl | rfl | rfl
        · simp [hshape] at hopener
        · simp [hshape] at hplus
        · rw [Token.shape, hc] at hshape
          simp at hshape
        · simp [hshape] at hsemicolon
        · simp [hshape] at hcloser

/-- **A header that is found afterwards was there before**, and it holds no marked token. -/
theorem Edited.exists_prefix {marked : Token → Prop} {ts A us : List Token} {paren : Token}
    (h : Edited marked ts (A ++ paren :: us)) (hA : SemicolonsGoOn (A ++ [paren]))
    (hparen : paren.isOperator ")" = true) :
    ∃ P p ts', ts = P ++ p :: ts' ∧ P.map Token.shape = A.map Token.shape ∧
      p.shape = paren.shape ∧ (∀ t ∈ P, ¬marked t) ∧ Edited marked ts' us := by
  generalize hall : A ++ paren :: us = all at h
  have hkind := Token.kind_of_isOperator hparen
  induction h generalizing A with
  | done => simp at hall
  | @keep t u ts us' hshape ht h ih =>
      cases A with
      | nil =>
          obtain ⟨rfl, rfl⟩ := List.cons.inj hall
          exact ⟨[], t, ts, rfl, rfl, hshape.symm, by simp, h⟩
      | cons a A =>
          obtain ⟨rfl, hrest⟩ := List.cons.inj hall
          obtain ⟨P, p, ts', rfl, hP, hp, hmarked, h'⟩ := ih hA.tail hrest
          refine ⟨t :: P, p, ts', rfl, by rw [List.map_cons, List.map_cons, hP, hshape], hp, ?_, h'⟩
          intro x hx
          rcases List.mem_cons.mp hx with rfl | hx
          · exact ht
          · exact hmarked x hx
  | @block u B ts us' counter hu hB hnext h ih =>
      cases A with
      | nil =>
          obtain ⟨rfl, -⟩ := List.cons.inj hall
          rw [Token.isKeyword_iff, Token.shape, hkind] at hu
          cases hu
      | cons a A =>
          exact absurd (List.cons.inj hall).2.symm (append_ne_of_map_shape_tail hB hA.tail hparen)
  | @glued word u B ts us' counter hword hblocks hu hfor hB h ih =>
      cases A with
      | nil =>
          obtain ⟨rfl, -⟩ := List.cons.inj hall
          exact absurd hkind hu
      | cons a A =>
          exact absurd (List.cons.inj hall).2.symm (append_ne_of_map_shape_tail hB hA.tail hparen)
  | @removal semicolon paren' u v increment ts us' hsemicolon hparen' hplain hu hv h ih =>
      rw [Token.isOperator_iff] at hsemicolon hparen'
      rw [hsemicolon, ← Token.isOperator_iff] at hu
      rw [hparen', ← Token.isOperator_iff] at hv
      -- the semicolon would have a parenthesis behind it
      have hgo : ∀ (t : Token) (rest : List Token), t.isOperator ")" = true →
          ¬SemicolonsGoOn (u :: t :: rest) := by
        intro t rest ht hchain
        have hnext := (List.isChain_cons_cons.mp hchain).1 hu
        rw [ht] at hnext
        cases hnext.1
      cases A with
      | nil =>
          obtain ⟨rfl, -⟩ := List.cons.inj hall
          exact absurd rfl (Token.ne_of_isOperator (c := ')') (e := ';') hparen hu (by decide))
      | cons a A =>
          obtain ⟨rfl, hrest⟩ := List.cons.inj hall
          cases A with
          | nil => exact absurd hA (hgo paren [] hparen)
          | cons a' A =>
              obtain ⟨rfl, -⟩ := List.cons.inj hrest
              exact absurd hA (hgo _ _ hv)

/-! ## Bodies -/

theorem blocksMove_of_isOperator {t : Token} {text : String} (ht : t.isOperator text = true) :
    blocksMove t = false := by
  simp [blocksMove, Token.isKeyword, Token.kind_of_isOperator ht]

/-- A body that is found in the second text is one in the first text. The closing brace may be
looked for from inside further groups. -/
def BodiesFound (ts us : List Token) : Prop :=
  ∀ d g, Group.close? "\x7b" "\x7d" d us = some g → g.inside.any blocksMove = false →
    ∃ g', Group.close? "\x7b" "\x7d" d ts = some g' ∧ g'.inside.any blocksMove = false

namespace BodiesFound

variable {t u : Token} {A ts us : List Token}

/-- A token is kept. -/
theorem keep (hshape : u.shape = t.shape) (h : BodiesFound ts us) :
    BodiesFound (t :: ts) (u :: us) := by
  intro d g hg hblocks
  have hoperator := Token.isOperator_congr hshape
  have hmove : blocksMove u = blocksMove t := by
    rw [blocksMove, blocksMove, Token.isKeyword_congr hshape, Token.isKeyword_congr hshape]
  -- the token closes the group on both sides, or it is passed on both sides
  have hpass : ∀ d', Group.close? "\x7b" "\x7d" d (u :: us)
        = (Group.close? "\x7b" "\x7d" d' us).map (Group.push u) →
      Group.close? "\x7b" "\x7d" d (t :: ts)
        = (Group.close? "\x7b" "\x7d" d' ts).map (Group.push t) →
      ∃ g', Group.close? "\x7b" "\x7d" d (t :: ts) = some g' ∧
        g'.inside.any blocksMove = false := by
    intro d' hu ht
    obtain ⟨g₀, hg₀, rfl⟩ := Option.map_eq_some_iff.mp (hu.symm.trans hg)
    rw [Group.push, List.any_cons, Bool.or_eq_false_iff] at hblocks
    obtain ⟨g', hg', hblocks'⟩ := h d' g₀ hg₀ hblocks.2
    refine ⟨g'.push t, by rw [ht, hg', Option.map_some], ?_⟩
    rw [Group.push, List.any_cons, ← hmove, hblocks.1, hblocks']
    rfl
  by_cases hopen : t.isOperator "\x7b" = true
  · exact hpass (d + 1) (Group.close?_opener (by rwa [hoperator]) d us)
      (Group.close?_opener hopen d ts)
  · by_cases hclose : t.isOperator "\x7d" = true
    · cases d with
      | zero => exact ⟨⟨[], t, ts⟩, Group.close?_closer_zero hopen hclose ts, rfl⟩
      | succ d =>
          exact hpass d
            (Group.close?_closer_succ (by rwa [hoperator]) (by rwa [hoperator]) d us)
            (Group.close?_closer_succ hopen hclose d ts)
    · exact hpass d (Group.close?_other (by rwa [hoperator]) (by rwa [hoperator]) d us)
        (Group.close?_other hopen hclose d ts)

/-- A token that is no brace is put in. -/
theorem put (hopen : u.isOperator "\x7b" = false) (hclose : u.isOperator "\x7d" = false)
    (h : BodiesFound ts us) : BodiesFound ts (u :: us) := by
  intro d g hg hblocks
  rw [Group.close?_other (by simp [hopen]) (by simp [hclose])] at hg
  obtain ⟨g₀, hg₀, rfl⟩ := Option.map_eq_some_iff.mp hg
  rw [Group.push, List.any_cons, Bool.or_eq_false_iff] at hblocks
  exact h d g₀ hg₀ hblocks.2

/-- Tokens that are no braces are taken out. -/
theorem take (hA : ∀ t ∈ A, t.isOperator "\x7b" = false ∧ t.isOperator "\x7d" = false ∧
    blocksMove t = false) (h : BodiesFound ts us) : BodiesFound (A ++ ts) us := by
  intro d g hg hblocks
  obtain ⟨g', hg', hblocks'⟩ := h d g hg hblocks
  clear hg hblocks
  induction A with
  | nil => exact ⟨g', hg', hblocks'⟩
  | cons t A ih =>
      obtain ⟨g'', hg'', hblocks''⟩ := ih fun u hu => hA u (List.mem_cons_of_mem _ hu)
      obtain ⟨hopen, hclose, hmove⟩ := hA t List.mem_cons_self
      refine ⟨g''.push t, ?_, by rw [Group.push, List.any_cons, hmove, hblocks'']; rfl⟩
      rw [List.cons_append, Group.close?_other (by simp [hopen]) (by simp [hclose]), hg'']
      rfl

theorem putBlock {B : List Token} {counter : String}
    (hB : B.map Token.shape = (blockShapes counter).tail) (h : BodiesFound ts us) :
    BodiesFound ts (B ++ us) := by
  intro d g hg hblocks
  obtain ⟨opener, plus, c, semicolon, closer, rfl, hopener, hplus, hc, hsemicolon, hcloser⟩ :=
    exists_of_map_shape_tail hB
  rw [Token.isOperator_iff] at hplus hsemicolon
  have hclose : ¬closer.isOperator "\x7b" = true := by
    rw [Token.isOperator_iff] at hcloser
    simp [Token.isOperator_iff, hcloser]
  -- inside the block the search is one group further in
  have hinside : ∀ {u : Token} {vs : List Token}, u.isOperator "\x7b" = false →
      u.isOperator "\x7d" = false → Group.close? "\x7b" "\x7d" (d + 1) (u :: vs)
        = (Group.close? "\x7b" "\x7d" (d + 1) vs).map (Group.push u) := fun hopen hclose =>
    Group.close?_other (by simp [hopen]) (by simp [hclose]) _ _
  simp only [List.cons_append, List.nil_append] at hg
  rw [Group.close?_opener hopener, hinside (by simp [Token.isOperator_eq_decide, hplus])
    (by simp [Token.isOperator_eq_decide, hplus]), hinside (by simp [Token.isOperator, hc])
    (by simp [Token.isOperator, hc]), hinside (by simp [Token.isOperator_eq_decide, hsemicolon])
    (by simp [Token.isOperator_eq_decide, hsemicolon]), Group.close?_closer_succ hclose hcloser]
    at hg
  simp only [Option.map_map, Option.map_eq_some_iff] at hg
  obtain ⟨g₀, hg₀, rfl⟩ := hg
  simp only [Function.comp_apply, Group.push, List.any_cons, Bool.or_eq_false_iff] at hblocks
  exact h d g₀ hg₀ hblocks.2.2.2.2.2

end BodiesFound

/-- **A body that is found afterwards was one before.** -/
theorem Edited.bodiesFound {marked : Token → Prop} {ts us : List Token}
    (h : Edited marked ts us) : BodiesFound ts us := by
  have hother : ∀ {t : Token}, t.kind ≠ .operator → ∀ text, t.isOperator text = false := by
    intro t ht text
    simp [Token.isOperator, ht]
  induction h with
  | done => exact fun d g hg => absurd hg (by simp [Group.close?])
  | keep hshape ht h ih => exact ih.keep hshape
  | @block u B ts us counter hu hB hnext h ih =>
      have hkind : u.kind ≠ .operator := by simp [Token.kind_of_isKeyword hu]
      exact (ih.putBlock hB).put (hother hkind _) (hother hkind _)
  | @glued word u B ts us counter hword hmove hu hfor hB h ih =>
      have hkind : word.kind ≠ .operator := by
        intro hkind
        simp [Token.isWord, hkind] at hword
      have hplain : ∀ t ∈ [word], t.isOperator "\x7b" = false ∧ t.isOperator "\x7d" = false ∧
          blocksMove t = false := by
        intro t ht
        rw [List.mem_singleton.mp ht]
        exact ⟨hother hkind _, hother hkind _, hmove⟩
      exact ((ih.putBlock hB).put (hother hu _) (hother hu _)).take hplain
  | @removal semicolon paren u v increment ts us hsemicolon hparen hplain hu hv h ih =>
      have hmoves := And.intro (blocksMove_of_isOperator hsemicolon)
        (blocksMove_of_isOperator hparen)
      rw [Token.isOperator_iff] at hsemicolon hparen
      have hall : ∀ t ∈ semicolon :: (increment ++ [paren]), t.isOperator "\x7b" = false ∧
          t.isOperator "\x7d" = false ∧ blocksMove t = false := by
        intro t ht
        simp only [List.mem_cons, List.mem_append, List.not_mem_nil, or_false] at ht
        rcases ht with rfl | ht | rfl
        · simp [Token.isOperator_eq_decide, hsemicolon, hmoves.1]
        · exact hplain t ht
        · simp [Token.isOperator_eq_decide, hparen, hmoves.2]
      have hput : BodiesFound ts (u :: v :: us) := by
        refine (ih.put ?_ ?_).put ?_ ?_ <;>
          simp [Token.isOperator_eq_decide, hu, hv, hsemicolon, hparen]
      simpa using hput.take hall

/-- An operator that is found afterwards was there before, unless it is a semicolon. -/
theorem Edited.exists_operator {marked : Token → Prop} {ts us : List Token} {u : Token}
    {text : String} (h : Edited marked ts (u :: us)) (hu : u.isOperator text = true)
    (htext : text ≠ ";") :
    ∃ t ts', ts = t :: ts' ∧ t.shape = u.shape ∧ Edited marked ts' us := by
  have hkind := Token.kind_of_isOperator hu
  cases h with
  | keep hshape _ h => exact ⟨_, _, rfl, hshape.symm, h⟩
  | block hkeyword =>
      rw [Token.isKeyword_iff, Token.shape, hkind] at hkeyword
      cases hkeyword
  | glued _ _ hne => exact absurd hkind hne
  | removal hsemicolon _ _ hshape =>
      rw [Token.isOperator_iff] at hu hsemicolon
      rw [hu, hsemicolon, Prod.mk.injEq] at hshape
      exact absurd hshape.2 htext

/-- **A loop that counts afterwards counted before**, and its semicolon is not marked. -/
theorem Edited.exists_countedLoop? {marked : Token → Prop} {ts us : List Token}
    {loop : CountedLoop} (h : Edited marked ts us) (hloop : countedLoop? us = some loop)
    (hname : ∀ t ∈ us, t.kind = .identifier → IsName t.text) :
    ∃ loop', countedLoop? ts = some loop' ∧ ¬marked loop'.semicolon := by
  obtain ⟨keyword, opener, inside, braceOpener, behind, body, rfl, hfor, hopener, hheader,
    hcounted, hbrace, hbody, hblocks, -⟩ := countedLoop?_eq_some_iff.mp hloop
  have hparen : loop.paren.isOperator ")" = true := Group.isOperator_closer_of_close? hheader
  have hgo : SemicolonsGoOn ((keyword :: opener :: inside) ++ [loop.paren]) := by
    have hinside : ∀ t ∈ inside, t.kind = .identifier → IsName t.text :=
      fun t ht => hname t (by simp [ht])
    refine .cons ?_ (.cons ?_ (semicolonsGoOn_header hcounted hinside loop.paren))
    · rw [Token.isKeyword_iff] at hfor
      simp [Token.isOperator_eq_decide, hfor]
    · rw [Token.isOperator_iff] at hopener
      simp [Token.isOperator_eq_decide, hopener]
  -- the header was there before, and so was its brace and a body behind it
  obtain ⟨P, p, ts', rfl, hP, hp, hmarked, hbehind⟩ := h.exists_prefix hgo hparen
  obtain ⟨braceOpener', behind', rfl, hbrace', hrest⟩ := hbehind.exists_operator hbrace (by decide)
  obtain ⟨body', hbody', hblocks'⟩ := hrest.bodiesFound 0 body hbody hblocks
  simp only [List.map_cons, List.map_eq_cons_iff] at hP
  obtain ⟨keyword', _, rfl, hkeyword', opener', inside', rfl, hopener', hinside'⟩ := hP
  obtain ⟨semicolon', hcounted'⟩ := exists_countedHeader?_of_shape hcounted hinside'
  refine ⟨⟨loop.counter, semicolon', p, body'.closer⟩, countedLoop?_eq_some_iff.mpr
    ⟨keyword', opener', inside', braceOpener', behind', body', rfl, ?_, ?_, ?_, hcounted', ?_,
      hbody', hblocks', rfl⟩, ?_⟩
  · rw [Token.isKeyword_iff] at hfor ⊢
    rw [hkeyword', hfor]
  · rw [Token.isOperator_iff] at hopener ⊢
    rw [hopener', hopener]
  · exact Group.close?_append_of_shape hheader hinside' hp _
  · rw [Token.isOperator_iff] at hbrace ⊢
    rw [hbrace', hbrace]
  · refine hmarked _ ?_
    obtain ⟨type, c, assign, zero, first, condition, a, b, rfl, -⟩ :=
      countedHeader?_eq_some hcounted'
    simp

theorem mem_countedLoops_append {ts : List Token} {loop : CountedLoop} (h : loop ∈ countedLoops ts)
    (A : List Token) : loop ∈ countedLoops (A ++ ts) := by
  induction A with
  | nil => exact h
  | cons t A ih => exact List.mem_append_right _ ih

theorem countedLoops_append_of_ne {A : List Token} (hA : ∀ t ∈ A, t.isKeyword "for" = false)
    (ts : List Token) : countedLoops (A ++ ts) = countedLoops ts := by
  induction A with
  | nil => rfl
  | cons t A ih =>
      have hnone : countedLoop? (t :: (A ++ ts)) = none := by
        by_contra hsome
        obtain ⟨loop, hloop⟩ := Option.ne_none_iff_exists'.mp hsome
        obtain ⟨keyword, opener, inside, braceOpener, behind, body, heq, hfor, -⟩ :=
          countedLoop?_eq_some_iff.mp hloop
        rw [← (List.cons.inj heq).1, hA t List.mem_cons_self] at hfor
        cases hfor
      rw [List.cons_append, countedLoops, hnone, ih fun u hu => hA u (List.mem_cons_of_mem _ hu)]
      rfl

theorem isKeyword_eq_false_of_map_shape_tail {B : List Token} {counter : String}
    (hB : B.map Token.shape = (blockShapes counter).tail) :
    ∀ t ∈ B, t.isKeyword "for" = false := by
  have hshapes : ∀ shape ∈ (blockShapes counter).tail, shape.1 ≠ .keyword := by
    simp [blockShapes]
  intro t ht
  have hkind := hshapes t.shape (hB ▸ List.mem_map_of_mem ht)
  rw [Token.isKeyword_eq_decide, decide_eq_false_iff_not]
  exact fun hshape => hkind (congrArg Prod.fst hshape)

/-- **If every loop that counted before has its semicolon marked, none counts afterwards.** -/
theorem Edited.countedLoops_eq_nil {marked : Token → Prop} {ts us : List Token}
    (h : Edited marked ts us) (hmarked : ∀ loop ∈ countedLoops ts, marked loop.semicolon)
    (hname : ∀ t ∈ us, t.kind = .identifier → IsName t.text) : countedLoops us = [] := by
  induction h with
  | done => rfl
  | @keep t u ts us hshape ht h ih =>
      have hnone : countedLoop? (u :: us) = none := by
        by_contra hsome
        obtain ⟨loop, hloop⟩ := Option.ne_none_iff_exists'.mp hsome
        obtain ⟨loop', hloop', hnot⟩ := (Edited.keep hshape ht h).exists_countedLoop? hloop hname
        refine hnot (hmarked loop' ?_)
        rw [countedLoops, hloop']
        exact List.mem_append_left _ (List.mem_singleton_self loop')
      have hrest := ih (fun loop hloop => hmarked loop (mem_countedLoops_append hloop [t]))
        fun x hx => hname x (List.mem_cons_of_mem _ hx)
      rw [countedLoops, hnone, hrest]
      rfl
  | @block u B ts us counter hu hB hnext h ih =>
      have hfor : ∀ t ∈ u :: B, t.isKeyword "for" = false := by
        intro t ht
        rcases List.mem_cons.mp ht with rfl | ht
        · rw [Token.isKeyword_iff] at hu
          simp [Token.isKeyword_eq_decide, hu]
        · exact isKeyword_eq_false_of_map_shape_tail hB t ht
      rw [← List.cons_append, countedLoops_append_of_ne hfor]
      exact ih hmarked fun x hx => hname x (by simp [hx])
  | @glued word u B ts us counter hword hmove hu hfor hB h ih =>
      have hfor' : ∀ t ∈ u :: B, t.isKeyword "for" = false := by
        intro t ht
        rcases List.mem_cons.mp ht with rfl | ht
        · exact hfor
        · exact isKeyword_eq_false_of_map_shape_tail hB t ht
      rw [← List.cons_append, countedLoops_append_of_ne hfor']
      exact ih (fun loop hloop => hmarked loop (mem_countedLoops_append hloop [word]))
        fun x hx => hname x (by simp [hx])
  | @removal semicolon paren u v increment ts us hsemicolon hparen hplain hu hv h ih =>
      have hfor : ∀ t ∈ [u, v], t.isKeyword "for" = false := by
        rw [Token.isOperator_iff] at hsemicolon hparen
        simp [Token.isKeyword_eq_decide, hu, hv, hsemicolon, hparen]
      rw [show u :: v :: us = [u, v] ++ us from rfl, countedLoops_append_of_ne hfor]
      refine ih (fun loop hloop => hmarked loop ?_) fun x hx => hname x (by simp [hx])
      have hmem := mem_countedLoops_append hloop (semicolon :: (increment ++ [paren]))
      simpa using hmem

end SolidityTools.Layout

import SolidityTools.Proofs.Layout.Header
import SolidityTools.Proofs.Token.Group
import Mathlib.Data.List.Nodup

set_option autoImplicit false

/-! # Where counted loops stand

A counted loop is found by its keyword, but what optimising changes are its increment and its
closing brace. Here the loop is taken apart into the tokens it consists of (`LoopSite`), and two
loops of one text are shown to have different increments and different braces: the keyword of a
loop can be found again from the semicolon before the increment, because the header holds two
semicolons only, and the opening brace from the closing one, because braces are matched.
-/

namespace SolidityTools.Layout

/-! ## The tokens of a loop -/

/-- The tokens of a counted loop in their place. -/
structure LoopSite (ts : List Token) (loop : CountedLoop) where
  front : List Token
  keyword : Token
  opener : Token
  type : Token
  counter : Token
  assign : Token
  zero : Token
  first : Token
  condition : List Token
  a : Token
  b : Token
  braceOpener : Token
  body : List Token
  rest : List Token
  tokens_eq : ts = front ++ keyword :: opener :: type :: counter :: assign :: zero :: first ::
    (condition ++ loop.semicolon :: a :: b :: loop.paren :: braceOpener ::
      (body ++ loop.brace :: rest))
  counter_kind : counter.kind = .identifier
  counter_text : counter.text = loop.counter
  first_semicolon : first.isOperator ";" = true
  condition_semicolon : ∀ t ∈ condition, t.isOperator ";" = false
  semicolon : loop.semicolon.isOperator ";" = true
  increment : isIncrement loop.counter [a, b] = true
  paren : loop.paren.isOperator ")" = true
  braceOpener_brace : braceOpener.isOperator "\x7b" = true
  braces : Group.braces? (body ++ loop.brace :: rest) = some ⟨body, loop.brace, rest⟩
  body_blocksMove : body.any blocksMove = false

/-- A loop stands where it stood when a token is put in front. -/
def LoopSite.cons {ts : List Token} {loop : CountedLoop} (site : LoopSite ts loop) (t : Token) :
    LoopSite (t :: ts) loop :=
  { site with
    front := t :: site.front
    tokens_eq := congrArg (t :: ·) site.tokens_eq }

theorem countedHeader?_eq_some {header : List Token} {counter : String} {semicolon : Token}
    (h : countedHeader? header = some (counter, semicolon)) :
    ∃ type c assign zero first condition a b,
      header = type :: c :: assign :: zero :: first :: (condition ++ [semicolon, a, b]) ∧
      c.kind = .identifier ∧ c.text = counter ∧
      (∀ t ∈ [type, c, assign, zero], t.isOperator ";" = false) ∧ first.isOperator ";" = true ∧
      (∀ t ∈ condition, t.isOperator ";" = false) ∧ isBound counter condition = true ∧
      semicolon.isOperator ";" = true ∧ isIncrement counter [a, b] = true := by
  obtain ⟨header, hcounts, rfl, rfl, rfl⟩ := countedHeader?_eq_some_iff.mp h
  have hassign := hcounts.assign
  rw [Token.isOperator, Bool.and_eq_true, beq_iff_eq, beq_iff_eq] at hassign
  have hdeclaration : ∀ t ∈ [header.type, header.counter, header.assign, header.zero],
      t.isOperator ";" = false := by
    simp [Token.isOperator, hcounts.type_kind, hcounts.counter, hcounts.zero_kind, hassign]
  exact ⟨_, header.counter, _, _, _, header.condition, header.a, header.b, rfl, hcounts.counter,
    rfl, hdeclaration, hcounts.first, hcounts.condition, hcounts.isBound, hcounts.second,
    hcounts.isIncrement⟩

theorem exists_site_of_countedLoop? {ts : List Token} {loop : CountedLoop}
    (h : countedLoop? ts = some loop) : ∃ site : LoopSite ts loop, site.front = [] := by
  obtain ⟨header, hcounts, hcounter, hsemicolon, keyword, opener, braceOpener, body, rest, -, -,
    hbrace, rfl, hgroup, hbraces, hblocks⟩ := exists_begins_iff.mp h
  refine ⟨⟨[], keyword, opener, header.type, header.counter, header.assign, header.zero,
    header.first, header.condition, header.a, header.b, braceOpener, body, rest, ?_,
    hcounts.counter, hcounter, hcounts.first, hcounts.condition, hsemicolon ▸ hcounts.second,
    hcounter ▸ hcounts.isIncrement, Group.isOperator_closer_of_close? hgroup, hbrace, hbraces,
    hblocks⟩, rfl⟩
  rw [Header.tokens, ← hsemicolon]
  simp

/-- Each counted loop stands at a place of its own. -/
theorem exists_site {ts : List Token} {loop : CountedLoop} (h : loop ∈ countedLoops ts) :
    Nonempty (LoopSite ts loop) := by
  induction ts with
  | nil => cases h
  | cons t ts ih =>
      rw [countedLoops, List.mem_append, Option.mem_toList] at h
      rcases h with h | h
      · obtain ⟨site, -⟩ := exists_site_of_countedLoop? h
        exact ⟨site⟩
      · obtain ⟨site⟩ := ih h
        exact ⟨site.cons t⟩

/-! ## Different loops -/

namespace LoopSite

variable {ts : List Token} {loop loop' : CountedLoop}

theorem mem_of_mem (site : LoopSite ts loop) {t : Token}
    (h : t ∈ site.front ++ site.keyword :: site.opener :: site.type :: site.counter ::
      site.assign :: site.zero :: site.first :: (site.condition ++ loop.semicolon :: site.a ::
        site.b :: loop.paren :: site.braceOpener :: (site.body ++ loop.brace :: site.rest))) :
    t ∈ ts :=
  (congrArg (t ∈ ·) site.tokens_eq).mpr h

theorem semicolon_mem (site : LoopSite ts loop) : loop.semicolon ∈ ts := site.mem_of_mem (by simp)

theorem paren_mem (site : LoopSite ts loop) : loop.paren ∈ ts := site.mem_of_mem (by simp)

theorem brace_mem (site : LoopSite ts loop) : loop.brace ∈ ts := site.mem_of_mem (by simp)

/-- The body ends with a closing brace. -/
theorem brace (site : LoopSite ts loop) : loop.brace.isOperator "\x7d" = true :=
  Group.isOperator_closer_of_close? site.braces

def head (site : LoopSite ts loop) : List Token :=
  site.front ++ [site.keyword, site.opener, site.type, site.counter, site.assign, site.zero]

def header (site : LoopSite ts loop) : List Token :=
  site.head ++ site.first :: site.condition ++ [loop.semicolon, site.a, site.b, loop.paren]

theorem length_head (site : LoopSite ts loop) : site.head.length = site.front.length + 6 := by
  simp [head]

theorem eq_head_append (site : LoopSite ts loop) :
    ts = (site.head ++ site.first :: site.condition) ++ loop.semicolon :: site.a :: site.b ::
      loop.paren :: site.braceOpener :: (site.body ++ loop.brace :: site.rest) :=
  site.tokens_eq.trans (by simp [head])

theorem eq_header_append (site : LoopSite ts loop) :
    ts = site.header ++ site.braceOpener :: (site.body ++ loop.brace :: site.rest) :=
  site.eq_head_append.trans (by simp [header])

theorem eq_brace_append (site : LoopSite ts loop) :
    ts = (site.header ++ site.braceOpener :: site.body) ++ loop.brace :: site.rest :=
  site.eq_header_append.trans (by simp)

/-- The semicolon before the increment tells where the loop begins. -/
theorem length_front_eq_of_semicolon (hnodup : ts.Nodup) (site : LoopSite ts loop)
    (site' : LoopSite ts loop') (h : loop.semicolon = loop'.semicolon) :
    site.front.length = site'.front.length := by
  have hsite' := site'.eq_head_append
  rw [← h] at hsite'
  -- in front of it the first semicolon is the last one, which stands six tokens into the loop
  obtain ⟨hcut, -⟩ := Group.eq_of_nodup hnodup site.eq_head_append hsite'
  obtain ⟨hhead, -⟩ := append_cons_inj_of_last (p := (·.isOperator ";")) site.first_semicolon
    site'.first_semicolon site.condition_semicolon site'.condition_semicolon hcut
  have hlen := congrArg List.length hhead
  rw [length_head, length_head] at hlen
  omega

/-- What stands between the semicolon and the parenthesis of a loop is its increment. -/
theorem eq_increment {front increment back : List Token} (hnodup : ts.Nodup)
    (site : LoopSite ts loop)
    (hts : ts = front ++ loop.semicolon :: (increment ++ loop.paren :: back)) :
    increment = [site.a, site.b] := by
  obtain ⟨-, hrest⟩ := Group.eq_of_nodup hnodup hts site.eq_head_append
  have hnodup' : (increment ++ loop.paren :: back).Nodup := by
    rw [hts] at hnodup
    exact (List.nodup_cons.mp hnodup.of_append_right).2
  exact (Group.eq_of_nodup hnodup' rfl (hrest.trans (List.append_cons [site.a] _ _))).1

/-- Loops that differ in their increments differ in their braces. -/
theorem brace_ne (hnodup : ts.Nodup) (site : LoopSite ts loop) (site' : LoopSite ts loop')
    (hne : loop.semicolon ≠ loop'.semicolon) : loop.brace ≠ loop'.brace := by
  intro h
  have hheader : site.header = site'.header :=
    Group.eq_of_closer_eq hnodup site.eq_header_append site'.eq_header_append
      site.braceOpener_brace site'.braceOpener_brace site.braces site'.braces h
  have hlast := List.append_inj_right' hheader rfl
  exact hne (List.cons.inj hlast).1

end LoopSite

/-- **Different loops change different places.** -/
theorem pairwise_countedLoops {ts : List Token} (hnodup : ts.Nodup) :
    (countedLoops ts).Pairwise fun loop loop' =>
      loop.semicolon ≠ loop'.semicolon ∧ loop.brace ≠ loop'.brace := by
  induction ts with
  | nil => exact .nil
  | cons t ts ih =>
      rw [countedLoops]
      refine List.pairwise_append.mpr ⟨?_, ih (List.nodup_cons.mp hnodup).2, ?_⟩
      · cases countedLoop? (t :: ts) with
        | none => exact .nil
        | some loop => exact List.pairwise_singleton _ _
      · -- the first loop begins with the first token, and the others behind it
        intro loop hloop loop' hloop'
        obtain ⟨site, hfront⟩ := exists_site_of_countedLoop? (Option.mem_toList.mp hloop)
        obtain ⟨site'⟩ := exists_site hloop'
        have hne : site.front.length ≠ (site'.cons t).front.length := by
          rw [hfront]
          simp [LoopSite.cons]
        have hsemicolon : loop.semicolon ≠ loop'.semicolon := fun h =>
          hne (site.length_front_eq_of_semicolon hnodup (site'.cons t) h)
        exact ⟨hsemicolon, site.brace_ne hnodup (site'.cons t) hsemicolon⟩

end SolidityTools.Layout

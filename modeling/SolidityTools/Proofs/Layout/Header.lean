import SolidityTools.Layout.Loop
import Mathlib.Data.List.TakeWhile

set_option autoImplicit false

/-! # The counted loops, exactly

Which loops are counted is decided by a chain of readers, each of which takes some tokens off the
front. Here the readers are turned around: a loop is counted exactly if it consists of a header that
`Counts` and a body that may be extended (`mem_countedLoops_iff`).
-/

namespace SolidityTools.Layout

/-! ## Headers -/

/-- The tokens of a header such as `uint i = 0; i < bound; i++`. -/
structure Header where
  type : Token
  counter : Token
  assign : Token
  zero : Token
  first : Token
  left : Token
  comparison : Token
  bound : List Token
  second : Token
  a : Token
  b : Token

namespace Header

/-- The condition, between the two semicolons. -/
def condition (header : Header) : List Token := header.left :: header.comparison :: header.bound

def tokens (header : Header) : List Token :=
  header.type :: header.counter :: header.assign :: header.zero :: header.first ::
    (header.condition ++ [header.second, header.a, header.b])

/-- A header declares an unsigned counter that begins at zero, compares it with something and
increments it. -/
structure Counts (header : Header) : Prop where
  type_kind : header.type.kind = .type
  type_text : "uint".toList <+: header.type.text.toList
  counter : header.counter.kind = .identifier
  assign : header.assign.isOperator "=" = true
  zero_kind : header.zero.kind = .number
  zero_text : header.zero.text = "0"
  first : header.first.isOperator ";" = true
  left : header.left.text = header.counter.text
  comparison : header.comparison.isOperator "<" = true ∨ header.comparison.isOperator "<=" = true
  bound : header.bound ≠ []
  condition : ∀ t ∈ header.condition, t.isOperator ";" = false
  second : header.second.isOperator ";" = true
  increment : (header.a.text = header.counter.text ∧ header.b.isOperator "++" = true) ∨
    (header.a.isOperator "++" = true ∧ header.b.text = header.counter.text)

end Header

theorem declaredCounter?_eq_some_iff {tokens rest : List Token} {name : String} :
    declaredCounter? tokens = some (name, rest) ↔
      ∃ type counter assign zero first,
        tokens = type :: counter :: assign :: zero :: first :: rest ∧ counter.text = name ∧
        type.kind = .type ∧ "uint".toList <+: type.text.toList ∧ counter.kind = .identifier ∧
        assign.isOperator "=" = true ∧ zero.kind = .number ∧ zero.text = "0" ∧
        first.isOperator ";" = true := by
  constructor
  · intro h
    unfold declaredCounter? at h
    split at h
    · next type counter assign zero first rest' =>
        split at h
        · next hif =>
            obtain ⟨rfl, rfl⟩ := Prod.mk.inj (Option.some.inj h)
            rw [List.isPrefixOf_iff_prefix] at hif
            exact ⟨type, counter, assign, zero, first, rfl, rfl, hif⟩
        · cases h
    · cases h
  · rintro ⟨type, counter, assign, zero, first, rfl, rfl, h⟩
    rw [← List.isPrefixOf_iff_prefix] at h
    exact if_pos h

/-- A condition that counts as bounded is a comparison of the counter. -/
theorem isBound_iff {name : String} {condition : List Token} :
    isBound name condition = true ↔
      ∃ left comparison bound, condition = left :: comparison :: bound ∧ left.text = name ∧
        (comparison.isOperator "<" = true ∨ comparison.isOperator "<=" = true) ∧ bound ≠ [] := by
  have hcomparison : ∀ t : Token, t.isOperatorIn ["<", "<="] = true ↔
      t.isOperator "<" = true ∨ t.isOperator "<=" = true := by
    intro t
    simp [Token.isOperatorIn, Token.isOperator, and_or_left]
  constructor
  · intro h
    unfold isBound at h
    split at h
    · next left comparison u us =>
        rw [Bool.and_eq_true, beq_iff_eq, hcomparison] at h
        exact ⟨left, comparison, u :: us, rfl, h.1, h.2, List.cons_ne_nil u us⟩
    · cases h
  · rintro ⟨left, comparison, bound, rfl, hleft, hoperator, hbound⟩
    obtain ⟨u, us, rfl⟩ := List.exists_cons_of_ne_nil hbound
    rw [isBound, Bool.and_eq_true, beq_iff_eq, hcomparison]
    exact ⟨hleft, hoperator⟩

theorem isIncrement_iff {name : String} {tokens : List Token} :
    isIncrement name tokens = true ↔
      ∃ a b, tokens = [a, b] ∧ ((a.text = name ∧ b.isOperator "++" = true) ∨
        (a.isOperator "++" = true ∧ b.text = name)) := by
  constructor
  · intro h
    unfold isIncrement at h
    split at h
    · next a b => exact ⟨a, b, rfl, by simpa using h⟩
    · cases h
  · rintro ⟨a, b, rfl, h⟩
    simpa [isIncrement] using h

namespace Header.Counts

variable {header : Header}

theorem isBound (h : header.Counts) : isBound header.counter.text header.condition = true :=
  isBound_iff.mpr ⟨_, _, _, rfl, h.left, h.comparison, h.bound⟩

theorem isIncrement (h : header.Counts) :
    isIncrement header.counter.text [header.a, header.b] = true :=
  isIncrement_iff.mpr ⟨_, _, rfl, h.increment⟩

end Header.Counts

/-- A condition ends before its first semicolon. -/
theorem cut_semicolon {condition : List Token} {semicolon : Token}
    (hcondition : ∀ t ∈ condition, t.isOperator ";" = false)
    (hsemicolon : semicolon.isOperator ";" = true) (back : List Token) :
    (condition ++ semicolon :: back).takeWhile (!·.isOperator ";") = condition ∧
      (condition ++ semicolon :: back).dropWhile (!·.isOperator ";") = semicolon :: back := by
  have hall : ∀ t ∈ condition, (!t.isOperator ";") = true := by simpa using hcondition
  constructor
  · rw [List.takeWhile_append_of_pos hall, List.takeWhile_cons_of_neg (by simp [hsemicolon]),
      List.append_nil]
  · rw [List.dropWhile_append_of_pos hall, List.dropWhile_cons_of_neg (by simp [hsemicolon])]

theorem exists_cut_semicolon {tokens back : List Token} {semicolon : Token}
    (h : tokens.dropWhile (!·.isOperator ";") = semicolon :: back) :
    tokens.takeWhile (!·.isOperator ";") ++ semicolon :: back = tokens ∧
      (∀ t ∈ tokens.takeWhile (!·.isOperator ";"), t.isOperator ";" = false) ∧
      semicolon.isOperator ";" = true := by
  refine ⟨?_, fun t ht => ?_, ?_⟩
  · rw [← h, List.takeWhile_append_dropWhile]
  · simpa using List.mem_takeWhile_imp ht
  · have := List.head?_dropWhile_not (!·.isOperator ";") tokens
    simpa [h] using this

/-- The header of a counted loop, exactly. -/
theorem countedHeader?_eq_some_iff {tokens : List Token} {name : String} {semicolon : Token} :
    countedHeader? tokens = some (name, semicolon) ↔
      ∃ header : Header, header.Counts ∧ header.tokens = tokens ∧ header.counter.text = name ∧
        header.second = semicolon := by
  constructor
  · intro h
    simp only [countedHeader?, Option.bind_eq_bind, Option.bind_eq_some_iff] at h
    obtain ⟨⟨name', rest⟩, hdeclared, h⟩ := h
    obtain ⟨type, counter, assign, zero, first, rfl, rfl, hkind, htext, hcounter, hassign,
      hzero, hzeroText, hfirst⟩ := declaredCounter?_eq_some_iff.mp hdeclared
    cases hdrop : rest.dropWhile (!·.isOperator ";") with
    | nil => simp [hdrop] at h
    | cons second increment =>
        -- the rest of the header is cut at its first semicolon, so that none is in the condition
        obtain ⟨hrest, hsemicolons, hsecond⟩ := exists_cut_semicolon hdrop
        simp only [hdrop] at h
        split at h
        · next hif =>
            obtain ⟨rfl, rfl⟩ := Prod.mk.inj (Option.some.inj h)
            rw [Bool.and_eq_true, isBound_iff, isIncrement_iff] at hif
            obtain ⟨⟨left, comparison, bound, hcondition, hleft, hcomparison, hbound⟩,
              a, b, rfl, hincrement⟩ := hif
            rw [hcondition] at hrest hsemicolons
            exact ⟨⟨type, counter, assign, zero, first, left, comparison, bound, second, a, b⟩,
              ⟨hkind, htext, hcounter, hassign, hzero, hzeroText, hfirst, hleft, hcomparison,
                hbound, hsemicolons, hsecond, hincrement⟩,
              by simp only [Header.tokens, Header.condition, hrest], rfl, rfl⟩
        · cases h
  · rintro ⟨header, hcounts, rfl, rfl, rfl⟩
    have hdeclared : declaredCounter? header.tokens
        = some (header.counter.text, header.condition ++ [header.second, header.a, header.b]) :=
      declaredCounter?_eq_some_iff.mpr ⟨_, _, _, _, _, rfl, rfl, hcounts.type_kind,
        hcounts.type_text, hcounts.counter, hcounts.assign, hcounts.zero_kind, hcounts.zero_text,
        hcounts.first⟩
    obtain ⟨htake, hdrop⟩ := cut_semicolon hcounts.condition hcounts.second [header.a, header.b]
    simp only [countedHeader?, hdeclared, Option.bind_eq_bind, Option.bind_some, hdrop, htake,
      hcounts.isBound, hcounts.isIncrement, Bool.and_self, if_true]

/-! ## Loops -/

theorem countedLoop?_eq_some_iff {ts : List Token} {loop : CountedLoop} :
    countedLoop? ts = some loop ↔
      ∃ keyword opener inside braceOpener behind body,
        ts = keyword :: opener :: (inside ++ loop.paren :: braceOpener :: behind) ∧
        keyword.isKeyword "for" = true ∧ opener.isOperator "(" = true ∧
        Group.parentheses? (inside ++ loop.paren :: braceOpener :: behind)
          = some ⟨inside, loop.paren, braceOpener :: behind⟩ ∧
        countedHeader? inside = some (loop.counter, loop.semicolon) ∧
        braceOpener.isOperator "\x7b" = true ∧ Group.braces? behind = some body ∧
        body.inside.any blocksMove = false ∧ body.closer = loop.brace := by
  constructor
  · intro h
    unfold countedLoop? at h
    split at h
    · next keyword opener tokens =>
        split at h
        · next hfor =>
            rw [Bool.and_eq_true] at hfor
            simp only [Option.bind_eq_bind, Option.bind_eq_some_iff] at h
            obtain ⟨header, hheader, ⟨counter, semicolon⟩, hcounted, h⟩ := h
            have htokens := Group.inside_append_of_close? hheader
            split at h
            · next braceOpener behind hrest =>
                split at h
                · next hbrace =>
                    obtain ⟨body, hbody, h⟩ := Option.bind_eq_some_iff.mp h
                    split at h
                    · cases h
                    · next hblocks =>
                        obtain rfl := Option.some.inj h
                        rw [hrest] at htokens
                        refine ⟨keyword, opener, header.inside, braceOpener, behind, body, ?_,
                          hfor.1, hfor.2, ?_, hcounted, hbrace, hbody, by simpa using hblocks, rfl⟩
                        · rw [htokens]
                        · rw [htokens, hheader, ← hrest]
                · cases h
            · cases h
        · cases h
    · cases h
  · rintro ⟨keyword, opener, inside, braceOpener, behind, body, rfl, hfor, hopener, hheader,
      hcounted, hbrace, hbody, hblocks, hclose⟩
    rw [List.any_eq_false] at hblocks
    simpa [countedLoop?, hfor, hopener, hheader, hcounted, hbrace, hbody, hclose] using hblocks

/-- A loop with its header, as it begins some tokens. -/
structure Begins (loop : CountedLoop) (header : Header) (tokens : List Token) : Prop where
  counts : header.Counts
  counter : header.counter.text = loop.counter
  semicolon : header.second = loop.semicolon
  tokens : ∃ keyword opener braceOpener body rest, keyword.isKeyword "for" = true ∧
    opener.isOperator "(" = true ∧ braceOpener.isOperator "\x7b" = true ∧
    tokens = keyword :: opener :: (header.tokens ++ loop.paren :: braceOpener ::
      (body ++ loop.brace :: rest)) ∧
    Group.parentheses? (header.tokens ++ loop.paren :: braceOpener :: (body ++ loop.brace :: rest))
      = some ⟨header.tokens, loop.paren, braceOpener :: (body ++ loop.brace :: rest)⟩ ∧
    Group.braces? (body ++ loop.brace :: rest) = some ⟨body, loop.brace, rest⟩ ∧
    body.any blocksMove = false

theorem exists_begins_iff {tokens : List Token} {loop : CountedLoop} :
    countedLoop? tokens = some loop ↔ ∃ header, Begins loop header tokens := by
  rw [countedLoop?_eq_some_iff]
  constructor
  · rintro ⟨keyword, opener, inside, braceOpener, behind, ⟨body, brace, rest⟩, rfl, hfor, hopener,
      hgroup, hcounted, hbrace, hbody, hblocks, rfl⟩
    obtain ⟨header, hcounts, rfl, hname, hsemicolon⟩ := countedHeader?_eq_some_iff.mp hcounted
    obtain rfl : body ++ loop.brace :: rest = behind := Group.inside_append_of_close? hbody
    exact ⟨header, hcounts, hname, hsemicolon, keyword, opener, braceOpener, body, rest, hfor,
      hopener, hbrace, rfl, hgroup, hbody, hblocks⟩
  · rintro ⟨header, hcounts, hname, hsemicolon, keyword, opener, braceOpener, body, rest, hfor,
      hopener, hbrace, rfl, hgroup, hbraces, hblocks⟩
    exact ⟨keyword, opener, header.tokens, braceOpener, _, _, rfl, hfor, hopener, hgroup,
      countedHeader?_eq_some_iff.mpr ⟨header, hcounts, rfl, hname, hsemicolon⟩, hbrace, hbraces,
      hblocks, rfl⟩

/-- A loop with its header, as it stands among some tokens. -/
def Stands (loop : CountedLoop) (header : Header) (ts : List Token) : Prop :=
  ∃ front back, ts = front ++ back ∧ Begins loop header back

/-- **The counted loops, exactly**: those with a header that counts and a body that may be
extended. -/
theorem mem_countedLoops_iff {ts : List Token} {loop : CountedLoop} :
    loop ∈ countedLoops ts ↔ ∃ header, Stands loop header ts := by
  induction ts with
  | nil =>
      refine iff_of_false (by simp [countedLoops]) ?_
      rintro ⟨header, front, back, hts, hbegins⟩
      obtain ⟨-, rfl⟩ := List.append_eq_nil_iff.mp hts.symm
      obtain ⟨_, _, _, _, _, -, -, -, htokens, -⟩ := hbegins.tokens
      cases htokens
  | cons t ts ih =>
      rw [countedLoops, List.mem_append, Option.mem_toList, exists_begins_iff, ih, ← exists_or]
      -- a loop begins with the first token, or it stands behind it
      refine exists_congr fun header => ⟨?_, ?_⟩
      · rintro (hbegins | ⟨front, back, rfl, hbegins⟩)
        · exact ⟨[], _, rfl, hbegins⟩
        · exact ⟨t :: front, back, rfl, hbegins⟩
      · rintro ⟨front, back, hts, hbegins⟩
        cases front with
        | nil =>
            rw [List.nil_append] at hts
            exact .inl (hts ▸ hbegins)
        | cons u front =>
            obtain ⟨rfl, rfl⟩ := List.cons.inj hts
            exact .inr ⟨front, back, rfl, hbegins⟩

end SolidityTools.Layout

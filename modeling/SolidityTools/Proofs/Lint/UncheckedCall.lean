import SolidityTools.Proofs.Lint.Place
import SolidityTools.Proofs.Lint.Statement
import SolidityTools.Proofs.Token.Place

set_option autoImplicit false

/-! # Which low-level calls are reported

A low-level call is found where a dot, one of the members and the arguments stand, with options in
braces between them that end at their first closing brace. It is reported if the result is
discarded by the clause in front of what it is made on. The clause begins behind the last semicolon
or brace, also where that stands in a header or in an expression. So a guard with a brace between
its parenthesis and the call does not keep the call from being reported
(`not_encloses_uncheckedCalls_iff`), and a header can keep a call behind it from being reported
(`reports_callStatement_iff`).
-/

namespace SolidityTools.Lint

open Text

/-! ## Calls in a text -/

theorem prefix_lowLevelMembers : ∀ member ∈ Pattern.lowLevelMembers,
    ∀ member' ∈ Pattern.lowLevelMembers, member.toList <+: member'.toList → member = member' := by
  decide

/-- The pattern of a low-level call fits exactly where a dot, a member and its arguments stand. -/
theorem lowLevelCall_eq_some_iff {before : Option Char} {cs lead rest : List Char}
    {member : String} :
    Pattern.lowLevelCall before cs = some ((lead, member), rest) ↔
      ∃ gap tail, gap.all isBlank = true ∧ member ∈ Pattern.lowLevelMembers ∧ lead = '.' :: gap ∧
        cs = '.' :: (gap ++ (member.toList ++ tail)) ∧
        (Pattern.callOptions? (Pattern.blanks tail)).bind Pattern.opening? = some rest := by
  simp only [Pattern.lowLevelCall, Option.bind_eq_bind, Option.bind_eq_some_iff]
  constructor
  · rintro ⟨behind, hdot, ⟨member', tail⟩, hmember, behind', hoptions, last, hopening, h⟩
    obtain ⟨hvalue, rfl⟩ := Prod.mk.inj (Option.some.inj h)
    obtain ⟨rfl, rfl⟩ := Prod.mk.inj hvalue
    obtain ⟨hmem, hbehind⟩ := Pattern.eq_append_of_oneOf? hmember
    refine ⟨behind.takeWhile isBlank, tail, List.all_takeWhile, hmem, rfl, ?_, behind', hoptions,
      hopening⟩
    rw [← hbehind, Pattern.blanks, List.takeWhile_append_dropWhile]
    exact Pattern.eq_append_of_text? hdot
  · rintro ⟨gap, tail, hgap, hmem, rfl, rfl, behind', hoptions, hopening⟩
    have hsolid : member.toList.head?.any (!isBlank ·) = true := by
      revert member
      decide
    obtain ⟨c, w, hword, hc⟩ : ∃ c w, member.toList = c :: w ∧ isBlank c = false := by
      cases hword : member.toList with
      | nil => simp [hword] at hsolid
      | cons c w => exact ⟨c, w, rfl, by simpa [hword] using hsolid⟩
    have hblanks : Pattern.blanks (gap ++ (member.toList ++ tail)) = member.toList ++ tail := by
      rw [blanks_append hgap, hword, List.cons_append, Pattern.blanks,
        List.dropWhile_cons_of_neg (by simp [hc])]
    have hlead : (gap ++ (member.toList ++ tail)).takeWhile isBlank = gap := by
      rw [List.takeWhile_append_of_pos (by simpa using hgap), hword, List.cons_append,
        List.takeWhile_cons_of_neg (by simp [hc]), List.append_nil]
    refine ⟨gap ++ (member.toList ++ tail), rfl, (member, tail), ?_, behind', hoptions, rest,
      hopening, by rw [hlead]⟩
    rw [hblanks]
    exact oneOf?_append prefix_lowLevelMembers hmem tail

theorem lowLevelCall_ne_nil (value : List Char × String) (phrase : List Char)
    (h : ∃ behind, phrase = value.1 ++ behind ∧ BeginsSolid behind) : phrase ≠ [] := by
  obtain ⟨behind, rfl, hbehind⟩ := h
  exact fun hnil => hbehind.ne_nil (List.append_eq_nil_iff.mp hnil).2

/-- The byte offset at which the member of a call stands. -/
def memberOffset (call : Hit (List Char × String)) : Nat := call.start + byteLength call.value.1

/-- A hit takes the text apart at its member, and the pattern fits there. -/
theorem exists_of_lowLevelHit {text : List Char} {call : Hit (List Char × String)}
    (h : call ∈ Pattern.lowLevelCall.hits text) :
    ∃ gap tail, gap.all isBlank = true ∧ call.value.2 ∈ Pattern.lowLevelMembers ∧
      call.value.1 = '.' :: gap ∧
      text = call.before.reverse ++ '.' :: (gap ++ (call.value.2.toList ++ tail)) ∧
      call.phrase ++ call.behind = '.' :: (gap ++ (call.value.2.toList ++ tail)) ∧
      memberOffset call = byteLength (call.before.reverse ++ '.' :: gap) ∧
      (Pattern.callOptions? (Pattern.blanks tail)).bind Pattern.opening? = some call.behind := by
  have hcuts := Pattern.lowLevelCall_recognises.cuts lowLevelCall_ne_nil h
  obtain ⟨gap, tail, hgap, hmem, hlead, htail, hread⟩ := lowLevelCall_eq_some_iff.mp
    (Pattern.lowLevelCall_recognises.fits lowLevelCall_ne_nil h)
  refine ⟨gap, tail, hgap, hmem, hlead, ?_, htail, ?_, hread⟩
  · rw [← htail]
    exact hcuts.eq_append
  · rw [memberOffset, hlead, call.start_eq, byteLength_append]

/-- The text of the statement in front of a call decides whether it is reported. -/
theorem exists_report_iff {s : Subject} {P : Nat → Prop} :
    (∃ f ∈ uncheckedCalls s, P f.offset) ↔
      ∃ call ∈ Pattern.lowLevelCall.hits s.masked, P (memberOffset call) ∧
        isChecked (lastStatement call.before.reverse) (call.phrase ++ call.behind) = false := by
  simp only [uncheckedCalls, List.mem_filterMap, lastStatement, List.reverse_reverse]
  constructor
  · rintro ⟨f, ⟨call, hcall, hf⟩, hP⟩
    split at hf
    · cases hf
    · next hchecked =>
        obtain rfl := Option.some.inj hf
        exact ⟨call, hcall, hP, by simpa using hchecked⟩
  · rintro ⟨call, hcall, hP, hchecked⟩
    exact ⟨_, ⟨call, hcall, if_neg (by simp [hchecked])⟩, hP⟩

/-! ## Calls in a guard -/

/-- A place lies between the parentheses of a guard. -/
def Hit.Encloses (guard : Hit String) (offset : Nat) : Prop :=
  guard.groupStart < offset ∧ offset < guard.groupStart + byteLength guard.group

instance (guard : Hit String) (offset : Nat) : Decidable (guard.Encloses offset) :=
  inferInstanceAs (Decidable (_ ∧ _))

/-- The group of a guard opens at the end of its phrase. -/
theorem Hit.groupStart_eq {guard : Hit String} {lead : List Char}
    (hlead : guard.phrase = lead ++ ['(']) :
    guard.groupStart = byteLength (guard.before.reverse ++ lead) := by
  have hparen : byteLength ['('] = 1 := rfl
  rw [Hit.groupStart, guard.start_eq, hlead, byteLength_append, byteLength_append, hparen]
  omega

/-- A member that stands behind a parenthesis has its dot behind it as well: only blanks stand
between the dot and the member. -/
theorem exists_of_paren_lt {front behind before gap tail : List Char}
    (hgap : gap.all isBlank = true)
    (heq : front ++ '(' :: behind = (before ++ '.' :: gap) ++ tail)
    (hlt : byteLength front < byteLength (before ++ '.' :: gap)) :
    ∃ inside, before = front ++ '(' :: inside ∧ behind = (inside ++ '.' :: gap) ++ tail := by
  obtain ⟨m, hm, hbehind⟩ := Lexer.exists_append_of_byteLength_le heq hlt.le
  cases m with
  | nil =>
      rw [hm, List.append_nil] at hlt
      omega
  | cons c m =>
      obtain ⟨rfl, rfl⟩ := List.cons.inj hbehind
      rcases List.append_eq_append_iff.mp hm with ⟨x, -, hrest⟩ | ⟨x, rfl, hrest⟩
      · have hparen : '(' ∈ '.' :: gap := by
          rw [hrest]
          simp
        rcases List.mem_cons.mp hparen with hdot | hblank
        · exact absurd hdot (by decide)
        · exact absurd (List.all_eq_true.mp hgap _ hblank) (by decide)
      · cases x with
        | nil => exact absurd (List.cons.inj hrest).1 (by decide)
        | cons d x =>
            obtain ⟨rfl, rfl⟩ := List.cons.inj hrest
            exact ⟨x, rfl, rfl⟩

/-- A guard and a call between its parentheses take the text apart. -/
theorem Hit.Encloses.exists_inside {text : List Char} {guard : Hit String}
    {call : Hit (List Char × String)} (h : guard.Encloses (memberOffset call))
    (hguard : guard ∈ Pattern.condition.hits text)
    (hcall : call ∈ Pattern.lowLevelCall.hits text) :
    HeaderAt guardWords text guard.before.reverse guard.phrase guard.behind ∧
      ∃ inside, call.before.reverse = guard.before.reverse ++ (guard.phrase ++ inside) ∧
        guard.behind = inside ++ (call.phrase ++ call.behind) ∧
        inside.length + 1 < guard.group.length := by
  have hheader : HeaderAt guardWords text guard.before.reverse guard.phrase guard.behind := by
    refine (exists_hit_iff keywords_guardWords).mp ⟨guard.value, ?_⟩
    rwa [List.reverse_reverse]
  refine ⟨hheader, ?_⟩
  obtain ⟨lead, hlead⟩ := hheader.phrase.exists_append
  obtain ⟨gap, tail, hgap, -, -, htext, htail, hoffset, -⟩ := exists_of_lowLevelHit hcall
  have hstart := Hit.groupStart_eq hlead
  generalize hfront : guard.before.reverse ++ lead = front at hstart
  obtain ⟨hopen, hclose⟩ := h
  rw [hstart, hoffset] at hopen hclose
  have hsplit : front ++ '(' :: guard.behind = (call.before.reverse ++ '.' :: gap)
      ++ (call.value.2.toList ++ tail) := by
    rw [List.append_assoc, List.cons_append, ← htext, hheader.eq_append, hlead, ← hfront]
    simp
  obtain ⟨inside, hinside, hbehind⟩ := exists_of_paren_lt hgap hsplit hopen
  refine ⟨inside, ?_, ?_, ?_⟩
  · rw [hinside, ← hfront, hlead]
    simp
  · rw [hbehind, htail]
    simp
  · -- the member begins in the group, so the dot in front of it belongs to the group
    obtain ⟨X, hX⟩ := exists_append_groupText 0 ('(' :: guard.behind)
    have hgroup : ('(' :: inside) ++ ('.' :: gap ++ (call.value.2.toList ++ tail))
        = guard.group ++ X := by
      rw [Hit.group, ← hX, hbehind]
      simp
    rw [hinside, List.append_assoc, byteLength_append] at hclose
    simp only [byteLength_cons, byteLength_append, List.cons_append] at hclose
    obtain ⟨y, hy, -⟩ := Lexer.exists_append_of_byteLength_le hgroup (by
      rw [byteLength_cons]
      omega)
    cases y with
    | nil =>
        rw [hy, List.append_nil, byteLength_cons] at hclose
        omega
    | cons d y =>
        rw [hy]
        simp

/-- **What keeps a guard from having reported calls**: a call in it is checked unless a statement
seems to end between, and then the text behind that end has to check the call. -/
theorem not_encloses_uncheckedCalls_iff {s : Subject} {guard : Hit String}
    (hguard : guard ∈ Pattern.condition.hits s.masked) :
    (∀ f ∈ uncheckedCalls s, ¬guard.Encloses f.offset) ↔
      ∀ call ∈ Pattern.lowLevelCall.hits s.masked, guard.Encloses (memberOffset call) →
        ∀ inside, call.before.reverse = guard.before.reverse ++ (guard.phrase ++ inside) →
          (∃ c ∈ inside, endsStatement c = true) →
            isChecked (lastStatement inside) (call.phrase ++ call.behind) = true := by
  have hreported := exists_report_iff (s := s) (P := guard.Encloses)
  constructor
  · rintro h call hcall hencloses inside hinside ⟨c, hc, hends⟩
    by_contra hchecked
    obtain ⟨f, hf, hin⟩ := hreported.mpr ⟨call, hcall, hencloses, by
      rw [hinside, ← List.append_assoc, lastStatement_append_of_mem hc hends]
      simpa using hchecked⟩
    exact h f hf hin
  · intro h f hf hin
    obtain ⟨call, hcall, hencloses, hunchecked⟩ := hreported.mp ⟨f, hf, hin⟩
    obtain ⟨hheader, inside, hinside, hbehind, hlength⟩ := hencloses.exists_inside hguard hcall
    by_cases hends : ∃ c ∈ inside, endsStatement c = true
    · have hchecked := h call hcall hencloses inside hinside hends
      obtain ⟨c, hc, hc'⟩ := hends
      rw [hinside, ← List.append_assoc, lastStatement_append_of_mem hc hc', hchecked] at hunchecked
      cases hunchecked
    · -- the guard belongs to the statement of the call, and reaches over the call
      have hplain : ∀ c ∈ guard.phrase ++ inside, endsStatement c = false := by
        intro c hc
        rcases List.mem_append.mp hc with hc | hc
        · exact hheader.phrase.endsStatement_eq_false c hc
        · by_contra hc'
          exact hends ⟨c, hc, by simpa using hc'⟩
      rw [hinside, lastStatement_append hplain] at hunchecked
      have hguard' : HeaderAt guardWords
          (lastStatement guard.before.reverse ++ (guard.phrase ++ inside))
          (lastStatement guard.before.reverse) guard.phrase inside :=
        ⟨rfl, hheader.phrase, atBoundary_lastStatement hheader.boundary⟩
      have hreach := guardsEnd_le_iff.mp (isChecked_eq_false_iff.mp hunchecked).1 _ _ _ hguard'
      have hpos := List.length_pos_iff.mpr hheader.phrase.ne_nil
      rw [reach, ← hbehind, ← Hit.group] at hreach
      simp only [List.length_append] at hreach
      omega

section Example

/-- A source with a guard whose expression has named arguments in braces. -/
def bracedGuard : Subject :=
  .ofSource .standard "if (f(\x7ba: 1\x7d) && to.send(1)) \x7b x; \x7d"

/-- A call in a guard is reported if a brace stands between. -/
theorem encloses_report_of_brace : ∃ guard ∈ Pattern.condition.hits bracedGuard.masked,
    guard.group.getLast? = some ')' ∧
      ∃ f ∈ uncheckedCalls bracedGuard, guard.Encloses f.offset := by
  decide +kernel

/-- A guard of a statement without braces has no reported calls. -/
theorem not_encloses_report_of_require :
    ∃ guard ∈ Pattern.condition.hits (Subject.ofSource .standard "require(to.send(1));").masked,
      ∀ f ∈ uncheckedCalls (.ofSource .standard "require(to.send(1));"),
        ¬guard.Encloses f.offset := by
  have hmasked : (Subject.ofSource .standard "require(to.send(1));").masked
      = "require(to.send(1));".toList := by decide +kernel
  have hcalls : ∀ call ∈ Pattern.lowLevelCall.hits
      (Subject.ofSource .standard "require(to.send(1));").masked,
      call.before.reverse = "require(".toList ++ "to".toList := by decide +kernel
  have hheader : HeaderAt guardWords (Subject.ofSource .standard "require(to.send(1));").masked []
      "require(".toList "to.send(1));".toList :=
    ⟨hmasked, ⟨"require", by decide, [], rfl, rfl⟩, rfl⟩
  obtain ⟨word, hguard⟩ := (exists_hit_iff keywords_guardWords).mpr hheader
  refine ⟨_, hguard, (not_encloses_uncheckedCalls_iff hguard).mpr ?_⟩
  rintro call hcall - inside hinside ⟨c, hc, hends⟩
  rw [hcalls call hcall] at hinside
  obtain rfl : "to".toList = inside := List.append_cancel_left hinside
  have hto : ∀ c ∈ "to".toList, endsStatement c = false := List.all_iff_forall_prop.mp (by decide)
  rw [hto c hc] at hends
  cases hends

end Example

/-! ## Calls that are statements -/

/-- Call options in braces, or none. -/
def IsOptions (options : List Char) : Prop :=
  options = [] ∨ ∃ inner, options = '\x7b' :: (inner ++ ['\x7d'])

/-- A statement that calls a low-level member on a path, with all the text around it. -/
structure CallStatement (text : List Char) where
  /-- The text before the statement. -/
  before : List Char
  /-- What the call is made on. -/
  path : List Char
  /-- The blanks behind the dot. -/
  gap : List Char
  member : String
  /-- The blanks behind the member. -/
  spacing : List Char
  options : List Char
  /-- The text from the arguments on. -/
  arguments : List Char
  eq_append : text = before ++ (path ++
    '.' :: (gap ++ (member.toList ++ (spacing ++ (options ++ arguments)))))
  isPath : IsPath path
  isBlank_gap : gap.all isBlank = true
  member_mem : member ∈ Pattern.lowLevelMembers
  isBlank_spacing : spacing.all isBlank = true
  isOptions : IsOptions options
  opens : ∃ rest, Pattern.opening? arguments = some rest
  /-- No other call reaches over the beginning of this one. -/
  free : ∀ call ∈ Pattern.lowLevelCall.hits text, call.before.length < (before ++ path).length →
    call.before.length + call.phrase.length ≤ (before ++ path).length

namespace CallStatement

variable {text : List Char}

/-- The byte offset of the member. -/
def offset (call : CallStatement text) : Nat :=
  byteLength ((call.before ++ call.path) ++ '.' :: call.gap)

/-- The options end at their first closing brace: behind it the arguments open. -/
def OptionsEnd (call : CallStatement text) : Prop :=
  ∀ inner rest, call.options = '\x7b' :: (inner ++ '\x7d' :: rest) → '\x7d' ∉ inner →
    ∃ gap behind, gap.all isBlank = true ∧ rest ++ call.arguments = gap ++ '(' :: behind

/-- Options are read through their first closing brace. -/
theorem callOptions?_eq (call : CallStatement text) {inner rest : List Char}
    (h : call.options = '\x7b' :: (inner ++ '\x7d' :: rest)) (hinner : '\x7d' ∉ inner) :
    Pattern.callOptions? (Pattern.blanks (call.options ++ call.arguments))
      = some (rest ++ call.arguments) := by
  have hne : ∀ c ∈ inner, (c != '\x7d') = true := by
    intro c hc
    rw [bne_iff_ne]
    rintro rfl
    exact hinner hc
  rw [h, List.cons_append, List.append_assoc, List.cons_append, Pattern.blanks,
    List.dropWhile_cons_of_neg (by decide), Pattern.callOptions?,
    List.dropWhile_append_of_pos hne, List.dropWhile_cons_of_neg (by decide)]
  rfl

/-- Options and arguments are recognised exactly if the options end at their first closing brace.
-/
theorem optionsEnd_iff (call : CallStatement text) :
    call.OptionsEnd ↔ ∃ rest, (Pattern.callOptions? (Pattern.blanks
      (call.spacing ++ (call.options ++ call.arguments)))).bind Pattern.opening? = some rest := by
  rw [blanks_append call.isBlank_spacing]
  rcases call.isOptions with hoptions | ⟨inner, hoptions⟩
  · obtain ⟨rest, hrest⟩ := call.opens
    obtain ⟨gap, hgap, harguments⟩ := exists_of_opening? hrest
    refine iff_of_true ?_ ⟨rest, ?_⟩
    · intro inner rest h
      rw [hoptions] at h
      cases h
    · rw [hoptions, List.nil_append, harguments, blanks_append hgap]
      rfl
  · constructor
    · intro h
      obtain ⟨first, rest, hinner, hfirst⟩ : ∃ first rest,
          inner ++ ['\x7d'] = first ++ '\x7d' :: rest ∧ '\x7d' ∉ first :=
        List.eq_append_cons_of_mem (by simp)
      rw [hinner] at hoptions
      obtain ⟨gap, behind, hgap, hbehind⟩ := h first rest hoptions hfirst
      refine ⟨behind, ?_⟩
      rw [call.callOptions?_eq hoptions hfirst, Option.bind_some, hbehind, opening?_append hgap]
    · rintro ⟨behind, hbehind⟩ first rest hoptions hfirst
      rw [call.callOptions?_eq hoptions hfirst, Option.bind_some] at hbehind
      obtain ⟨gap, hgap, hrest⟩ := exists_of_opening? hbehind
      exact ⟨gap, behind, hgap, hrest⟩

/-- A hit at the member of a call takes the text apart as the call does. -/
theorem eq_of_memberOffset_eq (call : CallStatement text) {hit : Hit (List Char × String)}
    (hhit : hit ∈ Pattern.lowLevelCall.hits text) (h : memberOffset hit = call.offset) :
    hit.before.reverse = call.before ++ call.path ∧ call.OptionsEnd := by
  obtain ⟨gap, tail, hgap, hmem, -, htext, -, hoffset, hread⟩ := exists_of_lowLevelHit hhit
  have hcut : (hit.before.reverse ++ '.' :: gap) ++ (hit.value.2.toList ++ tail)
      = ((call.before ++ call.path) ++ '.' :: call.gap)
        ++ (call.member.toList ++ (call.spacing ++ (call.options ++ call.arguments))) := by
    have htext' := htext.symm.trans call.eq_append
    simpa using htext'
  have hfront := Lexer.eq_of_byteLength_eq hcut (hoffset.symm.trans h)
  rw [hfront] at hcut
  have hbehind := List.append_cancel_left hcut
  have hdot : (!isBlank '.') = true := by decide
  refine ⟨(append_cons_inj_of_last (p := (!isBlank ·)) hdot hdot (by simpa using hgap)
    (by simpa using call.isBlank_gap) hfront).1, ?_⟩
  -- the members at the place are the same, so the text behind them is
  have hmembers := oneOf?_append prefix_lowLevelMembers hmem tail
  rw [hbehind, oneOf?_append prefix_lowLevelMembers call.member_mem] at hmembers
  obtain ⟨-, rfl⟩ := Prod.mk.inj (Option.some.inj hmembers)
  exact call.optionsEnd_iff.mpr ⟨_, hread⟩

/-- A call has a hit if its options end at their first closing brace. -/
theorem exists_hit (call : CallStatement text) (h : call.OptionsEnd) :
    ∃ hit ∈ Pattern.lowLevelCall.hits text, memberOffset hit = call.offset := by
  obtain ⟨rest, hread⟩ := call.optionsEnd_iff.mp h
  have hfits : ∀ before, Pattern.lowLevelCall before ('.' :: (call.gap ++ (call.member.toList ++
      (call.spacing ++ (call.options ++ call.arguments)))))
        = some (('.' :: call.gap, call.member), rest) := fun before =>
    lowLevelCall_eq_some_iff.mpr
      ⟨call.gap, _, call.isBlank_gap, call.member_mem, rfl, rfl, hread⟩
  obtain ⟨phrase, hphrase, hvalue⟩ := Pattern.lowLevelCall_recognises (hfits none)
  have htext : text = (call.before ++ call.path) ++ (phrase ++ rest) := by
    rw [← hphrase, List.append_assoc]
    exact call.eq_append
  have hhits : Pattern.lowLevelCall.hits text = Pattern.lowLevelCall.hitsFrom []
      ((call.before ++ call.path) ++ (phrase ++ rest)) := congrArg Pattern.lowLevelCall.hits htext
  have hmem := Pattern.mem_hitsFrom (lowLevelCall_ne_nil _ _ hvalue) [] (call.before ++ call.path)
    (by rw [← hphrase]; exact hfits _) fun hit hhit hlt => by
      rw [← hhits] at hhit
      rw [List.append_nil, List.length_reverse] at hlt ⊢
      exact call.free hit hhit hlt
  rw [← hhits, List.append_nil] at hmem
  refine ⟨_, hmem, ?_⟩
  rw [memberOffset, Hit.start, byteLength_reverse, offset, byteLength_append _ ('.' :: call.gap)]

end CallStatement

/-- **Which discarded calls are reported.** -/
theorem reports_callStatement_iff {s : Subject} (call : CallStatement s.masked)
    {clause : List Char} (hopens : Opens call.before clause) :
    (∃ f ∈ uncheckedCalls s, f.offset = call.offset) ↔ call.OptionsEnd ∧ Discards clause := by
  have hstatement : lastStatement (call.before ++ call.path)
      = lastStatement call.before ++ call.path := lastStatement_append call.isPath.statement _
  have hchecked : ∀ {hit : Hit (List Char × String)}, hit ∈ Pattern.lowLevelCall.hits s.masked →
      hit.before.reverse = call.before ++ call.path →
      (isChecked (lastStatement hit.before.reverse) (hit.phrase ++ hit.behind) = false ↔
        Discards clause) := by
    intro hit hhit hbefore
    have hcuts := Pattern.lowLevelCall_recognises.cuts lowLevelCall_ne_nil hhit
    have hne := lowLevelCall_ne_nil _ _ hcuts.phrase
    rw [hbefore, hstatement, isChecked_append_eq_false_iff hopens.endsClosed call.isPath
      (fun hnil => hne (List.append_eq_nil_iff.mp hnil).1), hopens.discards_iff]
  rw [exists_report_iff (P := (· = call.offset))]
  constructor
  · rintro ⟨hit, hhit, hoffset, hunchecked⟩
    obtain ⟨hbefore, hoptions⟩ := call.eq_of_memberOffset_eq hhit hoffset
    exact ⟨hoptions, (hchecked hhit hbefore).mp hunchecked⟩
  · rintro ⟨hoptions, hdiscards⟩
    obtain ⟨hit, hhit, hoffset⟩ := call.exists_hit hoptions
    obtain ⟨hbefore, -⟩ := call.eq_of_memberOffset_eq hhit hoffset
    exact ⟨hit, hhit, hoffset, (hchecked hhit hbefore).mpr hdiscards⟩

section Example

/-- The statement `to.send(1);` at the end of a text. -/
def sendStatement {text : List Char} (before : List Char)
    (htext : text = before ++ "to.send(1);".toList)
    (hfree : ∀ call ∈ Pattern.lowLevelCall.hits text, before.length + 2 ≤ call.before.length) :
    CallStatement text where
  before := before
  path := "to".toList
  gap := []
  member := "send"
  spacing := []
  options := []
  arguments := "(1);".toList
  eq_append := htext
  isPath := by
    refine ⟨balanced_of_plain (List.all_iff_forall_prop.mp (by decide)),
      List.all_iff_forall_prop.mp (by decide), ?_,
      List.eq_nil_of_length_eq_zero (by decide +kernel)⟩
    rintro (h | h | h) <;> revert h <;> decide
  isBlank_gap := rfl
  member_mem := by decide
  isBlank_spacing := rfl
  isOptions := Or.inl rfl
  opens := ⟨"1);".toList, rfl⟩
  free := fun call hcall hlt => by
    have hle := hfree call hcall
    rw [List.length_append] at hlt
    exact absurd hlt (Nat.not_lt_of_le hle)

/-- The step of a loop keeps the call behind the header from being reported. -/
theorem not_reports_send_of_step :
    ∃ call : CallStatement
        (Subject.ofSource .standard "for (uint i = 0; i < n; i = i + 1) to.send(1);").masked,
      (∃ inner, HeaderEnds ["if", "while", "for"] call.before [] inner) ∧
        ∀ f ∈ uncheckedCalls
            (.ofSource .standard "for (uint i = 0; i < n; i = i + 1) to.send(1);"),
          f.offset ≠ call.offset := by
  refine ⟨sendStatement "for (uint i = 0; i < n; i = i + 1) ".toList (by decide +kernel)
    (by decide +kernel), ⟨"uint i = 0; i < n; i = i + 1".toList, rfl,
    balanced_of_plain (List.all_iff_forall_prop.mp (by decide)), "for", by decide, [' '], [' '],
    rfl, rfl, by decide⟩, ?_⟩
  decide +kernel

/-- What a condition compares does not keep the call behind it from being reported. -/
theorem reports_send_of_comparison :
    ∃ f ∈ uncheckedCalls (.ofSource .standard "if (a == b) to.send(1);"), f.offset = 15 := by
  let call : CallStatement (Subject.ofSource .standard "if (a == b) to.send(1);").masked :=
    sendStatement "if (a == b) ".toList (by decide +kernel) (by decide +kernel)
  have hheader : HeaderEnds ["if", "while"] call.before [] "a == b".toList :=
    ⟨rfl, balanced_of_plain (List.all_iff_forall_prop.mp (by decide)), "if", by decide, [' '],
      [' '], rfl, rfl, by decide⟩
  have hfront : Pattern.condition.hits (lastStatement []) = [] :=
    List.eq_nil_of_length_eq_zero (by decide +kernel)
  have hopens : Opens call.before [] :=
    .guarded hheader (List.all_iff_forall_prop.mp (by decide)) (by simp [hfront])
  have hoffset : call.offset = 15 := by decide +kernel
  rw [← hoffset]
  refine (reports_callStatement_iff call hopens).mpr ⟨?_, discards_of_all_isBlank rfl⟩
  intro inner rest hoptions
  cases hoptions

end Example

end SolidityTools.Lint

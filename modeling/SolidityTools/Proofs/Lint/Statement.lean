import SolidityTools.Proofs.Lint.Guard

set_option autoImplicit false

/-! # When the result of a call is taken up

Whether a call is checked is read off the text of its statement in front of it, where a statement
begins behind the last semicolon or brace. The call is checked if a guard in that text reaches over
it, or if the text behind the guards takes up the result. What the call is made on does not matter
for this, if it is a path that balances its parentheses (`isChecked_append_eq_false_iff`). So it
depends on the clause in front of the path, whether the result is discarded (`Discards`).
-/

namespace SolidityTools.Lint

open Text

/-! ## Statements -/

/-- The text behind the last character that ends a statement. -/
def lastStatement (text : List Char) : List Char :=
  (text.reverse.takeWhile (!endsStatement ·)).reverse

theorem lastStatement_append {cs : List Char} (hcs : ∀ c ∈ cs, endsStatement c = false)
    (text : List Char) : lastStatement (text ++ cs) = lastStatement text ++ cs := by
  rw [lastStatement, List.reverse_append, List.takeWhile_append_of_pos (by simpa using hcs),
    List.reverse_append, List.reverse_reverse]
  rfl

theorem lastStatement_append_cons {c : Char} (hc : endsStatement c = true) {cs : List Char}
    (hcs : ∀ c ∈ cs, endsStatement c = false) (text : List Char) :
    lastStatement (text ++ c :: cs) = cs := by
  have htext : text ++ c :: cs = (text ++ [c]) ++ cs := by simp
  have hnil : lastStatement (text ++ [c]) = [] := by
    rw [lastStatement, List.reverse_append, List.reverse_singleton, List.singleton_append,
      List.takeWhile_cons_of_neg (by simp [hc]), List.reverse_nil]
  rw [htext, lastStatement_append hcs, hnil, List.nil_append]

theorem lastStatement_append_of_mem {cs : List Char} {c : Char} (hmem : c ∈ cs)
    (hc : endsStatement c = true) (text : List Char) :
    lastStatement (text ++ cs) = lastStatement cs := by
  have hstop : (cs.reverse.takeWhile (!endsStatement ·)).length ≠ cs.reverse.length := by
    intro hlength
    have hall := List.all_takeWhile (p := (!endsStatement ·)) (l := cs.reverse)
    rw [(List.takeWhile_prefix _).eq_of_length hlength] at hall
    have := List.all_eq_true.mp hall c (List.mem_reverse.mpr hmem)
    simp [hc] at this
  rw [lastStatement, List.reverse_append, List.takeWhile_append, if_neg hstop]
  rfl

theorem exists_append_lastStatement (text : List Char) :
    ∃ front, text = front ++ lastStatement text :=
  ⟨(text.reverse.dropWhile (!endsStatement ·)).reverse, by
    rw [lastStatement, ← List.reverse_append, List.takeWhile_append_dropWhile,
      List.reverse_reverse]⟩

/-- At a word boundary of a text, its last statement has one as well. -/
theorem atBoundary_lastStatement {text : List Char}
    (h : Pattern.atBoundary text.getLast? = true) :
    Pattern.atBoundary (lastStatement text).getLast? = true := by
  obtain ⟨front, hfront⟩ := exists_append_lastStatement text
  by_cases hnil : lastStatement text = []
  · rw [hnil]
    rfl
  · rwa [hfront, List.getLast?_append_of_ne_nil _ hnil] at h

theorem endsStatement_eq_false_of_isBlank {c : Char} (h : isBlank c = true) :
    endsStatement c = false := by
  by_contra hends
  simp only [endsStatement, Bool.not_eq_false, Bool.or_eq_true, beq_iff_eq] at hends
  rcases hends with (rfl | rfl) | rfl <;> exact absurd h (by decide)

/-! ## The ends of guards -/

def guardWords : List String := ["if", "require", "assert", "while"]

theorem keywords_guardWords : Keywords guardWords := by
  refine ⟨by decide, ?_, by decide⟩
  simp only [← List.all_iff_forall_prop]
  decide

theorem IsHeaderOf.endsStatement_eq_false {phrase : List Char} (h : IsHeaderOf guardWords phrase) :
    ∀ c ∈ phrase, endsStatement c = false := by
  obtain ⟨word, hmem, gap, hgap, rfl⟩ := h
  have hword : ∀ word ∈ guardWords, ∀ c ∈ word.toList, endsStatement c = false := by
    simp only [← List.all_iff_forall_prop]
    decide
  intro c hc
  rcases List.mem_append.mp hc with hc | hc
  · exact hword word hmem c hc
  · rcases isBlank_or_eq_of_mem hgap hc with hblank | rfl
    · exact endsStatement_eq_false_of_isBlank hblank
    · decide

/-- How many characters of a text a guard reaches over, when it begins behind `before` and `behind`
follows its opening parenthesis. -/
def reach (before phrase behind : List Char) : Nat :=
  before.length + (phrase.length - 1) + (groupText 0 ('(' :: behind)).length

/-- How many characters of a statement its guards reach over, `beyond` being the text behind it. -/
def guardsEnd (beyond statement : List Char) : Nat :=
  ((Pattern.condition.hits statement).map (guardReach beyond)).foldl max 0

theorem foldl_max_le_iff {ns : List Nat} {m n : Nat} :
    ns.foldl max m ≤ n ↔ m ≤ n ∧ ∀ a ∈ ns, a ≤ n := by
  induction ns generalizing m with
  | nil => simp
  | cons a ns ih =>
      rw [List.foldl_cons, ih, Nat.max_le, List.forall_mem_cons, and_assoc]

theorem forall_guard_iff {text : List Char} {P : List Char → List Char → List Char → Prop} :
    (∀ guard ∈ Pattern.condition.hits text, P guard.before.reverse guard.phrase guard.behind) ↔
      ∀ before phrase behind, HeaderAt guardWords text before phrase behind →
        P before phrase behind := by
  constructor
  · intro h before phrase behind hguard
    obtain ⟨word, hhit⟩ := (exists_hit_iff keywords_guardWords).mpr hguard
    have := h _ hhit
    rwa [List.reverse_reverse] at this
  · intro h guard hguard
    refine h _ _ _ ((exists_hit_iff keywords_guardWords).mp ⟨guard.value, ?_⟩)
    rwa [List.reverse_reverse]

theorem guardsEnd_le_iff {beyond statement : List Char} {n : Nat} :
    guardsEnd beyond statement ≤ n ↔
      ∀ before phrase behind, HeaderAt guardWords statement before phrase behind →
        reach before phrase (behind ++ beyond) ≤ n := by
  rw [guardsEnd, foldl_max_le_iff, ← forall_guard_iff
    (P := fun before phrase behind => reach before phrase (behind ++ beyond) ≤ n)]
  simp only [Nat.zero_le, true_and, List.mem_map, forall_exists_index, and_imp,
    forall_apply_eq_imp_iff₂, guardReach, reach, List.length_reverse]

theorem reach_le_guardsEnd {statement before phrase behind : List Char} (beyond : List Char)
    (h : HeaderAt guardWords statement before phrase behind) :
    reach before phrase (behind ++ beyond) ≤ guardsEnd beyond statement :=
  guardsEnd_le_iff.mp (Nat.le_refl _) _ _ _ h

/-- What stands behind the guards takes up the result of a call: it assigns, negates or returns it.
-/
def TakesUp (lead : List Char) : Prop :=
  '=' ∈ lead ∨ '!' ∈ lead ∨ Pattern.startsReturn lead = true

theorem isChecked_eq_false_iff {statement beyond : List Char} :
    isChecked statement beyond = false ↔ guardsEnd beyond statement ≤ statement.length ∧
      ¬TakesUp (statement.drop (guardsEnd beyond statement)) := by
  rw [guardsEnd, foldl_max_le_iff, TakesUp]
  simp [isChecked, and_assoc]

theorem all_isBlank_drop {gap : List Char} (h : gap.all isBlank = true) (n : Nat) :
    (gap.drop n).all isBlank = true :=
  List.all_eq_true.mpr fun c hc => List.all_eq_true.mp h c (List.mem_of_mem_drop hc)

theorem not_takesUp_of_all_isBlank {lead : List Char} (h : lead.all isBlank = true) :
    ¬TakesUp lead := by
  rintro (hassign | hnegate | hreturn)
  · exact absurd (List.all_eq_true.mp h _ hassign) (by decide)
  · exact absurd (List.all_eq_true.mp h _ hnegate) (by decide)
  · have hblanks : Pattern.blanks lead = [] := by
      have := blanks_append h []
      rwa [List.append_nil] at this
    rw [Pattern.startsReturn, hblanks] at hreturn
    cases hreturn

/-! ## Clauses -/

/-- A clause makes no use of the result of a call behind it: all its guards end in it, and what
stands behind them does not take up the result. -/
structure Discards (clause : List Char) : Prop where
  closed : ∀ guard ∈ Pattern.condition.hits clause, Closes guard.behind
  lead : ¬TakesUp (clause.drop (guardsEnd [] clause))

section Reach

variable {clause before phrase behind : List Char}

/-- A closed guard reaches as far whatever follows. -/
theorem reach_append_of_closes (h : Closes behind) (X : List Char) :
    reach before phrase (behind ++ X) = reach before phrase behind := by
  rw [reach, reach, h.groupText_append]

theorem reach_le_of_closes (hguard : HeaderAt guardWords clause before phrase behind)
    (h : Closes behind) : reach before phrase behind ≤ clause.length := by
  have hle := h.length_groupText_le
  have hpos := List.length_pos_iff.mpr hguard.phrase.ne_nil
  rw [reach, hguard.eq_append, List.length_append, List.length_append]
  omega

/-- A guard that is not closed in front of a balanced text reaches over that text as well. -/
theorem lt_reach_of_not_closes (hguard : HeaderAt guardWords clause before phrase behind)
    (h : ¬Closes behind) {path beyond : List Char} (hpath : Balanced path) (hbeyond : beyond ≠ []) :
    clause.length + path.length < reach before phrase (behind ++ (path ++ beyond)) := by
  obtain ⟨depth, hdepth⟩ := (closes_or behind).resolve_left h
  obtain ⟨c, rest, rfl⟩ := List.exists_cons_of_ne_nil hbeyond
  have hpos := List.length_pos_iff.mpr hguard.phrase.ne_nil
  have hgroup : 0 < (groupText (depth + 1) (c :: rest)).length := by
    rw [groupText]
    split
    · simp
    · split
      · split <;> simp
      · simp
  have hall : groupText 0 ('(' :: (behind ++ (path ++ c :: rest)))
      = '(' :: (behind ++ (path ++ groupText (depth + 1) (c :: rest))) := by
    rw [groupText_opener, hdepth 0, Nat.zero_add, hpath.groupText_append]
  rw [reach, hall, hguard.eq_append]
  simp only [List.length_append, List.length_cons]
  omega

end Reach

/-- The guards of a clause reach no further than it, or one of them is open. -/
theorem guardsEnd_le_length {clause : List Char}
    (h : ∀ guard ∈ Pattern.condition.hits clause, Closes guard.behind) :
    guardsEnd [] clause ≤ clause.length := by
  rw [forall_guard_iff (P := fun _ _ behind => Closes behind)] at h
  refine guardsEnd_le_iff.mpr fun before phrase behind hguard => ?_
  rw [List.append_nil]
  exact reach_le_of_closes hguard (h _ _ _ hguard)

theorem discards_of_all_isBlank {clause : List Char} (h : clause.all isBlank = true) :
    Discards clause := by
  constructor
  · refine (forall_guard_iff (P := fun _ _ behind => Closes behind)).mpr ?_
    rintro before phrase behind ⟨rfl, ⟨word, -, gap, -, rfl⟩, -⟩
    have hparen := List.all_eq_true.mp h '(' (by simp)
    exact absurd hparen (by decide)
  · exact not_takesUp_of_all_isBlank (all_isBlank_drop h _)

/-! ## The path that a call is made on -/

/-- A text ends with a closing parenthesis, or is empty, blanks at its end aside. -/
def EndsClosed (clause : List Char) : Prop :=
  ∃ gap, gap.all isBlank = true ∧ (clause = gap ∨ ∃ front, clause = front ++ ')' :: gap)

theorem EndsClosed.drop {clause : List Char} (h : EndsClosed clause) (n : Nat) :
    EndsClosed (clause.drop n) := by
  obtain ⟨gap, hgap, rfl | ⟨front, rfl⟩⟩ := h
  · exact ⟨_, all_isBlank_drop hgap n, Or.inl rfl⟩
  · by_cases hn : n ≤ front.length
    · exact ⟨gap, hgap, Or.inr ⟨front.drop n, List.drop_append_of_le_length hn⟩⟩
    · obtain ⟨k, rfl⟩ := Nat.exists_eq_add_of_lt (Nat.lt_of_not_le hn)
      refine ⟨gap.drop k, all_isBlank_drop hgap k, Or.inl ?_⟩
      rw [Nat.add_assoc, ← List.drop_drop, List.drop_left, List.drop_succ_cons]

/-- What a call can be made on: a path that balances its parentheses and does not assign, negate,
return, guard or end a statement. -/
structure IsPath (path : List Char) : Prop where
  balanced : Balanced path
  statement : ∀ c ∈ path, endsStatement c = false
  lead : ¬TakesUp path
  guards : Pattern.condition.hits path = []

section Path

variable {clause path : List Char}

theorem EndsClosed.all_isBlank {front m : List Char} (h : EndsClosed (front ++ m))
    (hm : ')' ∉ m) : m.all isBlank = true := by
  have hall : ∀ {gap : List Char}, gap.all isBlank = true → m <:+ gap → m.all isBlank = true :=
    fun hgap hsuffix => List.all_eq_true.mpr fun c hc =>
      List.all_eq_true.mp hgap c (hsuffix.subset hc)
  obtain ⟨gap, hgap, heq | ⟨front', heq⟩⟩ := h
  · exact hall hgap ⟨front, heq⟩
  · rcases List.append_eq_append_iff.mp heq with ⟨x, -, rfl⟩ | ⟨x, -, hx⟩
    · exact absurd (List.mem_append_right x List.mem_cons_self) hm
    · cases x with
      | nil =>
          rw [List.nil_append] at hx
          exact absurd (hx ▸ List.mem_cons_self) hm
      | cons c x => exact hall hgap ⟨x, (List.cons.inj hx).2.symm⟩

theorem headerAt_append_iff (hclause : EndsClosed clause) (hpath : IsPath path)
    {before phrase behind : List Char} :
    HeaderAt guardWords (clause ++ path) before phrase behind ↔
      ∃ rest, behind = rest ++ path ∧ HeaderAt guardWords clause before phrase rest := by
  constructor
  · rintro ⟨heq, hphrase, hboundary⟩
    have hnone : ∀ m, before = clause ++ m → path ≠ m ++ (phrase ++ behind) := by
      rintro m rfl hm
      have hguard : HeaderAt guardWords path m phrase behind := by
        refine ⟨hm, hphrase, ?_⟩
        by_cases hnil : m = []
        · rw [hnil]
          rfl
        · rwa [List.getLast?_append_of_ne_nil _ hnil] at hboundary
      obtain ⟨word, hhit⟩ := (exists_hit_iff keywords_guardWords).mpr hguard
      have hhits : (Pattern.headerOf guardWords).hits path = [] := hpath.guards
      rw [hhits] at hhit
      cases hhit
    rcases List.append_eq_append_iff.mp heq with ⟨m, hbefore, hm⟩ | ⟨m, rfl, hm⟩
    · exact absurd hm (hnone m hbefore)
    · rcases List.append_eq_append_iff.mp hm with ⟨rest, rfl, rfl⟩ | ⟨x, rfl, rfl⟩
      · exact ⟨rest, rfl, rfl, hphrase, hboundary⟩
      · -- the guard would begin in the clause and end in the path
        obtain ⟨c, w, hw, hc⟩ := hphrase.exists_cons keywords_guardWords
        have hclose : ')' ∉ m := fun h =>
          hphrase.closer_not_mem keywords_guardWords (List.mem_append_left x h)
        have hblank := hclause.all_isBlank hclose
        cases m with
        | nil => exact absurd rfl (hnone [] (by simp))
        | cons d m =>
            obtain ⟨rfl, -⟩ := List.cons.inj hw
            rw [List.all_cons, hc] at hblank
            cases hblank
  · rintro ⟨rest, rfl, hguard⟩
    exact ⟨by rw [hguard.eq_append]; simp, hguard.phrase, hguard.boundary⟩

theorem startsReturn_iff {cs : List Char} : Pattern.startsReturn cs = true ↔
    ∃ gap rest, gap.all isBlank = true ∧ cs = gap ++ ("return".toList ++ rest) ∧
      rest.head?.any isWordCharacter = false := by
  rw [Pattern.startsReturn, Option.isSome_iff_exists]
  simp only [Pattern.word?_eq_some_iff]
  constructor
  · rintro ⟨rest, hword, hrest⟩
    refine ⟨cs.takeWhile isBlank, rest, List.all_takeWhile, ?_, hrest⟩
    rw [← hword, Pattern.blanks, List.takeWhile_append_dropWhile]
  · rintro ⟨gap, rest, hgap, rfl, hrest⟩
    refine ⟨rest, ?_, hrest⟩
    rw [blanks_append hgap]
    rfl

/-- A text that closes a group returns something or not, whatever follows it. -/
theorem startsReturn_append_iff {lead : List Char} (hclose : ')' ∈ lead) :
    Pattern.startsReturn (lead ++ path) = true ↔ Pattern.startsReturn lead = true := by
  have hreturn : ∀ {gap : List Char}, gap.all isBlank = true → ')' ∉ gap ++ "return".toList := by
    intro gap hgap h
    rcases List.mem_append.mp h with h | h
    · exact absurd (List.all_eq_true.mp hgap _ h) (by decide)
    · exact absurd h (by decide)
  rw [startsReturn_iff, startsReturn_iff]
  constructor
  · rintro ⟨gap, rest, hgap, heq, hrest⟩
    rw [← List.append_assoc] at heq
    rcases List.append_eq_append_iff.mp heq with ⟨m, hm, -⟩ | ⟨m, rfl, rfl⟩
    · exact absurd (hm ▸ List.mem_append_left m hclose) (hreturn hgap)
    · refine ⟨gap, m, hgap, List.append_assoc _ _ _, ?_⟩
      cases m with
      | nil => exact absurd (by simpa using hclose) (hreturn hgap)
      | cons c m => exact hrest
  · rintro ⟨gap, rest, hgap, rfl, hrest⟩
    refine ⟨gap, rest ++ path, hgap, by simp, ?_⟩
    cases rest with
    | nil => exact absurd (by simpa using hclose) (hreturn hgap)
    | cons c rest => exact hrest

/-- Blanks do not change whether the text behind them takes up a result. -/
theorem takesUp_blank_append_iff {lead : List Char} (hblank : lead.all isBlank = true) :
    TakesUp (lead ++ path) ↔ TakesUp path := by
  have hnot : ∀ c, isBlank c = false → c ∉ lead := by
    intro c hc hmem
    rw [List.all_eq_true.mp hblank c hmem] at hc
    cases hc
  simp only [TakesUp, List.mem_append, hnot '=' (by decide), hnot '!' (by decide), false_or,
    Pattern.startsReturn, blanks_append hblank]

/-- A path behind what the guards of a clause leave does not change whether that takes up a result.
-/
theorem takesUp_append_iff {lead : List Char} (hlead : EndsClosed lead) (hpath : ¬TakesUp path) :
    TakesUp (lead ++ path) ↔ TakesUp lead := by
  by_cases hclose : ')' ∈ lead
  · have hstarts : Pattern.startsReturn (lead ++ path) = true ↔ _ := startsReturn_append_iff hclose
    simp only [TakesUp, not_or] at hpath
    simp only [TakesUp, hstarts, List.mem_append, hpath.1, hpath.2.1, or_false]
  · have hlead' : EndsClosed ([] ++ lead) := hlead
    have hblank := hlead'.all_isBlank hclose
    rw [takesUp_blank_append_iff hblank]
    exact iff_of_false hpath (not_takesUp_of_all_isBlank hblank)

theorem guardsEnd_append_le_iff (hclause : EndsClosed clause) (hpath : IsPath path)
    {beyond : List Char} (hbeyond : beyond ≠ []) :
    guardsEnd beyond (clause ++ path) ≤ (clause ++ path).length ↔
      ∀ guard ∈ Pattern.condition.hits clause, Closes guard.behind := by
  rw [guardsEnd_le_iff, forall_guard_iff (P := fun _ _ behind => Closes behind),
    List.length_append]
  constructor
  · intro h before phrase behind hguard
    by_contra hopen
    have hle := h _ _ _ ((headerAt_append_iff hclause hpath).mpr ⟨behind, rfl, hguard⟩)
    rw [List.append_assoc] at hle
    have hlt := lt_reach_of_not_closes hguard hopen hpath.balanced hbeyond
    omega
  · intro h before phrase behind hguard
    obtain ⟨rest, rfl, hrest⟩ := (headerAt_append_iff hclause hpath).mp hguard
    have hcloses := h _ _ _ hrest
    rw [List.append_assoc, reach_append_of_closes hcloses]
    have := reach_le_of_closes hrest hcloses
    omega

theorem guardsEnd_append_eq (hclause : EndsClosed clause) (hpath : IsPath path)
    (h : ∀ guard ∈ Pattern.condition.hits clause, Closes guard.behind) (beyond : List Char) :
    guardsEnd beyond (clause ++ path) = guardsEnd [] clause := by
  rw [forall_guard_iff (P := fun _ _ behind => Closes behind)] at h
  have hreach : ∀ {before phrase rest}, HeaderAt guardWords clause before phrase rest →
      reach before phrase (rest ++ path ++ beyond) = reach before phrase (rest ++ []) := by
    intro before phrase rest hguard
    rw [List.append_assoc, reach_append_of_closes (h _ _ _ hguard), List.append_nil]
  apply Nat.le_antisymm
  · refine guardsEnd_le_iff.mpr fun before phrase behind hguard => ?_
    obtain ⟨rest, rfl, hrest⟩ := (headerAt_append_iff hclause hpath).mp hguard
    rw [hreach hrest]
    exact reach_le_guardsEnd [] hrest
  · refine guardsEnd_le_iff.mpr fun before phrase rest hguard => ?_
    rw [← hreach hguard]
    exact reach_le_guardsEnd beyond ((headerAt_append_iff hclause hpath).mpr ⟨rest, rfl, hguard⟩)

/-- **What a call is made on does not matter for whether it is checked.** -/
theorem isChecked_append_eq_false_iff (hclause : EndsClosed clause) (hpath : IsPath path)
    {beyond : List Char} (hbeyond : beyond ≠ []) :
    isChecked (clause ++ path) beyond = false ↔ Discards clause := by
  have hlead : (∀ guard ∈ Pattern.condition.hits clause, Closes guard.behind) →
      (TakesUp ((clause ++ path).drop (guardsEnd beyond (clause ++ path))) ↔
        TakesUp (clause.drop (guardsEnd [] clause))) := by
    intro hguards
    rw [guardsEnd_append_eq hclause hpath hguards,
      List.drop_append_of_le_length (guardsEnd_le_length hguards),
      takesUp_append_iff (hclause.drop _) hpath.lead]
  rw [isChecked_eq_false_iff, guardsEnd_append_le_iff hclause hpath hbeyond]
  constructor
  · rintro ⟨hguards, h⟩
    exact ⟨hguards, (hlead hguards).not.mp h⟩
  · rintro ⟨hguards, h⟩
    exact ⟨hguards, (hlead hguards).not.mpr h⟩

end Path

/-! ## Where a statement begins -/

/-- A text ends with a header and its group, blanks aside. -/
structure HeaderEnds (words : List String) (text front inner : List Char) : Prop where
  boundary : Pattern.atBoundary front.getLast? = true
  balanced : Balanced inner
  eq_append : ∃ word ∈ words, ∃ gap gap', gap.all isBlank = true ∧ gap'.all isBlank = true ∧
    text = front ++ (word.toList ++ (gap ++ '(' :: (inner ++ ')' :: gap')))

/-- A statement begins behind a text, and of the text only a clause matters for its calls. -/
inductive Opens : List Char → List Char → Prop
  /-- Behind the end of another statement nothing matters. -/
  | ended (front : List Char) {c : Char} {gap : List Char} (hc : endsStatement c = true)
      (hgap : gap.all isBlank = true) : Opens (front ++ c :: gap) []
  /-- Nor does anything behind a condition, if it is all of one statement. -/
  | guarded {before front inner : List Char} (h : HeaderEnds ["if", "while"] before front inner)
      (hinner : ∀ c ∈ inner, endsStatement c = false)
      (hfront : ∀ guard ∈ Pattern.condition.hits (lastStatement front), Closes guard.behind) :
      Opens before []
  /-- Behind a header in general, what its last statement is. -/
  | headed {before front inner : List Char}
      (h : HeaderEnds ["if", "while", "for"] before front inner) :
      Opens before (lastStatement before)

theorem endsStatement_eq_false_of_all_isBlank {gap : List Char} (h : gap.all isBlank = true) :
    ∀ c ∈ gap, endsStatement c = false :=
  fun c hc => endsStatement_eq_false_of_isBlank (List.all_eq_true.mp h c hc)

theorem HeaderEnds.exists_phrase {words : List String} {text front inner : List Char}
    (h : HeaderEnds words text front inner) : ∃ phrase gap, IsHeaderOf words phrase ∧
      gap.all isBlank = true ∧ text = front ++ (phrase ++ (inner ++ ')' :: gap)) := by
  obtain ⟨word, hmem, gap, gap', hgap, hgap', rfl⟩ := h.eq_append
  exact ⟨word.toList ++ (gap ++ ['(']), gap', ⟨word, hmem, gap, hgap, rfl⟩, hgap', by simp⟩

theorem endsStatement_eq_false_of_mem_closer {gap : List Char} (h : gap.all isBlank = true) :
    ∀ c ∈ ')' :: gap, endsStatement c = false := by
  intro c hc
  rcases List.mem_cons.mp hc with rfl | hc
  · decide
  · exact endsStatement_eq_false_of_all_isBlank h c hc

theorem HeaderEnds.endsClosed {words : List String} {text front inner : List Char}
    (h : HeaderEnds words text front inner) : EndsClosed (lastStatement text) := by
  obtain ⟨phrase, gap, -, hgap, rfl⟩ := h.exists_phrase
  rw [← List.append_assoc phrase, ← List.append_assoc front,
    lastStatement_append (endsStatement_eq_false_of_mem_closer hgap)]
  exact ⟨gap, hgap, Or.inr ⟨_, rfl⟩⟩

theorem Opens.endsClosed {before clause : List Char} (h : Opens before clause) :
    EndsClosed (lastStatement before) := by
  cases h with
  | ended front hc hgap =>
      rw [lastStatement_append_cons hc (endsStatement_eq_false_of_all_isBlank hgap)]
      exact ⟨_, hgap, Or.inl rfl⟩
  | guarded h => exact h.endsClosed
  | headed h => exact h.endsClosed

/-- Guards close in front of a balanced text, and in it, if those in front of it do. -/
theorem closes_of_headerAt_append {start balanced before phrase behind : List Char}
    (hstart : ∀ guard ∈ Pattern.condition.hits start, Closes guard.behind)
    (hbalanced : Balanced balanced)
    (h : HeaderAt guardWords (start ++ balanced) before phrase behind) : Closes behind := by
  rw [forall_guard_iff (P := fun _ _ behind => Closes behind)] at hstart
  obtain ⟨heq, hphrase, hboundary⟩ := h
  obtain ⟨lead, rfl⟩ := hphrase.exists_append
  have hsplit : start ++ balanced = (before ++ lead) ++ '(' :: behind := by simpa using heq
  -- the guard opens its group in the balanced text or in front of it
  rcases List.append_eq_append_iff.mp hsplit with ⟨m, -, hm⟩ | ⟨m, hm, hbehind⟩
  · exact hbalanced.closes hm
  · cases m with
    | nil =>
        have hall : balanced = [] ++ '(' :: behind := hbehind.symm
        exact hbalanced.closes hall
    | cons c m =>
        obtain ⟨rfl, rfl⟩ := List.cons.inj hbehind
        exact (hstart before _ m ⟨by simpa using hm, hphrase, hboundary⟩).append balanced

/-- Behind a guard there are only blanks, so nothing takes up a result. -/
theorem not_takesUp_of_guard {text front phrase inner gap : List Char}
    (h : HeaderAt guardWords text front phrase (inner ++ ')' :: gap)) (hinner : Balanced inner)
    (hgap : gap.all isBlank = true) : ¬TakesUp (text.drop (guardsEnd [] text)) := by
  have hreach := reach_le_guardsEnd [] h
  have hpos := List.length_pos_iff.mpr h.phrase.ne_nil
  rw [List.append_nil, reach, hinner.groupText_eq] at hreach
  obtain ⟨k, hk⟩ := Nat.exists_eq_add_of_le hreach
  have hlength : front.length + (phrase.length - 1) + ('(' :: (inner ++ [')'])).length
      = (front ++ (phrase ++ (inner ++ [')']))).length := by
    simp only [List.length_append, List.length_cons]
    omega
  have htext : text = (front ++ (phrase ++ (inner ++ [')']))) ++ gap := by
    rw [h.eq_append]
    simp
  rw [hk, hlength, ← List.drop_drop, htext, List.drop_left]
  exact not_takesUp_of_all_isBlank (all_isBlank_drop hgap k)

/-- A condition that is all of one statement leaves nothing in front of the call. -/
theorem HeaderEnds.discards {text front inner : List Char}
    (h : HeaderEnds ["if", "while"] text front inner)
    (hinner : ∀ c ∈ inner, endsStatement c = false)
    (hfront : ∀ guard ∈ Pattern.condition.hits (lastStatement front), Closes guard.behind) :
    Discards (lastStatement text) := by
  obtain ⟨phrase, gap, hphrase, hgap, rfl⟩ := h.exists_phrase
  have hguard : IsHeaderOf guardWords phrase := hphrase.mono (by decide)
  have hends : ∀ c ∈ phrase ++ (inner ++ ')' :: gap), endsStatement c = false := by
    intro c hc
    rcases List.mem_append.mp hc with hc | hc
    · exact hguard.endsStatement_eq_false c hc
    · rcases List.mem_append.mp hc with hc | hc
      · exact hinner c hc
      · exact endsStatement_eq_false_of_mem_closer hgap c hc
  rw [lastStatement_append hends]
  constructor
  · exact (forall_guard_iff (P := fun _ _ behind => Closes behind)).mpr fun _ _ _ hguard' =>
      closes_of_headerAt_append hfront
        (hguard.balanced keywords_guardWords h.balanced (balanced_of_all_isBlank hgap)) hguard'
  · exact not_takesUp_of_guard ⟨rfl, hguard, atBoundary_lastStatement h.boundary⟩ h.balanced hgap

theorem Opens.discards_iff {before clause : List Char} (h : Opens before clause) :
    Discards (lastStatement before) ↔ Discards clause := by
  cases h with
  | ended front hc hgap =>
      rw [lastStatement_append_cons hc (endsStatement_eq_false_of_all_isBlank hgap)]
      exact iff_of_true (discards_of_all_isBlank hgap) (discards_of_all_isBlank rfl)
  | guarded h hinner hfront =>
      exact iff_of_true (h.discards hinner hfront) (discards_of_all_isBlank rfl)
  | headed h => exact Iff.rfl

end SolidityTools.Lint

import SolidityTools.Gas.Breakdown
import SolidityTools.Token.Lexer
import SolidityTools.Proofs.Layout.Shape

set_option autoImplicit false

/-! # Statements are counted on their own

The counter looks at the tokens around each token: backwards for the root of a written location,
forwards for the header of a loop and for a name. Neither look goes past the end of a statement.
Backwards, a location stops at a semicolon or a brace. Only an index bracket without a partner lets
the search pass these, and then it finds no partner in statements that close all of their own
brackets, and ends as it does without them (`accessRoot_append`). Forwards, a header is closed in
its statement (`loopHeader_append`). So the counts of a body are the sums of those of its parts
(`bodyCounts_append`).
-/

namespace SolidityTools

/-! ## Closed brackets -/

namespace Group

variable {opener closer : String}

/-- Every group that opens among some tokens is closed among them. -/
def AllClosed (opener closer : String) : List Token → Prop
  | [] => True
  | t :: ts =>
    (t.isOperator opener = true → (close? opener closer 0 ts).isSome = true) ∧
      AllClosed opener closer ts

instance decidableAllClosed (opener closer : String) :
    (ts : List Token) → Decidable (AllClosed opener closer ts)
  | [] => inferInstanceAs (Decidable True)
  | _ :: ts =>
    have := decidableAllClosed opener closer ts
    inferInstanceAs (Decidable (_ ∧ _))

/-- The number of closing brackets that close no group among the tokens. -/
def unopened (opener closer : String) : List Token → Nat
  | [] => 0
  | t :: ts =>
    if t.isOperator opener then unopened opener closer ts - 1
    else if t.isOperator closer then unopened opener closer ts + 1
    else unopened opener closer ts

/-- A group that is open in front of some tokens and closed by them leaves a closing bracket. -/
theorem lt_unopened_of_close? {depth : Nat} {ts : List Token} {g : Group}
    (h : close? opener closer depth ts = some g) : depth < unopened opener closer ts := by
  induction ts generalizing depth g with
  | nil => cases h
  | cons t ts ih =>
      rw [unopened]
      by_cases hopen : t.isOperator opener = true
      · rw [close?_opener hopen] at h
        obtain ⟨g', hg', -⟩ := Option.map_eq_some_iff.mp h
        have := ih hg'
        rw [if_pos hopen]
        omega
      · by_cases hclose : t.isOperator closer = true
        · rw [if_neg hopen, if_pos hclose]
          cases depth with
          | zero => omega
          | succ depth =>
              rw [close?_closer_succ hopen hclose] at h
              obtain ⟨g', hg', -⟩ := Option.map_eq_some_iff.mp h
              have := ih hg'
              omega
        · rw [close?_other hopen hclose] at h
          obtain ⟨g', hg', -⟩ := Option.map_eq_some_iff.mp h
          rw [if_neg hopen, if_neg hclose]
          exact ih hg'

/-- The tokens behind those that hold a group do not matter for it. -/
theorem close?_append {depth : Nat} {ts : List Token} {g : Group}
    (h : close? opener closer depth ts = some g) (us : List Token) :
    close? opener closer depth (ts ++ us) = some ⟨g.inside, g.closer, g.rest ++ us⟩ := by
  rw [← inside_append_of_close? h, List.append_assoc, List.cons_append]
  exact close?_append_of_shape h rfl rfl (g.rest ++ us)

end Group

/-! ## Statements -/

def Token.endsStatement (t : Token) : Bool := t.isOperator ";" || t.isOperator "\x7d"

/-- Some statements, or none: the last token ends a statement, and every parenthesis and every index
bracket that opens is closed. -/
structure Statements (ts : List Token) : Prop where
  ends : ts.getLast?.all Token.endsStatement = true
  parentheses : Group.AllClosed "(" ")" ts
  brackets : Group.AllClosed "[" "]" ts

instance (ts : List Token) : Decidable (Statements ts) :=
  decidable_of_iff
    (ts.getLast?.all Token.endsStatement = true ∧ Group.AllClosed "(" ")" ts ∧
      Group.AllClosed "[" "]" ts)
    ⟨fun h => ⟨h.1, h.2.1, h.2.2⟩, fun h => ⟨h.ends, h.parentheses, h.brackets⟩⟩

section EndsStatement

variable {t : Token}

theorem Token.kind_of_endsStatement (h : t.endsStatement = true) : t.kind = .operator := by
  rw [endsStatement, Bool.or_eq_true] at h
  exact h.elim kind_of_isOperator kind_of_isOperator

theorem Token.isOperatorIn_of_endsStatement (h : t.endsStatement = true) (texts : List String)
    (htexts : ";" ∉ texts ∧ "\x7d" ∉ texts) : t.isOperatorIn texts = false := by
  have htext : t.text = ";" ∨ t.text = "\x7d" := by
    rw [endsStatement, Bool.or_eq_true] at h
    exact h.imp text_of_isOperator text_of_isOperator
  have hmem : t.text ∉ texts := by
    rcases htext with htext | htext
    · rw [htext]
      exact htexts.1
    · rw [htext]
      exact htexts.2
  simp [isOperatorIn, hmem]

theorem Token.isOperator_of_endsStatement (h : t.endsStatement = true) (text : String)
    (htext : text ≠ ";" ∧ text ≠ "\x7d") : t.isOperator text = false := by
  have hone := isOperatorIn_of_endsStatement h [text] (by simpa [eq_comm] using htext)
  simpa [isOperatorIn, isOperator] using hone

theorem Token.isKeyword_of_endsStatement (h : t.endsStatement = true) (text : String) :
    t.isKeyword text = false := by
  simp [isKeyword, kind_of_endsStatement h]

theorem Token.isWord_of_endsStatement (h : t.endsStatement = true) : t.isWord = false := by
  simp [isWord, kind_of_endsStatement h]

theorem Token.isWrite_of_endsStatement (h : t.endsStatement = true) : t.isWrite = false := by
  have hassignment : t.isAssignment = false := isOperatorIn_of_endsStatement h _ (by decide)
  have hstep : t.isStepOperator = false := isOperatorIn_of_endsStatement h _ (by decide)
  rw [isWrite, hassignment, hstep, isKeyword_of_endsStatement h]
  rfl

end EndsStatement

/-- Read backwards, statements begin with the end of one. -/
theorem Statements.reverse_cases {a : List Token} (ha : Statements a) :
    a.reverse = [] ∨ ∃ last front, a.reverse = last :: front ∧ last.endsStatement = true := by
  have hends := ha.ends
  rw [List.getLast?_eq_head?_reverse] at hends
  cases hreverse : a.reverse with
  | nil => exact Or.inl rfl
  | cons last front =>
      rw [hreverse] at hends
      exact Or.inr ⟨last, front, rfl, hends⟩

/-! ## Backwards -/

/-- With an index group open, the search for the root passes tokens that close all of their own
index groups, and more groups are open in front of them. -/
theorem accessRoot_reverse_append {ts : List Token} (hts : Group.AllClosed "[" "]" ts)
    (root : Option Token) (depth : Nat) (before : List Token) :
    accessRoot root (depth + 1) (ts.reverse ++ before)
      = accessRoot root (depth + Group.unopened "[" "]" ts + 1) before := by
  induction ts generalizing before with
  | nil => rfl
  | cons t ts ih =>
      rw [List.reverse_cons, List.append_assoc, List.singleton_append, ih hts.2, accessRoot,
        Group.unopened]
      by_cases hopen : t.isOperator "[" = true
      · have hclose : ¬t.isOperator "]" = true := by
          rw [Token.isOperator_eq_decide, Token.shape_of_isOperator hopen]
          decide
        -- the group is closed behind its opening bracket, so that it is one of the open ones
        obtain ⟨g, hg⟩ := Option.isSome_iff_exists.mp (hts.1 hopen)
        have := Group.lt_unopened_of_close? hg
        rw [if_neg hclose, if_pos hopen, if_pos hopen]
        congr 1
        omega
      · by_cases hclose : t.isOperator "]" = true
        · rw [if_pos hclose, if_neg hopen, if_pos hclose]
          rfl
        · rw [if_neg hclose, if_neg hopen, if_neg hopen, if_neg hclose]

section Backwards

variable {a : List Token} (ha : Statements a)

include ha

/-- Nothing is found in statements that stand in front. -/
theorem accessRoot_reverse (root : Option Token) (depth : Nat) :
    accessRoot root depth a.reverse = root := by
  cases depth with
  | succ depth =>
      have hpassed := accessRoot_reverse_append ha.brackets root depth []
      rwa [List.append_nil, accessRoot] at hpassed
  | zero =>
      rcases ha.reverse_cases with hnil | ⟨last, front, hcons, hends⟩
      · rw [hnil, accessRoot]
      · have hclose := Token.isOperator_of_endsStatement hends "]" (by decide)
        have hword := Token.isWord_of_endsStatement hends
        rw [hcons]
        cases front with
        | nil => simp [accessRoot, hclose, hword]
        | cons dot front => simp [accessRoot, hclose, hword]

/-- A location of one token ends with its statement. -/
theorem accessRoot_cons_reverse (root : Option Token) (t : Token) :
    accessRoot root 0 (t :: a.reverse) = accessRoot root 0 [t] := by
  have hopened : accessRoot root 1 a.reverse = root := accessRoot_reverse ha root 1
  rcases ha.reverse_cases with hnil | ⟨last, front, hcons, hends⟩
  · rw [hnil]
  · have hdot : ¬last.isOperator "." = true := by
      simp [Token.isOperator_of_endsStatement hends "." (by decide)]
    rw [hcons] at hopened ⊢
    conv => lhs; rw [accessRoot, hopened, if_neg hdot]
    rw [accessRoot]

/-- **Backwards, a location ends with its statement.** -/
theorem accessRoot_append (root : Option Token) (depth : Nat) (before : List Token) :
    accessRoot root depth (before ++ a.reverse) = accessRoot root depth before := by
  fun_induction accessRoot root depth before with
  | case1 root depth => exact accessRoot_reverse ha root depth
  | case2 root depth t before hclose ih =>
      rw [List.cons_append, accessRoot, if_pos hclose, ih]
  | case3 root depth t before hclose hopen ih =>
      rw [List.cons_append, accessRoot, if_neg hclose, if_pos hopen, ih]
  | case4 root depth t before hclose hopen ih =>
      rw [List.cons_append, accessRoot, if_neg hclose, if_neg hopen, ih]
  | case5 root t hclose =>
      rw [List.singleton_append, accessRoot_cons_reverse ha, accessRoot, if_pos hclose]
  | case6 root t hclose hword =>
      rw [List.singleton_append, accessRoot_cons_reverse ha, accessRoot, if_neg hclose,
        if_pos hword]
  | case7 root t hclose hword =>
      rw [List.singleton_append, accessRoot_cons_reverse ha, accessRoot, if_neg hclose,
        if_neg hword]
  | case8 root t dot before hclose ih =>
      rw [← ih, List.cons_append, List.cons_append]
      conv => lhs; rw [accessRoot, if_pos hclose]
  | case9 root t dot before hclose hword hdot ih =>
      rw [List.cons_append, List.cons_append, accessRoot, if_neg hclose, if_pos hword, if_pos hdot,
        ih]
  | case10 root t dot before hclose hword hdot =>
      rw [List.cons_append, List.cons_append, accessRoot, if_neg hclose, if_pos hword, if_neg hdot]
  | case11 root t dot before hclose hword =>
      rw [List.cons_append, List.cons_append, accessRoot, if_neg hclose, if_neg hword]

theorem endsLocation_append (before : List Token) :
    endsLocation (before ++ a.reverse) = endsLocation before := by
  cases before with
  | cons t before => rfl
  | nil =>
      rcases ha.reverse_cases with hnil | ⟨last, front, hcons, hends⟩
      · rw [hnil]
        rfl
      · have hclose := Token.isOperator_of_endsStatement hends "]" (by decide)
        simp [hcons, endsLocation, Token.isWord_of_endsStatement hends, hclose]

/-- What is written does not depend on statements in front. -/
theorem writeTarget?_append (before : List Token) (t : Token) (behind : List Token) :
    writeTarget? (before ++ a.reverse) t behind = writeTarget? before t behind := by
  rw [writeTarget?, accessRoot_append ha, endsLocation_append ha, writeTarget?]

end Backwards

namespace Gas

variable (isState : String → Bool)

/-- **What is counted behind statements does not depend on them.** -/
theorem countsFrom_append_reverse {a : List Token} (ha : Statements a) (before b : List Token) :
    countsFrom isState (before ++ a.reverse) b = countsFrom isState before b := by
  induction b generalizing before with
  | nil => rfl
  | cons t b ih =>
      rw [countsFrom, writeCounts, writeTarget?_append ha, ← List.cons_append, ih, countsFrom,
        writeCounts]

/-! ## Forwards -/

section Forwards

variable {t : Token} {ts : List Token}

theorem loopHeader_append (hne : ts ≠ []) (hts : Group.AllClosed "(" ")" ts) (b : List Token) :
    loopHeader (ts ++ b) = loopHeader ts := by
  obtain ⟨paren, ts, rfl⟩ := List.exists_cons_of_ne_nil hne
  rw [List.cons_append, loopHeader, loopHeader]
  by_cases hopen : paren.isOperator "(" = true
  · obtain ⟨group, hgroup⟩ := Option.isSome_iff_exists.mp (hts.1 hopen)
    rw [if_pos hopen, if_pos hopen, Group.parentheses?, Group.parentheses?, hgroup,
      Group.close?_append hgroup]
  · rw [if_neg hopen, if_neg hopen]

theorem counts_of_endsStatement (ht : t.endsStatement = true) (before behind : List Token) :
    (writeCounts isState before t behind).add (flowCounts t behind) = .zero := by
  have hkeyword := Token.isKeyword_of_endsStatement ht
  have hdot := Token.isOperator_of_endsStatement ht "." (by decide)
  have hcall : startsExternalCall (t :: behind) = false := by
    cases behind with
    | nil => rfl
    | cons member behind => simp [startsExternalCall, hdot]
  rw [writeCounts, if_neg (by simp [Token.isWrite_of_endsStatement ht]), flowCounts]
  simp [hkeyword, hcall, Breakdown.add, Breakdown.zero]

/-- **What a token contributes is decided in its statement.** -/
theorem counts_append (hne : ts ≠ []) (hts : Group.AllClosed "(" ")" ts)
    (before b : List Token) :
    (writeCounts isState before t (ts ++ b)).add (flowCounts t (ts ++ b))
      = (writeCounts isState before t ts).add (flowCounts t ts) := by
  have hheader := loopHeader_append hne hts b
  obtain ⟨u, ts, rfl⟩ := List.exists_cons_of_ne_nil hne
  -- besides the header only the next token matters
  have htarget : writeTarget? before t (u :: ts ++ b) = writeTarget? before t (u :: ts) := rfl
  have hnames : namesContract (u :: ts ++ b) = namesContract (u :: ts) := rfl
  have hcall : startsExternalCall (t :: (u :: ts ++ b)) = startsExternalCall (t :: u :: ts) := rfl
  rw [writeCounts, htarget, flowCounts, hheader, hnames, hcall, writeCounts, flowCounts]

end Forwards

/-! ## Sums -/

theorem Breakdown.zero_add (b : Breakdown) : Breakdown.zero.add b = b := by
  simp [Breakdown.add, Breakdown.zero]

theorem Breakdown.add_assoc (a b c : Breakdown) : (a.add b).add c = a.add (b.add c) := by
  simp [Breakdown.add, Nat.add_assoc]

theorem countsFrom_append {ts : List Token} (hends : ts.getLast?.all Token.endsStatement = true)
    (hts : Group.AllClosed "(" ")" ts) (before b : List Token) :
    countsFrom isState before (ts ++ b)
      = (countsFrom isState before ts).add (countsFrom isState (ts.reverse ++ before) b) := by
  induction ts generalizing before with
  | nil => exact (Breakdown.zero_add _).symm
  | cons t ts ih =>
      have hcounts : (writeCounts isState before t (ts ++ b)).add (flowCounts t (ts ++ b))
          = (writeCounts isState before t ts).add (flowCounts t ts) := by
        by_cases hne : ts = []
        · subst hne
          have ht : t.endsStatement = true := hends
          rw [counts_of_endsStatement isState ht, counts_of_endsStatement isState ht]
        · exact counts_append isState hne hts.2 before b
      have hrest : ts.getLast?.all Token.endsStatement = true := by
        cases ts with
        | nil => rfl
        | cons u ts => rwa [List.getLast?_cons_cons] at hends
      rw [List.cons_append, countsFrom, hcounts, ih hrest hts.2, ← Breakdown.add_assoc, countsFrom,
        List.reverse_cons, List.append_assoc, List.singleton_append]

/-- **Statements are counted on their own.** Whatever follows statements that close their own
parentheses and index brackets, the counts of the whole are the sums of the counts of the statements
and of what follows, field by field. -/
theorem bodyCounts_append {a : List Token} (ha : Statements a) (b : List Token) :
    bodyCounts isState (a ++ b) = (bodyCounts isState a).add (bodyCounts isState b) := by
  have hbehind := countsFrom_append_reverse isState ha [] b
  rw [List.nil_append] at hbehind
  rw [bodyCounts, countsFrom_append isState ha.ends ha.parentheses, List.append_nil, hbehind]
  rfl

/-- A loop with a write of the state, and behind it an index bracket and parentheses without their
partners. -/
theorem bodyCounts_append_unopened :
    let a := tokenizeSignificant "for (uint i = 0; i < 9; i++) \x7b s[i] = 1; \x7d"
    let b := tokenizeSignificant "].s += 1); while (s) new C("
    Statements a ∧ bodyCounts (· == "s") (a ++ b) = ⟨2, 2, 2, 1, 0, 0, 1⟩ ∧
      bodyCounts (· == "s") (a ++ b)
        = (bodyCounts (· == "s") a).add (bodyCounts (· == "s") b) := by
  intro a b
  have ha : Statements a := by decide +kernel
  exact ⟨ha, by decide +kernel, bodyCounts_append (· == "s") ha b⟩

end Gas

end SolidityTools

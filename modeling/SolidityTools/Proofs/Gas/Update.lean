import SolidityTools.Proofs.Outline.Location
import Mathlib.Algebra.Ring.Nat
import Mathlib.Algebra.Group.Prod

set_option autoImplicit false

/-! # Ways to update a location

`path += 1;`, `path++;` and `++path;` write the same location, but its root is found in three ways:
backwards from an assignment, backwards from an operator that has a location in front of it, and as
the next token. What stands in the path adds the same to the counts of all three
(`writes_location`). An operator behind the path is taken for one in front of something else if the
path ends in a member that is named like a keyword; then its target is not found, and the write is
no write of the state (`writes_statement`).
-/

namespace SolidityTools

open Grammar

/-- How often a step of a path has the word `delete` as a name. -/
def Access.deletes : Access → Nat
  | member _ name => if name.1.isKeyword "delete" then 1 else 0
  | index _ _ _ => 0

/-- How many members of a location have the name `delete`. -/
def Location.deletes (l : Location) : Nat := (l.accesses.map Access.deletes).sum

/-- An increment or a decrement. -/
abbrev StepOperator : Type := {t : Token // t.isStepOperator = true}

/-- How a location is changed by one. -/
inductive Update where
  | assigned (operator : Mark "+=") (one : {t : Token // t.kind = .number})
  | stepBehind (operator : StepOperator)
  | stepInFront (operator : StepOperator)

namespace Update

def statement (l : Location) (semicolon : Mark ";") : Update → List Token
  | assigned operator one => l.tokens ++ [operator.1, one.1, semicolon.1]
  | stepBehind operator => l.tokens ++ [operator.1, semicolon.1]
  | stepInFront operator => operator.1 :: (l.tokens ++ [semicolon.1])

/-- Whether the operator is an increment or a decrement that stands behind the location. -/
def isStepBehind : Update → Bool
  | stepBehind _ => true
  | _ => false

end Update

/-! ## Tokens that write nothing -/

section Tokens

variable {t : Token}

theorem Token.isWrite_of_isOperator {text : String} (h : t.isOperator text = true)
    (htext : text ∉ assignmentOperators ∧ text ∉ ["++", "--"]) : t.isWrite = false := by
  have hkind : t.kind = .operator := kind_of_isOperator h
  have htext' : t.text = text := text_of_isOperator h
  simp [isWrite, isAssignment, isStepOperator, isOperatorIn, isKeyword, hkind, htext', htext.1,
    htext.2]

/-- Of the words only `delete` is a write. -/
theorem Token.isWrite_of_isWord (h : t.isWord = true) : t.isWrite = t.isKeyword "delete" := by
  simp [isWrite, isAssignment, isStepOperator, isOperatorIn, kind_ne_operator_of_isWord h]

theorem Token.isOperatorIn_iff {texts : List String} :
    t.isOperatorIn texts = true ↔ t.kind = .operator ∧ t.text ∈ texts := by
  simp [isOperatorIn]

/-- An increment or a decrement is a write, but no assignment. -/
theorem Token.isAssignment_of_isStepOperator (h : t.isStepOperator = true) :
    t.isAssignment = false ∧ t.isWrite = true := by
  have htext := (isOperatorIn_iff.mp h).2
  constructor
  · simp only [List.mem_cons, List.not_mem_nil, or_false] at htext
    rcases htext with htext | htext <;>
      simp [isAssignment, isOperatorIn, htext, assignmentOperators]
  · simp [isWrite, h]

end Tokens

namespace Gas

/-! ## Counting writes -/

/-- The writes of the state, and all other ones. -/
def Breakdown.writes (b : Breakdown) : Nat × Nat := (b.storageWrites, b.memoryWrites)

theorem Breakdown.writes_eq_iff {b c : Breakdown} : b.writes = c.writes ↔
    b.storageWrites = c.storageWrites ∧ b.memoryWrites = c.memoryWrites := Prod.mk_inj

/-- One write, of the state or not. -/
def oneWrite (ofState : Bool) : Nat × Nat := if ofState then (1, 0) else (0, 1)

section Counting

variable (isState : String → Bool) {before ts us : List Token} {t : Token}

theorem writes_flowCounts (t : Token) (behind : List Token) :
    (flowCounts t behind).writes = 0 := by
  unfold flowCounts
  split_ifs <;> rfl

theorem writes_writeCounts (hwrite : t.isWrite = true) (before behind : List Token) :
    (writeCounts isState before t behind).writes
      = oneWrite ((writeTarget? before t behind).any fun target => isState target.text) := by
  rw [writeCounts, if_pos hwrite, oneWrite]
  split <;> rfl

theorem writes_countsFrom_cons (before : List Token) (t : Token) (ts : List Token) :
    (countsFrom isState before (t :: ts)).writes = (writeCounts isState before t ts).writes +
      (countsFrom isState (t :: before) ts).writes := by
  have hadd : ∀ a b : Breakdown, (a.add b).writes = a.writes + b.writes := fun _ _ => rfl
  rw [countsFrom, hadd, hadd, writes_flowCounts, add_zero]

theorem writes_countsFrom_append (hts : ∀ t ∈ ts, t.isWrite = false) (before us : List Token) :
    (countsFrom isState before (ts ++ us)).writes
      = (countsFrom isState (ts.reverse ++ before) us).writes := by
  induction ts generalizing before with
  | nil => rfl
  | cons t ts ih =>
      have hzero : (writeCounts isState before t (ts ++ us)).writes = 0 := by
        rw [writeCounts, if_neg (by simp [hts t List.mem_cons_self])]
        rfl
      rw [List.cons_append, writes_countsFrom_cons, hzero, zero_add,
        ih fun u hu => hts u (List.mem_cons_of_mem t hu), List.reverse_cons, List.append_assoc,
        List.singleton_append]

end Counting

/-! ## Paths -/

section Paths

variable (isState : String → Bool) {us : List Token} {t : Token}

theorem writeTarget?_word (hword : t.isWord = true) (before : List Token)
    (hus : ∀ u ∈ us.head?, u.isWord = false) : writeTarget? before t us = none := by
  have hkind : t.kind ≠ .operator := Token.kind_ne_operator_of_isWord hword
  have hnone : us.head?.filter (·.isWord) = none := by
    cases us with
    | nil => rfl
    | cons u us => simp [hus u rfl]
  rw [writeTarget?, hnone]
  simp [Token.isAssignment, Token.isStepOperator, Token.isOperatorIn, hkind]

/-- A name writes nothing, except that the name `delete` counts. Its target would be the next token,
but that is no word. -/
theorem writes_name (hword : t.isWord = true) (before : List Token)
    (hus : ∀ u ∈ us.head?, u.isWord = false) :
    (writeCounts isState before t us).writes = (0, if t.isKeyword "delete" then 1 else 0) := by
  have hwrite : t.isWrite = t.isKeyword "delete" := Token.isWrite_of_isWord hword
  by_cases hdelete : t.isKeyword "delete" = true
  · rw [writes_writeCounts isState (hwrite.trans hdelete), writeTarget?_word hword before hus,
      if_pos hdelete]
    rfl
  · rw [writeCounts, hwrite, if_neg hdelete, if_neg hdelete]
    rfl

/-- A step of a path writes nothing, except that a member with the name `delete` counts. -/
theorem writes_access (a : Access) (hinside : ∀ t ∈ a.inside, t.isWrite = false)
    (before : List Token) (hus : ∀ u ∈ us.head?, u.isWord = false) :
    (countsFrom isState before (a.tokens ++ us)).writes
      = (0, a.deletes) + (countsFrom isState (a.tokens.reverse ++ before) us).writes := by
  cases a with
  | member dot name =>
      have hdot : ∀ t ∈ [dot.1], t.isWrite = false := by
        simpa using Token.isWrite_of_isOperator dot.2 (by decide)
      have hpassed := writes_countsFrom_append isState hdot before (name.1 :: us)
      rw [List.singleton_append, List.reverse_singleton, List.singleton_append,
        writes_countsFrom_cons isState (dot.1 :: before), writes_name isState name.2 _ hus]
        at hpassed
      exact hpassed
  | index opener inside closer =>
      have htokens : ∀ t ∈ (Access.index opener inside closer).tokens, t.isWrite = false := by
        intro t ht
        simp only [Access.tokens, List.mem_cons, List.mem_append, List.not_mem_nil, or_false] at ht
        rcases ht with rfl | ht | rfl
        · exact Token.isWrite_of_isOperator opener.2 (by decide)
        · exact hinside t ht
        · exact Token.isWrite_of_isOperator closer.2 (by decide)
      rw [writes_countsFrom_append isState htokens]
      exact (zero_add _).symm

/-- No step begins with a word. -/
theorem isWord_head?_accesses (accesses : List Access) (hus : ∀ u ∈ us.head?, u.isWord = false) :
    ∀ u ∈ (accesses.flatMap Access.tokens ++ us).head?, u.isWord = false := by
  have hmark : ∀ {text : String} (mark : Mark text), mark.1.isWord = false := fun mark =>
    Token.isWord_eq_false_of_kind (Token.kind_of_isOperator mark.2)
  cases accesses with
  | nil => exact hus
  | cons a accesses =>
      intro u hu
      cases a with
      | member dot name =>
          obtain rfl := Option.some.inj hu
          exact hmark dot
      | index opener inside closer =>
          obtain rfl := Option.some.inj hu
          exact hmark opener

theorem writes_accesses (accesses : List Access)
    (hinside : ∀ t ∈ accesses.flatMap Access.inside, t.isWrite = false) (before : List Token)
    (hus : ∀ u ∈ us.head?, u.isWord = false) :
    (countsFrom isState before (accesses.flatMap Access.tokens ++ us)).writes
      = (0, (accesses.map Access.deletes).sum) +
        (countsFrom isState ((accesses.flatMap Access.tokens).reverse ++ before) us).writes := by
  induction accesses generalizing before with
  | nil => exact (zero_add _).symm
  | cons a accesses ih =>
      rw [List.flatMap_cons] at hinside
      have hfirst := fun t ht => hinside t (List.mem_append_left _ ht)
      have hrest := fun t ht => hinside t (List.mem_append_right _ ht)
      -- behind the first step stands another one or the end of the path, so no word
      have hnext := isWord_head?_accesses accesses hus
      have hsum : (0, a.deletes) + (0, (accesses.map Access.deletes).sum)
          = (0, ((a :: accesses).map Access.deletes).sum) := by
        rw [Prod.mk_add_mk, List.map_cons, List.sum_cons]
      rw [List.flatMap_cons, List.append_assoc,
        writes_access isState a hfirst before hnext, ih hrest,
        ← add_assoc, hsum, List.reverse_append, List.append_assoc]

/-- **What stands in a path is counted alike wherever the path stands.** -/
theorem writes_location (l : Location) (hroot : l.root.1.kind ≠ .keyword)
    (hinside : ∀ t ∈ l.inside, t.isWrite = false) (before : List Token)
    (hus : ∀ u ∈ us.head?, u.isWord = false) :
    (countsFrom isState before (l.tokens ++ us)).writes
      = (0, l.deletes) + (countsFrom isState (l.tokens.reverse ++ before) us).writes := by
  have hword : ∀ t ∈ [l.root.1], t.isWrite = false := by
    simp [Token.isWrite_of_isWord l.root.2, Token.isKeyword, hroot]
  have hpassed := writes_countsFrom_append isState hword before
    (l.accesses.flatMap Access.tokens ++ us)
  rw [writes_accesses isState l.accesses hinside _ hus] at hpassed
  simpa [Location.tokens, Location.deletes] using hpassed

end Paths

/-! ## Updates -/

section Updates

variable (isState : String → Bool) {l : Location} {operator : Token} {ts : List Token}

theorem writes_countsFrom_eq_zero (hts : ∀ t ∈ ts, t.isWrite = false) (before : List Token) :
    (countsFrom isState before ts).writes = 0 := by
  have hpassed := writes_countsFrom_append isState hts before []
  rwa [List.append_nil] at hpassed

/-- The target of an increment or decrement behind a location is found unless the location ends in a
member that is named like a keyword. -/
theorem writeTarget?_stepBehind (hroot : l.root.1.kind ≠ .keyword)
    (hoperator : operator.isStepOperator = true) {next : Token} (hnext : next.isWord = false) :
    writeTarget? l.tokens.reverse operator [next]
      = if l.endsInKeyword then none else some l.root.1 := by
  obtain ⟨hassignment, hwrite⟩ := Token.isAssignment_of_isStepOperator hoperator
  have hnone : [next].head?.filter (·.isWord) = none := by simp [hnext]
  rw [writeTarget?, hassignment, hoperator, Location.endsLocation_reverse hroot, hwrite,
    accessRoot_location_end, hnone]
  cases l.endsInKeyword <;> rfl

/-- The target of an increment or decrement in front of a location is its root. -/
theorem writeTarget?_stepInFront (hoperator : operator.isStepOperator = true)
    (behind : List Token) :
    writeTarget? [] operator (l.tokens ++ behind) = some l.root.1 := by
  obtain ⟨hassignment, hwrite⟩ := Token.isAssignment_of_isStepOperator hoperator
  have hends : endsLocation [] = false := rfl
  rw [writeTarget?, hassignment, hends, hwrite, Location.tokens]
  simp [l.root.2]

variable (hroot : l.root.1.kind ≠ .keyword) (hinside : ∀ t ∈ l.inside, t.isWrite = false)

include hroot hinside

/-- The writes of a statement that consists of a location and an operator behind it. -/
theorem writes_operator (hwrite : operator.isWrite = true) (hkind : operator.kind = .operator)
    (hts : ∀ t ∈ ts, t.isWrite = false) :
    (bodyCounts isState (l.tokens ++ operator :: ts)).writes = (0, l.deletes) +
      oneWrite ((writeTarget? l.tokens.reverse operator ts).any fun target =>
        isState target.text) := by
  have hword : operator.isWord = false := Token.isWord_eq_false_of_kind hkind
  rw [bodyCounts, writes_location isState l hroot hinside [] (by simpa using hword),
    List.append_nil, writes_countsFrom_cons, writes_writeCounts isState hwrite,
    writes_countsFrom_eq_zero isState hts, add_zero]

/-- **The writes of an update.** Besides the members with the name `delete` there is one write. It
is one of the state if the root is, and if the target is found. -/
theorem writes_statement (u : Update) (semicolon : Mark ";") :
    (bodyCounts isState (u.statement l semicolon)).writes = (0, l.deletes) +
      oneWrite (isState l.root.1.text && !(u.isStepBehind && l.endsInKeyword)) := by
  have hsemicolon : ∀ t ∈ [semicolon.1], t.isWrite = false := by
    simpa using Token.isWrite_of_isOperator semicolon.2 (by decide)
  have hnext : semicolon.1.isWord = false :=
    Token.isWord_eq_false_of_kind (Token.kind_of_isOperator semicolon.2)
  cases u with
  | assigned operator one =>
      have hkind := Token.kind_of_isOperator operator.2
      have hassignment : operator.1.isAssignment = true := by
        refine Token.isOperatorIn_iff.mpr ⟨hkind, ?_⟩
        rw [Token.text_of_isOperator operator.2]
        decide
      have hwrite : operator.1.isWrite = true := by simp [Token.isWrite, hassignment]
      have hend : ∀ t ∈ [one.1, semicolon.1], t.isWrite = false := by
        simpa [Token.isWrite, Token.isAssignment, Token.isStepOperator, Token.isOperatorIn,
          Token.isKeyword, one.2] using hsemicolon
      rw [Update.statement, writes_operator isState hroot hinside hwrite hkind hend,
        writeTarget?_of_isAssignment hassignment, accessRoot_location_end]
      simp [Update.isStepBehind]
  | stepBehind operator =>
      have hwrite := (Token.isAssignment_of_isStepOperator operator.2).2
      have hkind : operator.1.kind = .operator := (Token.isOperatorIn_iff.mp operator.2).1
      rw [Update.statement, writes_operator isState hroot hinside hwrite hkind hsemicolon,
        writeTarget?_stepBehind hroot operator.2 hnext]
      cases l.endsInKeyword <;> simp [Update.isStepBehind]
  | stepInFront operator =>
      have hwrite := (Token.isAssignment_of_isStepOperator operator.2).2
      have hhead : ∀ u ∈ [semicolon.1].head?, u.isWord = false := by simpa using hnext
      have hpath := writes_location isState l hroot hinside [operator.1] hhead
      rw [writes_countsFrom_eq_zero isState hsemicolon, add_zero] at hpath
      rw [Update.statement, bodyCounts, writes_countsFrom_cons, hpath,
        writes_writeCounts isState hwrite, writeTarget?_stepInFront operator.2, add_comm]
      simp [Update.isStepBehind]

/-- **Updates cost the same unless an operator behind the location misses it.** The location has any
word but a keyword as its root, and nothing is written in its indices. Then adding one, an increment
or decrement behind the location and one in front of it all get the same writes of the state and the
same other writes, unless the root is a variable of the state and the last part of the location is a
member that is named like a keyword. -/
theorem updates_cost_same_iff :
    (∀ (u v : Update) (semicolon semicolon' : Mark ";"),
        (bodyCounts isState (u.statement l semicolon)).storageWrites
            = (bodyCounts isState (v.statement l semicolon')).storageWrites ∧
          (bodyCounts isState (u.statement l semicolon)).memoryWrites
            = (bodyCounts isState (v.statement l semicolon')).memoryWrites) ↔
      ¬(isState l.root.1.text = true ∧ l.endsInKeyword = true) := by
  have hwrites := writes_statement isState hroot hinside
  simp only [← Breakdown.writes_eq_iff]
  constructor
  · rintro hsame ⟨hstate, hkeyword⟩
    -- an assignment finds the root of such a location, an increment behind it does not
    have hwritten := hsame (.assigned ⟨⟨.operator, "+=", 0⟩, rfl⟩ ⟨⟨.number, "1", 0⟩, rfl⟩)
      (.stepBehind ⟨⟨.operator, "++", 0⟩, rfl⟩) ⟨⟨.operator, ";", 0⟩, rfl⟩
      ⟨⟨.operator, ";", 0⟩, rfl⟩
    rw [hwrites, hwrites, hstate, hkeyword] at hwritten
    simp [Update.isStepBehind, oneWrite] at hwritten
  · intro hnot u v semicolon semicolon'
    have hfound : ∀ u : Update, (isState l.root.1.text && !(u.isStepBehind && l.endsInKeyword))
        = isState l.root.1.text := by
      intro u
      cases hstate : isState l.root.1.text with
      | false => rfl
      | true => simp [Bool.eq_false_iff.mpr fun hkeyword => hnot ⟨hstate, hkeyword⟩]
    refine (hwrites u semicolon).trans (Eq.trans ?_ (hwrites v semicolon').symm)
    rw [hfound, hfound]

end Updates

/-- A member with the name of a keyword is reached by an assignment and by an increment in front,
but not by one behind it. -/
theorem not_cost_same_keyword :
    let writesOf (text : String) : Nat × Nat :=
      (bodyCounts (· == "s") (tokenizeSignificant text)).writes
    writesOf "s.from += 1;" = (1, 0) ∧ writesOf "++s.from;" = (1, 0) ∧
      writesOf "s.from++;" = (0, 1) := by
  decide +kernel

/-- A location of the state with a member that is named like a keyword, and another index behind it.
-/
theorem updates_cost_same_index :
    let l : Location := {
      root := ⟨⟨.identifier, "s", 0⟩, rfl⟩
      accesses := [
        .member ⟨⟨.operator, ".", 1⟩, rfl⟩ ⟨⟨.keyword, "from", 2⟩, rfl⟩,
        .index ⟨⟨.operator, "[", 6⟩, rfl⟩ ⟨[⟨.identifier, "i", 7⟩], by decide⟩
          ⟨⟨.operator, "]", 8⟩, rfl⟩] }
    l.tokens = tokenizeSignificant "s.from[i]" ∧ l.root.1.kind ≠ .keyword ∧
      (∀ t ∈ l.inside, t.isWrite = false) ∧
      ∀ (u v : Update) (semicolon semicolon' : Mark ";"),
        (bodyCounts (· == "s") (u.statement l semicolon)).storageWrites
            = (bodyCounts (· == "s") (v.statement l semicolon')).storageWrites ∧
          (bodyCounts (· == "s") (u.statement l semicolon)).memoryWrites
            = (bodyCounts (· == "s") (v.statement l semicolon')).memoryWrites := by
  intro l
  have hroot : l.root.1.kind ≠ .keyword := by decide
  have hinside : ∀ t ∈ l.inside, t.isWrite = false := by decide
  exact ⟨by decide +kernel, hroot, hinside,
    (updates_cost_same_iff (· == "s") hroot hinside).mpr (by decide)⟩

end Gas

end SolidityTools

import SolidityTools.Proofs.Outline.Variable

set_option autoImplicit false

/-! # Declared variables are found

The pass that looks for state variables keeps a depth, a number of parentheses, the open containers
and the statement that has begun. Between two members of a container its state is always the same,
and every member leads back to it (`Member.passes`): the brackets of a member are balanced, a body
is too deep for statements, and what stands in front of a body or a semicolon declares a variable
only if it begins with a type. So the state is one of five: the beginning of the file, behind the
keyword of a container, between two members, in a statement, and in a body.
-/

namespace SolidityTools

open Grammar

namespace MemberScan

/-! ## Leading from one state to another -/

/-- The tokens lead from one state to another and declare the variables on the way. -/
def Passes (s : MemberScan) (ts : List Token) (vs : List StateVariable) (s' : MemberScan) : Prop :=
  ∀ rest, s.allDeclared (ts ++ rest) = vs ++ s'.allDeclared rest

namespace Passes

variable {s s' s'' : MemberScan} {t : Token} {ts us : List Token} {vs ws : List StateVariable}

theorem nil : Passes s [] [] s := fun _ => rfl

theorem append (h : Passes s ts vs s') (h' : Passes s' us ws s'') :
    Passes s (ts ++ us) (vs ++ ws) s'' := by
  intro rest
  rw [List.append_assoc, h, h', List.append_assoc]

/-- A token that declares nothing leads to the next state. -/
theorem cons (hdeclared : s.declared? t = none) (h : Passes (s.step t) ts vs s') :
    Passes s (t :: ts) vs s' := by
  intro rest
  rw [List.cons_append, allDeclared, hdeclared, h]
  rfl

theorem single (hdeclared : s.declared? t = none) (hstep : s.step t = s') :
    Passes s [t] [] s' :=
  .cons hdeclared (hstep ▸ .nil)

theorem flatMap {α : Type} {tokens : α → List Token} {vars : α → List StateVariable}
    (h : ∀ a, Passes s (tokens a) (vars a) s) (as : List α) :
    Passes s (as.flatMap tokens) (as.flatMap vars) s := by
  induction as with
  | nil => exact .nil
  | cons a as ih =>
      rw [List.flatMap_cons, List.flatMap_cons]
      exact (h a).append ih

end Passes

/-! ## The states -/

/-- Behind the keyword of a container. -/
def announced : MemberScan := ⟨0, 0, [], true, none⟩

/-- Between two members of a container. -/
def between : MemberScan := ⟨1, 0, [1], false, none⟩

/-- In a member, behind the tokens of a statement. -/
def begun (ts : List Token) : MemberScan := ⟨1, 0, [1], false, some ts.reverse⟩

/-- In the body of a member. -/
def body : MemberScan := ⟨2, 0, [1], false, none⟩

/-- In some more brackets. -/
def within (s : MemberScan) (stack : List Bracket) : MemberScan :=
  { s with depth := s.depth + stack.count .curly, parens := s.parens + stack.count .round }

theorem within_nil (s : MemberScan) : s.within [] = s := rfl

/-! ## Balanced tokens -/

section Balanced

variable {s : MemberScan} {stack behind : List Bracket} {t : Token} {ts : List Token}

/-- A token that is no brace and announces no container only counts parentheses. -/
theorem step_within_other (hbehind : Bracket.behind? stack t = some behind)
    (hbrace : isBrace t = false) (hdeclares : t.declares = false) :
    (s.within stack).step t = { s.within behind with
      statement := (s.within stack).statementBehind t } := by
  obtain ⟨hopen, hclose⟩ := Bool.or_eq_false_iff.mp hbrace
  have hparens : (s.within stack).parensBehind t = s.parens + behind.count .round :=
    Bracket.count_behind? hbehind .round s.parens
  have hdepth : s.depth + stack.count .curly = s.depth + behind.count .curly := by
    have hcount := Bracket.count_behind? hbehind .curly s.depth
    rwa [Bracket.opener, Bracket.closer, hopen, hclose] at hcount
  rw [step, hopen, hclose, hparens, (announced?_eq_none hdeclares).1]
  simp [within, hdepth]

theorem step_within_opener (ht : t.isOperator "\x7b" = true) (hpending : s.pending = false) :
    (s.within stack).step t = { s.within (.curly :: stack) with
      statement := if (s.within stack).inContainer && (s.within stack).parens == 0 then none
        else s.statement.map (t :: ·) } := by
  rw [step, if_pos ht]
  simp [openBrace, within, hpending, Nat.add_assoc]

/-- A closing brace closes the group that was opened last. -/
theorem step_within_closer (ht : t.isOperator "\x7d" = true)
    (houtside : (s.within (.curly :: behind)).inContainer = false) :
    (s.within (.curly :: behind)).step t = { s.within behind with
      statement := if s.parens + behind.count .round == 0 then none
        else s.statement.map (t :: ·) } := by
  have hopen : ¬t.isOperator "\x7b" = true := by
    rw [Token.isOperator_iff] at ht
    simp [Token.isOperator_iff, ht]
  rw [step, if_neg hopen, if_pos ht, closeBrace, houtside]
  simp [within, ← Nat.add_assoc]

/-- Where no statement has begun or begins, a token only counts brackets. -/
theorem step_within_silent (hbehind : Bracket.behind? stack t = some behind)
    (hdeclares : t.declares = false) (hstatement : s.statement = none)
    (houtside : ∀ stack, (s.within stack).inContainer = false)
    (hpending : s.pending = true → isBrace t = false) :
    (s.within stack).step t = s.within behind := by
  by_cases hopen : t.isOperator "\x7b" = true
  · have hnot : s.pending = false := by
      by_contra hne
      have hbrace := hpending (by simpa using hne)
      simp [isBrace, hopen] at hbrace
    obtain rfl := @Bracket.eq_of_behind?_opening t .curly stack behind hbehind hopen
    rw [step_within_opener hopen hnot, hstatement]
    simp [within, hstatement]
  · by_cases hclose : t.isOperator "\x7d" = true
    · obtain rfl := @Bracket.eq_of_behind?_closing t .curly stack behind hbehind hclose
      rw [step_within_closer hclose (houtside _), hstatement]
      simp [within, hstatement]
    · have hbrace : isBrace t = false := by simp [isBrace, hopen, hclose]
      rw [step_within_other hbehind hbrace hdeclares, statementBehind, houtside]
      simp [within, hstatement]

/-- A statement that has begun takes a token of an expression. -/
theorem step_within_begun (hbehind : Bracket.behind? stack t = some behind)
    (hok : inExpression stack t = true) (before : List Token) :
    ((begun before).within stack).step t = (begun (before ++ [t])).within behind := by
  have hlist := inList_of_inExpression hok
  have hsemicolon := isOperator_of_inList hlist
  -- a brace stands in parentheses, where it does not end the statement
  have hround : isBrace t = true → 0 < stack.count .round := by
    intro hbrace
    rw [inExpression, hbrace, Bool.not_true, Bool.or_false, Bool.and_eq_true] at hok
    exact List.count_pos_iff.mpr (by simpa using hok.2)
  by_cases hopen : t.isOperator "\x7b" = true
  · have hpos := hround (by simp [isBrace, hopen])
    obtain rfl := @Bracket.eq_of_behind?_opening t .curly stack behind hbehind hopen
    have hparens : ¬stack.count .round = 0 := by omega
    rw [step_within_opener hopen rfl]
    simp [within, begun, hparens]
  · by_cases hclose : t.isOperator "\x7d" = true
    · have hpos := hround (by simp [isBrace, hclose])
      obtain rfl := @Bracket.eq_of_behind?_closing t .curly stack behind hbehind hclose
      have hparens : ¬behind.count .round = 0 := by
        rw [List.count_cons_of_ne (by decide)] at hpos
        omega
      rw [step_within_closer hclose (by simp [inContainer, within, begun])]
      simp [within, begun, hparens]
    · have hbrace : isBrace t = false := by simp [isBrace, hopen, hclose]
      rw [step_within_other hbehind hbrace (declares_of_inBody (inBody_of_inList hlist))]
      simp [statementBehind, within, begun, hsemicolon]

/-- The induction of `passes_silent`, with brackets open. -/
theorem passes_within_silent {ok : List Bracket → Token → Bool} (h : Balanced ok stack ts)
    (hstatement : s.statement = none) (houtside : ∀ stack, (s.within stack).inContainer = false)
    (hbody : ∀ stack t, ok stack t = true → inBody stack t = true)
    (hpending : s.pending = true → ∀ stack t, ok stack t = true → isBrace t = false) :
    (s.within stack).Passes ts [] s := by
  induction h with
  | done => exact .nil
  | @cons stack behind t ts hbehind hok h ih =>
      have hdeclares := declares_of_inBody (hbody stack t hok)
      have hstep : (s.within stack).step t = s.within behind :=
        step_within_silent hbehind hdeclares hstatement houtside fun hp => hpending hp stack t hok
      exact .cons (by simp [declared?, houtside]) (hstep ▸ ih)

/-- **Where no statement begins, balanced tokens change nothing.** -/
theorem passes_silent {ok : List Bracket → Token → Bool} (h : Balanced ok [] ts)
    (hstatement : s.statement = none) (houtside : ∀ k, s.containers.head? ≠ some (s.depth + k))
    (hbody : ∀ stack t, ok stack t = true → inBody stack t = true)
    (hpending : s.pending = true → ∀ stack t, ok stack t = true → isBrace t = false) :
    s.Passes ts [] s := by
  refine passes_within_silent h hstatement (fun stack => ?_) hbody hpending
  simpa [inContainer, within] using houtside (stack.count .curly)

/-- The induction of `passes_begun`, with brackets open. -/
theorem passes_within_begun (h : Balanced inExpression stack ts) (before : List Token) :
    ((begun before).within stack).Passes ts [] (begun (before ++ ts)) := by
  induction h generalizing before with
  | done =>
      rw [List.append_nil, within_nil]
      exact .nil
  | @cons stack behind t ts hbehind hok h ih =>
      have hsemicolon := isOperator_of_inList (inList_of_inExpression hok)
      have hstep := step_within_begun hbehind hok before
      have hnext := ih (before ++ [t])
      rw [List.append_assoc] at hnext
      exact .cons (by simp [declared?, hsemicolon]) (hstep ▸ hnext)

/-- **A statement that has begun takes every token of an expression.** -/
theorem passes_begun (h : Balanced inExpression [] ts) (before : List Token) :
    (begun before).Passes ts [] (begun (before ++ ts)) :=
  passes_within_begun h before

end Balanced

end MemberScan

end SolidityTools

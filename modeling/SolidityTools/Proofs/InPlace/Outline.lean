import SolidityTools.Outline
import SolidityTools.Proofs.InPlace.Function

set_option autoImplicit false

/-! # The outline in place

One loop over the significant tokens finds the declarations of a file. Of the statement that has
begun it keeps the index of the first token, so that the statement is the tokens from there up to
the semicolon. That index has been passed: the loop stays behind the beginning of the statement. A
`Cursor` that satisfies this stands for the scan that keeps the tokens themselves, and a step of the
one is a step of the other.
-/

namespace SolidityTools

namespace InPlace

/-! ## Variables -/

/-- The index of the first `=` outside parentheses, of which `parens` are open. -/
def declaratorEnd? (parens idx : Nat) : List Token → Option Nat
  | [] => none
  | t :: ts =>
    let parens := if t.isOperator "(" then parens + 1
      else if t.isOperator ")" then parens - 1 else parens
    if parens == 0 && t.isOperator "=" then some idx else declaratorEnd? parens (idx + 1) ts

def lastIndex? (kind : TokenKind) : List Token → Option Nat
  | [] => none
  | t :: ts =>
    match lastIndex? kind ts with
    | some n => some (n + 1)
    | none => if t.kind == kind then some 0 else none

def readVariable? (statement : List Token) : Option (Option StateVariable) :=
  if statement.head?.any startsType then do
    let tokens ← sublist? statement 0 ((declaratorEnd? 0 0 statement).getD statement.length)
    match lastIndex? .identifier tokens with
    | none => some none
    | some 0 => some none
    | some (n + 1) => do
      let name ← tokens[n + 1]?
      some (some {
        name := name.text
        offset := name.start
        visibility := (tokens.filterMap Visibility.declared?).getLast?
        isConstant := tokens.any (·.isKeyword "constant")
        isImmutable := tokens.any (·.isKeyword "immutable") })
  else some none

/-- The first `=` outside parentheses ends the declarator, or else the end of the statement. -/
theorem declaratorEnd?_getD (parens idx : Nat) (ts : List Token) :
    (declaratorEnd? parens idx ts).getD (idx + ts.length)
      = idx + (declarator parens ts).length := by
  induction ts generalizing parens idx with
  | nil => rfl
  | cons t ts ih =>
      rw [declaratorEnd?, declarator]
      generalize (if t.isOperator "(" then parens + 1
        else if t.isOperator ")" then parens - 1 else parens) = behind
      by_cases hassign : (behind == 0 && t.isOperator "=") = true
      · simp only [if_pos hassign]
        rfl
      · have hnext : idx + (t :: ts).length = idx + 1 + ts.length := by
          rw [List.length_cons]
          omega
        rw [hnext]
        simp only [if_neg hassign, ih, List.length_cons]
        omega

/-- The declarator stands at the front of the statement. -/
theorem exists_declarator_append (parens : Nat) (ts : List Token) :
    ∃ rest, ts = declarator parens ts ++ rest := by
  induction ts generalizing parens with
  | nil => exact ⟨[], rfl⟩
  | cons t ts ih =>
      rw [declarator]
      generalize (if t.isOperator "(" then parens + 1
        else if t.isOperator ")" then parens - 1 else parens) = behind
      by_cases hassign : (behind == 0 && t.isOperator "=") = true
      · exact ⟨t :: ts, by simp only [if_pos hassign, List.nil_append]⟩
      · obtain ⟨rest, hrest⟩ := ih behind
        refine ⟨rest, ?_⟩
        simp only [if_neg hassign, List.cons_append, ← hrest]

theorem sublist?_declarator (ts : List Token) :
    sublist? ts 0 ((declaratorEnd? 0 0 ts).getD ts.length) = some (declarator 0 ts) := by
  obtain ⟨rest, hrest⟩ := exists_declarator_append 0 ts
  have hstop := declaratorEnd?_getD 0 0 ts
  rw [Nat.zero_add, Nat.zero_add] at hstop
  have h := sublist?_append [] (declarator 0 ts) rest
  rw [List.nil_append, ← hrest, List.length_nil, Nat.zero_add] at h
  rw [hstop, h]

theorem filter_eq_nil_of_lastIndex? {kind : TokenKind} {ts : List Token}
    (h : lastIndex? kind ts = none) : ts.filter (·.kind == kind) = [] := by
  induction ts with
  | nil => rfl
  | cons t ts ih =>
      rw [lastIndex?] at h
      cases hlast : lastIndex? kind ts with
      | some n => simp [hlast] at h
      | none =>
          have ht : ¬(t.kind == kind) = true := by
            intro hkind
            simp [hlast, hkind] at h
          rw [List.filter_cons, if_neg ht]
          exact ih hlast

theorem exists_of_lastIndex? {kind : TokenKind} {ts : List Token} {n : Nat}
    (h : lastIndex? kind ts = some n) :
    ∃ t, ts[n]? = some t ∧ (ts.filter (·.kind == kind)).getLast? = some t := by
  induction ts generalizing n with
  | nil => simp [lastIndex?] at h
  | cons t ts ih =>
      rw [lastIndex?] at h
      cases hlast : lastIndex? kind ts with
      | some m =>
          simp only [hlast, Option.some.injEq] at h
          obtain ⟨u, hget, hu⟩ := ih hlast
          refine ⟨u, by rw [← h, List.getElem?_cons_succ, hget], ?_⟩
          rw [List.filter_cons]
          split
          · rw [List.getLast?_cons, hu]
            rfl
          · exact hu
      | none =>
          simp only [hlast] at h
          split at h
          · next hkind =>
              obtain rfl := Option.some.inj h
              refine ⟨t, rfl, ?_⟩
              rw [List.filter_cons, if_pos hkind, filter_eq_nil_of_lastIndex? hlast]
              rfl
          · exact nomatch h

/-- The name is the last identifier behind the first token. -/
theorem readVariable?_eq (statement : List Token) :
    readVariable? statement = some (stateVariable? statement) := by
  rw [readVariable?, sublist?_declarator]
  cases statement with
  | nil => rfl
  | cons first rest =>
      rw [stateVariable?]
      by_cases hfirst : startsType first = true
      · simp only [List.head?_cons, Option.any_some, hfirst, if_true, Option.bind_eq_bind,
          Option.bind_some]
        cases declarator 0 (first :: rest) with
        | nil => rfl
        | cons t ts =>
            rw [lastIndex?, List.tail_cons]
            cases hlast : lastIndex? .identifier ts with
            | none =>
                rw [filter_eq_nil_of_lastIndex? hlast]
                -- an identifier in front of all others is the type
                by_cases hkind : (t.kind == .identifier) = true
                · simp only [if_pos hkind]
                  rfl
                · simp only [if_neg hkind]
                  rfl
            | some n =>
                obtain ⟨name, hget, hname⟩ := exists_of_lastIndex? hlast
                simp only [List.getElem?_cons_succ, hget, hname, Option.bind_some]
      · simp only [List.head?_cons, Option.any_some, hfirst]
        rfl

/-! ## The loop over the tokens -/

/-- What the loop knows at an index. -/
structure Cursor where
  /-- The number of open braces. -/
  depth : Nat
  /-- The number of open parentheses. -/
  parens : Nat
  /-- The depths inside the open containers, innermost first. -/
  containers : List Nat
  /-- Whether a container has been announced whose brace is still to come. -/
  pending : Bool
  /-- The index of the first token of the statement that has begun. -/
  statement : Option Nat

namespace Cursor

/-- The beginning of a file. -/
def start : Cursor := ⟨0, 0, [], false, none⟩

/-- Whether the innermost open brace is that of a container. -/
def inContainer (c : Cursor) : Bool := c.containers.head? == some c.depth

/-- The statement behind a token that is no brace and stands at an index. -/
def statementBehind (c : Cursor) (idx : Nat) (t : Token) : Option Nat :=
  match c.statement with
  | some start => if c.inContainer && t.isOperator ";" then none else some start
  | none => if c.inContainer && !t.isOperator ";" then some idx else none

def step (c : Cursor) (idx : Nat) (t : Token) : Cursor :=
  if t.isOperator "\x7b" then
    { c with
      depth := c.depth + 1
      containers := if c.pending then (c.depth + 1) :: c.containers else c.containers
      pending := false
      statement := if c.inContainer && c.parens == 0 then none else c.statement }
  else if t.isOperator "\x7d" then
    { c with
      depth := c.depth - 1
      containers := if c.inContainer then c.containers.tail else c.containers
      statement := if c.parens == 0 then none else c.statement }
  else
    { c with
      parens := if t.isOperator "(" then c.parens + 1
        else if t.isOperator ")" then c.parens - 1 else c.parens
      pending := c.pending || (TypeKind.announced? t).any (·.isContainer)
      statement := c.statementBehind idx t }

/-- The variable whose statement ends at an index. -/
def declared? (c : Cursor) (tokens : List Token) (idx : Nat) (t : Token) :
    Option (Option StateVariable) :=
  if c.inContainer && t.isOperator ";" then
    match c.statement with
    | none => some none
    | some start => do
      let statement ← sublist? tokens start idx
      readVariable? statement
  else some none

/-- The scan that keeps the tokens of the statement, some tokens having been passed. -/
def scan (c : Cursor) (before : List Token) : MemberScan :=
  ⟨c.depth, c.parens, c.containers, c.pending,
    c.statement.map fun start => (before.drop start).reverse⟩

/-- The statement has begun at or before an index. -/
def Within (c : Cursor) (idx : Nat) : Prop := ∀ start ∈ c.statement, start ≤ idx

theorem step_within {c : Cursor} {idx : Nat} (h : c.Within idx) (t : Token) :
    (c.step idx t).Within (idx + 1) := by
  have hkept : ∀ start, c.statement = some start → start ≤ idx + 1 := fun start hstart =>
    Nat.le_succ_of_le (h start hstart)
  intro start hstart
  rw [step] at hstart
  split at hstart
  · simp only [Option.mem_def, Option.ite_none_left_eq_some] at hstart
    exact hkept start hstart.2
  · split at hstart
    · simp only [Option.mem_def, Option.ite_none_left_eq_some] at hstart
      exact hkept start hstart.2
    · simp only [statementBehind, Option.mem_def] at hstart
      cases hstatement : c.statement with
      | some first =>
          simp only [hstatement, Option.ite_none_left_eq_some] at hstart
          exact hkept start (hstatement.trans hstart.2)
      | none =>
          -- a statement that begins begins at the present index
          simp only [hstatement, Option.ite_none_right_eq_some, Option.some.injEq] at hstart
          omega

theorem map_statement {c : Cursor} {before : List Token} (h : c.Within before.length) (t : Token) :
    (c.statement.map fun start => ((before ++ [t]).drop start).reverse)
      = (c.scan before).statement.map (t :: ·) := by
  rw [scan, Option.map_map]
  refine Option.map_congr fun start hstart => ?_
  rw [List.drop_append_of_le_length (h start hstart), List.reverse_append]
  rfl

theorem map_statementBehind {c : Cursor} {before : List Token} (h : c.Within before.length)
    (t : Token) :
    ((c.statementBehind before.length t).map fun start => ((before ++ [t]).drop start).reverse)
      = (c.scan before).statementBehind t := by
  have hcontainer : (c.scan before).inContainer = c.inContainer := rfl
  have hstatement := map_statement h t
  rw [statementBehind, MemberScan.statementBehind, hcontainer]
  rw [scan] at hstatement ⊢
  cases hc : c.statement with
  | some start =>
      rw [hc] at hstatement
      simp only [Option.map_some, Option.some.injEq] at hstatement ⊢
      rw [apply_ite (Option.map _), Option.map_none, Option.map_some, hstatement]
  | none =>
      -- a statement that begins leaves out all that has been passed
      simp only [Option.map_none, apply_ite (Option.map _), Option.map_some, List.drop_left]
      rfl

theorem scan_step {c : Cursor} {before : List Token} (h : c.Within before.length) (t : Token) :
    (c.step before.length t).scan (before ++ [t]) = (c.scan before).step t := by
  have hcontainer : (c.scan before).inContainer = c.inContainer := rfl
  rw [step, MemberScan.step]
  split
  · rw [MemberScan.openBrace, hcontainer, scan]
    simp only [apply_ite (Option.map _), Option.map_none, map_statement h]
    rfl
  · split
    · rw [MemberScan.closeBrace, hcontainer, scan]
      simp only [apply_ite (Option.map _), Option.map_none, map_statement h]
      rfl
    · rw [scan]
      simp only [map_statementBehind h]
      rfl

theorem declared?_append {c : Cursor} {before : List Token} (h : c.Within before.length)
    (t : Token) (ts : List Token) :
    c.declared? (before ++ t :: ts) before.length t = some ((c.scan before).declared? t) := by
  have hcontainer : (c.scan before).inContainer = c.inContainer := rfl
  rw [declared?, MemberScan.declared?, hcontainer]
  by_cases hends : (c.inContainer && t.isOperator ";") = true
  · rw [if_pos hends, if_pos hends, scan]
    cases hstatement : c.statement with
    | none => rfl
    | some start =>
        have hsublist : sublist? (before ++ t :: ts) start before.length
            = some (before.drop start) := by
          have hsplit := sublist?_append (before.take start) (before.drop start) (t :: ts)
          have hlength : (before.take start).length = start :=
            List.length_take_of_le (h start hstatement)
          have hstop : start + (before.drop start).length = before.length := by
            rw [List.length_drop]
            have := h start hstatement
            omega
          rwa [← List.append_assoc, List.take_append_drop, hlength, hstop] at hsplit
        simp only [hsublist, Option.bind_eq_bind, Option.bind_some, readVariable?_eq,
          Option.map_some, List.reverse_reverse]
  · rw [if_neg hends, if_neg hends]

end Cursor

def typeAt? (tokens : List Token) (keyword : Nat) : Option (Option TypeDeclaration) := do
  let t ← tokens[keyword]?
  match TypeKind.announced? t, tokens[keyword + 1]?.filter (·.isName) with
  | some kind, some name => some (some ⟨kind, name.text, name.start⟩)
  | _, _ => some none

def declarations? (sourceLength : Nat) (tokens : List Token) (idx : Nat) (c : Cursor) :
    Option (List TypeDeclaration × List StateVariable × List FunctionDeclaration) :=
  if idx < tokens.length then do
    let t ← tokens[idx]?
    let type ← typeAt? tokens idx
    let function ← functionAt? sourceLength tokens idx
    let declared ← c.declared? tokens idx t
    let (types, stateVariables, functions) ←
      declarations? sourceLength tokens (idx + 1) (c.step idx t)
    some (type.toList ++ types, declared.toList ++ stateVariables, function.toList ++ functions)
  else some ([], [], [])
termination_by tokens.length - idx

theorem typeAt?_append (before : List Token) (t : Token) (ts : List Token) :
    typeAt? (before ++ t :: ts) before.length = some (typeDeclaration? (t :: ts)) := by
  rw [typeAt?, getElem?_append_cons, getElem?_append_succ]
  simp only [Option.bind_eq_bind, Option.bind_some]
  cases ts with
  | nil => cases TypeKind.announced? t <;> rfl
  | cons name ts =>
      rw [typeDeclaration?, List.head?_cons, Option.filter_some]
      cases TypeKind.announced? t with
      | none => rfl
      | some kind =>
          by_cases hisName : name.isName = true
          · simp only [if_pos hisName]
          · simp only [if_neg hisName]

theorem declarations?_append (sourceLength : Nat) (before ts : List Token) {c : Cursor}
    (h : c.Within before.length) :
    declarations? sourceLength (before ++ ts) before.length c
      = some (typeDeclarations ts, (c.scan before).allDeclared ts,
          functionDeclarations sourceLength before.length ts) := by
  induction ts generalizing before c with
  | nil =>
      rw [declarations?, if_neg (by simp)]
      rfl
  | cons t ts ih =>
      have hlength : (before ++ [t]).length = before.length + 1 := by simp
      have hwithin : (c.step before.length t).Within (before ++ [t]).length := by
        rw [hlength]
        exact c.step_within h t
      have hnext := ih (before ++ [t]) hwithin
      rw [List.append_assoc, hlength, Cursor.scan_step h] at hnext
      rw [declarations?, if_pos (by simp), getElem?_append_cons, typeAt?_append,
        functionAt?_append]
      simp only [Option.bind_eq_bind, Option.bind_some, Cursor.declared?_append h]
      rw [List.singleton_append] at hnext
      rw [hnext]
      rfl

def outline? (sourceLength : Nat) (tokens : List Token) : Option Outline := do
  let tokens := significantTokens tokens
  let (types, stateVariables, functions) ← declarations? sourceLength tokens 0 .start
  some { tokens, types, stateVariables, functions }

/-- **Every list of tokens has an outline**, and it is the outline of the file. -/
theorem outline?_eq (sourceLength : Nat) (tokens : List Token) :
    outline? sourceLength tokens = some (Outline.ofTokens sourceLength tokens) := by
  have hstart : Cursor.start.Within ([] : List Token).length := fun _ h => nomatch h
  have h := declarations?_append sourceLength [] (significantTokens tokens) hstart
  rw [List.nil_append, List.length_nil] at h
  rw [outline?]
  simp only [h, Option.bind_eq_bind, Option.bind_some]
  rfl

end InPlace

end SolidityTools

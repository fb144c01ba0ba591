import SolidityTools.Proofs.Outline.Place
import SolidityTools.Proofs.Token.Mapped

set_option autoImplicit false

/-! # Outlines and changes of tokens

The outline of a file tells names, which are words, and places. So when tokens change and the code
stays (`Token.KeepsCode`), the declarations stay too and only move. What becomes of the parameters
and of the body of a function depends on the change, since comments and strings may stand in them;
the statements about functions leave it open (`FunctionDeclaration.seen`). The search for writes
finds the same words.
-/

namespace SolidityTools

open Token

variable {f : Nat → Nat} {φ : Token → Token} (h : KeepsCode f φ)

include h

/-! ## Types -/

theorem TypeKind.announced?_map (t : Token) : announced? (φ t) = announced? t := by
  simp only [announced?, h.isKeyword]

theorem typeDeclaration?_map (ts : List Token) :
    typeDeclaration? (ts.map φ)
      = (typeDeclaration? ts).map fun d => { d with offset := f d.offset } := by
  match ts with
  | [] => rfl
  | [t] => rfl
  | t :: name :: ts =>
      simp only [List.map_cons, typeDeclaration?, TypeKind.announced?_map h, h.isName]
      cases TypeKind.announced? t with
      | none => rfl
      | some kind =>
          by_cases hname : name.isName = true
          · simp only [if_pos hname, Option.map_some, h.start,
              h.text_of_isWord name (isWord_of_isName hname)]
          · simp only [if_neg hname, Option.map_none]

theorem typeDeclarations_map (ts : List Token) :
    typeDeclarations (ts.map φ)
      = (typeDeclarations ts).map fun d => { d with offset := f d.offset } := by
  induction ts with
  | nil => rfl
  | cons t ts ih =>
      rw [List.map_cons, typeDeclarations, ← List.map_cons, typeDeclaration?_map h, ih,
        typeDeclarations, List.map_append, Option.toList_map]

/-! ## State variables -/

theorem declarator_map (parens : Nat) (ts : List Token) :
    declarator parens (ts.map φ) = (declarator parens ts).map φ := by
  induction ts generalizing parens with
  | nil => rfl
  | cons t ts ih =>
      simp only [List.map_cons, declarator, h.isOperator, ih]
      generalize (if t.isOperator "(" = true then parens + 1
        else if t.isOperator ")" = true then parens - 1 else parens) = depth
      split
      · rfl
      · rfl

theorem startsType_map (t : Token) : startsType (φ t) = startsType t := by
  simp only [startsType, h.kind, h.isKeyword]

theorem Visibility.declared?_map (t : Token) : declared? (φ t) = declared? t := by
  simp only [declared?, h.isKeyword]

theorem stateVariable?_map (ts : List Token) :
    stateVariable? (ts.map φ)
      = (stateVariable? ts).map fun v => { v with offset := f v.offset } := by
  have hidentifier : ∀ us : List Token, ((us.map φ).filter (·.kind == .identifier)).getLast?
      = ((us.filter (·.kind == .identifier)).getLast?).map φ := by
    intro us
    rw [List.filter_map, List.getLast?_map]
    refine congrArg _ (congrArg _ (List.filter_congr fun t _ => ?_))
    rw [Function.comp_apply, h.kind]
  cases ts with
  | nil => rfl
  | cons first rest =>
      have hdeclarator := declarator_map h 0 (first :: rest)
      rw [List.map_cons] at hdeclarator ⊢
      simp only [stateVariable?, startsType_map h, hdeclarator, ← List.map_tail, hidentifier,
        List.filterMap_map, List.any_map, Function.comp_def, Visibility.declared?_map h,
        h.isKeyword]
      split
      · cases hlast : ((declarator 0 (first :: rest)).tail.filter
            (·.kind == .identifier)).getLast? with
        | none => rfl
        | some name =>
            have hkind : (name.kind == .identifier) = true :=
              (List.mem_filter.mp (List.mem_of_getLast? hlast)).2
            have hword : name.isWord = true := by simp [Token.isWord, hkind]
            simp only [Option.map_some, h.start, h.text_of_isWord name hword]
      · rfl

namespace MemberScan

omit h in
/-- What the pass knows, the tokens changed. -/
def mapped (φ : Token → Token) (s : MemberScan) : MemberScan :=
  { s with statement := s.statement.map (List.map φ) }

omit h in
theorem inContainer_mapped (s : MemberScan) : (s.mapped φ).inContainer = s.inContainer := rfl

omit h in
theorem map_statement_mapped (s : MemberScan) (t : Token) :
    (s.mapped φ).statement.map (φ t :: ·) = (s.statement.map (t :: ·)).map (List.map φ) := by
  rw [mapped]
  cases s.statement with
  | none => rfl
  | some tokens => rfl

omit h in
theorem openBrace_mapped (s : MemberScan) (t : Token) :
    (s.mapped φ).openBrace (φ t) = (s.openBrace t).mapped φ := by
  rw [openBrace, openBrace, map_statement_mapped, inContainer_mapped]
  simp only [mapped, apply_ite (Option.map _), Option.map_none]
  rfl

omit h in
theorem closeBrace_mapped (s : MemberScan) (t : Token) :
    (s.mapped φ).closeBrace (φ t) = (s.closeBrace t).mapped φ := by
  rw [closeBrace, closeBrace, map_statement_mapped, inContainer_mapped]
  simp only [mapped, apply_ite (Option.map _), Option.map_none]
  rfl

theorem statementBehind_mapped (s : MemberScan) (t : Token) :
    (s.mapped φ).statementBehind (φ t) = (s.statementBehind t).map (List.map φ) := by
  have hstatement : (s.mapped φ).statement = s.statement.map (List.map φ) := rfl
  rw [statementBehind, statementBehind, hstatement, inContainer_mapped, h.isOperator]
  cases s.statement with
  | none => simp only [Option.map_none, apply_ite (Option.map _), Option.map_some, List.map]
  | some tokens => simp only [apply_ite (Option.map _), Option.map_none, Option.map_some, List.map]

theorem step_mapped (s : MemberScan) (t : Token) :
    (s.mapped φ).step (φ t) = (s.step t).mapped φ := by
  simp only [step, h.isOperator]
  split
  · exact openBrace_mapped s t
  · split
    · exact closeBrace_mapped s t
    · rw [statementBehind_mapped h]
      simp only [mapped, parensBehind, h.isOperator, TypeKind.announced?_map h]

theorem declared?_mapped (s : MemberScan) (t : Token) :
    (s.mapped φ).declared? (φ t)
      = (s.declared? t).map fun v => { v with offset := f v.offset } := by
  have hstatement : (s.mapped φ).statement = s.statement.map (List.map φ) := rfl
  rw [declared?, declared?, hstatement, inContainer_mapped, h.isOperator]
  cases s.statement with
  | none => simp only [Option.map_none, Option.bind_none, ite_self]
  | some tokens =>
      simp only [Option.map_some, Option.bind_some, ← List.map_reverse, stateVariable?_map h,
        apply_ite (Option.map _), Option.map_none]

theorem allDeclared_mapped (s : MemberScan) (ts : List Token) :
    (s.mapped φ).allDeclared (ts.map φ)
      = (s.allDeclared ts).map fun v => { v with offset := f v.offset } := by
  induction ts generalizing s with
  | nil => rfl
  | cons t ts ih =>
      rw [List.map_cons, allDeclared, declared?_mapped h, step_mapped h, ih, allDeclared,
        List.map_append, Option.toList_map]

end MemberScan

theorem stateVariables_map (ts : List Token) :
    stateVariables (ts.map φ) = (stateVariables ts).map fun v => { v with offset := f v.offset } :=
  MemberScan.allDeclared_mapped h MemberScan.start ts

/-! ## Parameters -/

theorem splitParameters_map (depth : Nat) (ts : List Token) :
    splitParameters depth (ts.map φ) = (splitParameters depth ts).map (List.map φ) := by
  induction ts generalizing depth with
  | nil => rfl
  | cons t ts ih =>
      simp only [List.map_cons, splitParameters, h.isOperator, h.isOperatorIn, ih]
      split
      · rfl
      · generalize (if t.isOperatorIn ["(", "["] = true then depth + 1
          else if t.isOperatorIn [")", "]"] = true then depth - 1 else depth) = inner
        cases splitParameters inner ts with
        | nil => rfl
        | cons parameter parameters => rfl

theorem typeTail_map (depth : Nat) (behindDot : Bool) (ts : List Token) :
    typeTail depth behindDot (ts.map φ) = (typeTail depth behindDot ts).map φ := by
  induction ts generalizing depth behindDot with
  | nil => rfl
  | cons t ts ih =>
      simp only [List.map_cons, typeTail, h.isOperator, h.isOperatorIn, h.isKeyword, ih]
      split
      · rfl
      · rfl

theorem typeTokens_map (parameter : List Token) :
    typeTokens (parameter.map φ) = (typeTokens parameter).map φ := by
  cases parameter with
  | nil => rfl
  | cons t ts => simp only [List.map_cons, typeTokens, h.isOperator, h.isOperatorIn, typeTail_map h]

theorem parameterTypes_map (htext : ∀ t, (φ t).text = t.text) (ts : List Token) :
    parameterTypes (ts.map φ) = parameterTypes ts := by
  have htype : ∀ parameter, parameterType (parameter.map φ) = parameterType parameter := by
    intro parameter
    rw [parameterType, typeTokens_map h, List.filter_map, List.map_map, parameterType]
    simp only [Function.comp_def, h.isKeyword, htext]
  have hempty : (fun parameter : List Token => !parameter.isEmpty) ∘ List.map φ
      = fun parameter => !parameter.isEmpty := by
    funext parameter
    cases parameter with
    | nil => rfl
    | cons t ts => rfl
  rw [parameterTypes, splitParameters_map h, List.filter_map, hempty, List.map_map, parameterTypes]
  exact List.map_congr_left fun parameter _ => htype parameter

/-! ## Functions -/

omit h in
/-- What is seen of a function whose parameters are seen by `params` and whose body by `body`. -/
def FunctionDeclaration.seen (f : Nat → Nat) (params : List String → List String)
    (body : FunctionBody → FunctionBody) (d : FunctionDeclaration) : FunctionDeclaration :=
  { d with
    offset := f d.offset
    paramTypes := params d.paramTypes
    body := d.body.map body }

theorem FunctionKind.announced?_map (t : Token) : announced? (φ t) = announced? t := by
  simp only [announced?, h.isKeyword]

variable {params : List String → List String} {body body' : FunctionBody → FunctionBody}
  {sourceLength sourceLength' : Nat}
  (hparams : ∀ ts, params (parameterTypes (ts.map φ)) = params (parameterTypes ts))
  (hbody : ∀ first brace ts, body' (bodyFrom sourceLength' first (φ brace) (ts.map φ))
    = body (bodyFrom sourceLength first brace ts))

include hbody

theorem attributes_map (index parens : Nat) (m : Mutability) (ts : List Token) :
    (attributes sourceLength' index parens m (ts.map φ)).1
        = (attributes sourceLength index parens m ts).1 ∧
      (attributes sourceLength' index parens m (ts.map φ)).2.map body'
        = (attributes sourceLength index parens m ts).2.map body := by
  induction ts generalizing index parens m with
  | nil => exact ⟨rfl, rfl⟩
  | cons t ts ih =>
      have hattribute : m.attribute parens (φ t) = m.attribute parens t := by
        simp only [Mutability.attribute, h.isKeyword]
      simp only [List.map_cons, attributes, h.isOperator, hattribute]
      split
      · exact ⟨rfl, rfl⟩
      · split
        · exact ⟨rfl, by rw [Option.map_some, Option.map_some, hbody]⟩
        · exact ih _ _ _

include hparams

theorem functionWith_map (index : Nat) (kind : FunctionKind) {name : Token}
    (hname : name.isWord = true) (ts : List Token) :
    (functionWith sourceLength' kind index (φ name) (ts.map φ)).map
        (FunctionDeclaration.seen id params body')
      = (functionWith sourceLength kind index name ts).map
        (FunctionDeclaration.seen f params body) := by
  cases ts with
  | nil => rfl
  | cons paren ts =>
      simp only [List.map_cons, functionWith, h.isOperator, Group.parentheses?, Group.close?_map h]
      split
      · cases Group.close? "(" ")" 0 ts with
        | none => rfl
        | some group =>
            obtain ⟨hmutability, hbody⟩ := attributes_map h hbody
              (index + 2 + group.inside.length + 1) 0 .nonpayable group.rest
            simp only [Option.map_some, FunctionDeclaration.seen, Group.mapped, List.length_map,
              hparams, hmutability, hbody, h.start, h.text_of_isWord name hname, id_eq]
      · rfl

theorem functionDeclaration?_map (index : Nat) (ts : List Token) :
    (functionDeclaration? sourceLength' index (ts.map φ)).map
        (FunctionDeclaration.seen id params body')
      = (functionDeclaration? sourceLength index ts).map
        (FunctionDeclaration.seen f params body) := by
  have hwith := fun index kind {name} => @functionWith_map f φ h params body body' sourceLength
    sourceLength' hparams hbody index kind name
  cases ts with
  | nil => rfl
  | cons t ts =>
      rw [List.map_cons]
      cases hkind : FunctionKind.announced? t with
      | none => simp only [functionDeclaration?, FunctionKind.announced?_map h, hkind,
          Option.map_none]
      | some kind =>
          have hword := FunctionKind.isWord_of_announced? hkind
          -- a function has its name behind the keyword, the others are named by the keyword
          cases kind with
          | function =>
              cases ts with
              | nil => simp only [List.map_nil, functionDeclaration?, FunctionKind.announced?_map h,
                  hkind, Option.map_none]
              | cons name ts =>
                  simp only [List.map_cons, functionDeclaration?, FunctionKind.announced?_map h,
                    hkind, h.isName]
                  split
                  · next hname => exact hwith _ _ (isWord_of_isName hname) ts
                  · rfl
          | constructor =>
              simp only [functionDeclaration?, FunctionKind.announced?_map h, hkind]
              exact hwith _ _ hword ts
          | receive =>
              simp only [functionDeclaration?, FunctionKind.announced?_map h, hkind]
              exact hwith _ _ hword ts
          | fallback =>
              simp only [functionDeclaration?, FunctionKind.announced?_map h, hkind]
              exact hwith _ _ hword ts

theorem functionDeclarations_map (index : Nat) (ts : List Token) :
    (functionDeclarations sourceLength' index (ts.map φ)).map
        (FunctionDeclaration.seen id params body')
      = (functionDeclarations sourceLength index ts).map
        (FunctionDeclaration.seen f params body) := by
  induction ts generalizing index with
  | nil => rfl
  | cons t ts ih =>
      rw [List.map_cons, functionDeclarations, functionDeclarations, List.map_append,
        List.map_append, ih, ← List.map_cons, ← Option.toList_map, ← Option.toList_map,
        functionDeclaration?_map h hparams hbody]

/-! ## Writes -/

omit hparams hbody

theorem endsLocation_map (ts : List Token) : endsLocation (ts.map φ) = endsLocation ts := by
  cases ts with
  | nil => rfl
  | cons t ts => simp only [List.map_cons, endsLocation, h.isWord, h.kind, h.isOperator]

theorem accessRoot_map (root : Option Token) (depth : Nat) (before : List Token) :
    accessRoot (root.map φ) depth (before.map φ) = (accessRoot root depth before).map φ := by
  fun_induction accessRoot root depth before with
  | case1 => simp only [List.map_nil, accessRoot]
  | case2 root depth t before hclose ih =>
      rw [List.map_cons, accessRoot, h.isOperator, if_pos hclose, ih]
  | case3 root depth t before hclose hopen ih =>
      rw [List.map_cons, accessRoot, h.isOperator, h.isOperator, if_neg hclose, if_pos hopen, ih]
  | case4 root depth t before hclose hopen ih =>
      rw [List.map_cons, accessRoot, h.isOperator, h.isOperator, if_neg hclose, if_neg hopen, ih]
  | case5 root t hclose =>
      rw [List.map_cons, List.map_nil, accessRoot, h.isOperator, if_pos hclose]
  | case6 root t hclose hword =>
      rw [List.map_cons, List.map_nil, accessRoot, h.isOperator, h.isWord, if_neg hclose,
        if_pos hword, Option.map_some]
  | case7 root t hclose hword =>
      rw [List.map_cons, List.map_nil, accessRoot, h.isOperator, h.isWord, if_neg hclose,
        if_neg hword]
  | case8 root t dot before hclose ih =>
      rw [← ih, List.map_cons, List.map_cons]
      conv => lhs; rw [accessRoot, h.isOperator, if_pos hclose]
  | case9 root t dot before hclose hword hdot ih =>
      rw [List.map_cons, List.map_cons, accessRoot, h.isOperator, h.isWord, h.isOperator,
        if_neg hclose, if_pos hword, if_pos hdot, ← ih, Option.map_some]
  | case10 root t dot before hclose hword hdot =>
      rw [List.map_cons, List.map_cons, accessRoot, h.isOperator, h.isWord, h.isOperator,
        if_neg hclose, if_pos hword, if_neg hdot, Option.map_some]
  | case11 root t dot before hclose hword =>
      rw [List.map_cons, List.map_cons, accessRoot, h.isOperator, h.isWord, if_neg hclose,
        if_neg hword]

theorem isWrite_map (t : Token) : (φ t).isWrite = t.isWrite := by
  simp only [isWrite, isAssignment, isStepOperator, h.isOperatorIn, h.isKeyword]

theorem writeTarget?_map (before : List Token) (t : Token) (behind : List Token) :
    writeTarget? (before.map φ) (φ t) (behind.map φ) = (writeTarget? before t behind).map φ := by
  have hroot := accessRoot_map h none 0 before
  have hbehind : (behind.map φ).head?.filter (·.isWord)
      = (behind.head?.filter (·.isWord)).map φ := by
    cases behind with
    | nil => rfl
    | cons u behind =>
        by_cases hword : u.isWord = true
        · simp [Option.filter, hword, h.isWord]
        · simp [Option.filter, hword, h.isWord]
  have hassignment : (φ t).isAssignment = t.isAssignment := h.isOperatorIn t assignmentOperators
  have hstep : (φ t).isStepOperator = t.isStepOperator := h.isOperatorIn t ["++", "--"]
  rw [Option.map_none] at hroot
  rw [writeTarget?, hassignment, hstep, isWrite_map h, endsLocation_map h, hroot, hbehind,
    writeTarget?]
  simp only [apply_ite (Option.map _), Option.map_none]

theorem startsExternalCall_map (ts : List Token) :
    startsExternalCall (ts.map φ) = startsExternalCall ts := by
  match ts with
  | [] => rfl
  | [t] => rfl
  | dot :: member :: ts =>
      simp only [List.map_cons, startsExternalCall, h.isOperator, h.isWord]
      by_cases hword : member.isWord = true
      · rw [h.text_of_isWord member hword]
      · simp only [hword, Bool.and_false, Bool.false_and]

end SolidityTools

import SolidityTools.Outline.FunctionDeclaration
import SolidityTools.Proofs.InPlace.Access
import SolidityTools.Proofs.Token.Group

set_option autoImplicit false

/-! # Declared functions in place

A function is read off the whole list of tokens: its parameters and its body are the tokens between
two brackets, whose indices a search has found. The closing bracket stands behind the opening one,
so the tokens between them are there. The loops over the list are compared with the readers that
take it apart by splitting it into the tokens passed and the tokens to come.
-/

namespace SolidityTools

namespace InPlace

/-! ## Groups -/

/-- The index of the bracket that closes the outermost of `depth` open groups, or that of the group
that opens first. The tokens stand at an index. -/
def closingIndex? (opener closer : String) (depth idx : Nat) : List Token → Option Nat
  | [] => none
  | t :: ts =>
    if t.isOperator opener then closingIndex? opener closer (depth + 1) (idx + 1) ts
    else if t.isOperator closer && 0 < depth then
      if depth - 1 = 0 then some idx else closingIndex? opener closer (depth - 1) (idx + 1) ts
    else closingIndex? opener closer depth (idx + 1) ts

/-- The index of the bracket that closes the group opened at an index. -/
def matchingIndex? (tokens : List Token) (idx : Nat) (opener closer : String) : Option Nat :=
  closingIndex? opener closer 0 idx (tokens.drop idx)

theorem closingIndex?_succ (opener closer : String) (depth idx : Nat) (ts : List Token) :
    closingIndex? opener closer (depth + 1) idx ts
      = (Group.close? opener closer depth ts).map fun group => idx + group.inside.length := by
  induction ts generalizing depth idx with
  | nil => rfl
  | cons t ts ih =>
      have hpush : ∀ group : Option Group,
          (group.map (Group.push t)).map (fun group => idx + group.inside.length)
            = group.map fun group => idx + 1 + group.inside.length := by
        intro group
        cases group with
        | none => rfl
        | some group => exact congrArg some (by simp [Group.push]; omega)
      rw [closingIndex?]
      by_cases hopener : t.isOperator opener = true
      · rw [if_pos hopener, Group.close?_opener hopener, ih, hpush]
      · rw [if_neg hopener]
        by_cases hcloser : t.isOperator closer = true
        · rw [if_pos (by simp [hcloser])]
          cases depth with
          | zero =>
              rw [Group.close?_closer_zero hopener hcloser]
              rfl
          | succ depth =>
              rw [if_neg (by omega), Nat.add_sub_cancel, ih,
                Group.close?_closer_succ hopener hcloser, hpush]
        · rw [if_neg (by simp [hcloser]), ih, Group.close?_other hopener hcloser, hpush]

/-- The group that a bracket opens, and the index of the bracket that closes it. -/
theorem matchingIndex?_append {opener : String} {t : Token} (ht : t.isOperator opener = true)
    (closer : String) (before ts : List Token) :
    matchingIndex? (before ++ t :: ts) before.length opener closer
      = (Group.close? opener closer 0 ts).map fun group =>
          before.length + 1 + group.inside.length := by
  rw [matchingIndex?, List.drop_left, closingIndex?, if_pos ht]
  exact closingIndex?_succ opener closer 0 _ ts

/-- The tokens of a group are between the indices of its brackets. -/
theorem sublist?_inside {opener closer : String} {ts : List Token} {group : Group}
    (h : Group.close? opener closer 0 ts = some group) (before : List Token) (t : Token) :
    sublist? (before ++ t :: ts) (before.length + 1) (before.length + 1 + group.inside.length)
      = some group.inside := by
  have hlist : before ++ t :: ts
      = (before ++ [t]) ++ (group.inside ++ group.closer :: group.rest) := by
    rw [Group.inside_append_of_close? h, List.append_assoc]
    rfl
  have hlength : (before ++ [t]).length = before.length + 1 := by simp
  rw [hlist, ← hlength]
  exact sublist?_append _ _ _

/-! ## Parameters -/

/-- The tokens of each parameter from an index on. `start` is the index at which the present
parameter begins, and `depth` brackets are open. -/
def splitParameters? (tokens : List Token) (start depth idx : Nat) : Option (List (List Token)) :=
  if idx < tokens.length then do
    let t ← tokens[idx]?
    if depth == 0 && t.isOperator "," then do
      let parameter ← sublist? tokens start idx
      let parameters ← splitParameters? tokens (idx + 1) 0 (idx + 1)
      some (parameter :: parameters)
    else
      let depth := if t.isOperatorIn ["(", "["] then depth + 1
        else if t.isOperatorIn [")", "]"] then depth - 1 else depth
      splitParameters? tokens start depth (idx + 1)
  else do
    let parameter ← tail? tokens start
    some [parameter]
termination_by tokens.length - idx

def parameterTypes? (tokens : List Token) : Option (List String) := do
  let parameters ← splitParameters? tokens 0 0 0
  some ((parameters.filter (!·.isEmpty)).map parameterType)

def prependToFirst (ts : List Token) : List (List Token) → List (List Token)
  | [] => [ts]
  | us :: rest => (ts ++ us) :: rest

theorem splitParameters_cons_other {depth : Nat} {t : Token}
    (ht : ¬(depth == 0 && t.isOperator ",")) (ts : List Token) :
    splitParameters depth (t :: ts) = prependToFirst [t] (splitParameters
      (if t.isOperatorIn ["(", "["] then depth + 1
        else if t.isOperatorIn [")", "]"] then depth - 1 else depth) ts) := by
  rw [splitParameters, if_neg ht]
  generalize hnext : (if t.isOperatorIn ["(", "["] then depth + 1
    else if t.isOperatorIn [")", "]"] then depth - 1 else depth) = next
  simp only
  cases splitParameters next ts with
  | nil => rfl
  | cons first rest => rfl

theorem prependToFirst_nil {rest : List (List Token)} (h : rest ≠ []) :
    prependToFirst [] rest = rest := by
  obtain ⟨first, rest, rfl⟩ := List.exists_cons_of_ne_nil h
  rfl

theorem prependToFirst_ne_nil (ts : List Token) (rest : List (List Token)) :
    prependToFirst ts rest ≠ [] := by
  cases rest with
  | nil => exact List.cons_ne_nil _ _
  | cons first rest => exact List.cons_ne_nil _ _

theorem splitParameters_ne_nil (depth : Nat) (ts : List Token) : splitParameters depth ts ≠ [] := by
  cases ts with
  | nil => exact List.cons_ne_nil _ _
  | cons t ts =>
      by_cases ht : (depth == 0 && t.isOperator ",") = true
      · rw [splitParameters, if_pos ht]
        exact List.cons_ne_nil _ _
      · rw [splitParameters_cons_other ht]
        exact prependToFirst_ne_nil _ _

theorem prependToFirst_append (ts us : List Token) (rest : List (List Token)) :
    prependToFirst (ts ++ us) rest = prependToFirst ts (prependToFirst us rest) := by
  cases rest with
  | nil => rfl
  | cons first rest => simp [prependToFirst]

/-- The pieces are those found from the front, the first of them behind what has been passed of the
present parameter. -/
theorem splitParameters?_append (before piece ts : List Token) (depth : Nat) :
    splitParameters? (before ++ (piece ++ ts)) before.length depth (before.length + piece.length)
      = some (prependToFirst piece (splitParameters depth ts)) := by
  induction ts generalizing before piece depth with
  | nil =>
      have hlength : ¬before.length + piece.length < (before ++ (piece ++ [])).length := by simp
      rw [splitParameters?, if_neg hlength, tail?_append]
      simp [splitParameters, prependToFirst]
  | cons t ts ih =>
      have hlength : before.length + piece.length < (before ++ (piece ++ t :: ts)).length := by
        simp only [List.length_append, List.length_cons]
        omega
      have hget : (before ++ (piece ++ t :: ts))[before.length + piece.length]? = some t := by
        rw [getElem?_append_add, getElem?_append_cons]
      rw [splitParameters?, if_pos hlength, hget]
      simp only [Option.bind_eq_bind, Option.bind_some]
      by_cases ht : (depth == 0 && t.isOperator ",") = true
      · -- the comma ends the piece, and an empty one begins behind it
        have hnext := ih (before ++ (piece ++ [t])) [] 0
        have hstart : (before ++ (piece ++ [t])).length = before.length + piece.length + 1 := by
          simp only [List.length_append, List.length_singleton]
          omega
        have hlist : before ++ (piece ++ [t]) ++ ([] ++ ts) = before ++ (piece ++ t :: ts) := by
          simp
        rw [hlist, hstart, List.length_nil, Nat.add_zero,
          prependToFirst_nil (splitParameters_ne_nil 0 ts)] at hnext
        have hcomma : splitParameters depth (t :: ts) = [] :: splitParameters 0 ts := by
          rw [splitParameters, if_pos ht]
        rw [if_pos ht, sublist?_append, hcomma, prependToFirst, List.append_nil]
        simp only [Option.bind_some, hnext]
      · -- the token is added to the piece, whose beginning stays where it is
        have hlist : piece ++ [t] ++ ts = piece ++ t :: ts := by simp
        have hindex : before.length + (piece ++ [t]).length = before.length + piece.length + 1 := by
          simp only [List.length_append, List.length_singleton]
          omega
        rw [if_neg ht, splitParameters_cons_other ht, ← prependToFirst_append, ← hlist, ← hindex]
        exact ih before (piece ++ [t]) _

theorem parameterTypes?_eq (tokens : List Token) :
    parameterTypes? tokens = some (parameterTypes tokens) := by
  have hsplit : splitParameters? tokens 0 0 0 = some (splitParameters 0 tokens) := by
    have h := splitParameters?_append [] [] tokens 0
    rwa [prependToFirst_nil (splitParameters_ne_nil 0 tokens)] at h
  rw [parameterTypes?, hsplit]
  rfl

/-! ## Attributes and body -/

def body? (sourceLength : Nat) (tokens : List Token) (idx : Nat) (brace : Token) :
    Option FunctionBody :=
  match matchingIndex? tokens idx "\x7b" "\x7d" with
  | some close => do
    let inside ← sublist? tokens (idx + 1) close
    let closer ← tokens[close]?
    some ⟨idx + 1, inside, brace.start, closer.stop, true⟩
  | none => do
    let inside ← tail? tokens (idx + 1)
    some ⟨idx + 1, inside, brace.start, sourceLength, false⟩

/-- Reads the attributes from an index on, up to the body or the semicolon. -/
def attributes? (sourceLength : Nat) (tokens : List Token) (idx parens : Nat) (m : Mutability) :
    Option (Mutability × Option FunctionBody) :=
  if idx < tokens.length then do
    let t ← tokens[idx]?
    if parens == 0 && t.isOperator ";" then some (m, none)
    else if parens == 0 && t.isOperator "\x7b" then do
      let body ← body? sourceLength tokens idx t
      some (m, some body)
    else
      let parens' := if t.isOperator "(" then parens + 1
        else if t.isOperator ")" then parens - 1 else parens
      attributes? sourceLength tokens (idx + 1) parens' (m.attribute parens t)
  else some (m, none)
termination_by tokens.length - idx

theorem body?_append (sourceLength : Nat) (before : List Token) {brace : Token}
    (hbrace : brace.isOperator "\x7b" = true) (ts : List Token) :
    body? sourceLength (before ++ brace :: ts) before.length brace
      = some (bodyFrom sourceLength (before.length + 1) brace ts) := by
  rw [body?, matchingIndex?_append hbrace, bodyFrom, Group.braces?]
  cases hgroup : Group.close? "\x7b" "\x7d" 0 ts with
  | none =>
      simp only [Option.map_none, tail?_append_succ, Option.bind_eq_bind, Option.bind_some]
  | some group =>
      have hcloser : (before ++ brace :: ts)[before.length + 1 + group.inside.length]?
          = some group.closer := by
        rw [Nat.add_assoc, getElem?_append_add, Nat.add_comm 1, List.getElem?_cons_succ,
          ← Group.inside_append_of_close? hgroup, getElem?_append_cons]
      simp only [Option.map_some, sublist?_inside hgroup, hcloser, Option.bind_eq_bind,
        Option.bind_some]

theorem attributes?_append (sourceLength : Nat) (before ts : List Token) (parens : Nat)
    (m : Mutability) :
    attributes? sourceLength (before ++ ts) before.length parens m
      = some (attributes sourceLength before.length parens m ts) := by
  induction ts generalizing before parens m with
  | nil =>
      rw [attributes?, if_neg (by simp)]
      rfl
  | cons t ts ih =>
      have hnext := ih (before ++ [t])
      rw [List.append_assoc, List.length_append] at hnext
      rw [attributes?, if_pos (by simp), getElem?_append_cons, attributes]
      simp only [Option.bind_eq_bind, Option.bind_some]
      split
      · rfl
      · split
        · next hbrace =>
            rw [Bool.and_eq_true] at hbrace
            rw [body?_append sourceLength before hbrace.2]
            rfl
        · exact hnext _ _

/-! ## Declarations -/

/-- The declaration whose parameter list opens at an index. -/
def functionWith? (sourceLength : Nat) (tokens : List Token) (kind : FunctionKind) (name : Token)
    (paren : Nat) : Option (Option FunctionDeclaration) :=
  if tokens[paren]?.any (·.isOperator "(") then
    match matchingIndex? tokens paren "(" ")" with
    | none => some none
    | some close => do
      let params ← sublist? tokens (paren + 1) close
      let paramTypes ← parameterTypes? params
      let (mutability, body) ← attributes? sourceLength tokens (close + 1) 0 .nonpayable
      some (some {
        kind, name := name.text, offset := name.start, paramTypes, mutability, body })
  else some none

/-- The declaration whose keyword stands at an index, if there is one. -/
def functionAt? (sourceLength : Nat) (tokens : List Token) (keyword : Nat) :
    Option (Option FunctionDeclaration) := do
  let t ← tokens[keyword]?
  match FunctionKind.announced? t with
  | none => some none
  | some .function =>
    match tokens[keyword + 1]?.filter (·.isName) with
    | none => some none
    | some name => functionWith? sourceLength tokens .function name (keyword + 2)
  | some kind => functionWith? sourceLength tokens kind t (keyword + 1)

theorem functionWith?_append (sourceLength : Nat) (kind : FunctionKind) (name : Token)
    {before : List Token} {index : Nat} (hindex : before.length = index + 1) (ts : List Token) :
    functionWith? sourceLength (before ++ ts) kind name before.length
      = some (functionWith sourceLength kind index name ts) := by
  cases ts with
  | nil =>
      rw [functionWith?, if_neg (by simp)]
      rfl
  | cons paren ts =>
      rw [functionWith?, getElem?_append_cons, functionWith]
      by_cases hparen : paren.isOperator "(" = true
      · rw [if_pos (show (some paren).any (·.isOperator "(") = true from hparen), if_pos hparen,
          matchingIndex?_append hparen, Group.parentheses?]
        cases hgroup : Group.close? "(" ")" 0 ts with
        | none => rfl
        | some group =>
            -- the attributes begin behind the closing parenthesis
            have hsplit : before ++ paren :: ts
                = (before ++ paren :: (group.inside ++ [group.closer])) ++ group.rest := by
              rw [← Group.inside_append_of_close? hgroup]
              simp
            have hstop : (before ++ paren :: (group.inside ++ [group.closer])).length
                = before.length + 1 + group.inside.length + 1 := by
              simp only [List.length_append, List.length_cons, List.length_nil]
              omega
            have hattributes := attributes?_append sourceLength
              (before ++ paren :: (group.inside ++ [group.closer])) group.rest 0 .nonpayable
            rw [← hsplit, hstop] at hattributes
            have hrest : index + 2 + group.inside.length + 1
                = before.length + 1 + group.inside.length + 1 := by omega
            simp only [Option.map_some, sublist?_inside hgroup, Option.bind_eq_bind,
              Option.bind_some, parameterTypes?_eq, hattributes, hrest]
      · rw [if_neg (show ¬(some paren).any (·.isOperator "(") = true from hparen), if_neg hparen]

theorem functionAt?_append (sourceLength : Nat) (before : List Token) (t : Token)
    (ts : List Token) :
    functionAt? sourceLength (before ++ t :: ts) before.length
      = some (functionDeclaration? sourceLength before.length (t :: ts)) := by
  have hwith : ∀ kind, functionWith? sourceLength (before ++ t :: ts) kind t (before.length + 1)
      = some (functionWith sourceLength kind before.length t ts) := by
    intro kind
    have hlength : (before ++ [t]).length = before.length + 1 := by simp
    have h := functionWith?_append sourceLength kind t hlength ts
    rwa [List.append_assoc, hlength] at h
  rw [functionAt?, getElem?_append_cons]
  cases hkind : FunctionKind.announced? t with
  | none => simp only [Option.bind_eq_bind, Option.bind_some, functionDeclaration?, hkind]
  | some kind =>
      simp only [Option.bind_eq_bind, Option.bind_some, getElem?_append_succ, functionDeclaration?,
        hkind]
      cases kind with
      | function =>
          cases ts with
          | nil => rfl
          | cons name ts =>
              have hlength : (before ++ [t, name]).length = before.length + 1 + 1 := by simp
              have h := functionWith?_append sourceLength .function name hlength ts
              rw [List.append_assoc, hlength] at h
              by_cases hisName : name.isName = true
              · simp only [List.head?_cons, Option.filter_some, if_pos hisName]
                exact h
              · simp only [List.head?_cons, Option.filter_some, if_neg hisName]
      | constructor => exact hwith .constructor
      | receive => exact hwith .receive
      | fallback => exact hwith .fallback

end InPlace

end SolidityTools

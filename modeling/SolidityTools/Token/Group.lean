import SolidityTools.Token

set_option autoImplicit false

/-! # Bracket groups

Brackets are matched over tokens, so that brackets inside strings and comments never count. Only
one sort of bracket is looked at in a search: `( { )` is a closed group of parentheses. Given the
tokens behind an opening bracket, `Group.close?` walks to the bracket that closes it, counting
the groups that open and close on the way.
-/

namespace SolidityTools

/-- A group cut off the front of a token list whose opening bracket has been passed. -/
structure Group where
  /-- The tokens between the brackets. -/
  inside : List Token
  /-- The closing bracket. -/
  closer : Token
  /-- The tokens behind the group. -/
  rest : List Token
deriving DecidableEq, Repr

namespace Group

/-- The group with one more token at its front. -/
def push (t : Token) (g : Group) : Group := { g with inside := t :: g.inside }

/-- Finds the bracket that closes a group while `depth` further groups are open inside it;
`none` if it never comes. -/
def close? (opener closer : String) (depth : Nat) : List Token → Option Group
  | [] => none
  | t :: ts =>
    if t.isOperator opener then (close? opener closer (depth + 1) ts).map (push t)
    else if t.isOperator closer then
      match depth with
      | 0 => some ⟨[], t, ts⟩
      | depth + 1 => (close? opener closer depth ts).map (push t)
    else (close? opener closer depth ts).map (push t)

/-- Cutting a group off loses nothing. -/
theorem inside_append_of_close? {opener closer : String} {depth : Nat} {ts : List Token}
    {g : Group} (h : close? opener closer depth ts = some g) :
    g.inside ++ g.closer :: g.rest = ts := by
  induction ts generalizing depth g with
  | nil => simp [close?] at h
  | cons t ts ih =>
    simp only [close?] at h
    split at h
    · obtain ⟨g', hg', rfl⟩ := Option.map_eq_some_iff.1 h
      simp [push, ih hg']
    · split at h
      · cases depth with
        | zero => simp only [Option.some.injEq] at h; subst h; rfl
        | succ depth =>
          obtain ⟨g', hg', rfl⟩ := Option.map_eq_some_iff.1 h
          simp [push, ih hg']
      · obtain ⟨g', hg', rfl⟩ := Option.map_eq_some_iff.1 h
        simp [push, ih hg']

/-- The bracket that ends a group is the closing one. -/
theorem isOperator_closer_of_close? {opener closer : String} {depth : Nat} {ts : List Token}
    {g : Group} (h : close? opener closer depth ts = some g) : g.closer.isOperator closer := by
  induction ts generalizing depth g with
  | nil => simp [close?] at h
  | cons t ts ih =>
    simp only [close?] at h
    split at h
    · obtain ⟨g', hg', rfl⟩ := Option.map_eq_some_iff.1 h
      simpa [push] using ih hg'
    · split at h
      · cases depth with
        | zero => simp only [Option.some.injEq] at h; subst h; assumption
        | succ depth =>
          obtain ⟨g', hg', rfl⟩ := Option.map_eq_some_iff.1 h
          simpa [push] using ih hg'
      · obtain ⟨g', hg', rfl⟩ := Option.map_eq_some_iff.1 h
        simpa [push] using ih hg'

def parentheses? (ts : List Token) : Option Group := close? "(" ")" 0 ts

def braces? (ts : List Token) : Option Group := close? "\x7b" "\x7d" 0 ts

end Group

end SolidityTools

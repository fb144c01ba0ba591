import SolidityTools.Proofs.Gas.Statement
import SolidityTools.Proofs.Outline.Grammar
import Mathlib.Data.List.Induction

set_option autoImplicit false

/-! # Locations and their roots

A location is written as a path: a word, and behind it members and indices in any order, such as
`balances[to].total`. What stands between the brackets of an index does not matter for the root, as
long as the brackets are paired. The search for the root reads the path backwards. It passes an
index as a whole and takes the name of a member as the root until a name further to the left takes
its place, so it comes out at the first word whatever it starts with (`accessRoot_location`).
-/

namespace SolidityTools

open Grammar

/-! ## Paths -/

namespace Group

/-- Every bracket of one sort has its partner among the tokens. -/
structure Paired (opener closer : String) (ts : List Token) : Prop where
  opened : AllClosed opener closer ts
  closed : unopened opener closer ts = 0

instance (opener closer : String) (ts : List Token) : Decidable (Paired opener closer ts) :=
  decidable_of_iff (AllClosed opener closer ts ∧ unopened opener closer ts = 0)
    ⟨fun h => ⟨h.1, h.2⟩, fun h => ⟨h.opened, h.closed⟩⟩

end Group

abbrev Word : Type := {t : Token // t.isWord = true}

/-- One step of a path. -/
inductive Access where
  | member (dot : Mark ".") (name : Word)
  | index (opener : Mark "[") (inside : {ts : List Token // Group.Paired "[" "]" ts})
      (closer : Mark "]")

namespace Access

def tokens : Access → List Token
  | member dot name => [dot.1, name.1]
  | index opener inside closer => opener.1 :: (inside.1 ++ [closer.1])

/-- The tokens between the brackets of an index. -/
def inside : Access → List Token
  | member _ _ => []
  | index _ inside _ => inside.1

end Access

/-- A word with members and indices behind it. -/
structure Location where
  root : Word
  accesses : List Access

namespace Location

def tokens (l : Location) : List Token := l.root.1 :: l.accesses.flatMap Access.tokens

def inside (l : Location) : List Token := l.accesses.flatMap Access.inside

/-- Whether the last part of a location is a member that is named like a keyword. -/
def endsInKeyword (l : Location) : Bool :=
  match l.accesses.getLast? with
  | some (.member _ name) => name.1.kind == .keyword
  | _ => false

end Location

/-! ## The search, step by step -/

section Search

variable {t : Token} {root : Option Token} {before : List Token}

/-- A closing bracket opens an index, seen from behind. -/
theorem accessRoot_closer (hclose : t.isOperator "]" = true) :
    accessRoot root 0 (t :: before) = accessRoot root 1 before := by
  cases before with
  | nil => simp [accessRoot, hclose]
  | cons u before => conv => lhs; rw [accessRoot, if_pos hclose]

theorem accessRoot_word (hword : t.isWord = true)
    (hdot : ∀ u ∈ before.head?, u.isOperator "." = false) :
    accessRoot root 0 (t :: before) = some t := by
  have hclose : ¬t.isOperator "]" = true := by simp [Token.isOperator_of_isWord hword]
  cases before with
  | nil => rw [accessRoot, if_neg hclose, if_pos hword]
  | cons u before => rw [accessRoot, if_neg hclose, if_pos hword, if_neg (by simp [hdot u rfl])]

theorem accessRoot_member {dot : Token} (hword : t.isWord = true)
    (hdot : dot.isOperator "." = true) :
    accessRoot root 0 (t :: dot :: before) = accessRoot (some t) 0 before := by
  have hclose : ¬t.isOperator "]" = true := by simp [Token.isOperator_of_isWord hword]
  rw [accessRoot, if_neg hclose, if_pos hword, if_pos hdot]

/-- An index is passed as a whole. -/
theorem accessRoot_index {inside : List Token} {opener closer : Token}
    (hinside : Group.Paired "[" "]" inside) (hopen : opener.isOperator "[" = true)
    (hclose : closer.isOperator "]" = true) :
    accessRoot root 0 (closer :: (inside.reverse ++ opener :: before))
      = accessRoot root 0 before := by
  have hnot : ¬opener.isOperator "]" = true := by
    rw [Token.isOperator_eq_decide, Token.shape_of_isOperator hopen]
    decide
  rw [accessRoot_closer hclose, accessRoot_reverse_append hinside.opened, hinside.closed,
    accessRoot, if_neg hnot, if_pos hopen]

/-- Behind each step the search goes on in front of it. -/
theorem Access.exists_accessRoot (a : Access) (root : Option Token) (before : List Token) :
    ∃ root', accessRoot root 0 (a.tokens.reverse ++ before) = accessRoot root' 0 before := by
  cases a with
  | member dot name => exact ⟨some name.1, accessRoot_member name.2 dot.2⟩
  | index opener inside closer =>
      refine ⟨root, ?_⟩
      have hsplit : (Access.index opener inside closer).tokens.reverse ++ before
          = closer.1 :: (inside.1.reverse ++ opener.1 :: before) := by
        simp [tokens]
      rw [hsplit, accessRoot_index inside.2 opener.2 closer.2]

/-- **The search for the root of a location comes out at its first word.** -/
theorem accessRoot_location (l : Location) (root : Option Token)
    (hdot : ∀ u ∈ before.head?, u.isOperator "." = false) :
    accessRoot root 0 (l.tokens.reverse ++ before) = some l.root.1 := by
  obtain ⟨word, accesses⟩ := l
  -- the search reads from the end and carries the last name it passed, so the root is general
  induction accesses using List.reverseRecOn generalizing root with
  | nil => exact accessRoot_word word.2 hdot
  | append_singleton accesses a ih =>
      obtain ⟨root', hroot⟩ :=
        a.exists_accessRoot root ((Location.tokens ⟨word, accesses⟩).reverse ++ before)
      have hsplit : (Location.tokens ⟨word, accesses ++ [a]⟩).reverse ++ before
          = a.tokens.reverse ++ ((Location.tokens ⟨word, accesses⟩).reverse ++ before) := by
        simp [Location.tokens]
      rw [hsplit, hroot, ih]

theorem accessRoot_location_end (l : Location) :
    accessRoot none 0 l.tokens.reverse = some l.root.1 := by
  have hdot : ∀ u ∈ ([] : List Token).head?, u.isOperator "." = false := by simp
  have hroot := accessRoot_location l none hdot
  rwa [List.append_nil] at hroot

end Search

/-! ## What stands in front of an operator -/

/-- Behind a location an increment or a decrement belongs to it, unless its last part is a member
that is named like a keyword. -/
theorem Location.endsLocation_reverse {l : Location} (hroot : l.root.1.kind ≠ .keyword) :
    endsLocation l.tokens.reverse = !l.endsInKeyword := by
  obtain ⟨word, accesses⟩ := l
  rcases List.eq_nil_or_concat accesses with rfl | ⟨front, a, rfl⟩
  · have hkind : (word.1.kind != .keyword) = true := by simpa using hroot
    simp [tokens, endsInKeyword, endsLocation, word.2, hkind]
  · cases a with
    | member dot name =>
        simp [tokens, endsInKeyword, endsLocation, Access.tokens, name.2, bne,
          Token.isOperator_of_isWord name.2]
    | index opener inside closer =>
        simp [tokens, endsInKeyword, endsLocation, Access.tokens, closer.2]

theorem writeTarget?_of_isAssignment {operator : Token} (h : operator.isAssignment = true)
    (before behind : List Token) :
    writeTarget? before operator behind = accessRoot none 0 before := by
  rw [writeTarget?, h, Bool.true_or, if_pos rfl]

/-- **An assignment writes the root of the location in front of it.** This holds whatever members
and indices the location has, whatever stands in its indices, and whatever comes behind the operator
and in front of the location, as long as no dot directly in front makes the location longer. -/
theorem assignment_writes_root (l : Location) {operator : Token}
    (hassignment : operator.isAssignment = true) {front : List Token}
    (hdot : ∀ u ∈ front.getLast?, u.isOperator "." = false) (behind : List Token) :
    writeTarget? (front ++ l.tokens).reverse operator behind = some l.root.1 := by
  have hhead : ∀ u ∈ front.reverse.head?, u.isOperator "." = false := by
    rwa [List.head?_reverse]
  rw [writeTarget?_of_isAssignment hassignment, List.reverse_append,
    accessRoot_location l none hhead]

/-- A location with an index in an index, and a member that is named like a keyword, behind a
closing bracket. -/
theorem assignment_writes_root_nested :
    let ts := tokenizeSignificant "x[0] balances[to[i = 1]][j].from.total += f()[0];"
    let l : Location := {
      root := ⟨⟨.identifier, "balances", 5⟩, rfl⟩
      accesses := [
        .index ⟨⟨.operator, "[", 13⟩, rfl⟩ ⟨(ts.drop 6).take 6, by decide +kernel⟩
          ⟨⟨.operator, "]", 23⟩, rfl⟩,
        .index ⟨⟨.operator, "[", 24⟩, rfl⟩ ⟨[⟨.identifier, "j", 25⟩], by decide⟩
          ⟨⟨.operator, "]", 26⟩, rfl⟩,
        .member ⟨⟨.operator, ".", 27⟩, rfl⟩ ⟨⟨.keyword, "from", 28⟩, rfl⟩,
        .member ⟨⟨.operator, ".", 32⟩, rfl⟩ ⟨⟨.identifier, "total", 33⟩, rfl⟩] }
    let operator : Token := ⟨.operator, "+=", 39⟩
    ts = (ts.take 4 ++ l.tokens) ++ operator :: ts.drop 21 ∧ operator.isAssignment = true ∧
      (∀ u ∈ (ts.take 4).getLast?, u.isOperator "." = false) ∧
      writeTarget? (ts.take 4 ++ l.tokens).reverse operator (ts.drop 21) = some l.root.1 := by
  intro ts l operator
  have hassignment : operator.isAssignment = true := by decide
  have hdot : ∀ u ∈ (ts.take 4).getLast?, u.isOperator "." = false := by decide +kernel
  exact ⟨by decide +kernel, hassignment, hdot,
    assignment_writes_root l hassignment hdot (ts.drop 21)⟩

end SolidityTools

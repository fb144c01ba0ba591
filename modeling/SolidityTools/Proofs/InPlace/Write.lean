import SolidityTools.Outline.Write
import SolidityTools.Proofs.InPlace.Access

set_option autoImplicit false

/-! # Written locations in place

The root of a written location is searched backwards from the index of the write. The index is
lowered only where it is above zero, so that the search stays in the list. The tokens in front of
the index, nearest first, are what the reader of the location takes apart.
-/

namespace SolidityTools

namespace InPlace

/-- The root of the location that ends in front of an index. `root` is the leftmost name found so
far, and `depth` counts the index groups that are being passed over. -/
def root? (tokens : List Token) (root : Option Token) : Nat → Nat → Option (Option Token)
  | _, 0 => some root
  | depth + 1, j + 1 => do
    let t ← tokens[j]?
    if t.isOperator "]" then root? tokens root (depth + 2) j
    else if t.isOperator "[" then root? tokens root depth j
    else root? tokens root (depth + 1) j
  | 0, 1 => do
    let t ← tokens[0]?
    if t.isOperator "]" then some root else if t.isWord then some (some t) else some root
  | 0, j + 2 => do
    let t ← tokens[j + 1]?
    if t.isOperator "]" then root? tokens root 1 (j + 1)
    else if t.isWord then do
      let dot ← tokens[j]?
      if dot.isOperator "." then root? tokens (some t) 0 j else some (some t)
    else some root

def endsLocation? (tokens : List Token) (idx : Nat) : Option Bool :=
  if 0 < idx then do
    let j ← predecessor? idx
    let t ← tokens[j]?
    some ((t.isWord && t.kind != .keyword) || t.isOperator "]")
  else some false

/-- The root of the location that the token at an index writes. Behind the last token nothing is
written. -/
def writeTarget? (tokens : List Token) (idx : Nat) : Option (Option Token) :=
  match tokens[idx]? with
  | none => some none
  | some t =>
    if !t.isWrite then some none
    else if t.isAssignment then root? tokens none 0 idx
    else do
      let postfixed ← if t.isStepOperator then endsLocation? tokens idx else some false
      if postfixed then root? tokens none 0 idx
      else some (tokens[idx + 1]?.filter (·.isWord))

theorem reverse_cons_append (t : Token) (before ts : List Token) :
    (t :: before).reverse ++ ts = before.reverse ++ t :: ts := by
  rw [List.reverse_cons, List.append_assoc, List.singleton_append]

/-- The nearest token in front of an index stands at the index before. -/
theorem getElem?_reverse_append (t : Token) (before ts : List Token) :
    (before.reverse ++ t :: ts)[before.length]? = some t := by
  have h := getElem?_append_cons before.reverse t ts
  rwa [List.length_reverse] at h

theorem root?_append : ∀ (root : Option Token) (depth : Nat) (before ts : List Token),
    root? (before.reverse ++ ts) root depth before.length = some (accessRoot root depth before)
  | root, depth, [], ts => by
    rw [List.length_nil, root?, accessRoot]
  | root, depth + 1, t :: before, ts => by
    rw [List.length_cons, reverse_cons_append, root?, getElem?_reverse_append, accessRoot]
    simp only [Option.bind_eq_bind, Option.bind_some]
    by_cases hcloser : t.isOperator "]" = true
    · rw [if_pos hcloser, if_pos hcloser]
      exact root?_append root (depth + 2) before (t :: ts)
    · rw [if_neg hcloser, if_neg hcloser]
      by_cases hopener : t.isOperator "[" = true
      · rw [if_pos hopener, if_pos hopener]
        exact root?_append root depth before (t :: ts)
      · rw [if_neg hopener, if_neg hopener]
        exact root?_append root (depth + 1) before (t :: ts)
  | root, 0, [t], ts => by
    have hget := getElem?_reverse_append t [] ts
    rw [List.length_nil] at hget
    rw [reverse_cons_append, List.length_singleton, root?, hget, accessRoot]
    simp only [Option.bind_eq_bind, Option.bind_some]
    split
    · rfl
    · split <;> rfl
  | root, 0, t :: dot :: before, ts => by
    have hget := getElem?_reverse_append t (dot :: before) ts
    rw [List.length_cons] at hget
    rw [List.length_cons, List.length_cons, reverse_cons_append, root?, hget, accessRoot]
    simp only [Option.bind_eq_bind, Option.bind_some]
    by_cases hcloser : t.isOperator "]" = true
    · rw [if_pos hcloser, if_pos hcloser]
      exact root?_append root 1 (dot :: before) (t :: ts)
    · rw [if_neg hcloser, if_neg hcloser]
      by_cases hword : t.isWord = true
      · -- a dot is passed together with the name behind it
        rw [if_pos hword, if_pos hword, reverse_cons_append, getElem?_reverse_append]
        simp only [Option.bind_some]
        by_cases hdot : dot.isOperator "." = true
        · rw [if_pos hdot, if_pos hdot]
          exact root?_append (some t) 0 before (dot :: t :: ts)
        · rw [if_neg hdot, if_neg hdot]
      · rw [if_neg hword, if_neg hword]

theorem endsLocation?_append (before ts : List Token) :
    endsLocation? (before.reverse ++ ts) before.length = some (endsLocation before) := by
  cases before with
  | nil => rfl
  | cons t before =>
      rw [endsLocation?, List.length_cons, if_pos (Nat.succ_pos _), predecessor?,
        reverse_cons_append]
      simp only [Option.bind_eq_bind, Option.bind_some, getElem?_reverse_append]
      rfl

/-- **The written location is read off the tokens on both sides of the write.** -/
theorem writeTarget?_append (before : List Token) (t : Token) (ts : List Token) :
    writeTarget? (before.reverse ++ t :: ts) before.length
      = some (SolidityTools.writeTarget? before t ts) := by
  have hnext : (before.reverse ++ t :: ts)[before.length + 1]? = ts.head? := by
    have h := getElem?_append_succ before.reverse t ts
    rwa [List.length_reverse] at h
  have hroot := root?_append none 0 before (t :: ts)
  have hends := endsLocation?_append before (t :: ts)
  rw [writeTarget?, SolidityTools.writeTarget?, getElem?_reverse_append]
  simp only [hnext, hroot, hends, Token.isWrite, Option.bind_eq_bind]
  by_cases hassignment : t.isAssignment = true
  · simp only [hassignment, Bool.true_or, Bool.not_true, Bool.false_eq_true, if_false, if_true]
  · by_cases hstep : t.isStepOperator = true
    · by_cases hlocation : endsLocation before = true
      · simp [hassignment, hstep, hlocation]
      · simp [hassignment, hstep, hlocation]
    · by_cases hdelete : t.isKeyword "delete" = true
      · simp [hassignment, hstep, hdelete]
      · simp [hassignment, hstep, hdelete]

theorem writeTarget?_of_length_le {tokens : List Token} {idx : Nat} (h : tokens.length ≤ idx) :
    writeTarget? tokens idx = some none := by
  rw [writeTarget?, List.getElem?_eq_none h]

end InPlace

end SolidityTools

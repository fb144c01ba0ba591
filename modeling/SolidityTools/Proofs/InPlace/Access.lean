import SolidityTools.Proofs.Position
import SolidityTools.Proofs.Text.Bytes

set_option autoImplicit false

/-! # Accesses that may fail

The passes over a file are written with lists of characters and tokens that are taken apart from
the front. They can also work in place: on the whole text with byte offsets, and on the whole list
of tokens with indices. Then an access goes wrong if it leaves the text or the list, if its ends are
in the wrong order, or if it cuts a character into pieces. Here are the accesses, which yield
nothing in these cases. The modules of this folder rewrite every pass with them and show that the
rewritten pass yields something, namely what the pass yields.

An access is shown to succeed by writing the text or list as what stands before the piece, the piece
itself and what stands behind it.
-/

namespace SolidityTools

open Text

/-- An offset lies between two characters if the characters that start before it end there. -/
theorem isBoundary_iff {cs : List Char} {offset : Nat} :
    IsBoundary cs offset ↔ byteLength (takeBytes offset cs) = offset := by
  constructor
  · rintro ⟨before, behind, rfl, rfl⟩
    rw [takeBytes_byteLength_append]
  · intro h
    exact ⟨takeBytes offset cs, dropBytes offset cs, (takeBytes_append_dropBytes offset cs).symm, h⟩

instance (cs : List Char) (offset : Nat) : Decidable (IsBoundary cs offset) :=
  decidable_of_iff _ isBoundary_iff.symm

namespace InPlace

/-! ## Numbers -/

/-- The number before a number. Offsets and indices do not go below zero. -/
def predecessor? : Nat → Option Nat
  | 0 => none
  | n + 1 => some n

/-! ## Lists -/

section Lists

variable {α : Type}

/-- The elements of a list from one index up to another. -/
def sublist? (xs : List α) (start stop : Nat) : Option (List α) :=
  if start ≤ stop ∧ stop ≤ xs.length then some ((xs.take stop).drop start) else none

/-- The elements of a list from an index on. -/
def tail? (xs : List α) (start : Nat) : Option (List α) := sublist? xs start xs.length

theorem sublist?_append (as bs cs : List α) :
    sublist? (as ++ (bs ++ cs)) as.length (as.length + bs.length) = some bs := by
  have hrange : as.length ≤ as.length + bs.length
      ∧ as.length + bs.length ≤ (as ++ (bs ++ cs)).length := by
    simp only [List.length_append]
    omega
  rw [sublist?, if_pos hrange, ← List.append_assoc, ← List.length_append, List.take_left,
    List.drop_left]

theorem tail?_append (as bs : List α) : tail? (as ++ bs) as.length = some bs := by
  have h := sublist?_append as bs []
  rwa [List.append_nil, ← List.length_append] at h

/-- The elements behind some others, counted from the first of them. -/
theorem getElem?_append_add (as bs : List α) (n : Nat) : (as ++ bs)[as.length + n]? = bs[n]? := by
  rw [List.getElem?_append_right (Nat.le_add_right _ _), Nat.add_sub_cancel_left]

theorem getElem?_append_cons (as : List α) (b : α) (bs : List α) :
    (as ++ b :: bs)[as.length]? = some b := getElem?_append_add as (b :: bs) 0

theorem getElem?_append_succ (as : List α) (b : α) (bs : List α) :
    (as ++ b :: bs)[as.length + 1]? = bs.head? := by
  rw [getElem?_append_add, List.getElem?_cons_succ, List.head?_eq_getElem?]

theorem tail?_append_succ (as : List α) (b : α) (bs : List α) :
    tail? (as ++ b :: bs) (as.length + 1) = some bs := by
  have h := tail?_append (as ++ [b]) bs
  rwa [List.append_assoc, List.length_append] at h

/-- What is found for each element of a list, all in one list. -/
def collect? {β : Type} (find? : α → Option (List β)) : List α → Option (List β)
  | [] => some []
  | x :: xs => do
    let found ← find? x
    let rest ← collect? find? xs
    some (found ++ rest)

theorem collect?_eq {β : Type} {find? : α → Option (List β)} {found : α → List β} {xs : List α}
    (h : ∀ x ∈ xs, find? x = some (found x)) : collect? find? xs = some (xs.flatMap found) := by
  induction xs with
  | nil => rfl
  | cons x xs ih =>
      have hx := h x List.mem_cons_self
      have hxs := ih fun y hy => h y (List.mem_cons_of_mem x hy)
      rw [collect?, hx, hxs]
      rfl

/-- At most one thing is found for each element. -/
theorem collect?_toList {β : Type} {find? : α → Option (List β)} {found? : α → Option β}
    {xs : List α} (h : ∀ x ∈ xs, find? x = some (found? x).toList) :
    collect? find? xs = some (xs.filterMap found?) := by
  rw [collect?_eq h, List.filterMap_eq_flatMap_toList]

end Lists

/-! ## Texts -/

/-- The text between two byte offsets. -/
def slice? (cs : List Char) (start stop : Nat) : Option (List Char) :=
  if start ≤ stop ∧ IsBoundary cs start ∧ IsBoundary cs stop then
    some (dropBytes start (takeBytes stop cs))
  else none

/-- The text from a byte offset on. -/
def rest? (cs : List Char) (start : Nat) : Option (List Char) := slice? cs start (byteLength cs)

theorem slice?_append (as bs cs : List Char) :
    slice? (as ++ (bs ++ cs)) (byteLength as) (byteLength as + byteLength bs) = some bs := by
  have hstart : IsBoundary (as ++ (bs ++ cs)) (byteLength as) := ⟨as, bs ++ cs, rfl, rfl⟩
  have hstop : IsBoundary (as ++ (bs ++ cs)) (byteLength as + byteLength bs) :=
    ⟨as ++ bs, cs, (List.append_assoc as bs cs).symm, byteLength_append as bs⟩
  rw [slice?, if_pos ⟨Nat.le_add_right _ _, hstart, hstop⟩, ← List.append_assoc,
    ← byteLength_append, takeBytes_byteLength_append, dropBytes_byteLength_append]

theorem rest?_append (as bs : List Char) : rest? (as ++ bs) (byteLength as) = some bs := by
  have h := slice?_append as bs []
  rwa [List.append_nil, ← byteLength_append] at h

end InPlace

end SolidityTools

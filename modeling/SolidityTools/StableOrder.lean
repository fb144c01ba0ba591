set_option autoImplicit false

/-! # Stable ordering

Reports are put into the order of what they are about, and elements that are alike in that order
stay as they were. Each element is inserted in front of the first one that it may precede; since
the elements are taken from the end, one that came earlier goes in front of its likes.
-/

namespace SolidityTools.StableOrder

/-- Inserts an element in front of the first one that it may precede. -/
def insert {α : Type} (le : α → α → Bool) (x : α) : List α → List α
  | [] => [x]
  | y :: ys => if le x y then x :: y :: ys else y :: insert le x ys

/-- The elements of a list in order, `le` telling whether one may precede another. -/
def sort {α : Type} (le : α → α → Bool) : List α → List α
  | [] => []
  | x :: xs => insert le x (sort le xs)

/-- Inserting adds the new element and nothing else. -/
theorem insert_perm {α : Type} (le : α → α → Bool) (x : α) (ys : List α) :
    (insert le x ys).Perm (x :: ys) := by
  induction ys with
  | nil => exact .refl _
  | cons y ys ih =>
    unfold insert
    split
    · exact .refl _
    · exact (ih.cons y).trans (.swap x y ys)

/-- Ordering neither loses nor adds anything. -/
theorem sort_perm {α : Type} (le : α → α → Bool) (xs : List α) : (sort le xs).Perm xs := by
  induction xs with
  | nil => exact .refl _
  | cons x xs ih => exact (insert_perm le x (sort le xs)).trans (ih.cons x)

end SolidityTools.StableOrder

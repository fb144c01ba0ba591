set_option autoImplicit false

/-! # Ascending lists

Sets and tables that are listed in order are kept as strictly ascending lists. Inserting an
element puts it in its place; an element that is neither smaller nor greater is replaced.
-/

namespace SolidityTools.Ascending

def insert {α : Type} (less : α → α → Bool) (x : α) : List α → List α
  | [] => [x]
  | y :: ys =>
    if less x y then x :: y :: ys
    else if less y x then y :: insert less x ys
    else x :: ys

/-- The ascending list of some elements; of equal elements the last one is kept. -/
def ofList {α : Type} (less : α → α → Bool) (xs : List α) : List α :=
  xs.foldl (fun ys x => insert less x ys) []

/-- Nothing but the new element and the old ones is in the list. -/
theorem mem_insert {α : Type} {less : α → α → Bool} {x z : α} {ys : List α}
    (h : z ∈ insert less x ys) : z = x ∨ z ∈ ys := by
  induction ys with
  | nil => simpa [insert] using h
  | cons y ys ih =>
    simp only [insert] at h
    split at h
    · simpa using h
    · split at h
      · simp only [List.mem_cons] at h ⊢
        rcases h with h | h
        · exact Or.inr (Or.inl h)
        · exact (ih h).imp_right Or.inr
      · simp only [List.mem_cons] at h ⊢
        exact h.imp_right Or.inr

/-- The new element is in the list. -/
theorem mem_insert_self {α : Type} (less : α → α → Bool) (x : α) (ys : List α) :
    x ∈ insert less x ys := by
  induction ys with
  | nil => simp [insert]
  | cons y ys ih =>
    simp only [insert]
    split
    · simp
    · split
      · exact List.mem_cons_of_mem _ ih
      · simp

end SolidityTools.Ascending

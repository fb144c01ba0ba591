import SolidityTools.Ascending
import Mathlib.Order.Lattice

set_option autoImplicit false

/-! # Ascending lists are sets in order

An ascending list is compared by a key: `less x y` says that the key of `x` is smaller. Then
`Ascending.ofList` lists exactly the keys it was given, each once and in strictly ascending order.
The invariant of the insertion is `List.Pairwise` on the keys, and an element is replaced only by
one with the same key.
-/

namespace SolidityTools.Ascending

variable {α κ : Type} [LinearOrder κ] {less : α → α → Bool} (key : α → κ)

/-- Inserting keeps a list strictly ascending. -/
theorem pairwise_insert (hless : ∀ x y, less x y = true ↔ key x < key y) (x : α) {ys : List α}
    (h : ys.Pairwise (key · < key ·)) : (insert less x ys).Pairwise (key · < key ·) := by
  induction ys with
  | nil => exact List.pairwise_singleton _ _
  | cons y ys ih =>
      obtain ⟨hy, hys⟩ := List.pairwise_cons.mp h
      rw [insert]
      by_cases hxy : less x y = true
      · -- `x` goes in front of everything
        rw [if_pos hxy]
        refine List.pairwise_cons.mpr ⟨fun z hz => ?_, h⟩
        rcases List.mem_cons.mp hz with rfl | hz
        · exact (hless _ _).mp hxy
        · exact lt_trans ((hless _ _).mp hxy) (hy z hz)
      · rw [if_neg hxy]
        by_cases hyx : less y x = true
        · -- `x` goes somewhere behind `y`
          rw [if_pos hyx]
          refine List.pairwise_cons.mpr ⟨fun z hz => ?_, ih hys⟩
          rcases mem_insert hz with rfl | hz
          · exact (hless _ _).mp hyx
          · exact hy z hz
        · -- `x` takes the place of `y`, whose key it has
          rw [if_neg hyx]
          have heq : key x = key y :=
            le_antisymm (not_lt.mp fun hlt => hyx ((hless _ _).mpr hlt))
              (not_lt.mp fun hlt => hxy ((hless _ _).mpr hlt))
          exact List.pairwise_cons.mpr ⟨fun z hz => heq ▸ hy z hz, hys⟩

/-- The list of some elements is strictly ascending. -/
theorem pairwise_ofList (hless : ∀ x y, less x y = true ↔ key x < key y) (xs : List α) :
    (ofList less xs).Pairwise (key · < key ·) := by
  have hfold : ∀ (xs ys : List α), ys.Pairwise (key · < key ·) →
      (xs.foldl (fun ys x => insert less x ys) ys).Pairwise (key · < key ·) := by
    intro xs
    induction xs with
    | nil => exact fun ys hys => hys
    | cons x xs ih => exact fun ys hys => ih _ (pairwise_insert key hless x hys)
  exact hfold xs [] List.Pairwise.nil

/-- An element that was in the list is still there, if it is not replaced by an equal one. -/
theorem mem_insert_of_mem {x z : α} {ys : List α} (h : z ∈ ys)
    (hne : less x z = false → less z x = false → x = z) : z ∈ insert less x ys := by
  induction ys with
  | nil => cases h
  | cons y ys ih =>
      rw [insert]
      by_cases hxy : less x y = true
      · rw [if_pos hxy]
        exact List.mem_cons_of_mem _ h
      · rw [if_neg hxy]
        by_cases hyx : less y x = true
        · rw [if_pos hyx]
          rcases List.mem_cons.mp h with rfl | h
          · exact List.mem_cons_self
          · exact List.mem_cons_of_mem _ (ih h)
        · rw [if_neg hyx]
          rcases List.mem_cons.mp h with rfl | h
          · rw [hne (by simpa using hxy) (by simpa using hyx)]
            exact List.mem_cons_self
          · exact List.mem_cons_of_mem _ h

/-- Every listed element is among the given ones. -/
theorem mem_of_mem_ofList {xs : List α} {z : α} (h : z ∈ ofList less xs) : z ∈ xs := by
  have hfold : ∀ (xs ys : List α), z ∈ xs.foldl (fun ys x => insert less x ys) ys →
      z ∈ xs ∨ z ∈ ys := by
    intro xs
    induction xs with
    | nil => exact fun ys hz => Or.inr hz
    | cons x xs ih =>
        intro ys hz
        rcases ih _ hz with hz | hz
        · exact Or.inl (List.mem_cons_of_mem _ hz)
        · rcases mem_insert hz with rfl | hz
          · exact Or.inl List.mem_cons_self
          · exact Or.inr hz
  rcases hfold xs [] h with h | h
  · exact h
  · cases h

/-- If elements with one key are equal, the list has exactly the given elements. -/
theorem mem_ofList {xs : List α} (hless : ∀ x y, less x y = true ↔ key x < key y)
    (hkey : Function.Injective key) {z : α} : z ∈ ofList less xs ↔ z ∈ xs := by
  refine ⟨mem_of_mem_ofList, fun h => ?_⟩
  have hreplace : ∀ x, less x z = false → less z x = false → x = z := by
    intro x hxz hzx
    refine hkey (le_antisymm (not_lt.mp fun hlt => ?_) (not_lt.mp fun hlt => ?_))
    · rw [(hless z x).mpr hlt] at hzx
      cases hzx
    · rw [(hless x z).mpr hlt] at hxz
      cases hxz
  have hkeep : ∀ (xs ys : List α), z ∈ ys → z ∈ xs.foldl (fun ys x => insert less x ys) ys := by
    intro xs
    induction xs with
    | nil => exact fun ys hz => hz
    | cons x xs ih => exact fun ys hz => ih _ (mem_insert_of_mem hz (hreplace x))
  have henter : ∀ (xs ys : List α), z ∈ xs →
      z ∈ xs.foldl (fun ys x => insert less x ys) ys := by
    intro xs
    induction xs with
    | nil => exact fun ys hz => absurd hz (by simp)
    | cons x xs ih =>
        intro ys hz
        rcases List.mem_cons.mp hz with rfl | hz
        · exact hkeep xs _ (mem_insert_self less z ys)
        · exact ih _ hz
  exact henter xs [] h

end SolidityTools.Ascending

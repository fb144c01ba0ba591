import SolidityTools.StableOrder
import Mathlib.Data.List.Basic
import Mathlib.Order.Lattice

set_option autoImplicit false

/-! # Ordered lists are in order

If of any two elements one may precede the other, and preceding is transitive, each element of an
ordered list may precede all that come behind it. An order that looks at a feature of the elements
only is the order of the features.

The order is stable: elements with the same key stay as they were. Nothing else can be said about
it, since a list has only one stable order by a key (`IsStableOrder.eq`). So whatever leaves a list
stably ordered commutes with ordering, and leaving elements out does (`IsStableOrder.filter`).
-/

namespace SolidityTools.StableOrder

variable {α β : Type} {le : α → α → Bool}

/-- Inserting keeps a list in order. -/
theorem pairwise_insert (htotal : ∀ x y, le x y = false → le y x = true)
    (htrans : ∀ x y z, le x y = true → le y z = true → le x z = true) (x : α) {ys : List α}
    (h : ys.Pairwise (le · · = true)) : (insert le x ys).Pairwise (le · · = true) := by
  induction ys with
  | nil => exact List.pairwise_singleton _ _
  | cons y ys ih =>
      obtain ⟨hy, hys⟩ := List.pairwise_cons.mp h
      rw [insert]
      by_cases hxy : le x y = true
      · rw [if_pos hxy]
        refine List.pairwise_cons.mpr ⟨fun z hz => ?_, h⟩
        rcases List.mem_cons.mp hz with rfl | hz
        · exact hxy
        · exact htrans x y z hxy (hy z hz)
      · rw [if_neg hxy]
        refine List.pairwise_cons.mpr ⟨fun z hz => ?_, ih hys⟩
        rcases List.mem_cons.mp ((insert_perm le x ys).mem_iff.mp hz) with rfl | hz
        · exact htotal _ _ (by simpa using hxy)
        · exact hy z hz

/-- **An ordered list is in order.** -/
theorem pairwise_sort (htotal : ∀ x y, le x y = false → le y x = true)
    (htrans : ∀ x y z, le x y = true → le y z = true → le x z = true) (xs : List α) :
    (sort le xs).Pairwise (le · · = true) := by
  induction xs with
  | nil => exact .nil
  | cons x xs ih => exact pairwise_insert htotal htrans x ih

theorem insert_map (le : β → β → Bool) (f : α → β) (x : α) (ys : List α) :
    insert le (f x) (ys.map f) = (insert (fun x y => le (f x) (f y)) x ys).map f := by
  induction ys with
  | nil => rfl
  | cons y ys ih =>
      rw [List.map_cons, insert, insert]
      by_cases hxy : le (f x) (f y) = true
      · rw [if_pos hxy, if_pos hxy]
        rfl
      · rw [if_neg hxy, if_neg hxy, ih]
        rfl

/-- Ordering by a feature. -/
theorem sort_map (le : β → β → Bool) (f : α → β) (xs : List α) :
    sort le (xs.map f) = (sort (fun x y => le (f x) (f y)) xs).map f := by
  induction xs with
  | nil => rfl
  | cons x xs ih => rw [List.map_cons, sort, ih, insert_map, sort]

/-! ## Stability -/

variable {κ : Type} [LinearOrder κ] {key : α → κ} {xs ys zs : List α}

/-- A list is the stable order of another one by a key: it has the same elements, their keys ascend,
and those that share a key stand as they stood before. -/
structure IsStableOrder (key : α → κ) (xs ys : List α) : Prop where
  perm : ys.Perm xs
  ascending : ys.Pairwise fun x y => key x ≤ key y
  stable : ∀ k, (ys.filter fun x => key x = k) = xs.filter fun x => key x = k

/-- An element goes past greater ones only, so it stays in front of those that share its key. -/
theorem filter_insert (hle : ∀ x y, le x y = true ↔ key x ≤ key y) (x : α) (ys : List α) (k : κ) :
    ((insert le x ys).filter fun y => key y = k) = (x :: ys).filter fun y => key y = k := by
  induction ys with
  | nil => rfl
  | cons y ys ih =>
      rw [insert]
      by_cases hxy : le x y = true
      · rw [if_pos hxy]
      · rw [if_neg hxy, List.filter_cons, ih]
        have hlt : key y < key x := lt_of_not_ge fun h => hxy ((hle x y).mpr h)
        by_cases hy : key y = k
        · have hx : key x ≠ k := by
            intro hx
            rw [hx, hy] at hlt
            exact lt_irrefl k hlt
          simp [List.filter_cons, hx]
        · simp [List.filter_cons, hy]

/-- **Ordering is stable.** -/
theorem isStableOrder_sort (hle : ∀ x y, le x y = true ↔ key x ≤ key y) (xs : List α) :
    IsStableOrder key xs (sort le xs) where
  perm := sort_perm le xs
  ascending := by
    have htotal : ∀ x y, le x y = false → le y x = true := by
      intro x y hxy
      rw [hle]
      exact le_of_lt (lt_of_not_ge fun h => by simp [(hle x y).mpr h] at hxy)
    have htrans : ∀ x y z, le x y = true → le y z = true → le x z = true := by
      intro x y z hxy hyz
      rw [hle] at hxy hyz ⊢
      exact le_trans hxy hyz
    exact (pairwise_sort htotal htrans xs).imp fun {x y} h => (hle x y).mp h
  stable := by
    intro k
    induction xs with
    | nil => rfl
    | cons x xs ih => rw [sort, filter_insert hle, List.filter_cons, ih, List.filter_cons]

/-- Leaving elements out keeps a list stably ordered. -/
theorem IsStableOrder.filter (h : IsStableOrder key xs ys) (p : α → Bool) :
    IsStableOrder key (xs.filter p) (ys.filter p) where
  perm := h.perm.filter p
  ascending := h.ascending.filter p
  stable := by
    intro k
    rw [List.filter_comm, h.stable, List.filter_comm]

/-- Ascending lists are equal if they have the same elements in the same order for each key. -/
theorem eq_of_filter_eq (hys : ys.Pairwise fun x y => key x ≤ key y)
    (hzs : zs.Pairwise fun x y => key x ≤ key y)
    (h : ∀ k, (ys.filter fun x => key x = k) = zs.filter fun x => key x = k) : ys = zs := by
  have hmem : ∀ {as bs : List α}, (∀ k, (as.filter fun x => key x = k)
      = bs.filter fun x => key x = k) → ∀ {x}, x ∈ as → x ∈ bs := by
    intro as bs h x hx
    have hfilter : x ∈ as.filter fun a => key a = key x := List.mem_filter.mpr ⟨hx, by simp⟩
    rw [h] at hfilter
    exact (List.mem_filter.mp hfilter).1
  induction ys generalizing zs with
  | nil =>
      cases zs with
      | nil => rfl
      | cons z zs => cases hmem (fun k => (h k).symm) (List.mem_cons_self (a := z) (l := zs))
  | cons y ys ih =>
      cases zs with
      | nil => cases hmem h (List.mem_cons_self (a := y) (l := ys))
      | cons z zs =>
          obtain ⟨hy, hys⟩ := List.pairwise_cons.mp hys
          obtain ⟨hz, hzs'⟩ := List.pairwise_cons.mp hzs
          -- both heads have the smallest key, so each is the first with that key
          have hyz : key y ≤ key z := by
            rcases List.mem_cons.mp (hmem (fun k => (h k).symm) (List.mem_cons_self (a := z)))
              with heq | hmem
            · rw [heq]
            · exact hy z hmem
          have hzy : key z ≤ key y := by
            rcases List.mem_cons.mp (hmem h (List.mem_cons_self (a := y))) with heq | hmem
            · rw [heq]
            · exact hz y hmem
          have hkey : key z = key y := le_antisymm hzy hyz
          have hhead := h (key y)
          rw [List.filter_cons, List.filter_cons, if_pos (by simp), if_pos (by simpa using hkey)]
            at hhead
          obtain ⟨rfl, -⟩ := List.cons.inj hhead
          refine congrArg (y :: ·) (ih hys hzs' fun k => ?_)
          have htail := h k
          rw [List.filter_cons, List.filter_cons] at htail
          by_cases hk : key y = k
          · rw [if_pos (by simpa using hk), if_pos (by simpa using hk)] at htail
            exact (List.cons.inj htail).2
          · rwa [if_neg (by simpa using hk), if_neg (by simpa using hk)] at htail

/-- **There is only one stable order by a key.** -/
theorem IsStableOrder.eq (h : IsStableOrder key xs ys) (h' : IsStableOrder key xs zs) : ys = zs :=
  eq_of_filter_eq h.ascending h'.ascending fun k => (h.stable k).trans (h'.stable k).symm

end SolidityTools.StableOrder

import SolidityTools.Import.Path
import SolidityTools.Proofs.Text.Split
import Mathlib.Data.List.TakeWhile

set_option autoImplicit false

/-! # Normal forms of paths

A normal form is made segment by segment, so it is known by its segments: they are some of the
segments of the path, and none of them is empty or `.` (`mem_normalSegments`). The final segment of
a path stays the final one if it names a file (`fileName_normalise`), so paths with the same normal
form have the same final segment. That a normal form ends with another one, as a text behind a
slash, means that its segments do (`isSuffixOf_normalise_iff`).
-/

namespace SolidityTools.ImportPath

open Text

/-! ## Segments -/

/-- A segment that names a file or a folder. -/
def IsOrdinary (segment : String) : Prop := segment ∉ ["", ".", ".."]

instance (segment : String) : Decidable (IsOrdinary segment) :=
  inferInstanceAs (Decidable (segment ∉ ["", ".", ".."]))

theorem isSeparator_eq_false_of_mem {path segment : List Char} (h : segment ∈ segments path) :
    ∀ c ∈ segment, isSeparator c = false :=
  fun _ hc => not_of_mem_splitWhere h hc

theorem isSeparator_slash : isSeparator '/' = true := rfl

theorem segments_append_slash (A B : List Char) :
    segments (A ++ '/' :: B) = segments A ++ segments B :=
  splitWhere_append_cons isSeparator_slash A B

theorem toList_join (directory path : String) :
    (directory ++ "/" ++ path).toList = directory.toList ++ '/' :: path.toList := by
  rw [String.toList_append, String.toList_append, List.append_assoc]
  rfl

/-- Where the final segment of a path stands. -/
theorem toList_cases (path : String) :
    (∀ c ∈ path.toList, isSeparator c = false) ∧ fileName path = path ∧ directory? path = none ∨
      ∃ directory c, isSeparator c = true ∧ directory? path = some directory ∧
        path.toList = directory.toList ++ c :: (fileName path).toList ∧
        ∀ e ∈ (fileName path).toList, isSeparator e = false := by
  have hsplit : path.toList = (path.toList.reverse.dropWhile (!isSeparator ·)).reverse ++
      (path.toList.reverse.takeWhile (!isSeparator ·)).reverse := by
    rw [← List.reverse_append, List.takeWhile_append_dropWhile, List.reverse_reverse]
  have hname : ∀ e ∈ (path.toList.reverse.takeWhile (!isSeparator ·)).reverse,
      isSeparator e = false := by
    intro e he
    simpa using List.mem_takeWhile_imp (List.mem_reverse.mp he)
  unfold directory?
  split
  · next hnone =>
      rw [hnone, List.reverse_nil, List.nil_append] at hsplit
      refine Or.inl ⟨hsplit ▸ hname, ?_, rfl⟩
      rw [fileName, ← hsplit, String.ofList_toList]
  · next c rest hsome =>
      have hc : isSeparator c = true := by
        have hhead := List.head?_dropWhile_not (!isSeparator ·) path.toList.reverse
        rw [hsome] at hhead
        simpa using hhead
      refine Or.inr ⟨_, c, hc, rfl, ?_, ?_⟩
      · rw [hsome, List.reverse_cons, List.append_assoc] at hsplit
        rw [String.toList_ofList, fileName, String.toList_ofList]
        exact hsplit
      · rwa [fileName, String.toList_ofList]

theorem exists_segments_eq (path : String) :
    ∃ front, segments path.toList = front ++ [(fileName path).toList] := by
  rcases toList_cases path with ⟨hpath, hname, -⟩ | ⟨directory, c, hc, -, hpath, hname⟩
  · exact ⟨[], by rw [segments, splitWhere_of_forall hpath, hname, List.nil_append]⟩
  · refine ⟨segments directory.toList, ?_⟩
    rw [segments, hpath, splitWhere_append_cons hc, splitWhere_of_forall hname]
    rfl

/-- What stands in front of a separator is no part of the final segment. -/
theorem fileName_append_separator {c : Char} (hc : isSeparator c = true) (A B : List Char) :
    fileName (String.ofList (A ++ c :: B)) = fileName (String.ofList B) := by
  have hstop : (c :: A.reverse).takeWhile (!isSeparator ·) = [] :=
    List.takeWhile_cons_of_neg (by simp [hc])
  simp only [fileName, String.toList_ofList]
  rw [List.reverse_append, List.reverse_cons, List.append_assoc, List.singleton_append,
    List.takeWhile_append, hstop]
  split
  · next hall =>
      rw [List.append_nil, (List.takeWhile_prefix _).eq_of_length hall]
  · rfl

/-- A path without separators is its final segment. -/
theorem fileName_of_forall {cs : List Char} (h : ∀ c ∈ cs, isSeparator c = false) :
    fileName (String.ofList cs) = String.ofList cs := by
  have hall : cs.reverse.takeWhile (!isSeparator ·) = cs.reverse :=
    List.takeWhile_eq_self_iff.mpr fun c hc => by simp [h c (List.mem_reverse.mp hc)]
  rw [fileName, String.toList_ofList, hall, List.reverse_reverse]

/-! ## Normal segments -/

/-- Going on by a segment adds that segment, if any. -/
theorem mem_follow {passed : List (List Char)} {segment s : List Char}
    (h : s ∈ follow passed segment) : s ∈ passed ∨ s = segment ∧ s ≠ [] ∧ s ≠ here := by
  unfold follow at h
  split at h
  · exact Or.inl h
  · next hstays =>
      rw [not_or] at hstays
      split at h
      · next hup =>
          split at h
          · next =>
              obtain rfl := List.mem_singleton.mp h
              exact Or.inr ⟨hup.symm, by decide, by decide⟩
          · next last rest =>
              split at h
              · rcases List.mem_cons.mp h with rfl | h
                · exact Or.inr ⟨hup.symm, by decide, by decide⟩
                · exact Or.inl h
              · exact Or.inl (List.mem_cons_of_mem last h)
      · rcases List.mem_cons.mp h with rfl | h
        · exact Or.inr ⟨rfl, hstays⟩
        · exact Or.inl h

theorem mem_foldl_follow {passed list : List (List Char)} {s : List Char}
    (h : s ∈ list.foldl follow passed) : s ∈ passed ∨ s ∈ list ∧ s ≠ [] ∧ s ≠ here := by
  induction list generalizing passed with
  | nil => exact Or.inl h
  | cons segment list ih =>
      rcases ih h with h | ⟨h, hne⟩
      · rcases mem_follow h with h | ⟨rfl, hne⟩
        · exact Or.inl h
        · exact Or.inr ⟨List.mem_cons_self, hne⟩
      · exact Or.inr ⟨List.mem_cons_of_mem segment h, hne⟩

/-- **A normal form has segments of the path**, and none of them is empty or stays where it is. -/
theorem mem_normalSegments {path s : List Char} (h : s ∈ normalSegments path) :
    s ∈ segments path ∧ s ≠ [] ∧ s ≠ here := by
  rcases mem_foldl_follow (List.mem_reverse.mp h) with h | h
  · cases h
  · exact h

theorem isSeparator_eq_false_of_mem_normal {path s : List Char} (h : s ∈ normalSegments path) :
    ∀ c ∈ s, isSeparator c = false :=
  isSeparator_eq_false_of_mem (mem_normalSegments h).1

theorem normalSegments_slash (path : List Char) :
    normalSegments ('/' :: path) = normalSegments path := by
  have hsegments : segments ('/' :: path) = [] :: segments path :=
    splitWhere_separator isSeparator_slash path
  rw [normalSegments, hsegments]
  rfl

/-- A segment that goes down, into a folder or to a file. -/
def IsName (segment : List Char) : Prop := segment ≠ [] ∧ segment ≠ here ∧ segment ≠ up

theorem IsOrdinary.isName {segment : String} (h : IsOrdinary segment) : IsName segment.toList := by
  simp only [IsOrdinary, List.mem_cons, List.not_mem_nil, or_false, not_or] at h
  have hempty : segment.toList ≠ [] := fun heq => h.1 (String.toList_injective heq)
  have hhere : segment.toList ≠ here := fun heq => h.2.1 (String.toList_injective heq)
  have hup : segment.toList ≠ up := fun heq => h.2.2 (String.toList_injective heq)
  exact ⟨hempty, hhere, hup⟩

/-- A name goes on top. -/
theorem follow_of_isName {segment : List Char} (h : IsName segment) (passed : List (List Char)) :
    follow passed segment = segment :: passed := by
  obtain ⟨hempty, hhere, hup⟩ := h
  unfold follow
  rw [if_neg (not_or.mpr ⟨hempty, hhere⟩), if_neg hup]

/-- The name of a file is the final segment of the normal form as well. -/
theorem exists_normalSegments_eq {path : String} (h : IsOrdinary (fileName path)) :
    ∃ front, normalSegments path.toList = front ++ [(fileName path).toList] := by
  obtain ⟨front, hsegments⟩ := exists_segments_eq path
  refine ⟨(front.foldl follow []).reverse, ?_⟩
  rw [normalSegments, hsegments, List.foldl_append, List.foldl_cons, List.foldl_nil,
    follow_of_isName h.isName, List.reverse_cons]

/-- **Making the normal form keeps the name of the file.** -/
theorem fileName_normalise {path : String} (h : IsOrdinary (fileName path)) :
    fileName (normalise path) = fileName path := by
  obtain ⟨front, hnormal⟩ := exists_normalSegments_eq h
  have hname : ∀ c ∈ (fileName path).toList, isSeparator c = false :=
    isSeparator_eq_false_of_mem_normal (by rw [hnormal]; simp)
  rw [normalise, hnormal]
  by_cases hfront : front = []
  · rw [hfront, List.nil_append, joinWith, fileName_of_forall hname, String.ofList_toList]
  · rw [joinWith_append '/' hfront (List.cons_ne_nil _ _),
      fileName_append_separator isSeparator_slash, joinWith, fileName_of_forall hname,
      String.ofList_toList]

/-! ## Normal forms as texts -/

theorem segments_joinWith {list : List (List Char)} (hne : list ≠ [])
    (h : ∀ s ∈ list, ∀ c ∈ s, isSeparator c = false) : segments (joinWith '/' list) = list :=
  splitWhere_joinWith isSeparator_slash hne h

/-- **A normal form ends with another one behind a slash** if its segments do, and there are more of
them. -/
theorem isSuffixOf_normalise_iff {path wanted : String} :
    ('/' :: (normalise wanted).toList).isSuffixOf (normalise path).toList = true ↔
      normalSegments wanted.toList ≠ [] ∧ ∃ outer, outer ≠ [] ∧
        normalSegments path.toList = outer ++ normalSegments wanted.toList := by
  have hseparator : ∀ {path : List Char}, ∀ s ∈ normalSegments path, ∀ c ∈ s,
      isSeparator c = false := fun _ hs => isSeparator_eq_false_of_mem_normal hs
  rw [List.isSuffixOf_iff_suffix, normalise, normalise, String.toList_ofList,
    String.toList_ofList]
  constructor
  · rintro ⟨front, hfront⟩
    have hpath : normalSegments path.toList ≠ [] := by
      intro hnil
      rw [hnil] at hfront
      simp [joinWith] at hfront
    have hsegments : normalSegments path.toList
        = segments front ++ segments (joinWith '/' (normalSegments wanted.toList)) := by
      rw [← segments_joinWith hpath hseparator, ← hfront, segments_append_slash]
    by_cases hwanted : normalSegments wanted.toList = []
    · -- the text would end with a slash, and no segment is empty
      rw [hwanted] at hsegments
      have hempty : [] ∈ normalSegments path.toList := by
        rw [hsegments]
        simp [joinWith, segments, splitWhere]
      exact absurd rfl (mem_normalSegments hempty).2.1
    · rw [segments_joinWith hwanted hseparator] at hsegments
      exact ⟨hwanted, segments front, splitWhere_ne_nil _ _, hsegments⟩
  · rintro ⟨hwanted, outer, houter, hpath⟩
    exact ⟨joinWith '/' outer, by rw [hpath, joinWith_append '/' houter hwanted]⟩

end SolidityTools.ImportPath

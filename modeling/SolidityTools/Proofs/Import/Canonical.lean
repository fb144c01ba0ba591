import SolidityTools.Proofs.Import.Path

set_option autoImplicit false

/-! # Normal forms are canonical

What is passed on the way along a path has one shape: names, and below them the steps up that had
nothing to remove. Going on by a segment keeps that shape (`IsPassed.follow`), and segments of
that shape pile up unchanged when they are followed from nothing (`foldl_follow_shaped`). So the
normal form of a path leads to the same place as the path (`foldl_follow_normalise`), and whatever
is joined behind the two leads on from there. The paths that are left alone are exactly those that
are spelled like a normal form (`normalise_eq_self_iff`).
-/

namespace SolidityTools.ImportPath

open Text

/-! ## The shape of what is passed -/

/-- The segments passed so far, latest first: names, and below them steps up. -/
def IsPassed (passed : List (List Char)) : Prop :=
  ∃ names climbs, (∀ s ∈ names, IsName s) ∧ passed = names ++ List.replicate climbs up

theorem isPassed_nil : IsPassed [] := ⟨[], 0, by simp, rfl⟩

/-- A step up removes the name on top. -/
theorem follow_up_cons {name : List Char} (h : IsName name) (passed : List (List Char)) :
    follow (name :: passed) up = passed := by
  unfold follow
  rw [if_neg (by decide), if_pos rfl]
  exact if_neg h.2.2

/-- A step up stays where only steps up are below it. -/
theorem follow_up_replicate (climbs : Nat) :
    follow (List.replicate climbs up) up = List.replicate (climbs + 1) up := by
  cases climbs with
  | zero => rfl
  | succ climbs => rfl

/-- **Going on by a segment keeps the shape.** -/
theorem IsPassed.follow {passed : List (List Char)} (h : IsPassed passed) (segment : List Char) :
    IsPassed (follow passed segment) := by
  obtain ⟨names, climbs, hnames, rfl⟩ := h
  by_cases hstays : segment = [] ∨ segment = here
  · refine ⟨names, climbs, hnames, ?_⟩
    unfold ImportPath.follow
    exact if_pos hstays
  · by_cases hup : segment = up
    · subst hup
      cases names with
      | nil => exact ⟨[], climbs + 1, by simp, follow_up_replicate climbs⟩
      | cons name names =>
          refine ⟨names, climbs, fun s hs => hnames s (List.mem_cons_of_mem name hs), ?_⟩
          exact follow_up_cons (hnames name List.mem_cons_self) _
    · rw [not_or] at hstays
      have hname : IsName segment := ⟨hstays.1, hstays.2, hup⟩
      refine ⟨segment :: names, climbs, ?_, follow_of_isName hname _⟩
      intro s hs
      rcases List.mem_cons.mp hs with rfl | hs
      · exact hname
      · exact hnames s hs

theorem IsPassed.foldl_follow {passed : List (List Char)} (h : IsPassed passed)
    (list : List (List Char)) : IsPassed (list.foldl ImportPath.follow passed) := by
  induction list generalizing passed with
  | nil => exact h
  | cons segment list ih => exact ih (h.follow segment)

/-! ## Following what has been passed -/

theorem foldl_follow_climbs (m n : Nat) :
    (List.replicate n up).foldl follow (List.replicate m up) = List.replicate (m + n) up := by
  induction n generalizing m with
  | zero => rfl
  | succ n ih =>
      have hsum : m + 1 + n = m + (n + 1) := by omega
      rw [List.replicate_succ, List.foldl_cons, follow_up_replicate, ih, hsum]

theorem foldl_follow_names {names : List (List Char)} (h : ∀ s ∈ names, IsName s)
    (passed : List (List Char)) : names.foldl follow passed = names.reverse ++ passed := by
  induction names generalizing passed with
  | nil => rfl
  | cons name names ih =>
      have hrest := ih (fun s hs => h s (List.mem_cons_of_mem name hs)) (name :: passed)
      rw [List.foldl_cons, follow_of_isName (h name List.mem_cons_self), hrest, List.reverse_cons,
        List.append_assoc, List.singleton_append]

/-- **Steps up and then names pile up unchanged.** -/
theorem foldl_follow_shaped {names : List (List Char)} (h : ∀ s ∈ names, IsName s) (climbs : Nat) :
    (List.replicate climbs up ++ names).foldl follow []
      = (List.replicate climbs up ++ names).reverse := by
  have hclimbs : (List.replicate climbs up).foldl follow [] = List.replicate climbs up := by
    have hzero := foldl_follow_climbs 0 climbs
    rwa [Nat.zero_add] at hzero
  rw [List.foldl_append, hclimbs, foldl_follow_names h, List.reverse_append, List.reverse_replicate]

/-- The segments of a normal form are steps up and then names. -/
theorem exists_normalSegments_shape (path : List Char) :
    ∃ climbs names, (∀ s ∈ names, IsName s) ∧
      normalSegments path = List.replicate climbs up ++ names := by
  obtain ⟨names, climbs, hnames, hpassed⟩ := isPassed_nil.foldl_follow (segments path)
  refine ⟨climbs, names.reverse, fun s hs => hnames s (List.mem_reverse.mp hs), ?_⟩
  rw [normalSegments, hpassed, List.reverse_append, List.reverse_replicate]

/-! ## Normal forms as paths -/

/-- The parts of a path: its segments, of which the empty path has none. -/
def parts (path : List Char) : List (List Char) := if path = [] then [] else segments path

/-- An empty segment leads nowhere, so the parts lead where the segments lead. -/
theorem foldl_follow_parts (path : List Char) :
    (parts path).foldl follow [] = (segments path).foldl follow [] := by
  by_cases hpath : path = []
  · rw [parts, if_pos hpath, hpath]
    rfl
  · rw [parts, if_neg hpath]

/-- **The parts of the normal form are what is left of the segments.** -/
theorem parts_normalise (path : String) :
    parts (normalise path).toList = normalSegments path.toList := by
  rw [normalise, String.toList_ofList]
  by_cases hnil : normalSegments path.toList = []
  · rw [hnil]
    rfl
  · have hsegments := segments_joinWith hnil fun s hs => isSeparator_eq_false_of_mem_normal hs
    have hne : joinWith '/' (normalSegments path.toList) ≠ [] := by
      intro heq
      have hempty : [] ∈ normalSegments path.toList := by
        rw [← hsegments, heq]
        exact List.mem_singleton_self []
      exact (mem_normalSegments hempty).2.1 rfl
    rw [parts, if_neg hne, hsegments]

/-- **The normal form of a path leads where the path leads.** -/
theorem foldl_follow_normalise (path : String) :
    (segments (normalise path).toList).foldl follow []
      = (segments path.toList).foldl follow [] := by
  obtain ⟨climbs, names, hnames, hshape⟩ := exists_normalSegments_shape path.toList
  rw [← foldl_follow_parts, parts_normalise, hshape, foldl_follow_shaped hnames, ← hshape,
    normalSegments, List.reverse_reverse]

/-- A path that is spelled like a normal form: none of its parts is empty or stays where it is, all
slashes are forward slashes, and steps up come first. -/
structure IsNormal (path : String) : Prop where
  nil_notMem : [] ∉ parts path.toList
  here_notMem : here ∉ parts path.toList
  backslash_notMem : '\\' ∉ path.toList
  climbs_first : ∃ climbs rest, parts path.toList = List.replicate climbs up ++ rest ∧ up ∉ rest

theorem isNormal_normalise (path : String) : IsNormal (normalise path) := by
  have hparts := parts_normalise path
  obtain ⟨climbs, names, hnames, hshape⟩ := exists_normalSegments_shape path.toList
  refine ⟨fun hmem => ?_, fun hmem => ?_, fun hmem => ?_, climbs, names, ?_, ?_⟩
  · exact (mem_normalSegments (hparts ▸ hmem)).2.1 rfl
  · exact (mem_normalSegments (hparts ▸ hmem)).2.2 rfl
  · rw [normalise, String.toList_ofList] at hmem
    rcases mem_joinWith hmem with heq | ⟨s, hs, hmem⟩
    · exact absurd heq (by decide)
    · exact absurd (isSeparator_eq_false_of_mem_normal hs _ hmem) (by decide)
  · rw [hparts, hshape]
  · exact fun hup => (hnames up hup).2.2 rfl

/-- Without backslashes the parts of a path are joined again by forward slashes. -/
theorem joinWith_parts {path : List Char} (h : '\\' ∉ path) : joinWith '/' (parts path) = path := by
  by_cases hpath : path = []
  · rw [parts, if_pos hpath, hpath]
    rfl
  · have hforward : segments path = splitWhere (· == '/') path := by
      refine splitWhere_congr fun c hc => ?_
      have hne : (c == '\\') = false := by
        rw [beq_eq_false_iff_ne]
        rintro rfl
        exact h hc
      rw [isSeparator, hne, Bool.or_false]
    rw [parts, if_neg hpath, hforward, joinWith_splitWhere]

/-- A path that is spelled like a normal form is left alone. -/
theorem IsNormal.normalise_eq {path : String} (h : IsNormal path) : normalise path = path := by
  obtain ⟨hempty, hhere, hslash, climbs, rest, hparts, hup⟩ := h
  have hrest : ∀ s ∈ rest, IsName s := by
    intro s hs
    have hmem : s ∈ parts path.toList := hparts ▸ List.mem_append_right _ hs
    refine ⟨?_, ?_, ?_⟩ <;> rintro rfl
    · exact hempty hmem
    · exact hhere hmem
    · exact hup hs
  have hnormal : normalSegments path.toList = parts path.toList := by
    rw [normalSegments, ← foldl_follow_parts, hparts, foldl_follow_shaped hrest,
      List.reverse_reverse]
  rw [normalise, hnormal, joinWith_parts hslash, String.ofList_toList]

/-- **The paths that are left alone are those that are spelled like a normal form.** -/
theorem normalise_eq_self_iff {path : String} : normalise path = path ↔ IsNormal path := by
  constructor
  · intro h
    rw [← h]
    exact isNormal_normalise path
  · exact IsNormal.normalise_eq

theorem normalise_join_normalise (a b : String) :
    normalise (normalise a ++ "/" ++ b) = normalise (a ++ "/" ++ b) := by
  have hnormal : normalSegments (normalise a ++ "/" ++ b).toList
      = normalSegments (a ++ "/" ++ b).toList := by
    unfold normalSegments
    rw [toList_join, toList_join, segments_append_slash, segments_append_slash, List.foldl_append,
      List.foldl_append, foldl_follow_normalise]
  rw [normalise, hnormal, ← normalise]

/-- **Normal forms are canonical.** Making the normal form twice is making it once, and a path may
be replaced by its normal form before another one is joined behind it. The normal form has no empty
part, no part that stays where it is and no backslash, and its steps up come first. Its segments
lead where those of the path lead. -/
theorem normalise_canonical (a b : String) :
    normalise (normalise a) = normalise a ∧
      normalise (a ++ "/" ++ b) = normalise (normalise a ++ "/" ++ b) ∧
      IsNormal (normalise a) ∧
      (segments (normalise a).toList).foldl follow [] = (segments a.toList).foldl follow [] :=
  ⟨normalise_eq_self_iff.mpr (isNormal_normalise a), (normalise_join_normalise a b).symm,
    isNormal_normalise a, foldl_follow_normalise a⟩

/-- A path with both slashes, with another one behind it that goes up. -/
theorem normalise_canonical_backslash : let a := "./a\\..//../b/./c"
    normalise a = "../b/c" ∧ normalise "../b/c" = "../b/c" ∧
      normalise (a ++ "/" ++ "..\\d") = "../b/d" := by
  intro a
  have hnormal : normalise a = "../b/c" := by decide
  obtain ⟨htwice, hjoin, -, -⟩ := normalise_canonical a "..\\d"
  rw [hnormal] at htwice hjoin
  exact ⟨hnormal, htwice, hjoin.trans (by decide)⟩

end SolidityTools.ImportPath

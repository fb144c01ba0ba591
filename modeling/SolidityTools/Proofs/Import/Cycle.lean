import SolidityTools.Import.Graph
import SolidityTools.Proofs.Ascending
import Mathlib.Data.List.Cycle
import Mathlib.Data.String.Basic

set_option autoImplicit false

/-! # The listed cycles are the elementary cycles

A file *depends on* another if its imports mean that one. An *elementary cycle* is a closed walk
along dependencies that meets no file twice; a file that imports itself is one. The search for
cycles extends simple paths, never to a file smaller than the first one, and each time a path
closes it notes the closed part, written from its smallest file on.

* Soundness: what is noted is a part of a simple path together with the step that closes it, and
  rotating a cycle keeps it one (`isElementaryCycle_of_mem_cyclesAlong`).
* Completeness: a cycle that begins with its smallest file is found from that file, because no
  step of it is left out; the number of steps suffices, because a cycle has no more files than
  the graph (`mem_cyclesAlong`).
* Two rotations of one cycle that both begin with the smallest file are equal, so each cycle is
  listed once (`IsElementaryCycle.eq_of_isRotated`).
-/

namespace SolidityTools.DependencyGraph

/-! ## Elementary cycles -/

/-- A file imports another file of the graph. -/
def DependsOn (g : DependencyGraph) (file other : String) : Prop :=
  other ∈ g.dependencies file

/-- A closed walk along dependencies on which no file occurs twice. -/
structure IsElementaryCycle (g : DependencyGraph) (files : List String) : Prop where
  ne_nil : files ≠ []
  nodup : files.Nodup
  chain : Cycle.Chain g.DependsOn (files : Cycle String)

/-- No file is smaller than the first one. -/
def BeginsSmallest (files : List String) : Prop :=
  ∀ first ∈ files.head?, ∀ name ∈ files, first ≤ name

variable {g : DependencyGraph}

/-- Where a cycle begins does not matter. -/
theorem IsElementaryCycle.of_isRotated {c d : List String} (h : g.IsElementaryCycle c)
    (hcd : c ~r d) : g.IsElementaryCycle d := by
  refine ⟨?_, hcd.nodup_iff.mp h.nodup, ?_⟩
  · rintro rfl
    exact h.ne_nil (List.isRotated_nil_iff.mp hcd)
  · rw [← Cycle.coe_eq_coe.mpr hcd]
    exact h.chain

/-- Each file of a cycle is one that another file of it depends on. -/
theorem IsElementaryCycle.exists_dependsOn {c : List String} (h : g.IsElementaryCycle c)
    {name : String} (hname : name ∈ c) : ∃ file, g.DependsOn file name := by
  obtain ⟨front, rear, rfl⟩ := List.append_of_mem hname
  have hrot : front ++ name :: rear ~r name :: (rear ++ front) := List.isRotated_append
  have hchain := (h.of_isRotated hrot).chain
  rw [Cycle.chain_coe_cons, ← List.cons_append] at hchain
  obtain ⟨-, -, hlast⟩ := List.isChain_append.mp hchain
  exact ⟨_, hlast _ (by rw [List.getLast?_eq_getLast_of_ne_nil (List.cons_ne_nil _ _)]; rfl) _ rfl⟩

/-- A cycle has one rotation that begins with its smallest file. -/
theorem IsElementaryCycle.eq_of_isRotated {c d : List String} (h : g.IsElementaryCycle c)
    (hcd : c ~r d) (hc : BeginsSmallest c) (hd : BeginsSmallest d) : c = d := by
  obtain ⟨x, xs, rfl⟩ := List.exists_cons_of_ne_nil h.ne_nil
  obtain ⟨y, ys, rfl⟩ := List.exists_cons_of_ne_nil (h.of_isRotated hcd).ne_nil
  have hxy : x = y :=
    le_antisymm (hc x rfl y (hcd.mem_iff.mpr List.mem_cons_self))
      (hd y rfl x (hcd.mem_iff.mp List.mem_cons_self))
  obtain ⟨n, hn⟩ := hcd
  -- a rotation of a list without repetition is fixed by its first element
  have hmod : (x :: xs).rotate (n % (x :: xs).length) = y :: ys := by
    rw [List.rotate_mod, hn]
  have hlt : n % (x :: xs).length < (x :: xs).length := Nat.mod_lt _ (by simp)
  have hhead := List.head?_rotate hlt
  rw [hmod, List.head?_cons, List.getElem?_eq_getElem hlt, Option.some.injEq, ← hxy] at hhead
  have hzero : n % (x :: xs).length = 0 :=
    (List.Nodup.getElem_inj_iff h.nodup).mp (show _ = (x :: xs)[0] from hhead.symm)
  rw [hzero, List.rotate_zero] at hmod
  exact hmod

/-! ## Rotation to the smallest file -/

/-- The part of a list from a member on. -/
theorem exists_dropWhile_ne_eq_cons {x : String} {names : List String} (h : x ∈ names) :
    ∃ rest, names.dropWhile (· != x) = x :: rest := by
  induction names with
  | nil => cases h
  | cons y names ih =>
      by_cases hy : y = x
      · exact ⟨names, by rw [hy, List.dropWhile_cons_of_neg (by simp)]⟩
      · rw [List.dropWhile_cons_of_pos (by simpa using hy)]
        exact ih (List.mem_of_ne_of_mem (Ne.symm hy) h)

theorem smallest_spec (name : String) (names : List String) :
    smallest name names ∈ name :: names ∧ ∀ n ∈ name :: names, smallest name names ≤ n := by
  induction names generalizing name with
  | nil => simp [smallest]
  | cons m names ih =>
      obtain ⟨hmem, hle⟩ := ih (if m < name then m else name)
      have hstep : smallest name (m :: names) = smallest (if m < name then m else name) names := by
        simp only [smallest, List.foldl_cons]
      rw [hstep]
      refine ⟨?_, fun n hn => ?_⟩
      · rcases List.mem_cons.mp hmem with h | h
        · rw [h]
          split <;> simp
        · exact List.mem_cons_of_mem _ (List.mem_cons_of_mem _ h)
      · have hfirst := hle _ List.mem_cons_self
        rcases List.mem_cons.mp hn with rfl | hn
        · refine hfirst.trans ?_
          split
          · exact le_of_lt ‹_›
          · exact le_rfl
        · rcases List.mem_cons.mp hn with rfl | hn
          · refine hfirst.trans ?_
            split
            · exact le_rfl
            · exact not_lt.mp ‹_›
          · exact hle n (List.mem_cons_of_mem _ hn)

/-- Writing a cycle from its smallest name on is a rotation. -/
theorem isRotated_rotate (c : List String) : c ~r rotate c := by
  cases c with
  | nil => exact List.IsRotated.refl _
  | cons name names =>
      have h : (name :: names).takeWhile (· != smallest name names)
          ++ (name :: names).dropWhile (· != smallest name names) ~r rotate (name :: names) :=
        List.isRotated_append
      rwa [List.takeWhile_append_dropWhile] at h

theorem beginsSmallest_rotate (c : List String) : BeginsSmallest (rotate c) := by
  cases c with
  | nil => simp [BeginsSmallest, rotate]
  | cons name names =>
      intro first hfirst n hn
      obtain ⟨hmem, hle⟩ := smallest_spec name names
      obtain ⟨rest, hrest⟩ := exists_dropWhile_ne_eq_cons hmem
      have hhead : first = smallest name names := by
        rw [rotate, hrest, List.cons_append, List.head?_cons, Option.mem_some_iff] at hfirst
        exact hfirst.symm
      rw [hhead]
      exact hle n ((isRotated_rotate (name :: names)).mem_iff.mpr hn)

/-- A cycle that begins with its smallest name stays as it is. -/
theorem rotate_eq_self {c : List String} (h : BeginsSmallest c) : rotate c = c := by
  cases c with
  | nil => rfl
  | cons name names =>
      obtain ⟨hmem, hle⟩ := smallest_spec name names
      have hname : smallest name names = name :=
        le_antisymm (hle name List.mem_cons_self) (h name rfl _ hmem)
      simp [rotate, hname]

/-! ## The search -/

/-- **Soundness.** What the search notes along a simple path is an elementary cycle that begins
with its smallest file. -/
theorem isElementaryCycle_of_mem_cyclesAlong {first : String} {c : List String} :
    ∀ {steps : Nat} (front : List String) {current : String},
      (front ++ [current]).Nodup → (front ++ [current]).IsChain g.DependsOn →
      c ∈ g.cyclesAlong first steps (front ++ [current]) current →
      g.IsElementaryCycle c ∧ BeginsSmallest c := by
  intro steps
  induction steps with
  | zero =>
      intro front current _ _ hc
      simp [cyclesAlong] at hc
  | succ steps ih =>
      intro front current hnodup hchain hc
      rw [cyclesAlong, List.mem_flatMap] at hc
      obtain ⟨next, hnext, hc⟩ := hc
      by_cases hmem : (front ++ [current]).contains next = true
      · -- the step closes the part of the path that begins with `next`
        rw [if_pos hmem, List.mem_singleton] at hc
        have hin : next ∈ front ++ [current] := by simpa using hmem
        obtain ⟨rest, hrest⟩ := exists_dropWhile_ne_eq_cons hin
        rw [hrest] at hc
        have hsuffix : next :: rest <:+ front ++ [current] := hrest ▸ List.dropWhile_suffix _
        have hlast : (next :: rest).getLast? = some current := by
          obtain ⟨gone, hgone⟩ := hsuffix
          have := congrArg List.getLast? hgone
          rwa [List.getLast?_append_of_ne_nil _ (List.cons_ne_nil _ _),
            List.getLast?_concat] at this
        have hcycle : g.IsElementaryCycle (next :: rest) := by
          refine ⟨List.cons_ne_nil _ _, hsuffix.sublist.nodup hnodup, ?_⟩
          rw [Cycle.chain_coe_cons, ← List.cons_append]
          refine List.isChain_append.mpr ⟨hchain.suffix hsuffix, List.isChain_singleton _, ?_⟩
          intro a ha b hb
          rw [hlast, Option.mem_some_iff] at ha
          rw [List.head?_cons, Option.mem_some_iff] at hb
          rw [← ha, ← hb]
          exact hnext
        rw [hc]
        exact ⟨hcycle.of_isRotated (isRotated_rotate _), beginsSmallest_rotate _⟩
      · rw [if_neg hmem] at hc
        by_cases hle : first ≤ next
        · -- the path goes on to a file that is new on it
          rw [if_pos hle] at hc
          have hnew : next ∉ front ++ [current] := by simpa using hmem
          refine ih _ (List.Nodup.append hnodup (List.nodup_singleton _) ?_) ?_ hc
          · simpa using hnew
          · refine List.isChain_append.mpr ⟨hchain, List.isChain_singleton _, ?_⟩
            intro a ha b hb
            rw [List.getLast?_concat, Option.mem_some_iff] at ha
            rw [List.head?_cons, Option.mem_some_iff] at hb
            rw [← ha, ← hb]
            exact hnext
        · rw [if_neg hle] at hc
          cases hc

/-- **Completeness.** If a path is the front of an elementary cycle that begins with its smallest
file, the search that goes on from it finds the cycle. The induction is on what is left of the
cycle, of which each step consumes one file. -/
theorem mem_cyclesAlong {first : String} {c : List String} (hc : g.IsElementaryCycle c)
    (hsmall : BeginsSmallest c) (hfirst : c.head? = some first) :
    ∀ (rear front : List String) {steps : Nat} {current : String},
      c = front ++ [current] ++ rear → rear.length < steps →
      c ∈ g.cyclesAlong first steps (front ++ [current]) current := by
  intro rear
  induction rear with
  | nil =>
      intro front steps current hsplit hsteps
      obtain ⟨steps, rfl⟩ := Nat.exists_eq_succ_of_ne_zero (Nat.ne_of_gt hsteps)
      rw [List.append_nil] at hsplit
      obtain ⟨x, xs, hx⟩ := List.exists_cons_of_ne_nil hc.ne_nil
      have hxfirst : x = first := by
        rw [hx, List.head?_cons, Option.some.injEq] at hfirst
        exact hfirst
      -- the cycle ends here, and its last file depends on the first one
      have hclose : g.DependsOn current first := by
        have hchain := hc.chain
        rw [hx, Cycle.chain_coe_cons, ← List.cons_append, ← hx] at hchain
        obtain ⟨-, -, hlast⟩ := List.isChain_append.mp hchain
        rw [← hxfirst]
        exact hlast current (by rw [hsplit, List.getLast?_concat]; rfl) x rfl
      rw [cyclesAlong, List.mem_flatMap]
      refine ⟨first, hclose, ?_⟩
      rw [← hsplit, if_pos (by rw [hx, hxfirst]; simp), List.mem_singleton]
      have hall : c.dropWhile (· != first) = c := by
        rw [hx, hxfirst]
        simp
      rw [hall, rotate_eq_self hsmall]
  | cons next rear ih =>
      intro front steps current hsplit hsteps
      obtain ⟨steps, rfl⟩ :=
        Nat.exists_eq_succ_of_ne_zero (Nat.ne_of_gt (Nat.lt_of_le_of_lt (Nat.zero_le _) hsteps))
      have hnodup : (front ++ [current] ++ next :: rear).Nodup := hsplit ▸ hc.nodup
      have hnew : next ∉ front ++ [current] := fun hin =>
        (List.nodup_append.mp hnodup).2.2 next hin next List.mem_cons_self rfl
      have hstep : g.DependsOn current next := by
        obtain ⟨x, xs, hx⟩ := List.exists_cons_of_ne_nil hc.ne_nil
        have hchain := hc.chain
        rw [hx, Cycle.chain_coe_cons, ← List.cons_append, ← hx, hsplit] at hchain
        obtain ⟨-, -, hlast⟩ := List.isChain_append.mp hchain.left_of_append
        exact hlast current (by rw [List.getLast?_concat]; rfl) next rfl
      -- no file of the cycle is smaller than the first one, so the search does not leave it out
      have hle : first ≤ next := hsmall first hfirst next (by rw [hsplit]; simp)
      rw [cyclesAlong, List.mem_flatMap]
      refine ⟨next, hstep, ?_⟩
      rw [if_neg (by simpa using hnew), if_pos hle]
      refine ih _ (by rw [hsplit, List.append_assoc _ [next], List.singleton_append]) ?_
      rw [List.length_cons] at hsteps
      omega

/-! ## Graphs that are built -/

/-- The listed elements come from the given list. -/
theorem mem_of_mem_firstOccurrences {x : String} {seen xs : List String}
    (h : x ∈ firstOccurrences seen xs) : x ∈ xs := by
  induction xs generalizing seen with
  | nil => simp [firstOccurrences] at h
  | cons y ys ih =>
      rw [firstOccurrences] at h
      by_cases hy : seen.contains y = true
      · rw [if_pos hy] at h
        exact List.mem_cons_of_mem _ (ih h)
      · rw [if_neg hy] at h
        rcases List.mem_cons.mp h with rfl | h
        · exact List.mem_cons_self
        · exact List.mem_cons_of_mem _ (ih h)

theorem mem_of_resolve? {i : Import} {importer target : String} {candidates : List String}
    (h : i.resolve? importer candidates = some target) : target ∈ candidates := by
  have hfind : ∀ p q : String → Bool,
      (candidates.find? p).or (candidates.find? q) = some target → target ∈ candidates := by
    intro p q hpq
    rcases Option.or_eq_some_iff.mp hpq with h | ⟨-, h⟩
    · exact List.mem_of_find?_eq_some h
    · exact List.mem_of_find?_eq_some h
  rw [Import.resolve?.eq_def] at h
  split at h
  · rw [Option.some.injEq] at h
    rw [h]
    exact List.mem_singleton_self _
  · exact hfind _ _ h

/-- A file depends only on files of the set. -/
theorem mem_of_mem_dependenciesOf {names : List String} {importer name : String}
    {imports : List Import} (h : name ∈ dependenciesOf names importer imports) :
    name ∈ names := by
  obtain ⟨i, -, hi⟩ := List.mem_filterMap.mp (mem_of_mem_firstOccurrences h)
  exact (List.mem_filter.mp (mem_of_resolve? hi)).1

/-- In a graph that is built, the files that others depend on are files of the graph. -/
theorem mem_names_of_dependsOn {files : List (String × String)} {file name : String}
    (h : (build files).DependsOn file name) : name ∈ (build files).names := by
  have hnames : (build files).names = (sources files).map (·.1) := by
    simp only [build, names, List.map_map]
    rfl
  rw [DependsOn, dependencies] at h
  split at h
  · next node hnode =>
      have hmem := List.mem_of_find?_eq_some hnode
      simp only [build, List.mem_map] at hmem
      obtain ⟨entry, ⟨source, -, rfl⟩, rfl⟩ := hmem
      rw [hnames]
      exact mem_of_mem_dependenciesOf h
  · cases h

/-- **The listed cycles.** In any graph that is built, the list holds exactly the elementary
cycles that begin with their smallest file; it is strictly ascending; and every elementary cycle
has exactly one rotation in it. -/
theorem cycles_build (files : List (String × String)) :
    (∀ c, c ∈ (build files).cycles ↔ (build files).IsElementaryCycle c ∧ BeginsSmallest c) ∧
      (build files).cycles.Pairwise (· < ·) ∧
      ∀ c, (build files).IsElementaryCycle c →
        ∃! listed, listed ∈ (build files).cycles ∧ c ~r listed := by
  have hmem : ∀ c, c ∈ (build files).cycles ↔
      (build files).IsElementaryCycle c ∧ BeginsSmallest c := by
    intro c
    rw [cycles, Ascending.mem_ofList id (by simp) Function.injective_id,
      List.mem_flatMap]
    constructor
    · rintro ⟨first, -, hc⟩
      exact isElementaryCycle_of_mem_cyclesAlong [] (List.nodup_singleton _)
        (List.isChain_singleton _) hc
    · rintro ⟨hc, hsmall⟩
      obtain ⟨first, rear, rfl⟩ := List.exists_cons_of_ne_nil hc.ne_nil
      have hnames : ∀ name ∈ first :: rear, name ∈ (build files).names := by
        intro name hname
        obtain ⟨file, hfile⟩ := hc.exists_dependsOn hname
        exact mem_names_of_dependsOn hfile
      -- the files of a cycle are different files of the graph, so there are steps enough
      have hlength : (first :: rear).length ≤ (build files).files.length := by
        have := (hc.nodup.subperm hnames).length_le
        rwa [names, List.length_map] at this
      refine ⟨first, hnames first List.mem_cons_self, ?_⟩
      exact mem_cyclesAlong hc hsmall rfl rear [] rfl
        (Nat.lt_of_lt_of_le (Nat.lt_succ_self _) hlength)
  refine ⟨hmem, Ascending.pairwise_ofList id (by simp) _, fun c hc => ?_⟩
  refine ⟨rotate c, ⟨(hmem _).mpr ⟨hc.of_isRotated (isRotated_rotate c),
    beginsSmallest_rotate c⟩, isRotated_rotate c⟩, ?_⟩
  rintro d ⟨hd, hcd⟩
  obtain ⟨hdcycle, hdsmall⟩ := (hmem d).mp hd
  exact hdcycle.eq_of_isRotated (hcd.symm.trans (isRotated_rotate c)) hdsmall
    (beginsSmallest_rotate c)

end SolidityTools.DependencyGraph

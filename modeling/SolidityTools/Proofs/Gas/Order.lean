import SolidityTools.Proofs.Gas.Estimate
import SolidityTools.Proofs.Outline.Declaration
import SolidityTools.Proofs.Position.Order
import Mathlib.Data.List.Pairwise

set_option autoImplicit false

/-! # The order of the entries of an estimate

The outline lists functions in the order of their names in the source, and the table puts the entry
of a new key at its end. A later function with a key of the table takes the place of the earlier
one, and the place stays where it is. So the keys stand in the order of the first functions that
have them (`pairwise_tableOf`), but each entry describes the last one. The two orders are the same
unless the functions of one key begin in front of all those of another key and end behind them
(`pairwise_described_iff`).
-/

namespace SolidityTools

open Text

/-! ## The order of functions -/

section Functions

variable {ts : List Token} {t : Token} {f : FunctionDeclaration} {sourceLength index : Nat}

theorem offset_of_functionWith {kind : FunctionKind} {name : Token}
    (h : functionWith sourceLength kind index name ts = some f) : f.offset = name.start := by
  unfold functionWith at h
  split at h
  · cases h
  · split at h
    · split at h
      · cases h
      · obtain rfl := Option.some.inj h
        rfl
    · cases h

/-- A function stands at its keyword, or at the name behind it. -/
theorem offset_of_functionDeclaration?
    (h : functionDeclaration? sourceLength index (t :: ts) = some f) :
    f.offset = t.start ∨ ∃ name rest, ts = name :: rest ∧ name.isName = true ∧
      f.offset = name.start := by
  unfold functionDeclaration? at h
  simp only at h
  split at h
  · cases h
  · next name rest _ =>
      split at h
      · next hname => exact Or.inr ⟨name, rest, rfl, hname, offset_of_functionWith h⟩
      · cases h
  · cases h
  · exact Or.inl (offset_of_functionWith h)

/-- Functions that are declared behind a token stand behind it. -/
theorem start_lt_offset_of_mem (hordered : Lexer.Ordered (t :: ts))
    (h : f ∈ functionDeclarations sourceLength index ts) : t.start < f.offset := by
  obtain ⟨u, hu, -, -, hoffset⟩ := (standsIn_of_mem_functionDeclarations h).exists_word
  have hstop := (List.pairwise_cons.mp hordered.pairwise).1 u hu
  have hpos := hordered.start_lt_stop t List.mem_cons_self
  omega

/-- **Functions are listed in the order of their names.** -/
theorem pairwise_functionDeclarations (hordered : Lexer.Ordered ts) :
    (functionDeclarations sourceLength index ts).Pairwise fun f g => f.offset < g.offset := by
  induction ts generalizing index with
  | nil => exact .nil
  | cons t ts ih =>
      have happend : Lexer.Ordered ([t] ++ ts) := hordered
      have hrest : Lexer.Ordered ts := happend.right
      rw [functionDeclarations]
      refine List.pairwise_append.mpr ⟨?_, ih hrest, ?_⟩
      · cases functionDeclaration? sourceLength index (t :: ts) with
        | none => exact .nil
        | some f => exact List.pairwise_singleton _ f
      · intro f hf g hg
        rcases offset_of_functionDeclaration? (Option.mem_toList.mp hf) with
          hoffset | ⟨name, rest, rfl, hname, hoffset⟩
        · rw [hoffset]
          exact start_lt_offset_of_mem hordered hg
        · -- the name itself declares nothing, so the other functions stand behind it
          have hnone : ∀ u ∈ [name], FunctionKind.announced? u = none := by
            intro u hu
            rw [List.mem_singleton.mp hu]
            exact (announced?_eq_none
              (Token.declares_of_kind_ne (Token.kind_ne_of_isName hname).1)).2
          rw [← List.singleton_append, functionDeclarations_append hnone] at hg
          rw [hoffset]
          exact start_lt_offset_of_mem hrest hg

end Functions

namespace Gas

/-! ## The order of the table -/

theorem tableOf_concat (added : List FunctionGas) (entry : FunctionGas) :
    tableOf (added ++ [entry]) = (tableOf added).insert entry := by
  rw [tableOf, List.foldl_append]
  rfl

section Table

variable {α : Type} {as : List α}

/-- **Keys stand in the order in which they first come up.** Of two keys of a table, the first one
comes up in front of all that gives the other one. -/
theorem pairwise_tableOf (entry : α → FunctionGas) {before : α → α → Prop}
    (h : as.Pairwise before) :
    ((tableOf (as.map entry)).map (·.name)).Pairwise fun key key' =>
      ∃ a ∈ as, (entry a).name = key ∧ ∀ b ∈ as, (entry b).name = key' → before a b := by
  induction as using List.reverseRecOn with
  | nil => exact .nil
  | append_singleton as last ih =>
      obtain ⟨has, -, hlast⟩ := List.pairwise_append.mp h
      have hbefore : ∀ a ∈ as, before a last := fun a ha =>
        hlast a ha last (List.mem_singleton_self last)
      -- what comes first among the old elements also comes in front of the new one
      have hold : ((tableOf (as.map entry)).map (·.name)).Pairwise fun key key' =>
          ∃ a ∈ as ++ [last], (entry a).name = key ∧
            ∀ b ∈ as ++ [last], (entry b).name = key' → before a b := by
        refine (ih has).imp ?_
        rintro key key' ⟨a, ha, hkey, hfirst⟩
        refine ⟨a, List.mem_append_left _ ha, hkey, fun b hb hkey' => ?_⟩
        rcases List.mem_append.mp hb with hb | hb
        · exact hfirst b hb hkey'
        · rw [List.mem_singleton.mp hb]
          exact hbefore a ha
      rw [List.map_append, List.map_singleton, tableOf_concat, map_name_insert]
      split
      · exact hold
      · next hnew =>
          refine List.pairwise_append.mpr
            ⟨hold, List.pairwise_singleton _ _, fun key hkey key' h => ?_⟩
          obtain rfl := List.mem_singleton.mp h
          rw [mem_map_name_tableOf] at hkey hnew
          rw [List.map_map] at hkey hnew
          obtain ⟨a, ha, rfl⟩ := List.mem_map.mp hkey
          refine ⟨a, List.mem_append_left _ ha, rfl, fun b hb hkey' => ?_⟩
          rcases List.mem_append.mp hb with hb | hb
          · exact absurd (hkey' ▸ List.mem_map_of_mem hb) hnew
          · rw [List.mem_singleton.mp hb]
            exact hbefore a ha

/-- An entry of a table is the last one that was put in with its key. -/
theorem getLast?_of_mem_tableOf {added : List FunctionGas} {e : FunctionGas}
    (h : e ∈ tableOf added) : (added.filter (·.name == e.name)).getLast? = some e := by
  obtain ⟨e', he'⟩ : ∃ e', (tableOf added).find? (·.name == e.name) = some e' :=
    Option.isSome_iff_exists.mp (List.find?_isSome.mpr ⟨e, h, beq_self_eq_true _⟩)
  have hname : e'.name = e.name := by simpa using List.find?_some he'
  have heq : e' = e :=
    List.inj_on_of_nodup_map (nodup_tableOf added) (List.mem_of_find?_eq_some he') h hname
  rw [← find?_tableOf, he', heq]

end Table

/-! ## The functions that are described -/

section Described

variable {functions : List FunctionDeclaration} {f g : FunctionDeclaration} {key : String}

/-- Two functions have the same name and the same signature. -/
def Alike (f g : FunctionDeclaration) : Prop := f.name = g.name ∧ f.signature = g.signature

instance (f g : FunctionDeclaration) : Decidable (Alike f g) :=
  inferInstanceAs (Decidable (_ ∧ _))

/-- The functions alike one function begin in front of all those alike another one, and end behind
them. -/
def Encloses (functions : List FunctionDeclaration) (f g : FunctionDeclaration) : Prop :=
  ∃ first ∈ functions, ∃ last ∈ functions, Alike first f ∧ Alike last f ∧
    ∀ h ∈ functions, Alike h g → first.offset < h.offset ∧ h.offset < last.offset

instance (functions : List FunctionDeclaration) (f g : FunctionDeclaration) :
    Decidable (Encloses functions f g) :=
  inferInstanceAs (Decidable (∃ first ∈ functions, ∃ last ∈ functions, _ ∧ _ ∧ ∀ h ∈ functions, _))

/-- The last function with a key, which is the one that the entry with the key describes. -/
def lastKnownAs? (functions : List FunctionDeclaration) (key : String) :
    Option FunctionDeclaration :=
  (functions.filter (keyOf functions · == key)).getLast?

theorem lastKnownAs?_eq_some (hordered : functions.Pairwise fun f g => f.offset < g.offset)
    (h : lastKnownAs? functions key = some f) :
    f ∈ functions ∧ keyOf functions f = key ∧
      ∀ g ∈ functions, keyOf functions g = key → g.offset ≤ f.offset := by
  have hmem := List.mem_filter.mp (List.mem_of_getLast? h)
  refine ⟨hmem.1, by simpa using hmem.2, fun g hg hkey => ?_⟩
  have hgmem : g ∈ functions.filter (keyOf functions · == key) :=
    List.mem_filter.mpr ⟨hg, by simpa using hkey⟩
  have hfilter := hordered.filter (keyOf functions · == key)
  obtain ⟨front, hfront⟩ := List.getLast?_eq_some_iff.mp h
  rw [hfront] at hgmem hfilter
  rcases List.mem_append.mp hgmem with hgmem | hgmem
  · have hlt := (List.pairwise_append.mp hfilter).2.2 g hgmem f (List.mem_singleton_self f)
    exact Nat.le_of_lt hlt
  · rw [List.mem_singleton.mp hgmem]

theorem exists_lastKnownAs (hf : f ∈ functions) :
    ∃ last, lastKnownAs? functions (keyOf functions f) = some last := by
  have hmem : f ∈ functions.filter (keyOf functions · == keyOf functions f) :=
    List.mem_filter.mpr ⟨hf, beq_self_eq_true _⟩
  cases hlast : lastKnownAs? functions (keyOf functions f) with
  | some last => exact ⟨last, rfl⟩
  | none =>
      rw [lastKnownAs?, List.getLast?_eq_none_iff] at hlast
      rw [hlast] at hmem
      cases hmem

end Described

variable (weights : GasWeights) {source : String} {f g : FunctionDeclaration}

theorem pairwise_functionsOf (source : String) :
    (functionsOf source).Pairwise fun f g => f.offset < g.offset :=
  (pairwise_functionDeclarations (Lexer.ordered_tokenizeSignificant source)).filter _

theorem alike_iff (hf : f ∈ functionsOf source) (hg : g ∈ functionsOf source) :
    Alike f g ↔ keyOf (functionsOf source) f = keyOf (functionsOf source) g :=
  (keyOf_eq_keyOf_iff hf hg (paren_not_mem_name hf) (paren_not_mem_name hg)).symm

/-- The functions that the entries of an estimate describe, in the order of the entries. -/
def described (weights : GasWeights) (source : String) : List FunctionDeclaration :=
  (estimate weights source).filterMap fun entry => lastKnownAs? (functionsOf source) entry.name

theorem lastKnownAs?_of_mem_estimate {entry : FunctionGas} (h : entry ∈ estimate weights source) :
    ∃ f, lastKnownAs? (functionsOf source) entry.name = some f ∧
      sourceEntry weights source f = entry := by
  rw [estimate_eq_tableOf] at h
  have hlast := getLast?_of_mem_tableOf h
  rw [List.filter_map, List.getLast?_map] at hlast
  exact Option.map_eq_some_iff.mp hlast

theorem map_sourceEntry_described (source : String) :
    (described weights source).map (sourceEntry weights source) = estimate weights source := by
  rw [described, List.map_filterMap]
  refine (List.filterMap_congr fun entry hentry => ?_).trans List.filterMap_some
  obtain ⟨f, hlast, hentry⟩ := lastKnownAs?_of_mem_estimate weights hentry
  rw [hlast, Option.map_some, hentry]

/-- A described function is the last one of its name and signature. -/
theorem lastAlike?_of_mem_described (h : f ∈ described weights source) :
    lastAlike? (functionsOf source) f = some f := by
  obtain ⟨entry, -, hlast⟩ := List.mem_filterMap.mp h
  obtain ⟨hf, hkey, -⟩ := lastKnownAs?_eq_some (pairwise_functionsOf source) hlast
  rw [lastKnownAs?, ← hkey] at hlast
  rw [lastAlike?, ← hlast]
  refine congrArg List.getLast? (List.filter_congr fun g hg => ?_)
  rw [Bool.eq_iff_iff, beq_iff_eq, decide_eq_true_iff]
  exact alike_iff hg hf

/-! ## Source order -/

/-- The first function with a key stands in front of all those with another key. -/
def BeginsBefore (functions : List FunctionDeclaration) (key key' : String) : Prop :=
  ∃ f ∈ functions, keyOf functions f = key ∧
    ∀ g ∈ functions, keyOf functions g = key' → f.offset < g.offset

/-- The last function with a key stands in front of the last one with another key. -/
def EndsBefore (functions : List FunctionDeclaration) (key key' : String) : Prop :=
  ∀ f, lastKnownAs? functions key = some f → ∀ g, lastKnownAs? functions key' = some g →
    f.offset < g.offset

/-- In a list that is ordered by a relation, two different elements are related one way or the
other. -/
theorem rel_or_rel_of_pairwise {α : Type} {r : α → α → Prop} {as : List α} (h : as.Pairwise r)
    {a b : α} (ha : a ∈ as) (hb : b ∈ as) (hne : a ≠ b) : r a b ∨ r b a := by
  have hsymm : Std.Symm fun a b => r a b ∨ r b a := ⟨fun _ _ => Or.symm⟩
  have heither : as.Pairwise fun a b => r a b ∨ r b a := h.imp Or.inl
  exact heither.forall ha hb hne

theorem pairwise_beginsBefore (source : String) :
    ((estimate weights source).map (·.name)).Pairwise (BeginsBefore (functionsOf source)) := by
  rw [estimate_eq_tableOf]
  exact pairwise_tableOf (sourceEntry weights source) (pairwise_functionsOf source)

theorem pairwise_endsBefore_iff (source : String) :
    ((estimate weights source).map (·.name)).Pairwise (EndsBefore (functionsOf source)) ↔
      (described weights source).Pairwise fun f g => f.offset < g.offset := by
  rw [described, List.pairwise_filterMap, List.pairwise_map]
  rfl

theorem encloses_of_not_endsBefore {key key' : String}
    (hbegins : BeginsBefore (functionsOf source) key key')
    (hends : ¬EndsBefore (functionsOf source) key key') :
    ∃ f ∈ functionsOf source, ∃ g ∈ functionsOf source, Encloses (functionsOf source) f g := by
  have hordered := pairwise_functionsOf source
  obtain ⟨first, hfirst, hkey, hbefore⟩ := hbegins
  simp only [EndsBefore, not_forall] at hends
  obtain ⟨f, hlast, g, hlast', hle⟩ := hends
  obtain ⟨hf, hfkey, -⟩ := lastKnownAs?_eq_some hordered hlast
  obtain ⟨hg, hgkey, hglast⟩ := lastKnownAs?_eq_some hordered hlast'
  refine ⟨f, hf, g, hg, first, hfirst, f, hf, (alike_iff hfirst hf).mpr (hkey.trans hfkey.symm),
    ⟨rfl, rfl⟩, fun h hh halike => ?_⟩
  have hhkey : keyOf (functionsOf source) h = key' := ((alike_iff hh hg).mp halike).trans hgkey
  have hne : h.offset ≠ f.offset := by
    intro heq
    have hnodup : ((functionsOf source).map (·.offset)).Nodup :=
      List.pairwise_map.mpr (hordered.imp Nat.ne_of_lt)
    obtain rfl := List.inj_on_of_nodup_map hnodup hh hf heq
    -- then both keys are the same, and its first function would stand in front of itself
    exact absurd (hbefore first hfirst (hkey.trans (hfkey.symm.trans hhkey))) (Nat.lt_irrefl _)
  have hlasth := hglast h hh hhkey
  exact ⟨hbefore h hh hhkey, by omega⟩

/-- A key that is enclosed by another one neither begins in front of it nor ends behind it. -/
theorem Encloses.not_before (hf : f ∈ functionsOf source) (hg : g ∈ functionsOf source)
    (h : Encloses (functionsOf source) f g) :
    ¬BeginsBefore (functionsOf source) (keyOf (functionsOf source) g)
        (keyOf (functionsOf source) f) ∧
      ¬EndsBefore (functionsOf source) (keyOf (functionsOf source) f)
        (keyOf (functionsOf source) g) := by
  have hordered := pairwise_functionsOf source
  obtain ⟨first, hfirst, last, hlast, hfirstAlike, hlastAlike, hbetween⟩ := h
  constructor
  · rintro ⟨a, ha, hkey, hbefore⟩
    have hlt := hbefore first hfirst ((alike_iff hfirst hf).mp hfirstAlike)
    have hgt := (hbetween a ha ((alike_iff ha hg).mpr hkey)).1
    omega
  · intro hends
    obtain ⟨lastf, hlastf⟩ := exists_lastKnownAs hf
    obtain ⟨lastg, hlastg⟩ := exists_lastKnownAs hg
    obtain ⟨-, -, hfends⟩ := lastKnownAs?_eq_some hordered hlastf
    obtain ⟨hlastgmem, hgkey, -⟩ := lastKnownAs?_eq_some hordered hlastg
    have hlt := hends lastf hlastf lastg hlastg
    have hle := hfends last hlast ((alike_iff hlast hf).mp hlastAlike)
    have hgt := (hbetween lastg hlastgmem ((alike_iff hlastgmem hg).mpr hgkey)).2
    omega

/-- **Described functions are in source order unless one key encloses another one.** -/
theorem pairwise_described_iff (source : String) :
    (described weights source).Pairwise (fun f g => f.offset < g.offset) ↔
      ∀ f ∈ functionsOf source, ∀ g ∈ functionsOf source, ¬Encloses (functionsOf source) f g := by
  have hbegins := pairwise_beginsBefore weights source
  rw [← pairwise_endsBefore_iff]
  constructor
  · intro hends f hf g hg hencloses
    obtain ⟨hnotBegins, hnotEnds⟩ := hencloses.not_before hf hg
    have hmem : ∀ {h}, h ∈ functionsOf source →
        keyOf (functionsOf source) h ∈ (estimate weights source).map (·.name) := fun {h} hh =>
      (mem_map_name_estimate_iff weights _).mpr ⟨h, hh, rfl⟩
    by_cases hkey : keyOf (functionsOf source) f = keyOf (functionsOf source) g
    · obtain ⟨first, hfirst, last, -, hfirstAlike, -, hbetween⟩ := hencloses
      have halike := (alike_iff hfirst hg).mpr (((alike_iff hfirst hf).mp hfirstAlike).trans hkey)
      exact absurd (hbetween first hfirst halike).1 (Nat.lt_irrefl _)
    · -- one of the two keys stands in front of the other one
      rcases rel_or_rel_of_pairwise (hbegins.and hends) (hmem hf) (hmem hg) hkey with h | h
      · exact hnotEnds h.2
      · exact hnotBegins h.1
  · intro hnone
    refine (hbegins.imp_of_mem fun {key key'} _ _ hbefore => ?_)
    by_contra hends
    obtain ⟨f, hf, g, hg, hencloses⟩ := encloses_of_not_endsBefore hbefore hends
    exact hnone f hf g hg hencloses

/-- **An estimate is in source order unless one function encloses another one.** The entries are
those of some functions of the source, each the last one of its name and signature, and their keys
stand in the order of the first functions that have them. The functions that are described stand in
the order of the source exactly if there are no two functions of which one comes up in front of
all functions alike the other one and again behind all of them. Then the lines of the entries ascend
as well. -/
theorem estimate_inOrder_iff (weights : GasWeights) (source : String) :
    (estimate weights source = (described weights source).map (sourceEntry weights source) ∧
        ∀ f ∈ described weights source, lastAlike? (functionsOf source) f = some f) ∧
      ((estimate weights source).map (·.name)).Pairwise (BeginsBefore (functionsOf source)) ∧
      ((described weights source).Pairwise (fun f g => f.offset < g.offset) ↔
        ∀ f ∈ functionsOf source, ∀ g ∈ functionsOf source, ¬Encloses (functionsOf source) f g) ∧
      ((∀ f ∈ functionsOf source, ∀ g ∈ functionsOf source,
          ¬Encloses (functionsOf source) f g) →
        ((estimate weights source).map (·.line)).Pairwise (· ≤ ·)) := by
  refine ⟨⟨(map_sourceEntry_described weights source).symm,
    fun f hf => lastAlike?_of_mem_described weights hf⟩, pairwise_beginsBefore weights source,
    pairwise_described_iff weights source, fun hnone => ?_⟩
  have hordered := (pairwise_described_iff weights source).mpr hnone
  rw [← map_sourceEntry_described, List.map_map, List.pairwise_map]
  exact hordered.imp fun hlt => line_positionAt_mono source (Nat.le_of_lt hlt)

/-- A function that comes up again behind another one. -/
theorem not_inOrder_estimate :
    let source := "function f() \x7b \x7d\nfunction g() \x7b \x7d\nfunction f() \x7b \x7d"
    (estimate .standard source).map (fun entry => (entry.name, entry.line)) = [("f", 3), ("g", 2)] ∧
      ¬(described .standard source).Pairwise fun f g => f.offset < g.offset := by
  decide +kernel

/-- Overloads, and a function that comes up again with nothing but itself between. -/
theorem estimate_inOrder_overloads :
    let source :=
      "function f()\x7b\x7d\nfunction f()\x7b\x7d\nfunction g(uint)\x7b\x7d\nfunction g()\x7b\x7d"
    (∀ f ∈ functionsOf source, ∀ g ∈ functionsOf source, ¬Encloses (functionsOf source) f g) ∧
      ((estimate .standard source).map (·.line)).Pairwise (· ≤ ·) ∧
      (estimate .standard source).map (fun entry => (entry.name, entry.line))
        = [("f", 2), ("g(uint)", 3), ("g()", 4)] := by
  intro source
  have hnone : ∀ f ∈ functionsOf source, ∀ g ∈ functionsOf source,
      ¬Encloses (functionsOf source) f g := by decide +kernel
  exact ⟨hnone, (estimate_inOrder_iff .standard source).2.2.2 hnone, by decide +kernel⟩

end Gas

end SolidityTools

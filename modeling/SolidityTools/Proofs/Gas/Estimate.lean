import SolidityTools.Gas.Estimate
import SolidityTools.Proofs.Outline.Place
import SolidityTools.Proofs.Token.Place
import SolidityTools.Proofs.Token.Word
import Mathlib.Data.List.Nodup

set_option autoImplicit false

/-! # No function is lost in an estimate

Names and signatures are keys of one table, so two functions could get into each other's way. They
do not: a signature has a parenthesis and a name has none, so two functions have the same key only
if they have the same name and the same signature (`keyOf_eq_keyOf_iff`). The table itself keeps the
last entry of each key (`find?_tableOf`). Hence each function is found under its key, with the
amount of the last function of its name and signature.
-/

namespace SolidityTools

namespace Lexer

theorem Reads.all_isWordPart {offset : Nat} {cs : List Char} {ts : List Token}
    (h : Reads offset cs ts) {t : Token} (ht : t ∈ ts) (hword : t.isWord = true) :
    t.text.toList.all isWordPart = true := by
  obtain ⟨c, w, rest, htext, -, hlex⟩ := h.exists_lexeme ht
  have hc : isWordStart c = true := isWordStart_of_isWord hword hlex
  rw [htext, List.all_cons, isWordPart_of_isWordStart hc, (runLength_of_lexeme hc hlex).1]
  rfl

end Lexer

namespace Gas

variable {functions : List FunctionDeclaration} {f g : FunctionDeclaration}

/-! ## Keys -/

def Overloaded (functions : List FunctionDeclaration) (name : String) : Prop :=
  ∃ f ∈ functions, ∃ g ∈ functions, f.name = name ∧ g.name = name ∧ f.signature ≠ g.signature

/-- A function is known by its signature if its name is overloaded, and by its bare name if not. -/
def KnownAs (functions : List FunctionDeclaration) (f : FunctionDeclaration) (key : String) :
    Prop :=
  (Overloaded functions f.name ∧ key = f.signature) ∨
    (¬Overloaded functions f.name ∧ key = f.name)

theorem isOverloaded_iff (functions : List FunctionDeclaration) (name : String) :
    isOverloaded functions name = true ↔ Overloaded functions name := by
  have hmem : ∀ f, f ∈ functions.filter (·.name == name) ↔ f ∈ functions ∧ f.name = name := by
    intro f
    rw [List.mem_filter, beq_iff_eq]
  unfold isOverloaded Overloaded
  cases hnamed : functions.filter (·.name == name) with
  | nil =>
      constructor
      · intro h
        cases h
      · rintro ⟨f, hf, g, hg, hfname, hgname, -⟩
        have hnil := (hmem f).mpr ⟨hf, hfname⟩
        rw [hnamed] at hnil
        cases hnil
  | cons first others =>
      have hfirst := (hmem first).mp (hnamed ▸ List.mem_cons_self)
      simp only [List.map_cons, List.any_map, List.any_eq_true, Function.comp_apply, bne_iff_ne]
      constructor
      · rintro ⟨f, hf, hne⟩
        obtain ⟨hf, hfname⟩ := (hmem f).mp (hnamed ▸ List.mem_cons_of_mem first hf)
        exact ⟨f, hf, first, hfirst.1, hfname, hfirst.2, hne⟩
      · -- of two different signatures one is not that of the first function
        rintro ⟨f, hf, g, hg, hfname, hgname, hne⟩
        have hother : ∀ h ∈ functions, h.name = name → h.signature ≠ first.signature →
            h ∈ others := by
          intro h hh hname hne
          have hcons := (hmem h).mpr ⟨hh, hname⟩
          rw [hnamed] at hcons
          rcases List.mem_cons.mp hcons with rfl | hcons
          · exact absurd rfl hne
          · exact hcons
        by_cases hfne : f.signature = first.signature
        · have hgne : g.signature ≠ first.signature := fun h => hne (hfne.trans h.symm)
          exact ⟨g, hother g hg hgname hgne, hgne⟩
        · exact ⟨f, hother f hf hfname hfne, hfne⟩

theorem knownAs_iff (key : String) : KnownAs functions f key ↔ key = keyOf functions f := by
  unfold KnownAs keyOf
  rw [← isOverloaded_iff]
  by_cases h : isOverloaded functions f.name = true
  · simp [h]
  · simp [h]

theorem takeWhile_signature (h : '(' ∉ f.name.toList) :
    f.signature.toList.takeWhile (· != '(') = f.name.toList := by
  have hsplit : f.signature.toList
      = f.name.toList ++ '(' :: ((String.intercalate "," f.paramTypes).toList ++ [')']) := by
    simp [FunctionDeclaration.signature]
  have hname : ∀ c ∈ f.name.toList, (c != '(') = true := by
    intro c hc
    simpa using fun heq : c = '(' => h (heq ▸ hc)
  rw [hsplit, List.takeWhile_append_of_pos hname]
  simp

/-- **Two functions have one key only if they have one name and one signature.** -/
theorem keyOf_eq_keyOf_iff (hf : f ∈ functions) (hg : g ∈ functions)
    (hfname : '(' ∉ f.name.toList) (hgname : '(' ∉ g.name.toList) :
    keyOf functions f = keyOf functions g ↔ f.name = g.name ∧ f.signature = g.signature := by
  have hsignature : ∀ h : FunctionDeclaration, '(' ∈ h.signature.toList := by
    intro h
    simp [FunctionDeclaration.signature]
  constructor
  · intro hkey
    unfold keyOf at hkey
    by_cases hfover : isOverloaded functions f.name = true
    · by_cases hgover : isOverloaded functions g.name = true
      · rw [if_pos hfover, if_pos hgover] at hkey
        refine ⟨?_, hkey⟩
        rw [← String.toList_inj, ← takeWhile_signature hfname, hkey, takeWhile_signature hgname]
      · rw [if_pos hfover, if_neg hgover] at hkey
        exact absurd (hkey ▸ hsignature f) hgname
    · by_cases hgover : isOverloaded functions g.name = true
      · rw [if_neg hfover, if_pos hgover] at hkey
        exact absurd (hkey ▸ hsignature g) hfname
      · rw [if_neg hfover, if_neg hgover] at hkey
        refine ⟨hkey, ?_⟩
        by_contra hne
        exact hfover ((isOverloaded_iff _ _).mpr ⟨f, hf, g, hg, rfl, hkey.symm, hne⟩)
  · rintro ⟨hname, hsignature⟩
    unfold keyOf
    rw [hname, hsignature]

/-! ## The table of entries -/

theorem map_name_insert (entry : FunctionGas) (entries : Estimate) :
    (entries.insert entry).map (·.name)
      = if entry.name ∈ entries.map (·.name) then entries.map (·.name)
        else entries.map (·.name) ++ [entry.name] := by
  induction entries with
  | nil => rfl
  | cons first entries ih =>
      rw [Estimate.insert]
      by_cases hname : first.name = entry.name
      · rw [if_pos (by simpa using hname), if_pos (by simp [hname]), List.map_cons, List.map_cons,
          hname]
      · rw [if_neg (by simpa using hname), List.map_cons, ih]
        by_cases hmem : entry.name ∈ entries.map (·.name)
        · rw [if_pos hmem, if_pos (by simpa using Or.inr (by simpa using hmem))]
          rfl
        · rw [if_neg hmem, if_neg (by simpa [Ne.symm hname] using hmem)]
          rfl

/-- The keys of a table stay different. -/
theorem nodup_insert (entry : FunctionGas) {entries : Estimate}
    (h : (entries.map (·.name)).Nodup) : ((entries.insert entry).map (·.name)).Nodup := by
  rw [map_name_insert]
  split
  · exact h
  · next hmem =>
      refine List.nodup_append.mpr ⟨h, List.nodup_singleton _, ?_⟩
      intro name hname name' hname'
      rw [List.mem_singleton] at hname'
      rw [hname']
      exact fun heq => hmem (heq ▸ hname)

/-- An entry is found under its key from then on, and nothing else changes. -/
theorem find?_insert (entry : FunctionGas) (entries : Estimate) (key : String) :
    (Estimate.insert entry entries).find? (·.name == key)
      = if entry.name = key then some entry else entries.find? (·.name == key) := by
  induction entries with
  | nil =>
      rw [Estimate.insert]
      by_cases hkey : entry.name = key
      · rw [if_pos hkey, List.find?_cons_of_pos (by simpa using hkey)]
      · rw [if_neg hkey, List.find?_cons_of_neg (by simpa using hkey)]
  | cons first entries ih =>
      rw [Estimate.insert]
      by_cases hname : first.name = entry.name
      · rw [if_pos (by simpa using hname)]
        by_cases hkey : entry.name = key
        · rw [if_pos hkey, List.find?_cons_of_pos (by simpa using hkey)]
        · have hfirst : first.name ≠ key := hname ▸ hkey
          rw [if_neg hkey, List.find?_cons_of_neg (by simpa using hkey),
            List.find?_cons_of_neg (by simpa using hfirst)]
      · rw [if_neg (by simpa using hname)]
        by_cases hfirst : first.name = key
        · have hkey : entry.name ≠ key := fun h => hname (hfirst.trans h.symm)
          rw [if_neg hkey, List.find?_cons_of_pos (by simpa using hfirst),
            List.find?_cons_of_pos (by simpa using hfirst)]
        · rw [List.find?_cons_of_neg (by simpa using hfirst), ih,
            List.find?_cons_of_neg (by simpa using hfirst)]

def tableOf (added : List FunctionGas) : Estimate :=
  added.foldl (fun entries entry => Estimate.insert entry entries) []

/-- **The last entry with a key is the one that is found.** -/
theorem find?_tableOf (added : List FunctionGas) (key : String) :
    (tableOf added).find? (·.name == key) = (added.filter (·.name == key)).getLast? := by
  have hfold : ∀ entries : Estimate,
      (added.foldl (fun entries entry => Estimate.insert entry entries) entries).find?
          (·.name == key)
        = ((added.filter (·.name == key)).getLast?).or (entries.find? (·.name == key)) := by
    induction added with
    | nil => exact fun entries => rfl
    | cons entry added ih =>
        intro entries
        rw [List.foldl_cons, ih, find?_insert, List.filter_cons]
        by_cases hkey : entry.name = key
        · rw [if_pos hkey, if_pos (by simpa using hkey), List.getLast?_cons]
          cases (added.filter (·.name == key)).getLast? with
          | none => rfl
          | some last => rfl
        · rw [if_neg hkey, if_neg (by simpa using hkey)]
  exact (hfold []).trans (Option.or_none)

theorem mem_map_name_tableOf (added : List FunctionGas) (key : String) :
    key ∈ (tableOf added).map (·.name) ↔ key ∈ added.map (·.name) := by
  have hfound : ∀ entries : List FunctionGas, key ∈ entries.map (·.name) ↔
      ∃ entry ∈ entries, (entry.name == key) = true := by
    intro entries
    simp
  rw [hfound, hfound, ← List.find?_isSome, find?_tableOf, Option.isSome_iff_ne_none, Ne,
    List.getLast?_eq_none_iff, List.filter_eq_nil_iff]
  simp

/-- The keys of a table are different. -/
theorem nodup_tableOf (added : List FunctionGas) : ((tableOf added).map (·.name)).Nodup := by
  have hfold : ∀ entries : Estimate, (entries.map (·.name)).Nodup →
      ((added.foldl (fun entries entry => Estimate.insert entry entries) entries).map
        (·.name)).Nodup := by
    induction added with
    | nil => exact fun entries h => h
    | cons entry added ih => exact fun entries h => ih _ (nodup_insert entry h)
  exact hfold [] List.nodup_nil

/-! ## Estimates -/

def functionsOf (source : String) : List FunctionDeclaration := estimated (.ofSource source)

/-- The last function with the name and the signature of a function. -/
def lastAlike? (functions : List FunctionDeclaration) (f : FunctionDeclaration) :
    Option FunctionDeclaration :=
  (functions.filter fun g => g.name = f.name ∧ g.signature = f.signature).getLast?

theorem exists_lastAlike (hf : f ∈ functions) :
    ∃ last ∈ functions, lastAlike? functions f = some last ∧ last.name = f.name ∧
      last.signature = f.signature := by
  have hmem : f ∈ functions.filter fun g => g.name = f.name ∧ g.signature = f.signature :=
    List.mem_filter.mpr ⟨hf, by simp⟩
  cases hlast : lastAlike? functions f with
  | none =>
      rw [lastAlike?, List.getLast?_eq_none_iff] at hlast
      rw [hlast] at hmem
      cases hmem
  | some last =>
      have hfilter := List.mem_filter.mp (List.mem_of_getLast? hlast)
      exact ⟨last, hfilter.1, rfl, of_decide_eq_true hfilter.2⟩

variable {source : String} (weights : GasWeights)

/-- The entry of a function of a source text. -/
def sourceEntry (weights : GasWeights) (source : String) : FunctionDeclaration → FunctionGas :=
  entryOf weights source (.ofSource source)

theorem estimate_eq_tableOf (source : String) :
    estimate weights source = tableOf ((functionsOf source).map (sourceEntry weights source)) := by
  rw [tableOf, List.foldl_map]
  rfl

/-- The names of functions are words. -/
theorem paren_not_mem_name (hf : f ∈ functionsOf source) : '(' ∉ f.name.toList := by
  have hmem : f ∈ (Outline.ofSource source).functions := (List.mem_filter.mp hf).1
  obtain ⟨t, ht, hword, hname, -⟩ := (standsIn_of_mem_functionDeclarations hmem).exists_word
  have hreads := Lexer.reads_significantTokens 0 source.toList
  have hall := hreads.all_isWordPart ht hword
  rw [hname]
  intro hparen
  cases List.all_eq_true.mp hall _ hparen

/-- What is found under the key of a function is the entry of the last function alike. -/
theorem find?_estimate (hf : f ∈ functionsOf source) :
    (estimate weights source).find? (·.name == keyOf (functionsOf source) f)
      = (lastAlike? (functionsOf source) f).map (sourceEntry weights source) := by
  have halike : ∀ g ∈ functionsOf source,
      ((·.name == keyOf (functionsOf source) f) ∘ sourceEntry weights source) g
        = decide (g.name = f.name ∧ g.signature = f.signature) := by
    intro g hg
    rw [Bool.eq_iff_iff, Function.comp_apply, beq_iff_eq, decide_eq_true_iff]
    exact keyOf_eq_keyOf_iff hg hf (paren_not_mem_name hg) (paren_not_mem_name hf)
  calc (estimate weights source).find? (·.name == keyOf (functionsOf source) f)
      = (((functionsOf source).map (sourceEntry weights source)).filter
          (·.name == keyOf (functionsOf source) f)).getLast? := by
        rw [estimate_eq_tableOf, find?_tableOf]
    _ = ((functionsOf source).filter
          ((·.name == keyOf (functionsOf source) f) ∘ sourceEntry weights source)).getLast?.map
            (sourceEntry weights source) := by
        rw [List.filter_map, List.getLast?_map]
    _ = (lastAlike? (functionsOf source) f).map (sourceEntry weights source) := by
        rw [lastAlike?, List.filter_congr halike]

theorem mem_map_name_estimate_iff (key : String) :
    key ∈ (estimate weights source).map (·.name) ↔
      ∃ f ∈ functionsOf source, key = keyOf (functionsOf source) f := by
  rw [estimate_eq_tableOf, mem_map_name_tableOf, List.map_map, List.mem_map]
  constructor
  · rintro ⟨f, hf, rfl⟩
    exact ⟨f, hf, rfl⟩
  · rintro ⟨f, hf, rfl⟩
    exact ⟨f, hf, rfl⟩

/-- **An estimate has each function under its key.** The keys are different from one another, and
they are exactly the keys of the functions with a body. Under the key of a function stands what is
counted in the last function of the same name and signature, with its amount and the line of its
name, and this is the amount that the key yields. -/
theorem estimate_contents (weights : GasWeights) (source : String) :
    ((estimate weights source).map (·.name)).Nodup ∧
      (∀ key, key ∈ (estimate weights source).map (·.name) ↔
        ∃ f ∈ functionsOf source, KnownAs (functionsOf source) f key) ∧
      ∀ f ∈ functionsOf source, ∀ key, KnownAs (functionsOf source) f key →
        ∃ last, lastAlike? (functionsOf source) f = some last ∧
          ∃ entry ∈ estimate weights source, entry.name = key ∧
            entry.breakdown = bodyCounts (Outline.ofSource source).isMutableState last.bodyTokens ∧
            entry.readOnly = last.mutability.isReadOnly ∧
            entry.gas = entry.breakdown.total weights entry.readOnly ∧
            entry.line = (positionAt source last.offset).line ∧
            (estimate weights source).get? key = some entry.gas := by
  refine ⟨?_, ?_, ?_⟩
  · rw [estimate_eq_tableOf]
    exact nodup_tableOf _
  · intro key
    rw [mem_map_name_estimate_iff]
    simp only [knownAs_iff]
  · intro f hf key hkey
    obtain rfl := (knownAs_iff key).mp hkey
    obtain ⟨last, hmem, hlast, hname, hsignature⟩ := exists_lastAlike hf
    have hfound := find?_estimate weights hf
    rw [hlast, Option.map_some] at hfound
    refine ⟨last, hlast, sourceEntry weights source last, List.mem_of_find?_eq_some hfound, ?_, rfl,
      rfl, rfl, rfl, ?_⟩
    · have hkey := List.find?_some hfound
      exact beq_iff_eq.mp hkey
    · rw [Estimate.get?, hfound]
      rfl

end Gas

end SolidityTools

import SolidityTools.Proofs.Lint.Phrase
import SolidityTools.Proofs.Lint.UncheckedCall

set_option autoImplicit false

/-! # Which block values are reported

Block values are looked for in the group of every condition and of every hash call, each group being
searched as a text of its own. This finds what a search of the whole masked text finds there: a
value begins with a letter and closes no group, so it cannot reach over the edge of one
(`mem_placesInGroup_iff`). Groups may lie in each other. A value is reported for the first group
that has it, and the conditions come first (`blockValues_iff`).
-/

namespace SolidityTools.Lint

open Text

/-! ## Values in groups -/

theorem getLast?_groupText {depth : Nat} {cs X : List Char} (h : cs = groupText depth cs ++ X)
    (hX : X ≠ []) : (groupText depth cs).getLast? = some ')' := by
  induction cs generalizing depth with
  | nil => exact absurd (List.append_eq_nil_iff.mp h.symm).2 hX
  | cons c cs ih =>
      have hnext : ∀ {n}, c :: cs = c :: groupText n cs ++ X →
          (c :: groupText n cs).getLast? = some ')' := by
        intro n hsplit
        have hlast := ih (List.cons.inj hsplit).2
        rw [List.getLast?_cons, hlast]
        rfl
      rw [groupText] at h ⊢
      split at h
      · next hopen =>
          rw [if_pos hopen]
          exact hnext h
      · next hopen =>
          rw [if_neg hopen]
          split at h
          · next hclose =>
              rw [if_pos hclose]
              split at h
              · next hdepth =>
                  rw [if_pos hdepth, beq_iff_eq.mp hclose]
                  rfl
              · next hdepth =>
                  rw [if_neg hdepth]
                  exact hnext h
          · next hclose =>
              rw [if_neg hclose]
              exact hnext h

/-- A value lies in the group of a header, from its first character to its last. -/
def Hit.Covers (header : Hit String) (value : Hit Unit) : Prop :=
  header.groupStart ≤ value.start ∧
    value.start + byteLength value.phrase ≤ header.groupStart + byteLength header.group

instance (header : Hit String) (value : Hit Unit) : Decidable (header.Covers value) :=
  inferInstanceAs (Decidable (_ ∧ _))

section Group

variable {words : List String} {pattern : Pattern Unit} {heads : List Char}
  {P : List Char → Option Char → Prop} {text : List Char} {header : Hit String}

theorem HeaderAt.exists_group
    (h : HeaderAt words text header.before.reverse header.phrase header.behind) :
    ∃ front X, text = front ++ (header.group ++ X) ∧ header.groupStart = byteLength front ∧
      (X ≠ [] → header.group.getLast? = some ')') := by
  obtain ⟨lead, hlead⟩ := h.phrase.exists_append
  obtain ⟨X, hX⟩ := exists_append_groupText 0 ('(' :: header.behind)
  refine ⟨header.before.reverse ++ lead, X, ?_, Hit.groupStart_eq hlead, getLast?_groupText hX⟩
  rw [Hit.group, ← hX, h.eq_append, hlead]
  simp

/-- A value in a group stands in the text around it: the group begins in front of it and ends behind
it, so the characters next to the value are the same. -/
theorem stands_group_iff (hpattern : pattern.Spells heads P) (front : List Char)
    {group X : List Char} (hopen : group.head? = some '(')
    (hclosed : X ≠ [] → group.getLast? = some ')')
    {before phrase behind : List Char} (hsplit : group = before.reverse ++ (phrase ++ behind)) :
    Hit.Stands ⟨before, (), phrase, behind⟩ P group ↔
      Hit.Stands ⟨before ++ front.reverse, (), phrase, behind ++ X⟩ P (front ++ (group ++ X)) := by
  have hbefore : ∀ {next}, P phrase next → (before ++ front.reverse).head? = before.head? := by
    intro next hphrase
    cases before with
    | cons c before => rfl
    | nil =>
        obtain ⟨c, w, rfl, hc⟩ := hpattern.head hphrase
        rw [hsplit] at hopen
        obtain rfl : c = '(' := Option.some.inj hopen
        exact absurd (hpattern.letters _ hc).1 (by decide)
  have hbehind : ∀ {next}, P phrase next → (behind ++ X).head? = behind.head? := by
    intro next hphrase
    cases behind with
    | cons c behind => rfl
    | nil =>
        by_cases hX : X = []
        · rw [hX]
          rfl
        · obtain ⟨c, w, hw, -⟩ := hpattern.head hphrase
          have hne : phrase ≠ [] := by
            rw [hw]
            exact List.cons_ne_nil c w
          have hlast := hclosed hX
          rw [hsplit, List.append_nil, List.getLast?_append_of_ne_nil _ hne] at hlast
          exact absurd (List.mem_of_getLast? hlast) (hpattern.closer_not_mem hphrase)
  constructor
  · rintro ⟨-, hboundary, hphrase⟩
    refine ⟨by simp [hsplit], ?_, ?_⟩
    · rwa [hbefore hphrase]
    · rwa [hbehind hphrase]
  · rintro ⟨-, hboundary, hphrase⟩
    refine ⟨hsplit, ?_, ?_⟩
    · rwa [hbefore hphrase] at hboundary
    · rwa [hbehind hphrase] at hphrase

theorem Hit.head?_group (header : Hit String) : header.group.head? = some '(' := by
  rw [Hit.group, groupText_opener]
  rfl

/-- **Searching a group finds what searching the text finds in it.** -/
theorem mem_placesInGroup_iff (hpattern : pattern.Spells heads P)
    (hheader : HeaderAt words text header.before.reverse header.phrase header.behind)
    {offset : Nat} :
    offset ∈ placesInGroup pattern header ↔
      ∃ value ∈ pattern.hits text, value.start = offset ∧ header.Covers value := by
  obtain ⟨front, X, rfl, hstart, hclosed⟩ := hheader.exists_group
  rw [placesInGroup, List.mem_map]
  constructor
  · rintro ⟨⟨before, ⟨⟩, phrase, behind⟩, hhit, rfl⟩
    have hstands := hpattern.mem_hits_iff.mp hhit
    have hsplit : header.group = before.reverse ++ (phrase ++ behind) := hstands.eq_append
    have hstands' := (stands_group_iff hpattern front header.head?_group hclosed hsplit).mp hstands
    have hplace : byteLength (before ++ front.reverse)
        = header.groupStart + byteLength before := by
      rw [hstart, byteLength_append, byteLength_reverse, Nat.add_comm]
    refine ⟨_, hpattern.mem_hits_iff.mpr hstands', hplace, ?_, ?_⟩
    · rw [Hit.start, hplace]
      omega
    · rw [Hit.start, hplace, hsplit]
      simp only [byteLength_append, byteLength_reverse]
      omega
  · rintro ⟨value, hhit, rfl, hle, hend⟩
    have hstands := hpattern.mem_hits_iff.mp hhit
    rw [hstart, value.start_eq] at hle hend
    -- the value begins behind the beginning of the group, and its end leaves a rest of the group
    obtain ⟨m, hm, hgroup⟩ := Lexer.exists_append_of_byteLength_le hstands.eq_append hle
    rw [hm, byteLength_append] at hend
    have hsplit : (m ++ value.phrase) ++ value.behind = header.group ++ X := by
      rw [hgroup, List.append_assoc]
    obtain ⟨rest, hrest, hbehind⟩ := Lexer.exists_append_of_byteLength_le hsplit (by
      rw [byteLength_append]
      omega)
    rw [List.append_assoc] at hrest
    have hvalue : value = ⟨m.reverse ++ front.reverse, (), value.phrase, rest ++ X⟩ := by
      rw [← hbehind, ← List.reverse_append, ← hm, List.reverse_reverse]
    rw [hvalue] at hstands
    refine ⟨⟨m.reverse, (), value.phrase, rest⟩, hpattern.mem_hits_iff.mpr ?_, ?_⟩
    · refine (stands_group_iff hpattern front header.head?_group hclosed ?_).mpr hstands
      rw [List.reverse_reverse, hrest]
    · rw [hstart, value.start_eq, hm, byteLength_append, Hit.start, byteLength_reverse]

/-- A value that lies in a group begins between its parentheses. -/
theorem encloses_of_covers (hpattern : pattern.Spells heads P)
    (hheader : HeaderAt words text header.before.reverse header.phrase header.behind)
    {value : Hit Unit} (hhit : value ∈ pattern.hits text) (h : header.Covers value) :
    header.Encloses value.start := by
  obtain ⟨front, X, rfl, hstart, -⟩ := hheader.exists_group
  have hstands := hpattern.mem_hits_iff.mp hhit
  obtain ⟨c, w, hphrase, hc⟩ := hpattern.head hstands.phrase
  have hpos := Lexer.byteLength_pos (List.cons_ne_nil c w)
  obtain ⟨hle, hend⟩ := h
  rw [hphrase] at hend
  refine ⟨Nat.lt_of_le_of_ne hle fun heq => ?_, by omega⟩
  rw [hstart, value.start_eq] at heq
  have hgroup := hstands.eq_append
  rw [Lexer.eq_of_byteLength_eq hgroup heq] at hgroup
  have hhead := congrArg List.head? (List.append_cancel_left hgroup)
  rw [List.head?_append, header.head?_group, hphrase] at hhead
  obtain rfl : '(' = c := Option.some.inj hhead
  exact absurd (hpattern.letters _ hc).1 (by decide)

/-- A value lies in a group if it begins there. -/
theorem covers_of_encloses (hpattern : pattern.Spells heads P)
    (hheader : HeaderAt words text header.before.reverse header.phrase header.behind)
    {value : Hit Unit} (hhit : value ∈ pattern.hits text) (h : header.Encloses value.start) :
    header.Covers value := by
  obtain ⟨front, X, rfl, hstart, hclosed⟩ := hheader.exists_group
  have hstands := hpattern.mem_hits_iff.mp hhit
  obtain ⟨hopen, hend⟩ := h
  refine ⟨hopen.le, ?_⟩
  by_contra hreach
  rw [hstart, value.start_eq] at hopen hend hreach
  obtain ⟨m, hm, hgroup⟩ := Lexer.exists_append_of_byteLength_le hstands.eq_append hopen.le
  rw [hm, byteLength_append] at hend hreach
  -- otherwise the end of the group belongs to the value, but a value closes no group
  obtain ⟨inside, hinside, hphrase⟩ := Lexer.exists_append_of_byteLength_le hgroup.symm (by omega)
  rw [hinside, byteLength_append] at hend hreach
  obtain ⟨beyond, hbeyond, hX⟩ := Lexer.exists_append_of_byteLength_le hphrase.symm (by omega)
  have hinside' : inside ≠ [] := by
    rintro rfl
    rw [byteLength_nil] at hend
    omega
  have hX' : X ≠ [] := by
    intro hnil
    rw [(List.append_eq_nil_iff.mp (hX.symm.trans hnil)).1, List.append_nil] at hbeyond
    rw [hbeyond] at hreach
    omega
  have hlast := hclosed hX'
  rw [hinside, List.getLast?_append_of_ne_nil _ hinside'] at hlast
  refine hpattern.closer_not_mem hstands.phrase ?_
  rw [hbeyond]
  exact List.mem_append_left _ (List.mem_of_getLast? hlast)

end Group

/-! ## The first finding at each offset -/

section FirstAtEachOffset

variable {seen : List Nat} {fs gs : List Finding} {offset : Nat} {f : Finding}

/-- Every offset is kept, but for those already taken. -/
theorem mem_offsets_firstAtEachOffset_iff :
    offset ∈ (firstAtEachOffset seen fs).map (·.offset) ↔
      offset ∉ seen ∧ offset ∈ fs.map (·.offset) := by
  induction fs generalizing seen with
  | nil => simp [firstAtEachOffset]
  | cons f fs ih =>
      rw [firstAtEachOffset]
      split
      · next hseen =>
          have hseen : f.offset ∈ seen := by simpa using hseen
          rw [ih, List.map_cons, List.mem_cons]
          refine and_congr_right fun hoffset => (or_iff_right ?_).symm
          rintro rfl
          exact hoffset hseen
      · next hseen =>
          have hseen : f.offset ∉ seen := by simpa using hseen
          rw [List.map_cons, List.mem_cons, ih, List.map_cons, List.mem_cons, List.mem_cons]
          by_cases hoffset : offset = f.offset
          · simp [hoffset, hseen]
          · simp [hoffset]

/-- No two findings are kept at one offset. -/
theorem nodup_offsets_firstAtEachOffset :
    ((firstAtEachOffset seen fs).map (·.offset)).Nodup := by
  induction fs generalizing seen with
  | nil => exact .nil
  | cons f fs ih =>
      rw [firstAtEachOffset]
      split
      · exact ih
      · rw [List.map_cons, List.nodup_cons]
        refine ⟨fun hmem => ?_, ih⟩
        exact (mem_offsets_firstAtEachOffset_iff.mp hmem).1 List.mem_cons_self

/-- A finding of a later list is kept only where none of an earlier list is. -/
theorem mem_or_of_mem_firstAtEachOffset (h : f ∈ firstAtEachOffset seen (fs ++ gs)) :
    f ∈ fs ∨ f ∈ gs ∧ f.offset ∉ fs.map (·.offset) := by
  induction fs generalizing seen with
  | nil => exact Or.inr ⟨(firstAtEachOffset_sublist seen gs).subset h, List.not_mem_nil⟩
  | cons g fs ih =>
      have hnext : ∀ {seen'}, g.offset ∈ seen' → f ∈ firstAtEachOffset seen' (fs ++ gs) →
          f ∈ g :: fs ∨ f ∈ gs ∧ f.offset ∉ (g :: fs).map (·.offset) := by
        intro seen' hg hf
        have hfree := (mem_offsets_firstAtEachOffset_iff.mp (List.mem_map_of_mem hf)).1
        refine (ih hf).imp (List.mem_cons_of_mem g) fun ⟨hgs, hfs⟩ => ⟨hgs, ?_⟩
        rw [List.map_cons, List.mem_cons, not_or]
        refine ⟨fun heq => hfree ?_, hfs⟩
        rwa [heq]
      rw [List.cons_append, firstAtEachOffset] at h
      split at h
      · next hseen => exact hnext (by simpa using hseen) h
      · rcases List.mem_cons.mp h with rfl | h
        · exact Or.inl List.mem_cons_self
        · exact hnext List.mem_cons_self h

end FirstAtEachOffset

/-! ## Reports -/

def blockValueHits (text : List Char) : List (Hit Unit) :=
  Pattern.blockTime.hits text ++ Pattern.blockRandomness.hits text

section Reports

variable {text : List Char} {header : Hit String}

/-- A header of a condition or of a hash call stands in the text. -/
theorem exists_headerAt_of_mem
    (h : header ∈ Pattern.condition.hits text ++ Pattern.hashing.hits text) :
    ∃ words, HeaderAt words text header.before.reverse header.phrase header.behind := by
  rcases List.mem_append.mp h with h | h
  · exact ⟨_, headerAt_of_mem_hits keywords_guardWords h⟩
  · have hhashing : Keywords ["keccak256"] := by decide
    exact ⟨_, headerAt_of_mem_hits hhashing h⟩

/-- The places looked at in the group of a header. -/
theorem mem_places_iff {words : List String}
    (hheader : HeaderAt words text header.before.reverse header.phrase header.behind)
    {offset : Nat} :
    offset ∈ placesInGroup Pattern.blockTime header ++
        placesInGroup Pattern.blockRandomness header ↔
      ∃ value ∈ blockValueHits text, value.start = offset ∧ header.Covers value := by
  rw [List.mem_append, mem_placesInGroup_iff Pattern.blockTime_spells hheader,
    mem_placesInGroup_iff Pattern.blockRandomness_spells hheader]
  simp only [blockValueHits, List.mem_append, or_and_right, exists_or]

/-- A value lies in a group exactly if it begins between the parentheses. -/
theorem covers_iff_encloses {words : List String}
    (hheader : HeaderAt words text header.before.reverse header.phrase header.behind)
    {value : Hit Unit} (hvalue : value ∈ blockValueHits text) :
    header.Covers value ↔ header.Encloses value.start := by
  rcases List.mem_append.mp hvalue with hvalue | hvalue
  · exact ⟨encloses_of_covers Pattern.blockTime_spells hheader hvalue,
      covers_of_encloses Pattern.blockTime_spells hheader hvalue⟩
  · exact ⟨encloses_of_covers Pattern.blockRandomness_spells hheader hvalue,
      covers_of_encloses Pattern.blockRandomness_spells hheader hvalue⟩

/-- The findings of a group stand where its values do, whichever messages they carry. -/
theorem offsets_conditionFindings (header : Hit String) :
    (conditionFindings header).map (·.offset) =
      placesInGroup Pattern.blockTime header ++ placesInGroup Pattern.blockRandomness header := by
  simp [conditionFindings, Function.comp_def]

theorem offsets_hashFindings (header : Hit String) :
    (hashFindings header).map (·.offset) =
      placesInGroup Pattern.blockTime header ++ placesInGroup Pattern.blockRandomness header := by
  simp [hashFindings, Function.comp_def]

/-- What is found in some groups, before places that are found twice are taken out. -/
theorem mem_offsets_flatMap_iff {findings : Hit String → List Finding} {headers : List (Hit String)}
    (hfindings : ∀ header, (findings header).map (·.offset) =
      placesInGroup Pattern.blockTime header ++ placesInGroup Pattern.blockRandomness header)
    (hheaders : headers ⊆ Pattern.condition.hits text ++ Pattern.hashing.hits text) {offset : Nat} :
    offset ∈ (headers.flatMap findings).map (·.offset) ↔
      ∃ value ∈ blockValueHits text, value.start = offset ∧
        ∃ header ∈ headers, header.Covers value := by
  rw [List.map_flatMap, List.mem_flatMap]
  constructor
  · rintro ⟨header, hheader, hoffset⟩
    obtain ⟨words, hstands⟩ := exists_headerAt_of_mem (hheaders hheader)
    rw [hfindings, mem_places_iff hstands] at hoffset
    obtain ⟨value, hvalue, hstart, hcovers⟩ := hoffset
    exact ⟨value, hvalue, hstart, header, hheader, hcovers⟩
  · rintro ⟨value, hvalue, hstart, header, hheader, hcovers⟩
    obtain ⟨words, hstands⟩ := exists_headerAt_of_mem (hheaders hheader)
    refine ⟨header, hheader, ?_⟩
    rw [hfindings, mem_places_iff hstands]
    exact ⟨value, hvalue, hstart, hcovers⟩

/-- What a finding in a condition says: which sort of value stands there. -/
def SaysControlFlow (text : List Char) (f : Finding) : Prop :=
  (f.message = "Control flow depends on the block timestamp, which miners can skew" ∧
      ∃ value ∈ Pattern.blockTime.hits text, value.start = f.offset) ∨
    f.message = "Control flow depends on a predictable block value" ∧
      ∃ value ∈ Pattern.blockRandomness.hits text, value.start = f.offset

theorem saysControlFlow_of_mem {f : Finding} (hheader : header ∈ Pattern.condition.hits text)
    (h : f ∈ conditionFindings header) : SaysControlFlow text f := by
  have hstands := headerAt_of_mem_hits keywords_guardWords hheader
  rcases List.mem_append.mp h with h | h
  · obtain ⟨offset, hoffset, rfl⟩ := List.mem_map.mp h
    obtain ⟨value, hvalue, hstart, -⟩ :=
      (mem_placesInGroup_iff Pattern.blockTime_spells hstands).mp hoffset
    exact Or.inl ⟨rfl, value, hvalue, hstart⟩
  · obtain ⟨offset, hoffset, rfl⟩ := List.mem_map.mp h
    obtain ⟨value, hvalue, hstart, -⟩ :=
      (mem_placesInGroup_iff Pattern.blockRandomness_spells hstands).mp hoffset
    exact Or.inr ⟨rfl, value, hvalue, hstart⟩

end Reports

/-- **Which block values are reported.** No two findings have the same offset. A finding stands
exactly where a time or a source of randomness lies in the group of a condition or of a hash call,
however the groups lie in each other. The finding is about control flow if the place lies in any
condition, whether or not in a hash call as well, and about randomness if it lies in hash calls
only. -/
theorem blockValues_iff (settings : LintSettings) (source : String) :
    let s := Subject.ofSource settings source
    let conditions := Pattern.condition.hits s.masked
    let hashes := Pattern.hashing.hits s.masked
    ((blockValues s).map (·.offset)).Nodup ∧
      (∀ offset, offset ∈ (blockValues s).map (·.offset) ↔
        ∃ value ∈ blockValueHits s.masked, value.start = offset ∧
          ∃ header ∈ conditions ++ hashes, header.Covers value) ∧
      ∀ f ∈ blockValues s,
        ((∃ header ∈ conditions, header.Encloses f.offset) → SaysControlFlow s.masked f) ∧
          ((¬∃ header ∈ conditions, header.Encloses f.offset) →
            f.message = "Block values are not a source of randomness") := by
  intro s conditions hashes
  have hconditions : ∀ offset, offset ∈ (conditions.flatMap conditionFindings).map (·.offset) ↔
      ∃ value ∈ blockValueHits s.masked, value.start = offset ∧
        ∃ header ∈ conditions, header.Covers value := fun offset =>
    mem_offsets_flatMap_iff offsets_conditionFindings (List.subset_append_left _ _)
  have hhashes : ∀ offset, offset ∈ (hashes.flatMap hashFindings).map (·.offset) ↔
      ∃ value ∈ blockValueHits s.masked, value.start = offset ∧
        ∃ header ∈ hashes, header.Covers value := fun offset =>
    mem_offsets_flatMap_iff offsets_hashFindings (List.subset_append_right _ _)
  have hoffsets : ∀ offset, offset ∈ (blockValues s).map (·.offset) ↔
      ∃ value ∈ blockValueHits s.masked, value.start = offset ∧
        ∃ header ∈ conditions ++ hashes, header.Covers value := by
    intro offset
    rw [blockValues, mem_offsets_firstAtEachOffset_iff, List.map_append, List.mem_append]
    rw [hconditions, hhashes]
    simp only [List.not_mem_nil, not_false_eq_true, true_and, List.mem_append, or_and_right,
      exists_or, and_or_left]
  refine ⟨nodup_offsets_firstAtEachOffset, hoffsets, fun f hf => ?_⟩
  -- a place that a condition encloses is found in that condition
  have henclosed : (∃ header ∈ conditions, header.Encloses f.offset) ↔
      f.offset ∈ (conditions.flatMap conditionFindings).map (·.offset) := by
    have hstands : ∀ {header}, header ∈ conditions → HeaderAt guardWords s.masked
        header.before.reverse header.phrase header.behind :=
      fun hheader => headerAt_of_mem_hits keywords_guardWords hheader
    rw [hconditions]
    constructor
    · rintro ⟨header, hheader, hencloses⟩
      obtain ⟨value, hvalue, hstart, -⟩ := (hoffsets _).mp (List.mem_map_of_mem hf)
      refine ⟨value, hvalue, hstart, header, hheader, ?_⟩
      rwa [covers_iff_encloses (hstands hheader) hvalue, hstart]
    · rintro ⟨value, hvalue, hstart, header, hheader, hcovers⟩
      refine ⟨header, hheader, ?_⟩
      rwa [covers_iff_encloses (hstands hheader) hvalue, hstart] at hcovers
  rw [henclosed]
  rcases mem_or_of_mem_firstAtEachOffset hf with hcondition | ⟨hhash, hfree⟩
  · refine ⟨fun _ => ?_, fun hnot => absurd (List.mem_map_of_mem hcondition) hnot⟩
    obtain ⟨header, hheader, hf⟩ := List.mem_flatMap.mp hcondition
    exact saysControlFlow_of_mem hheader hf
  · refine ⟨fun hin => absurd hin hfree, fun _ => ?_⟩
    obtain ⟨header, -, hf⟩ := List.mem_flatMap.mp hhash
    obtain ⟨offset, -, rfl⟩ := List.mem_map.mp hf
    rfl

/-- A value in a hash call in a condition is found in both, and reported for the condition. -/
example : blockValues (.ofSource .standard "require(keccak256(now));")
    = [⟨18, "Control flow depends on the block timestamp, which miners can skew"⟩] := by
  decide +kernel

end SolidityTools.Lint

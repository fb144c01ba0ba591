import SolidityTools.Proofs.Lint.Guard

set_option autoImplicit false

/-! # Phrases that do not cover each other

The values of the transaction and the block are written as a word with a member, as a single word or
as a call. All these phrases begin at a word boundary with one of a few letters, and inside such a
phrase no word begins with one of them (`BeginsOnce`). So, as with headers, no phrase hides another
one from the search, and the hits of a pattern are all places where its phrase stands
(`Pattern.Spells.mem_hits_iff`).
-/

namespace SolidityTools.Lint

open Text

/-! ## Phrases that begin once -/

/-- Inside a text no word begins with one of some letters. -/
def BeginsOnce (heads cs : List Char) : Prop :=
  ∀ skip c m, cs = skip ++ c :: m → skip ≠ [] → Pattern.atBoundary skip.getLast? = true → c ∉ heads

section BeginsOnce

variable {heads as bs : List Char}

theorem beginsOnce_of_all_isWordCharacter (h : as.all isWordCharacter = true) :
    BeginsOnce heads as := by
  rintro skip c m rfl hskip hboundary
  have hlast : isWordCharacter (skip.getLast hskip) = true :=
    List.all_eq_true.mp h _ (List.mem_append_left _ (List.getLast_mem hskip))
  rw [List.getLast?_eq_some_getLast hskip] at hboundary
  simp [Pattern.atBoundary, hlast] at hboundary

/-- Behind a text comes another one that does not begin a phrase. -/
theorem BeginsOnce.append (has : BeginsOnce heads as) (hbs : BeginsOnce heads bs)
    (hhead : ∀ c ∈ bs.head?, c ∉ heads) : BeginsOnce heads (as ++ bs) := by
  intro skip c m hsplit hskip hboundary
  rcases List.append_eq_append_iff.mp hsplit with ⟨x, rfl, hx⟩ | ⟨x, rfl, hx⟩
  · cases x with
    | nil => exact hhead c (by rw [hx]; rfl)
    | cons d x =>
        rw [List.getLast?_append_of_ne_nil _ (List.cons_ne_nil d x)] at hboundary
        exact hbs (d :: x) c m hx (List.cons_ne_nil d x) hboundary
  · cases x with
    | nil => exact hhead c (by rw [← List.nil_append bs, ← hx]; rfl)
    | cons d x =>
        obtain ⟨rfl, -⟩ := List.cons.inj hx
        exact has skip c x rfl hskip hboundary

/-- Behind a text come only characters that no phrase begins with. -/
theorem BeginsOnce.append_of_not_mem (h : BeginsOnce heads as) (hbs : ∀ c ∈ bs, c ∉ heads) :
    BeginsOnce heads (as ++ bs) := by
  refine h.append ?_ fun c hc => hbs c (List.mem_of_mem_head? hc)
  rintro skip c m rfl - -
  exact hbs c (by simp)

end BeginsOnce

/-! ## Patterns that spell phrases -/

/-- Characters of words, and not white space. -/
def Letters (heads : List Char) : Prop :=
  ∀ c ∈ heads, isWordCharacter c = true ∧ isBlank c = false

instance (heads : List Char) : Decidable (Letters heads) :=
  decidable_of_iff ((heads.all fun c => isWordCharacter c && !isBlank c) = true) (by simp [Letters])

/-- A pattern fits exactly where a phrase stands at a word boundary. Whether something is a phrase
may depend on the character behind it. -/
structure Pattern.Spells (pattern : Pattern Unit) (heads : List Char)
    (P : List Char → Option Char → Prop) : Prop where
  letters : Letters heads
  fits : ∀ {before : Option Char} {cs rest : List Char}, pattern before cs = some ((), rest) ↔
    Pattern.atBoundary before = true ∧ ∃ phrase, cs = phrase ++ rest ∧ P phrase rest.head?
  head : ∀ {phrase : List Char} {next : Option Char}, P phrase next →
    ∃ c w, phrase = c :: w ∧ c ∈ heads
  once : ∀ {phrase : List Char} {next : Option Char}, P phrase next → BeginsOnce heads phrase
  closer_not_mem : ∀ {phrase : List Char} {next : Option Char}, P phrase next → ')' ∉ phrase

/-- A hit takes a text apart at a phrase that stands at a word boundary. -/
structure Hit.Stands (hit : Hit Unit) (P : List Char → Option Char → Prop) (text : List Char) :
    Prop where
  eq_append : text = hit.before.reverse ++ (hit.phrase ++ hit.behind)
  boundary : Pattern.atBoundary hit.before.head? = true
  phrase : P hit.phrase hit.behind.head?

namespace Pattern.Spells

variable {pattern : Pattern Unit} {heads : List Char} {P : List Char → Option Char → Prop}

theorem stands_of_mem_hits (h : pattern.Spells heads P) {text : List Char} {hit : Hit Unit}
    (hhit : hit ∈ pattern.hits text) : hit.Stands P text := by
  have hrecognises : pattern.Recognises fun _ phrase => ∃ next, P phrase next := by
    intro before cs value rest hfits
    obtain ⟨-, phrase, hcs, hphrase⟩ := h.fits.mp hfits
    exact ⟨phrase, hcs, _, hphrase⟩
  have hne : ∀ (value : Unit) (phrase : List Char), (∃ next, P phrase next) → phrase ≠ [] := by
    rintro - phrase ⟨next, hphrase⟩
    obtain ⟨c, w, rfl, -⟩ := h.head hphrase
    exact List.cons_ne_nil c w
  obtain ⟨hboundary, phrase, hsplit, hphrase⟩ := h.fits.mp (hrecognises.fits hne hhit)
  obtain rfl := List.append_cancel_right hsplit
  exact ⟨(hrecognises.cuts hne hhit).eq_append, hboundary, hphrase⟩

/-- A phrase that begins in front of another one ends there, too. -/
theorem length_le (h : pattern.Spells heads P) {text : List Char} {hit hit' : Hit Unit}
    (hhit : hit.Stands P text) (hhit' : hit'.Stands P text)
    (hlt : hit'.before.length < hit.before.length) :
    hit'.before.length + hit'.phrase.length ≤ hit.before.length := by
  by_contra hcovers
  obtain ⟨m, hm, hne, hbehind⟩ := exists_append_of_length_lt
    (hhit.eq_append.symm.trans hhit'.eq_append) (by simpa using hlt)
  have hlength : hit.before.length = hit'.before.length + m.length := by
    have := congrArg List.length hm
    simpa using this
  -- the covering phrase goes on with the first letter of the covered one
  obtain ⟨c, w, hphrase, hc⟩ := h.head hhit.phrase
  rw [hphrase] at hbehind
  have hinside : ∃ x, hit'.phrase = m ++ c :: x := by
    rcases List.append_eq_append_iff.mp hbehind with ⟨x, hx, hrest⟩ | ⟨x, hx, -⟩
    · cases x with
      | nil => simp [hx] at hcovers; omega
      | cons d x => exact ⟨x, by rw [hx, ← (List.cons.inj hrest).1]⟩
    · simp [hx] at hcovers hlength
      omega
  obtain ⟨x, hx⟩ := hinside
  have hboundary := hhit.boundary
  rw [← List.getLast?_reverse, hm, List.getLast?_append_of_ne_nil _ hne] at hboundary
  exact h.once hhit'.phrase m c x hx hne hboundary hc

/-- **The hits of a pattern are the places where its phrase stands.** -/
theorem mem_hits_iff (h : pattern.Spells heads P) {text : List Char} {hit : Hit Unit} :
    hit ∈ pattern.hits text ↔ hit.Stands P text := by
  refine ⟨h.stands_of_mem_hits, fun hhit => ?_⟩
  obtain ⟨c, w, hphrase, -⟩ := h.head hhit.phrase
  have hfits : pattern (hit.before.reverse.reverse ++ []).head? (hit.phrase ++ hit.behind)
      = some ((), hit.behind) := by
    rw [List.reverse_reverse, List.append_nil]
    exact h.fits.mpr ⟨hhit.boundary, hit.phrase, rfl, hhit.phrase⟩
  have hmem := Pattern.mem_hitsFrom (by simp [hphrase]) [] hit.before.reverse hfits
    fun hit' hhit' hlt => by
      rw [List.reverse_reverse, List.append_nil] at hlt ⊢
      rw [← hhit.eq_append] at hhit'
      exact h.length_le hhit (h.stands_of_mem_hits hhit') hlt
  rw [List.reverse_reverse, List.append_nil, ← hhit.eq_append] at hmem
  exact hmem

end Pattern.Spells

/-! ## Words with a member -/

/-- Whether some words are keywords can be decided by looking at their characters. -/
instance (words : List String) : Decidable (Keywords words) :=
  decidable_of_iff
    ((∀ word ∈ words, word.toList ≠ []) ∧
      (words.all fun word => word.toList.all fun c =>
        isWordCharacter c && !isBlank c && c != '(') = true ∧
      ∀ word ∈ words, ∀ word' ∈ words, word.toList <+: word'.toList → word = word')
    ⟨fun ⟨hnonempty, hcharacters, hdistinct⟩ => ⟨hnonempty, fun word hword c hc => by
        have := List.all_eq_true.mp (List.all_eq_true.mp hcharacters word hword) c hc
        simpa [and_assoc] using this, hdistinct⟩,
      fun h => ⟨h.nonempty, List.all_eq_true.mpr fun word hword =>
        List.all_eq_true.mpr fun c hc => by
          simpa [and_assoc] using h.characters word hword c hc, h.distinct⟩⟩

/-- A word with one of some members, blanks around the dot aside. -/
def IsMember (word : String) (members : List String) (phrase : List Char) : Prop :=
  ∃ gap gap', ∃ member ∈ members, gap.all isBlank = true ∧ gap'.all isBlank = true ∧
    phrase = word.toList ++ (gap ++ '.' :: (gap' ++ member.toList))

theorem Keywords.blanks_append {words : List String} (hwords : Keywords words) {word : String}
    (hmem : word ∈ words) {gap : List Char} (hgap : gap.all isBlank = true) (rest : List Char) :
    Pattern.blanks (gap ++ (word.toList ++ rest)) = word.toList ++ rest := by
  obtain ⟨c, w, hword⟩ := List.exists_cons_of_ne_nil (hwords.nonempty word hmem)
  have hc := (hwords.characters word hmem c (by rw [hword]; exact List.mem_cons_self)).2.1
  rw [SolidityTools.Lint.blanks_append hgap, hword, List.cons_append, Pattern.blanks,
    List.dropWhile_cons_of_neg (by simp [hc])]

/-- One of some words is passed exactly if one of them stands there. -/
theorem Keywords.findSome?_word?_eq_some_iff {words : List String} (hwords : Keywords words)
    {cs rest : List Char} :
    (words.findSome? fun word => Pattern.word? word cs) = some rest ↔
      ∃ word ∈ words, Pattern.word? word cs = some rest := by
  refine ⟨List.exists_of_findSome?_eq_some, ?_⟩
  rintro ⟨word, hmem, hword⟩
  have hsome : (words.findSome? fun word => Pattern.word? word cs).isSome = true :=
    List.findSome?_isSome_iff.mpr ⟨word, hmem, by rw [hword]; rfl⟩
  obtain ⟨rest', hrest'⟩ := Option.isSome_iff_exists.mp hsome
  obtain ⟨word', hmem', hword'⟩ := List.exists_of_findSome?_eq_some hrest'
  have hcs := Pattern.eq_append_of_word? hword
  have hcs' := Pattern.eq_append_of_word? hword'
  have hsame : word' = word := by
    rcases List.prefix_or_prefix_of_prefix (hcs' ▸ List.prefix_append word'.toList rest')
      (hcs ▸ List.prefix_append word.toList rest) with hprefix | hprefix
    · exact hwords.distinct _ hmem' _ hmem hprefix
    · exact (hwords.distinct _ hmem _ hmem' hprefix).symm
  rw [hrest', ← hword', hsame, hword]

/-- Members are passed exactly where a dot and one of them stand, the member as a whole word. -/
theorem member?_eq_some_iff {members : List String} (hmembers : Keywords members)
    {cs rest : List Char} :
    Pattern.member? members cs = some rest ↔
      rest.head?.any isWordCharacter = false ∧
        ∃ gap gap', ∃ member ∈ members, gap.all isBlank = true ∧ gap'.all isBlank = true ∧
          cs = gap ++ '.' :: (gap' ++ (member.toList ++ rest)) := by
  simp only [Pattern.member?, Option.bind_eq_bind, Option.bind_eq_some_iff,
    hmembers.findSome?_word?_eq_some_iff]
  constructor
  · rintro ⟨behind, hdot, member, hmem, hmember⟩
    obtain ⟨hbehind, hnext⟩ := Pattern.word?_eq_some_iff.mp hmember
    refine ⟨hnext, cs.takeWhile isBlank, behind.takeWhile isBlank, member, hmem,
      List.all_takeWhile, List.all_takeWhile, ?_⟩
    rw [← hbehind, Pattern.blanks, List.takeWhile_append_dropWhile]
    have hcs : Pattern.blanks cs = '.' :: behind := Pattern.eq_append_of_text? hdot
    rw [← hcs, Pattern.blanks, List.takeWhile_append_dropWhile]
  · rintro ⟨hnext, gap, gap', member, hmem, hgap, hgap', rfl⟩
    refine ⟨gap' ++ (member.toList ++ rest), ?_, member, hmem, ?_⟩
    · rw [blanks_append hgap, Pattern.blanks, List.dropWhile_cons_of_neg (by decide)]
      rfl
    · rw [hmembers.blanks_append hmem hgap']
      exact Pattern.word?_eq_some_iff.mpr ⟨rfl, hnext⟩

/-- A word and its member are passed exactly where they stand. -/
theorem text?_bind_member?_eq_some_iff {word : String} {members : List String}
    (hmembers : Keywords members) {cs rest : List Char} :
    (Pattern.text? word cs).bind (Pattern.member? members) = some rest ↔
      rest.head?.any isWordCharacter = false ∧
        ∃ phrase, cs = phrase ++ rest ∧ IsMember word members phrase := by
  simp only [Option.bind_eq_some_iff, Pattern.text?_eq_some_iff, member?_eq_some_iff hmembers]
  constructor
  · rintro ⟨behind, rfl, hnext, gap, gap', member, hmem, hgap, hgap', rfl⟩
    exact ⟨hnext, word.toList ++ (gap ++ '.' :: (gap' ++ member.toList)), by simp, gap, gap',
      member, hmem, hgap, hgap', rfl⟩
  · rintro ⟨hnext, phrase, rfl, gap, gap', member, hmem, hgap, hgap', rfl⟩
    exact ⟨gap ++ '.' :: (gap' ++ (member.toList ++ rest)), by simp, hnext, gap, gap', member, hmem,
      hgap, hgap', rfl⟩

/-- A word and its parenthesis are passed exactly where they stand. -/
theorem text?_bind_opening?_eq_some_iff {word : String} {cs rest : List Char} :
    (Pattern.text? word cs).bind Pattern.opening? = some rest ↔
      ∃ phrase, cs = phrase ++ rest ∧ IsHeaderOf [word] phrase := by
  simp only [Option.bind_eq_some_iff, Pattern.text?_eq_some_iff]
  constructor
  · rintro ⟨behind, rfl, hopening⟩
    obtain ⟨gap, hgap, rfl⟩ := exists_of_opening? hopening
    exact ⟨word.toList ++ (gap ++ ['(']), by simp, word, by simp, gap, hgap, rfl⟩
  · rintro ⟨phrase, rfl, word', hmem, gap, hgap, rfl⟩
    rw [List.mem_singleton.mp hmem]
    exact ⟨gap ++ '(' :: rest, by simp, opening?_append hgap rest⟩

/-- A word and its members are phrases that begin once, if they begin with other letters. -/
theorem IsMember.beginsOnce {word : String} {members : List String} {heads phrase : List Char}
    (h : IsMember word members phrase) (hword : word.toList.all isWordCharacter = true)
    (hmembers : Keywords members) (hheads : Letters heads)
    (hfirst : ∀ member ∈ members, member.toList.head?.any heads.contains = false) :
    BeginsOnce heads phrase := by
  obtain ⟨gap, gap', member, hmem, hgap, hgap', rfl⟩ := h
  have hblank : ∀ {gap : List Char}, gap.all isBlank = true → ∀ c ∈ gap, c ∉ heads := by
    intro gap hgap c hc hhead
    have := List.all_eq_true.mp hgap c hc
    rw [(hheads c hhead).2] at this
    cases this
  have hdot : '.' ∉ heads := fun hdot => absurd (hheads _ hdot).1 (by decide)
  have hmiddle : ∀ c ∈ gap ++ '.' :: gap', c ∉ heads := by
    intro c hc
    rcases List.mem_append.mp hc with hc | hc
    · exact hblank hgap c hc
    · rcases List.mem_cons.mp hc with rfl | hc
      · exact hdot
      · exact hblank hgap' c hc
  have hmember : BeginsOnce heads member.toList := beginsOnce_of_all_isWordCharacter
    (List.all_eq_true.mpr fun c hc => (hmembers.characters member hmem c hc).1)
  have hhead : ∀ c ∈ member.toList.head?, c ∉ heads := by
    intro c hc hin
    have := hfirst member hmem
    rw [Option.mem_def.mp hc] at this
    simp [hin] at this
  have hall := ((beginsOnce_of_all_isWordCharacter hword).append_of_not_mem hmiddle).append hmember
    hhead
  simpa using hall

theorem IsMember.closer_not_mem {word : String} {members : List String} {phrase : List Char}
    (h : IsMember word members phrase) (hword : word.toList.all isWordCharacter = true)
    (hmembers : Keywords members) : ')' ∉ phrase := by
  obtain ⟨gap, gap', member, hmem, hgap, hgap', rfl⟩ := h
  have hblank : ∀ {gap : List Char}, gap.all isBlank = true → ')' ∉ gap := fun hgap hc =>
    absurd (List.all_eq_true.mp hgap _ hc) (by decide)
  have hnot : ')' ∉ word.toList := fun hc => absurd (List.all_eq_true.mp hword _ hc) (by decide)
  have hnot' : ')' ∉ member.toList := fun hc =>
    absurd (hmembers.characters member hmem _ hc).1 (by decide)
  simp [hnot, hnot', hblank hgap, hblank hgap']

/-- A header begins once, if the phrases begin with letters. -/
theorem IsHeaderOf.beginsOnce {words : List String} (hwords : Keywords words)
    {heads phrase : List Char} (h : IsHeaderOf words phrase)
    (hheads : Letters heads) :
    BeginsOnce heads phrase := by
  obtain ⟨word, hmem, gap, hgap, rfl⟩ := h
  have hword : BeginsOnce heads word.toList := beginsOnce_of_all_isWordCharacter
    (List.all_eq_true.mpr fun c hc => (hwords.characters word hmem c hc).1)
  refine hword.append_of_not_mem fun c hc hhead => ?_
  rcases isBlank_or_eq_of_mem hgap hc with hblank | rfl
  · rw [(hheads c hhead).2] at hblank
    cases hblank
  · exact absurd (hheads _ hhead).1 (by decide)

/-! ## The phrases -/

/-- `tx.origin`, the member as a whole word. -/
def IsOrigin (phrase : List Char) (next : Option Char) : Prop :=
  next.any isWordCharacter = false ∧ IsMember "tx" ["origin"] phrase

/-- `block.timestamp` or `now`, up to the end of the word. -/
def IsTime (phrase : List Char) (next : Option Char) : Prop :=
  next.any isWordCharacter = false ∧ (IsMember "block" ["timestamp"] phrase ∨ phrase = "now".toList)

/-- `block.difficulty` or `block.prevrandao` up to the end of the word, or the header of a call of
`blockhash`. -/
def IsRandomness (phrase : List Char) (next : Option Char) : Prop :=
  next.any isWordCharacter = false ∧ IsMember "block" ["difficulty", "prevrandao"] phrase ∨
    IsHeaderOf ["blockhash"] phrase

/-- The first of two readings that succeeds, if they never succeed both. -/
theorem orElse_eq_some_iff {a b : Option (List Char)} (h : a.isSome = true → b = none)
    {rest : List Char} : (a <|> b) = some rest ↔ a = some rest ∨ b = some rest := by
  cases a with
  | none => simp
  | some cs => simp [h rfl]

namespace Pattern

theorem transactionOrigin_spells : transactionOrigin.Spells ['t'] IsOrigin where
  letters := by decide
  fits {before cs rest} := by
    have hmembers : Keywords ["origin"] := by decide
    have hfits : transactionOrigin before cs = some ((), rest) ↔ atBoundary before = true ∧
        (text? "tx" cs).bind (member? ["origin"]) = some rest := by
      simp [transactionOrigin, Option.bind_eq_some_iff, Option.guard_eq_some']
    rw [hfits, text?_bind_member?_eq_some_iff hmembers]
    simp only [IsOrigin, and_left_comm (b := rest.head?.any isWordCharacter = false),
      exists_and_left]
  head := by
    rintro phrase next ⟨-, gap, gap', member, -, -, -, rfl⟩
    exact ⟨'t', _, rfl, by decide⟩
  once := by
    rintro phrase next ⟨-, hmember⟩
    exact hmember.beginsOnce (by decide) (by decide) (by decide) (by decide)
  closer_not_mem := by
    rintro phrase next ⟨-, hmember⟩
    exact hmember.closer_not_mem (by decide) (by decide)

theorem blockTime_spells : blockTime.Spells ['b', 'n'] IsTime where
  letters := by decide
  fits {before cs rest} := by
    have hmembers : Keywords ["timestamp"] := by decide
    have hfits : blockTime before cs = some ((), rest) ↔ atBoundary before = true ∧
        ((text? "block" cs).bind (member? ["timestamp"]) <|> word? "now" cs) = some rest := by
      simp [blockTime, Option.bind_eq_some_iff, Option.guard_eq_some']
    have hone : ((text? "block" cs).bind (member? ["timestamp"])).isSome = true →
        word? "now" cs = none := by
      intro hblock
      obtain ⟨behind, hblock⟩ := Option.isSome_iff_exists.mp hblock
      obtain ⟨behind, hbehind, -⟩ := Option.bind_eq_some_iff.mp hblock
      rw [eq_append_of_text? hbehind]
      rfl
    rw [hfits, orElse_eq_some_iff hone, text?_bind_member?_eq_some_iff hmembers,
      word?_eq_some_iff]
    refine and_congr_right fun _ => ⟨?_, ?_⟩
    · rintro (⟨hnext, phrase, hcs, hphrase⟩ | ⟨hcs, hnext⟩)
      · exact ⟨phrase, hcs, hnext, Or.inl hphrase⟩
      · exact ⟨_, hcs, hnext, Or.inr rfl⟩
    · rintro ⟨phrase, hcs, hnext, hphrase | rfl⟩
      · exact Or.inl ⟨hnext, phrase, hcs, hphrase⟩
      · exact Or.inr ⟨hcs, hnext⟩
  head := by
    rintro phrase next ⟨-, ⟨gap, gap', member, -, -, -, rfl⟩ | rfl⟩
    · exact ⟨'b', _, rfl, by decide⟩
    · exact ⟨'n', _, rfl, by decide⟩
  once := by
    rintro phrase next ⟨-, hmember | rfl⟩
    · exact hmember.beginsOnce (by decide) (by decide) (by decide) (by decide)
    · exact beginsOnce_of_all_isWordCharacter (by decide)
  closer_not_mem := by
    rintro phrase next ⟨-, hmember | rfl⟩
    · exact hmember.closer_not_mem (by decide) (by decide)
    · decide

theorem blockRandomness_spells : blockRandomness.Spells ['b'] IsRandomness where
  letters := by decide
  fits {before cs rest} := by
    have hmembers : Keywords ["difficulty", "prevrandao"] := by decide
    have hfits : blockRandomness before cs = some ((), rest) ↔ atBoundary before = true ∧
        ((text? "block" cs).bind (member? ["difficulty", "prevrandao"]) <|>
          (text? "blockhash" cs).bind opening?) = some rest := by
      simp [blockRandomness, Option.bind_eq_some_iff, Option.guard_eq_some']
    have hone : ((text? "block" cs).bind (member? ["difficulty", "prevrandao"])).isSome = true →
        (text? "blockhash" cs).bind opening? = none := by
      intro hblock
      obtain ⟨behind, hblock⟩ := Option.isSome_iff_exists.mp hblock
      obtain ⟨-, phrase, hcs, gap, gap', member, -, hgap, -, rfl⟩ :=
        (text?_bind_member?_eq_some_iff hmembers).mp hblock
      rw [hcs]
      -- behind `block` comes a blank or the dot, and no `h`
      cases gap with
      | nil => rfl
      | cons c gap =>
          have hc : c ≠ 'h' := by
            rintro rfl
            exact absurd (List.all_eq_true.mp hgap _ List.mem_cons_self) (by decide)
          have htext : text? "blockhash" ("block".toList ++ (c :: gap ++ '.' :: (gap' ++
              member.toList)) ++ behind) = none := by
            rw [text?, if_neg]
            simp [List.isPrefixOf_iff_prefix, hc.symm]
          rw [htext]
          rfl
    rw [hfits, orElse_eq_some_iff hone, text?_bind_member?_eq_some_iff hmembers,
      text?_bind_opening?_eq_some_iff]
    refine and_congr_right fun _ => ⟨?_, ?_⟩
    · rintro (⟨hnext, phrase, hcs, hphrase⟩ | ⟨phrase, hcs, hphrase⟩)
      · exact ⟨phrase, hcs, Or.inl ⟨hnext, hphrase⟩⟩
      · exact ⟨phrase, hcs, Or.inr hphrase⟩
    · rintro ⟨phrase, hcs, ⟨hnext, hphrase⟩ | hphrase⟩
      · exact Or.inl ⟨hnext, phrase, hcs, hphrase⟩
      · exact Or.inr ⟨phrase, hcs, hphrase⟩
  head := by
    rintro phrase next (⟨-, gap, gap', member, -, -, -, rfl⟩ | ⟨word, hmem, gap, -, rfl⟩)
    · exact ⟨'b', _, rfl, by decide⟩
    · rw [List.mem_singleton.mp hmem]
      exact ⟨'b', _, rfl, by decide⟩
  once := by
    rintro phrase next (⟨-, hmember⟩ | hheader)
    · exact hmember.beginsOnce (by decide) (by decide) (by decide) (by decide)
    · exact hheader.beginsOnce (by decide) (by decide)
  closer_not_mem := by
    rintro phrase next (⟨-, hmember⟩ | hheader)
    · exact hmember.closer_not_mem (by decide) (by decide)
    · exact hheader.closer_not_mem (by decide)

end Pattern

end SolidityTools.Lint

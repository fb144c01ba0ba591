import SolidityTools.Toml.Quoted
import Mathlib.Data.List.Basic

set_option autoImplicit false

/-! # Written strings are read back

A string is written in one of four ways, and each is undone by the reader for it. Between double
quotes every character is read back by itself, whatever follows (`Spells`). Only quotes between
tripled quotes need more: the reader has to see that no closing quotes begin. The writer puts at
most two of them in a row, so that they are told from the closing ones by the next other character,
and at the end of the content by the number of quotes.
-/

namespace SolidityTools.Toml

/-- A piece of text that a reader takes for some content, whatever stands behind it. -/
def Spells (read : List Char → Option (List Char × List Char)) (w content : List Char) : Prop :=
  ∀ X, read (w ++ X) = pushContent content (read X)

/-! ## Escapes -/

/-- The escape of a control character has four digits that are read back. -/
theorem scalar?_fourDigits {c : Char} (hc : isControl c = true) :
    ∃ a b d e, fourDigits c.toNat = [a, b, d, e] ∧ scalar? [a, b, d, e] = some c := by
  have hsmall : ∀ n < 128, (fourDigits n).length = 4 ∧
      scalar? (fourDigits n) = some (Char.ofNat n) := by
    decide +kernel
  have hlt : c.toNat < 128 := by
    simp only [isControl, Bool.or_eq_true, Bool.and_eq_true, decide_eq_true_eq, beq_iff_eq] at hc
    omega
  obtain ⟨hlength, hscalar⟩ := hsmall c.toNat hlt
  match hdigits : fourDigits c.toNat, hlength with
  | [a, b, d, e], _ =>
      rw [hdigits, Char.ofNat_toNat] at hscalar
      exact ⟨a, b, d, e, rfl, hscalar⟩

/-! ## Double quotes -/

theorem basicString?_cons {c : Char} (hc : c ≠ '\\') (X : List Char) :
    basicString? (c :: X)
      = if c == '"' then some ([], X)
        else if isControl c then none else pushContent [c] (basicString? X) := by
  rw [basicString?]
  · simp [hc]
  · exact fun _ _ _ _ _ h => absurd h hc
  · exact fun _ _ _ _ _ _ _ _ _ h => absurd h hc
  · exact fun _ _ h => absurd h hc

/-- The text behind an escape of one letter is read on. -/
theorem basicString?_escape {e c : Char} (h : escaped? e = some c) (X : List Char) :
    basicString? ('\\' :: e :: X) = pushContent [c] (basicString? X) := by
  have hletter : e ≠ 'u' ∧ e ≠ 'U' := by
    constructor
    · rintro rfl
      cases h
    · rintro rfl
      cases h
  rw [basicString?, h]
  · rfl
  · intro _ _ _ _ _ heq
    exact absurd heq hletter.1
  · intro _ _ _ _ _ _ _ _ _ heq
    exact absurd heq hletter.2

/-- What may stand for a character between double quotes. -/
inductive Written (long : Bool) (c : Char) : List Char → Prop
  | quote (hlong : long = true) (hc : c = '"') : Written long c ['"']
  | lineFeed (hlong : long = true) (hc : c = '\n') : Written long c ['\n']
  | escape {e : Char} (he : escaped? e = some c) : Written long c ['\\', e]
  | code (hc : isControl c = true) : Written long c ('\\' :: 'u' :: fourDigits c.toNat)
  | plain (hquote : c ≠ '"') (hbackslash : c ≠ '\\') (hcontrol : isControl c = false) :
      Written long c [c]

/-- What is written begins with a quote only if it is one, and with a line end only if that is
meant. -/
theorem Written.exists_cons {long : Bool} {c : Char} {w : List Char} (h : Written long c w) :
    ∃ e v, w = e :: v ∧ (e = '"' → w = ['"']) ∧ (e = '\n' → c = '\n') ∧ e ≠ '\r' := by
  cases h with
  | quote => exact ⟨_, _, rfl, fun _ => rfl, fun h => absurd h (by decide), by decide⟩
  | lineFeed _ hc => exact ⟨_, _, rfl, fun h => absurd h (by decide), fun _ => hc, by decide⟩
  | escape =>
      exact ⟨_, _, rfl, fun h => absurd h (by decide), fun h => absurd h (by decide), by decide⟩
  | code =>
      exact ⟨_, _, rfl, fun h => absurd h (by decide), fun h => absurd h (by decide), by decide⟩
  | plain hquote _ hcontrol =>
      refine ⟨c, [], rfl, fun h => absurd h hquote, id, ?_⟩
      rintro rfl
      cases hcontrol

/-- What is written for a character, with something behind it, begins with no quote. -/
theorem Written.append_ne {long : Bool} {c : Char} {w : List Char} (h : Written long c w)
    (hw : w ≠ ['"']) (X Y : List Char) : w ++ X ≠ '"' :: Y := by
  obtain ⟨e, v, rfl, hquote, -⟩ := h.exists_cons
  intro heq
  exact hw (hquote (List.cons.inj heq).1)

/-- On one line every quote is escaped. -/
theorem Written.ne_quote {c : Char} {w : List Char} (h : Written false c w) : w ≠ ['"'] := by
  intro hw
  cases h with
  | quote hlong => cases hlong
  | lineFeed hlong => cases hlong
  | escape => cases hw
  | code => cases hw
  | plain hquote => exact hquote (List.cons.inj hw).1

theorem written_writeCharacter (long : Bool) (quotes : Nat) (c : Char) :
    Written long c (writeCharacter long quotes c) := by
  have hescape : ∀ {d e : Char}, (c == d) = true → escaped? e = some d →
      Written long c ['\\', e] := by
    intro d e hc he
    obtain rfl := beq_iff_eq.mp hc
    exact .escape he
  unfold writeCharacter
  by_cases hquote : (c == '"') = true
  · rw [if_pos hquote]
    by_cases hquotes : quotes < (if long then 2 else 0)
    · rw [if_pos hquotes]
      cases long with
      | true => exact .quote rfl (beq_iff_eq.mp hquote)
      | false => exact absurd hquotes (Nat.not_lt_zero quotes)
    · rw [if_neg hquotes]
      exact hescape hquote rfl
  · rw [if_neg hquote]
    by_cases hbackslash : (c == '\\') = true
    · rw [if_pos hbackslash]
      exact hescape hbackslash rfl
    · rw [if_neg hbackslash]
      split
      · next hc => exact hescape hc rfl
      · split
        · next hc => exact hescape hc rfl
        · split
          · next hc =>
              cases long with
              | true => exact .lineFeed rfl (beq_iff_eq.mp hc)
              | false => exact hescape hc rfl
          · split
            · next hc => exact hescape hc rfl
            · split
              · next hc => exact hescape hc rfl
              · split
                · next hc => exact .code hc
                · next hc =>
                    exact .plain (by simpa using hquote) (by simpa using hbackslash)
                      (by simpa using hc)

/-- A character between double quotes is read back by itself. -/
theorem spells_writeCharacter (quotes : Nat) (c : Char) :
    Spells basicString? (writeCharacter false quotes c) [c] := by
  intro X
  have hwritten := written_writeCharacter false quotes c
  generalize writeCharacter false quotes c = w at hwritten
  cases hwritten with
  | quote hlong => cases hlong
  | lineFeed hlong => cases hlong
  | escape he => exact basicString?_escape he X
  | code hc =>
      obtain ⟨a, b, d, e, hdigits, hscalar⟩ := scalar?_fourDigits hc
      rw [hdigits]
      show basicString? ('\\' :: 'u' :: a :: b :: d :: e :: X) = _
      rw [basicString?, hscalar]
      rfl
  | plain hquote hbackslash hcontrol =>
      show basicString? (c :: X) = _
      rw [basicString?_cons hbackslash, if_neg (by simpa using hquote), hcontrol]
      rfl

/-- The characters between double quotes are read back up to the closing quote. -/
theorem basicString?_writeCharacters (quotes : Nat) (cs rest : List Char) :
    basicString? (writeCharacters false quotes cs ++ '"' :: rest) = some (cs, rest) := by
  induction cs generalizing quotes with
  | nil => exact basicString?_cons (by decide) rest
  | cons c cs ih =>
      rw [writeCharacters, List.append_assoc, spells_writeCharacter, ih]
      rfl

/-! ## Single quotes -/

theorem literalString?_append {cs : List Char} (hquote : '\'' ∉ cs)
    (hcontrol : ∀ c ∈ cs, isControl c = false) (rest : List Char) :
    literalString? (cs ++ '\'' :: rest) = some (cs, rest) := by
  induction cs with
  | nil => rfl
  | cons c cs ih =>
      rw [List.mem_cons, not_or] at hquote
      rw [List.forall_mem_cons] at hcontrol
      rw [List.cons_append, literalString?, if_neg (by simpa using Ne.symm hquote.1),
        if_neg (by simp [hcontrol.1]), ih hquote.2 hcontrol.2]
      rfl

/-! ## Tripled double quotes -/

/-- The closing quotes, with one or two quotes of the content in front of them. -/
theorem longBasicString?_close {rest : List Char} (hrest : rest.head? ≠ some '"')
    (skipping : Bool) :
    longBasicString? skipping ('"' :: '"' :: '"' :: rest) = some ([], rest) ∧
      longBasicString? skipping ('"' :: '"' :: '"' :: '"' :: rest) = some (['"'], rest) ∧
      longBasicString? skipping ('"' :: '"' :: '"' :: '"' :: '"' :: rest)
        = some (['"', '"'], rest) := by
  cases rest with
  | nil => simp [longBasicString?]
  | cons d rest =>
      have hd : d ≠ '"' := by simpa using hrest
      simp [longBasicString?, hd]

/-- A character that means nothing but itself. -/
theorem longBasicString?_cons {c : Char} (hbackslash : c ≠ '\\') (hquote : c ≠ '"')
    (hcontrol : isControl c = false ∨ c = '\n') (X : List Char) :
    longBasicString? false (c :: X) = pushContent [c] (longBasicString? false X) := by
  have hreturn : c ≠ '\r' := by
    rintro rfl
    rcases hcontrol with h | h
    · cases h
    · revert h
      decide
  rw [longBasicString?]
  · rcases hcontrol with h | rfl
    · simp [hbackslash, h]
    · rfl
  · exact fun _ h => absurd h hquote
  · exact fun _ h => absurd h hquote
  · exact fun _ h => absurd h hquote
  · exact fun _ h => absurd h hreturn
  · exact fun _ _ _ _ _ h => absurd h hbackslash
  · exact fun _ _ _ _ _ _ _ _ _ h => absurd h hbackslash
  · exact fun _ _ h => absurd h hbackslash

/-- A quote of the content, unless two more stand behind it. -/
theorem longBasicString?_quote {X : List Char} (hX : ∀ Y, X ≠ '"' :: '"' :: Y) :
    longBasicString? false ('"' :: X) = pushContent ['"'] (longBasicString? false X) := by
  rw [longBasicString?]
  · rfl
  · exact fun _ _ h => hX _ h
  · exact fun _ _ h => hX _ h
  · exact fun _ _ h => hX _ h
  · exact fun _ h => absurd h (by decide)
  · exact fun _ _ _ _ _ h => absurd h (by decide)
  · exact fun _ _ _ _ _ _ _ _ _ h => absurd h (by decide)
  · exact fun _ _ h => absurd h (by decide)

/-- The text behind an escape of one letter is read on, since the letter does not end the line. -/
theorem longBasicString?_escape {e c : Char} (h : escaped? e = some c) (X : List Char) :
    longBasicString? false ('\\' :: e :: X) = pushContent [c] (longBasicString? false X) := by
  have hends : endsLine (e :: X) = false := by
    unfold escaped? at h
    split at h
    all_goals first | rfl | cases h
  have hletter : e ≠ 'u' ∧ e ≠ 'U' := by
    constructor
    · rintro rfl
      cases h
    · rintro rfl
      cases h
  rw [longBasicString?, hends, h]
  · rfl
  · intro _ _ _ _ _ heq
    exact absurd heq hletter.1
  · intro _ _ _ _ _ _ _ _ _ heq
    exact absurd heq hletter.2

/-- A character between tripled double quotes is read back by itself, unless it is a quote. -/
theorem spells_of_written {c : Char} {w : List Char} (h : Written true c w) (hw : w ≠ ['"']) :
    Spells (longBasicString? false) w [c] := by
  intro X
  cases h with
  | quote => exact absurd rfl hw
  | lineFeed _ hc => exact hc ▸ longBasicString?_cons (by decide) (by decide) (Or.inr rfl) X
  | escape he => exact longBasicString?_escape he X
  | code hc =>
      obtain ⟨a, b, d, e, hdigits, hscalar⟩ := scalar?_fourDigits hc
      rw [hdigits]
      show longBasicString? false ('\\' :: 'u' :: a :: b :: d :: e :: X) = _
      rw [longBasicString?, hscalar]
      rfl
  | plain hquote hbackslash hcontrol =>
      exact longBasicString?_cons hbackslash hquote (Or.inl hcontrol) X

/-- A quote is written as such if less than two stand in front of it. -/
theorem eq_of_writeCharacter_eq_quote {quotes : Nat} {c : Char}
    (h : writeCharacter true quotes c = ['"']) : c = '"' ∧ quotes < 2 := by
  have hc : c = '"' := by
    have hwritten := written_writeCharacter true quotes c
    rw [h] at hwritten
    generalize hw : ['"'] = w at hwritten
    cases hwritten with
    | quote _ hc => exact hc
    | lineFeed => cases hw
    | escape => cases hw
    | code => cases hw
    | plain => exact (List.cons.inj hw).1.symm
  refine ⟨hc, ?_⟩
  by_contra hquotes
  rw [writeCharacter, if_pos (by simpa using hc), if_neg (by simpa using hquotes)] at h
  cases h

/-- Behind a quote, two more are written only at the end of the content. -/
theorem writeCharacters_append_ne {quotes : Nat} (hquotes : 0 < quotes) {cs : List Char}
    (hcs : cs ≠ []) (hlast : ¬(cs = ['"'] ∧ quotes = 1)) (X Y : List Char) :
    writeCharacters true quotes cs ++ X ≠ '"' :: '"' :: Y := by
  obtain ⟨d, cs, rfl⟩ := List.exists_cons_of_ne_nil hcs
  intro heq
  rw [writeCharacters, List.append_assoc] at heq
  by_cases hd : writeCharacter true quotes d = ['"']
  · obtain ⟨rfl, hlt⟩ := eq_of_writeCharacter_eq_quote hd
    obtain rfl : quotes = 1 := by omega
    match cs with
    | [] => exact hlast ⟨rfl, rfl⟩
    | e :: cs =>
        -- two quotes stand in front of the next character
        have he : writeCharacter true 2 e ≠ ['"'] := by
          intro he
          have := (eq_of_writeCharacter_eq_quote he).2
          omega
        rw [hd, if_pos rfl, writeCharacters, List.append_assoc] at heq
        exact (written_writeCharacter true 2 e).append_ne he _ Y (List.cons.inj heq).2
  · exact (written_writeCharacter true quotes d).append_ne hd _ _ heq

/-- **The characters between tripled double quotes are read back** up to the closing quotes. In
front of them `quotes` unescaped quotes have been read already. -/
theorem longBasicString?_writeCharacters {rest : List Char} (hrest : rest.head? ≠ some '"')
    (quotes : Nat) (cs : List Char) :
    longBasicString? false (writeCharacters true quotes cs ++ '"' :: '"' :: '"' :: rest)
      = some (cs, rest) := by
  obtain ⟨hnone, hone, htwo⟩ := longBasicString?_close hrest false
  induction cs generalizing quotes with
  | nil => exact hnone
  | cons c cs ih =>
      by_cases hquote : writeCharacter true quotes c = ['"']
      · obtain ⟨rfl, hquotes⟩ := eq_of_writeCharacter_eq_quote hquote
        rw [writeCharacters, hquote, if_pos rfl, List.append_assoc]
        by_cases hcs : cs = []
        · subst hcs
          exact hone
        · by_cases hlast : cs = ['"'] ∧ quotes + 1 = 1
          · obtain ⟨rfl, hzero⟩ := hlast
            obtain rfl : quotes = 0 := by omega
            exact htwo
          · show longBasicString? false ('"' :: (writeCharacters true (quotes + 1) cs ++ _)) = _
            rw [longBasicString?_quote
              (writeCharacters_append_ne (Nat.succ_pos quotes) hcs hlast _), ih]
            rfl
      · rw [writeCharacters, if_neg hquote, List.append_assoc,
          spells_of_written (written_writeCharacter _ _ _) hquote, ih]
        rfl

/-! ## Tripled single quotes -/

theorem longLiteralString?_close {rest : List Char} (hrest : rest.head? ≠ some '\'') :
    longLiteralString? ('\'' :: '\'' :: '\'' :: rest) = some ([], rest) ∧
      longLiteralString? ('\'' :: '\'' :: '\'' :: '\'' :: rest) = some (['\''], rest) ∧
      longLiteralString? ('\'' :: '\'' :: '\'' :: '\'' :: '\'' :: rest)
        = some (['\'', '\''], rest) := by
  cases rest with
  | nil => simp [longLiteralString?]
  | cons d rest =>
      have hd : d ≠ '\'' := by simpa using hrest
      simp [longLiteralString?, hd]

/-- A character that begins no closing quotes. -/
theorem longLiteralString?_cons {c : Char} (hcontrol : needsEscape c = false) {X : List Char}
    (hX : c = '\'' → ∀ Y, X ≠ '\'' :: '\'' :: Y) :
    longLiteralString? (c :: X) = pushContent [c] (longLiteralString? X) := by
  have hreturn : c ≠ '\r' := by
    rintro rfl
    cases hcontrol
  rw [longLiteralString?]
  · by_cases hc : c = '\n'
    · rw [if_pos (by simpa using hc)]
    · have hplain : isControl c = false := by simpa [needsEscape, hc] using hcontrol
      rw [if_neg (by simpa using hc), hplain]
      rfl
  · exact fun _ h => hX h _
  · exact fun _ h => hX h _
  · exact fun _ h => hX h _
  · exact fun _ h => absurd h hreturn

theorem le_longestRun (quote : Char) (run : Nat) (cs : List Char) :
    run ≤ longestRun quote run cs := by
  induction cs generalizing run with
  | nil => exact Nat.le_refl run
  | cons c cs ih =>
      rw [longestRun]
      split
      · have := ih (run + 1)
        omega
      · exact Nat.le_max_left _ _

/-- What is written raw is read back up to the closing quotes. In front of it `run` quotes have been
read already. -/
theorem longLiteralString?_append {rest : List Char} (hrest : rest.head? ≠ some '\'') {run : Nat}
    {cs : List Char} (hcontrol : ∀ c ∈ cs, needsEscape c = false)
    (hrun : longestRun '\'' run cs ≤ 2) :
    longLiteralString? (cs ++ '\'' :: '\'' :: '\'' :: rest) = some (cs, rest) := by
  obtain ⟨hnone, hone, htwo⟩ := longLiteralString?_close hrest
  induction cs generalizing run with
  | nil => exact hnone
  | cons c cs ih =>
      rw [List.forall_mem_cons] at hcontrol
      rw [longestRun] at hrun
      by_cases hc : c = '\''
      · subst hc
        rw [if_pos (by rfl)] at hrun
        have hih := ih hcontrol.2 hrun
        by_cases hshort : cs = [] ∨ cs = ['\'']
        · rcases hshort with rfl | rfl
          · exact hone
          · exact htwo
        · have hX : ∀ Y, cs ++ '\'' :: '\'' :: '\'' :: rest ≠ '\'' :: '\'' :: Y := by
            intro Y heq
            match cs with
            | [] => exact hshort (Or.inl rfl)
            | [d] =>
                obtain ⟨rfl, -⟩ := List.cons.inj heq
                exact hshort (Or.inr rfl)
            | d :: e :: cs =>
                -- three quotes in a row
                obtain ⟨rfl, htail⟩ := List.cons.inj heq
                obtain ⟨rfl, -⟩ := List.cons.inj htail
                have hle := le_longestRun '\'' (run + 1 + 1 + 1) cs
                simp only [longestRun, BEq.rfl, if_true] at hrun
                omega
          rw [List.cons_append, longLiteralString?_cons hcontrol.1 fun _ => hX, hih]
          rfl
      · rw [if_neg (by simpa using hc)] at hrun
        rw [List.cons_append, longLiteralString?_cons hcontrol.1 fun h => absurd h hc,
          @ih 0 hcontrol.2 (by omega)]
        rfl

/-! ## The four ways -/

theorem string?_double {X : List Char} (hX : ∀ Y, X ≠ '"' :: '"' :: Y) :
    string? ('"' :: X) = basicString? X := by
  rw [string?]
  · rfl
  · exact fun _ h => hX _ (List.cons.inj h).2
  · exact fun _ h => absurd (List.cons.inj h).1 (by decide)

theorem string?_single {X : List Char} (hX : ∀ Y, X ≠ '\'' :: '\'' :: Y) :
    string? ('\'' :: X) = literalString? X := by
  rw [string?]
  · rfl
  · exact fun _ h => absurd (List.cons.inj h).1 (by decide)
  · exact fun _ h => hX _ (List.cons.inj h).2

theorem dropLineEnd_cons {c : Char} (hfeed : c ≠ '\n') (hreturn : c ≠ '\r') (X : List Char) :
    dropLineEnd (c :: X) = c :: X := by
  unfold dropLineEnd
  split
  · next h => exact absurd (List.cons.inj h).1 hfeed
  · next h => exact absurd (List.cons.inj h).1 hreturn
  · rfl

/-- A line end is put behind the opening quotes where the reader would drop one. -/
theorem dropLineEnd_append {cs w X : List Char}
    (hw : ∀ c ∈ (w ++ X).head?, c = '\n' → '\n' ∈ cs) (hreturn : (w ++ X).head? ≠ some '\r') :
    dropLineEnd ((if cs.contains '\n' then ['\n'] else []) ++ w ++ X) = w ++ X := by
  by_cases hline : cs.contains '\n' = true
  · rw [if_pos hline]
    rfl
  · rw [if_neg hline, List.nil_append]
    cases hX : w ++ X with
    | nil => rfl
    | cons c Y =>
        rw [hX] at hw hreturn
        refine dropLineEnd_cons (fun hc => hline ?_) (fun hc => hreturn (by rw [hc]; rfl)) Y
        simpa using hw c rfl hc

/-- What is written between single quotes has neither quotes of its own nor controls. -/
theorem of_quotingOf_eq_literal {cs : List Char} (h : quotingOf cs = .literal) :
    '\'' ∉ cs ∧ ∀ c ∈ cs, isControl c = false := by
  unfold quotingOf at h
  dsimp only at h
  split at h
  · cases h
  · split at h
    · next hliteral =>
        simp only [Bool.and_eq_true, Bool.not_eq_true', List.any_eq_false,
          List.contains_eq_mem, decide_eq_false_iff_not] at hliteral
        obtain ⟨⟨hplain, hquote⟩, hline⟩ := hliteral
        refine ⟨hquote, fun c hc => ?_⟩
        have hfeed : c ≠ '\n' := fun heq => hline (heq ▸ hc)
        simpa [needsEscape, hfeed] using hplain c hc
    · split at h
      · cases h
      · split at h
        · cases h
        · split at h
          · cases h
          · cases h

/-- What is written between tripled single quotes has no controls but line ends, and at most two
quotes in a row. -/
theorem of_quotingOf_eq_longLiteral {cs : List Char} (h : quotingOf cs = .longLiteral) :
    (∀ c ∈ cs, needsEscape c = false) ∧ longestRun '\'' 0 cs ≤ 2 := by
  unfold quotingOf at h
  dsimp only at h
  split at h
  · cases h
  · split at h
    · cases h
    · split at h
      · cases h
      · split at h
        · next hlong =>
            simp only [Bool.and_eq_true, Bool.not_eq_true', List.any_eq_false,
              decide_eq_true_eq] at hlong
            exact ⟨fun c hc => by simpa using hlong.1 c hc, hlong.2⟩
        · split at h
          · cases h
          · cases h

/-- **A written string is read back**, as long as no quote follows. -/
theorem string?_writeString (text : String) {rest : List Char}
    (hrest : ∀ c ∈ rest.head?, c ≠ '"' ∧ c ≠ '\'') :
    string? (writeString text ++ rest) = some (text.toList, rest) := by
  have hdouble : rest.head? ≠ some '"' := fun h => (hrest _ h).1 rfl
  have hsingle : rest.head? ≠ some '\'' := fun h => (hrest _ h).2 rfl
  unfold writeString
  dsimp only
  generalize text.toList = cs
  split
  · -- between double quotes the text begins with a quote only if it is empty
    have hX : ∀ Y, writeCharacters false 0 cs ++ '"' :: rest ≠ '"' :: '"' :: Y := by
      intro Y heq
      cases cs with
      | nil => exact hdouble (by rw [(List.cons.inj heq).2]; rfl)
      | cons c cs =>
          rw [writeCharacters, List.append_assoc] at heq
          have hwritten := written_writeCharacter false 0 c
          exact hwritten.append_ne hwritten.ne_quote _ _ heq
    simp only [List.cons_append, List.append_assoc, List.nil_append]
    rw [string?_double hX, basicString?_writeCharacters]
  · next hliteral =>
      obtain ⟨hquote, hcontrol⟩ := of_quotingOf_eq_literal hliteral
      have hX : ∀ Y, cs ++ '\'' :: rest ≠ '\'' :: '\'' :: Y := by
        intro Y heq
        cases cs with
        | nil => exact hsingle (by rw [(List.cons.inj heq).2]; rfl)
        | cons c cs => exact hquote ((List.cons.inj heq).1 ▸ List.mem_cons_self)
      simp only [List.cons_append, List.append_assoc, List.nil_append]
      rw [string?_single hX, literalString?_append hquote hcontrol]
  · have hdrop : dropLineEnd ((if cs.contains '\n' then ['\n'] else [])
          ++ writeCharacters true 0 cs ++ '"' :: '"' :: '"' :: rest)
        = writeCharacters true 0 cs ++ '"' :: '"' :: '"' :: rest := by
      cases cs with
      | nil => rfl
      | cons c cs =>
          obtain ⟨e, v, hw, -, hfeed, hreturn⟩ := (written_writeCharacter true 0 c).exists_cons
          refine dropLineEnd_append ?_ ?_
          · intro d hd hnewline
            rw [writeCharacters, hw] at hd
            obtain rfl : e = d := by simpa using hd
            exact hfeed hnewline ▸ List.mem_cons_self
          · rw [writeCharacters, hw]
            simpa using hreturn
    simp only [List.cons_append, List.append_assoc, List.nil_append] at hdrop ⊢
    rw [string?, hdrop, longBasicString?_writeCharacters hdouble]
  · next hliteral =>
      obtain ⟨hcontrol, hrun⟩ := of_quotingOf_eq_longLiteral hliteral
      have hdrop : dropLineEnd ((if cs.contains '\n' then ['\n'] else [])
            ++ cs ++ '\'' :: '\'' :: '\'' :: rest) = cs ++ '\'' :: '\'' :: '\'' :: rest := by
        cases cs with
        | nil => rfl
        | cons c cs =>
            refine dropLineEnd_append ?_ ?_
            · intro d hd hnewline
              obtain rfl : c = d := by simpa using hd
              exact hnewline ▸ List.mem_cons_self
            · intro hreturn
              obtain rfl : c = '\r' := by simpa using hreturn
              cases hcontrol _ List.mem_cons_self
      simp only [List.cons_append, List.append_assoc, List.nil_append] at hdrop ⊢
      rw [string?, hdrop, longLiteralString?_append hsingle hcontrol hrun]

end SolidityTools.Toml

import SolidityTools.Token.Style
import SolidityTools.Proofs.Text.Split
import SolidityTools.Proofs.Token.Group
import SolidityTools.Proofs.Token.Tiling

set_option autoImplicit false

/-! # Highlighting adds rendition sequences only

A terminal reads a text as characters to show and sequences that set the rendition, each of which
begins with the escape character (`Terminal.signs`). A source without that character has no
sequences of its own, whatever brackets, digits and letters stand in it, so all the sequences of
the highlighted text are those around the tokens. Reading the highlighted text gives the signs of
the tokens one after the other (`signs_highlightedText`), and a place where a sequence stands is
found token by token (`exists_token_of_sequence`).
-/

namespace SolidityTools

open Text

/-! ## Reading a terminal text -/

namespace Terminal

/-- The character that begins a sequence. -/
def escape : Char := '\x1b'

/-- The parameters that turn all renditions off. -/
def reset : List Char := ['0']

def isParameter (c : Char) : Bool := c.isDigit || c == ';'

/-- The sequence with some parameters. -/
def sequence (parameters : List Char) : List Char := escape :: '[' :: (parameters ++ ['m'])

/-- What a terminal reads: a character to show, or a change of the rendition. -/
inductive Sign where
  | character (c : Char)
  | rendition (parameters : List Char)
deriving DecidableEq, Repr

/-- The parameters of the sequence that an escape character begins, given the text behind it. -/
def parameters? : List Char → Option (List Char)
  | '[' :: cs =>
    if (cs.dropWhile isParameter).head? = some 'm' then some (cs.takeWhile isParameter) else none
  | _ => none

/-- The signs of a text. An escape character that begins no sequence is shown. -/
def signs : List Char → List Sign
  | [] => []
  | c :: cs =>
    match if c = escape then parameters? cs else none with
    | some parameters => .rendition parameters :: signs (cs.drop (parameters.length + 2))
    | none => .character c :: signs cs
termination_by cs => cs.length
decreasing_by all_goals simp only [List.length_drop, List.length_cons]; omega

/-- The character that a sign shows, if any. -/
def Sign.character? : Sign → Option Char
  | .character c => some c
  | .rendition _ => none

/-- A text without its sequences. -/
def deleteSequences (cs : List Char) : List Char := (signs cs).filterMap Sign.character?

/-- The renditions that are on behind a sign. They add up until all are turned off. -/
def Sign.turn (on : List (List Char)) : Sign → List (List Char)
  | .character _ => on
  | .rendition parameters => if parameters = reset then [] else on ++ [parameters]

/-- The characters that are shown, each with the renditions that are on. -/
def cells (on : List (List Char)) : List Sign → List (Char × List (List Char))
  | [] => []
  | .character c :: signs => (c, on) :: cells on signs
  | .rendition parameters :: signs => cells (Sign.turn on (.rendition parameters)) signs

/-- The renditions that are left on behind some signs. -/
def leftOn (on : List (List Char)) (signs : List Sign) : List (List Char) :=
  signs.foldl Sign.turn on

/-! ## Texts and sequences -/

theorem signs_append {text : List Char} (h : escape ∉ text) (rest : List Char) :
    signs (text ++ rest) = text.map .character ++ signs rest := by
  induction text with
  | nil => rfl
  | cons c text ih =>
      rw [List.mem_cons, not_or] at h
      rw [List.cons_append, signs, if_neg (Ne.symm h.1), ih h.2]
      rfl

/-- A sequence is read as one sign, whatever stands behind it. -/
theorem signs_sequence {parameters : List Char} (h : parameters.all isParameter = true)
    (rest : List Char) :
    signs (sequence parameters ++ rest) = .rendition parameters :: signs rest := by
  have htake : (parameters ++ 'm' :: rest).takeWhile isParameter = parameters := by
    rw [List.takeWhile_append_of_pos (by simpa using h), List.takeWhile_cons_of_neg (by decide),
      List.append_nil]
  have hdrop : (parameters ++ 'm' :: rest).dropWhile isParameter = 'm' :: rest := by
    rw [List.dropWhile_append_of_pos (by simpa using h), List.dropWhile_cons_of_neg (by decide)]
  have hread : parameters? ('[' :: (parameters ++ 'm' :: rest)) = some parameters := by
    rw [parameters?, hdrop, htake]
    rfl
  have htext : sequence parameters ++ rest = escape :: '[' :: (parameters ++ 'm' :: rest) := by
    simp [sequence]
  have hrest : ('[' :: (parameters ++ 'm' :: rest)).drop (parameters.length + 2) = rest := by
    rw [List.drop_succ_cons, ← List.drop_drop, List.drop_left]
    rfl
  rw [htext, signs, if_pos rfl, hread]
  show Sign.rendition parameters :: signs _ = _
  rw [hrest]

theorem cells_append (on : List (List Char)) (as bs : List Sign) :
    cells on (as ++ bs) = cells on as ++ cells (leftOn on as) bs := by
  induction as generalizing on with
  | nil => rfl
  | cons a as ih =>
      cases a with
      | character c => exact congrArg ((c, on) :: ·) (ih on)
      | rendition parameters => exact ih _

theorem cells_map_character (on : List (List Char)) (text : List Char) :
    cells on (text.map .character) = text.map fun c => (c, on) := by
  induction text with
  | nil => rfl
  | cons c text ih => exact congrArg ((c, on) :: ·) ih

theorem leftOn_map_character (on : List (List Char)) (text : List Char) :
    leftOn on (text.map .character) = on := by
  induction text with
  | nil => rfl
  | cons c text ih => exact ih

/-! ## Places of sequences -/

section Places

variable {p q before behind rest : List Char}

/-- Where two sequences stand at one place, they are the same. -/
theorem sequence_append_inj (hp : p.all isParameter = true) (hq : q.all isParameter = true)
    (heq : sequence p ++ behind = sequence q ++ rest) : p = q ∧ behind = rest := by
  have hletter : ∀ {p : List Char}, p.all isParameter = true → ∀ c ∈ p, (c == 'm') = false := by
    intro p hp c hc
    rw [beq_eq_false_iff_ne]
    rintro rfl
    exact absurd (List.all_eq_true.mp hp 'm' hc) (by decide)
  have hbehind : p ++ 'm' :: behind = q ++ 'm' :: rest := by
    simpa [sequence] using heq
  obtain ⟨rfl, -, rfl⟩ := append_cons_inj_of_first (p := (· == 'm')) (hletter hp) (hletter hq)
    (by decide) (by decide) hbehind
  exact ⟨rfl, rfl⟩

theorem escape_notMem_of_all (h : p.all isParameter = true) : escape ∉ p := fun hmem =>
  absurd (List.all_eq_true.mp h escape hmem) (by decide)

/-- In a text that begins with a sequence, another one stands at its place or behind it. -/
theorem sequence_append_cases (hp : p.all isParameter = true) (hq : q.all isParameter = true)
    (heq : sequence q ++ rest = before ++ (sequence p ++ behind)) :
    (before = [] ∧ p = q ∧ behind = rest) ∨
      ∃ front, before = sequence q ++ front ∧ rest = front ++ (sequence p ++ behind) := by
  cases before with
  | nil => exact Or.inl ⟨rfl, sequence_append_inj hp hq heq.symm⟩
  | cons c before =>
      obtain ⟨rfl, htext⟩ := List.cons.inj heq
      have htail : escape ∉ '[' :: (q ++ ['m']) := by
        simp only [List.mem_cons, List.mem_append, List.not_mem_nil, or_false, not_or]
        exact ⟨by decide, escape_notMem_of_all hq, by decide⟩
      obtain ⟨front, rfl, hrest⟩ := exists_append_of_notMem htext.symm htail
      exact Or.inr ⟨front, rfl, hrest⟩

end Places

end Terminal

/-! ## Highlighted tokens -/

open Terminal

theorem TokenStyle.all_isParameter_ansi (s : TokenStyle) :
    s.ansi.toList.all isParameter = true := by
  cases s <;> rfl

theorem TokenStyle.ansi_eq_reset_iff (s : TokenStyle) : s.ansi.toList = reset ↔ s = .plain := by
  cases s <;> decide

theorem toList_rendition (parameters : String) :
    (rendition parameters).toList = sequence parameters.toList := by
  rw [rendition, String.toList_append, String.toList_append]
  rfl

/-- Some tokens as they are shown on a terminal. -/
def highlightedText (tokens : List Token) : List Char := tokens.flatMap (·.highlighted.toList)

theorem toList_highlight (source : String) :
    (highlight source).toList = highlightedText (tokenize source) := by
  simp [highlight, highlightedText, String.toList_join, List.flatMap_map]

theorem highlightedText_cons_plain {t : Token} (h : t.style = .plain) (ts : List Token) :
    highlightedText (t :: ts) = t.text.toList ++ highlightedText ts := by
  rw [highlightedText, List.flatMap_cons, Token.highlighted, if_pos h]
  rfl

/-- Any other token is shown between the sequence of its style and the one that turns it off. -/
theorem highlightedText_cons_styled {t : Token} (h : t.style ≠ .plain) (ts : List Token) :
    highlightedText (t :: ts) = sequence t.style.ansi.toList ++
      (t.text.toList ++ (sequence reset ++ highlightedText ts)) := by
  rw [highlightedText, List.flatMap_cons, Token.highlighted, if_neg h, String.toList_append,
    String.toList_append, toList_rendition, toList_rendition, List.append_assoc, List.append_assoc]
  rfl

def Token.renditions (t : Token) : List (List Char) :=
  if t.style = .plain then [] else [t.style.ansi.toList]

def Token.signs (t : Token) : List Sign :=
  if t.style = .plain then t.text.toList.map .character
  else .rendition t.style.ansi.toList :: (t.text.toList.map .character ++ [.rendition reset])

/-- **A highlighted text is read token by token.** -/
theorem signs_highlightedText {tokens : List Token} (h : ∀ t ∈ tokens, escape ∉ t.text.toList) :
    signs (highlightedText tokens) = tokens.flatMap Token.signs := by
  induction tokens with
  | nil =>
      show signs [] = []
      rw [signs]
  | cons t ts ih =>
      have htext := h t List.mem_cons_self
      have hrest := ih fun u hu => h u (List.mem_cons_of_mem t hu)
      rw [List.flatMap_cons, Token.signs]
      by_cases hplain : t.style = .plain
      · rw [if_pos hplain, highlightedText_cons_plain hplain, signs_append htext, hrest]
      · rw [if_neg hplain, highlightedText_cons_styled hplain,
          signs_sequence t.style.all_isParameter_ansi, signs_append htext,
          signs_sequence (by decide), hrest, List.cons_append, List.append_assoc,
          List.singleton_append]

theorem Token.filterMap_signs (t : Token) :
    t.signs.filterMap Sign.character? = t.text.toList := by
  have htext : (t.text.toList.map Sign.character).filterMap Sign.character? = t.text.toList := by
    rw [List.filterMap_map]
    exact List.filterMap_some
  rw [Token.signs]
  split
  · exact htext
  · show (_ ++ [Sign.rendition reset]).filterMap Sign.character? = _
    rw [List.filterMap_append, htext]
    exact List.append_nil _

/-- Where no rendition is on, a token is shown in its own, and none is left on behind it. -/
theorem Token.cells_signs (t : Token) :
    cells [] t.signs = t.text.toList.map (fun c => (c, t.renditions)) ∧ leftOn [] t.signs = [] := by
  rw [Token.signs, Token.renditions]
  by_cases hplain : t.style = .plain
  · rw [if_pos hplain, if_pos hplain]
    exact ⟨cells_map_character [] _, leftOn_map_character [] _⟩
  · have hne : t.style.ansi.toList ≠ reset := fun heq =>
      hplain (t.style.ansi_eq_reset_iff.mp heq)
    have hturn : Sign.turn [] (.rendition t.style.ansi.toList) = [t.style.ansi.toList] := if_neg hne
    rw [if_neg hplain, if_neg hplain]
    constructor
    · show cells (Sign.turn [] (.rendition t.style.ansi.toList)) _ = _
      rw [hturn, cells_append, cells_map_character]
      exact List.append_nil _
    · show leftOn (Sign.turn [] (.rendition t.style.ansi.toList)) _ = _
      rw [hturn, leftOn, List.foldl_append]
      rfl

theorem cells_flatMap_signs (tokens : List Token) :
    cells [] (tokens.flatMap Token.signs)
        = tokens.flatMap (fun t => t.text.toList.map fun c => (c, t.renditions)) ∧
      leftOn [] (tokens.flatMap Token.signs) = [] := by
  induction tokens with
  | nil => exact ⟨rfl, rfl⟩
  | cons t ts ih =>
      obtain ⟨hcells, hleft⟩ := t.cells_signs
      rw [List.flatMap_cons, List.flatMap_cons]
      constructor
      · rw [cells_append, hcells, hleft, ih.1]
      · have hfold : leftOn [] (t.signs ++ ts.flatMap Token.signs)
            = leftOn (leftOn [] t.signs) (ts.flatMap Token.signs) := List.foldl_append
        rw [hfold, hleft, ih.2]

/-- **A sequence that turns a rendition on stands in front of a token.** Behind it comes the text of
that token, and then everything is turned off again. -/
theorem exists_token_of_sequence {tokens : List Token} (h : ∀ t ∈ tokens, escape ∉ t.text.toList)
    {before p behind : List Char} (hp : p.all isParameter = true) (hreset : p ≠ reset)
    (heq : highlightedText tokens = before ++ (sequence p ++ behind)) :
    ∃ ts t us, tokens = ts ++ t :: us ∧ t.style.ansi.toList = p ∧ before = highlightedText ts ∧
      behind = t.text.toList ++ (sequence reset ++ highlightedText us) := by
  induction tokens generalizing before with
  | nil => cases before <;> cases heq
  | cons t tokens ih =>
      have htext := h t List.mem_cons_self
      have hrest := fun u hu => h u (List.mem_cons_of_mem t hu)
      by_cases hplain : t.style = .plain
      · rw [highlightedText_cons_plain hplain] at heq
        obtain ⟨front, rfl, hfront⟩ := exists_append_of_notMem heq.symm htext
        obtain ⟨ts, u, us, rfl, hansi, rfl, hbehind⟩ := ih hrest hfront
        exact ⟨t :: ts, u, us, rfl, hansi, (highlightedText_cons_plain hplain ts).symm, hbehind⟩
      · rw [highlightedText_cons_styled hplain] at heq
        rcases sequence_append_cases hp t.style.all_isParameter_ansi heq with
          ⟨rfl, rfl, rfl⟩ | ⟨front, rfl, hfront⟩
        · exact ⟨[], t, tokens, rfl, rfl, rfl, rfl⟩
        · -- the next sequence is the one that turns everything off, and the others are behind it
          obtain ⟨middle, rfl, hmiddle⟩ := exists_append_of_notMem hfront.symm htext
          rcases sequence_append_cases (q := reset) hp (by decide) hmiddle with
            ⟨-, heq, -⟩ | ⟨last, rfl, hlast⟩
          · exact absurd heq hreset
          · obtain ⟨ts, u, us, rfl, hansi, rfl, hbehind⟩ := ih hrest hlast
            exact ⟨t :: ts, u, us, rfl, hansi, (highlightedText_cons_styled hplain ts).symm,
              hbehind⟩

theorem escape_notMem_of_mem_tokenize {source : String} (h : escape ∉ source.toList) :
    ∀ t ∈ tokenize source, escape ∉ t.text.toList := by
  intro t ht hmem
  obtain ⟨P, S, hsource, -⟩ := Lexer.exists_append_of_mem_tokensFrom ht
  exact h (by rw [hsource]; simp [hmem])

/-- **Highlighting adds rendition sequences only.** Let a source have no escape character. Deleting
every sequence from its highlighted text gives the source back. A sequence that turns a rendition on
stands, wherever it does, between the highlighted tokens in front of a token and the text of that
token, and behind that text everything is turned off. So a terminal shows each character in the
rendition of its own token and in no other, and leaves none on at the end. -/
theorem highlight_adds_sequences {source : String} (h : escape ∉ source.toList) :
    deleteSequences (highlight source).toList = source.toList ∧
      (∀ before p behind, p.all isParameter = true → p ≠ reset →
        (highlight source).toList = before ++ (sequence p ++ behind) →
        ∃ ts t us, tokenize source = ts ++ t :: us ∧ t.style.ansi.toList = p ∧
          before = highlightedText ts ∧
          behind = t.text.toList ++ (sequence reset ++ highlightedText us)) ∧
      cells [] (signs (highlight source).toList)
        = (tokenize source).flatMap (fun t => t.text.toList.map fun c => (c, t.renditions)) ∧
      leftOn [] (signs (highlight source).toList) = [] := by
  have htokens := escape_notMem_of_mem_tokenize h
  have hsigns : signs (highlight source).toList = (tokenize source).flatMap Token.signs := by
    rw [toList_highlight, signs_highlightedText htokens]
  have htexts : (tokenize source).flatMap (·.text.toList) = source.toList :=
    Lexer.flatMap_text_tokensFrom 0 source.toList
  refine ⟨?_, ?_, ?_⟩
  · rw [deleteSequences, hsigns, List.filterMap_flatMap, ← htexts]
    exact congrArg (List.flatMap · _) (funext Token.filterMap_signs)
  · intro before p behind hp hreset heq
    rw [toList_highlight] at heq
    exact exists_token_of_sequence htokens hp hreset heq
  · rw [hsigns]
    exact cells_flatMap_signs (tokenize source)

/-- A source that looks like a sequence but for its escape character, and the place of its first
number. -/
theorem highlight_adds_sequences_brackets :
    let source := "[0;1m"
    let before := "\x1b[37m[\x1b[0m".toList
    let behind := "0\x1b[0m\x1b[37m;\x1b[0m\x1b[38;5;208m1\x1b[0mm".toList
    escape ∉ source.toList ∧ deleteSequences (highlight source).toList = source.toList ∧
      (highlight source).toList = before ++ (sequence "38;5;208".toList ++ behind) ∧
      ∃ ts t us, tokenize source = ts ++ t :: us ∧ before = highlightedText ts ∧
        behind = t.text.toList ++ (sequence reset ++ highlightedText us) := by
  intro source before behind
  have h : escape ∉ source.toList := by decide
  have hplace : (highlight source).toList
      = before ++ (sequence "38;5;208".toList ++ behind) := by decide +kernel
  obtain ⟨hdelete, htokens, -⟩ := highlight_adds_sequences h
  obtain ⟨ts, t, us, hsplit, -, hbefore, hbehind⟩ :=
    htokens before "38;5;208".toList behind (by decide) (by decide) hplace
  exact ⟨h, hdelete, hplace, ts, t, us, hsplit, hbefore, hbehind⟩

end SolidityTools

import SolidityTools.Import
import SolidityTools.Proofs.Position
import SolidityTools.Proofs.Token.Line
import SolidityTools.Proofs.Token.Unclosed

set_option autoImplicit false

/-! # Printed import statements

Reading the imports of a text inverts printing them (`importsOf_print`). The printed text has one
statement on a line, in one of three forms, and comments stand behind the statements and on lines of
their own.

What a path or a comment may have in it does not matter: a path ends with its own quote, and a
comment with its line. So each piece of a line is cut into its tokens by itself, whatever stands
behind it (`Import.Passes`), and the statement on the line is read as it was meant, with nothing of
it left for the next one.
-/

namespace SolidityTools

open Text Lexer

/-! ## The tokens of a statement -/

namespace Import

variable {source : String} {front rest : List Token} {keyword literal semicolon : Token}

/-- A significant token that may stand between the keyword of an import and its path. -/
structure IsPassed (t : Token) : Prop where
  not_trivia : t.isTrivia = false
  kind_ne : t.kind ≠ .string
  not_semicolon : t.isOperator ";" = false
  not_import : t.isKeyword "import" = false

theorem path?_append (hfront : ∀ t ∈ front, IsPassed t) (hkind : literal.kind = .string)
    (hterminated : literal.isTerminated = true) (rest : List Token) :
    path? (front ++ literal :: rest) = some (unquoted literal) := by
  have hliteral : (!literal.isOperator ";") = true := by simp [Token.isOperator, hkind]
  have hnone : front.find? (fun t => t.kind == .string && t.isTerminated) = none := by
    rw [List.find?_eq_none]
    intro t ht
    simp [(hfront t ht).kind_ne]
  have hbefore : (front ++ literal :: rest).takeWhile (!·.isOperator ";")
      = front ++ literal :: rest.takeWhile (!·.isOperator ";") := by
    rw [List.takeWhile_append_of_pos fun t ht => by simp [(hfront t ht).not_semicolon],
      List.takeWhile_cons, if_pos hliteral]
  rw [path?, hbefore, List.find?_append, hnone, Option.none_or,
    List.find?_cons_of_pos (by simp [hkind, hterminated])]
  rfl

/-- Where there is no keyword, there is no import. -/
theorem ofTokens_append (hfront : ∀ t ∈ front, t.isKeyword "import" = false) (rest : List Token) :
    ofTokens source (front ++ rest) = ofTokens source rest := by
  induction front with
  | nil => rfl
  | cons t front ih =>
      rw [List.cons_append, ofTokens, hfront t List.mem_cons_self]
      exact ih fun u hu => hfront u (List.mem_cons_of_mem t hu)

/-- **A statement is one import.** -/
theorem ofTokens_statement (hkeyword : keyword.isKeyword "import" = true)
    (hfront : ∀ t ∈ front, IsPassed t) (hkind : literal.kind = .string)
    (hterminated : literal.isTerminated = true) (hsemicolon : semicolon.kind = .operator)
    (rest : List Token) :
    ofTokens source (keyword :: (front ++ literal :: semicolon :: rest))
      = ofPath (unquoted literal) (positionAt source keyword.start).line
          :: ofTokens source rest := by
  have hliteral : literal.isKeyword "import" = false := by simp [Token.isKeyword, hkind]
  have hend : semicolon.isKeyword "import" = false := by simp [Token.isKeyword, hsemicolon]
  -- the search for keywords goes through the statement again, and finds none
  rw [ofTokens, if_pos hkeyword, path?_append hfront hkind hterminated,
    ofTokens_append fun t ht => (hfront t ht).not_import, ofTokens, hliteral, ofTokens, hend]
  rfl

/-! ## Pieces of a statement -/

/-- A text that is cut into tokens by itself, whatever stands behind it. All of them may stand
between the keyword of an import and its path. -/
def Passes (cs : List Char) : Prop :=
  ∀ offset X, ∃ ts, (∀ t ∈ ts, IsPassed t) ∧
    significantTokens (tokensFrom offset (cs ++ X))
      = ts ++ significantTokens (tokensFrom (offset + byteLength cs) X)

section Passes

variable {c d : Char} {cs ds w : List Char}

theorem passes_nil : Passes [] := fun _ _ => ⟨[], by simp, rfl⟩

theorem Passes.blank (hcs : Passes cs) : Passes (' ' :: cs) := by
  intro offset X
  obtain ⟨ts, hts, hcut⟩ := hcs (offset + ' '.utf8Size) X
  refine ⟨ts, hts, ?_⟩
  rw [List.cons_append, significantTokens_blank offset (by decide), hcut, byteLength_cons,
    Nat.add_assoc]

/-- A token in front, whatever its kind is. -/
theorem Passes.token (hfirst : ∀ X, ∃ kind, lexeme c (w ++ (cs ++ X)) = (kind, w.length) ∧
      ∀ start, IsPassed ⟨kind, String.ofList (c :: w), start⟩)
    (hcs : Passes cs) : Passes (c :: (w ++ cs)) := by
  intro offset X
  obtain ⟨ts, hts, hcut⟩ := hcs (offset + byteLength (c :: w)) X
  obtain ⟨kind, hlex, hpassed⟩ := hfirst X
  refine ⟨_ :: ts, List.forall_mem_cons.mpr ⟨hpassed offset, hts⟩, ?_⟩
  rw [List.cons_append, List.append_assoc,
    significantTokens_token (hpassed offset).not_trivia hlex, hcut, ← List.cons_append (a := c),
    byteLength_append, Nat.add_assoc, List.cons_append]

/-- A mark other than a semicolon. -/
theorem Passes.mark (hc : c ≠ ';') (hlex : ∀ X, lexeme c (cs ++ X) = (.operator, 0))
    (hcs : Passes cs) : Passes (c :: cs) := by
  have htext : (String.ofList [c] == ";") = false := by
    rw [beq_eq_false_iff_ne]
    intro htext
    have hlist := congrArg String.toList htext
    rw [String.toList_ofList] at hlist
    exact hc (List.cons.inj hlist).1
  refine Passes.token (w := []) (fun X => ⟨.operator, hlex X, fun start => ⟨rfl, nofun, ?_, rfl⟩⟩)
    hcs
  rw [Token.isOperator, htext, Bool.and_false]

theorem isPassed_of_isWord {t : Token} (hword : t.isWord = true) (htext : t.text ≠ "import") :
    IsPassed t := by
  refine ⟨Token.isTrivia_of_isWord hword, ?_, Token.isOperator_of_isWord hword ";", ?_⟩
  · intro hkind
    simp [Token.isWord, hkind] at hword
  · rw [Token.isKeyword, beq_eq_false_iff_ne.mpr htext, Bool.and_false]

/-- A word with something behind it that could not continue it. -/
theorem Passes.word (hc : isWordStart c = true) (hw : w.all isWordPart = true)
    (hd : isWordPart d = false) (hname : String.ofList (c :: w) ≠ "import")
    (hds : Passes (d :: ds)) : Passes (c :: (w ++ d :: ds)) := by
  refine Passes.token (fun X => ?_) hds
  have hrun : runLength isWordPart (d :: ds ++ X) = 0 := by simp [runLength, hd]
  -- the text behind may make a function of the word, but never a keyword
  exact ⟨_, lexeme_word hc hw hrun, fun start =>
    isPassed_of_isWord (isWord_wordKind _ _ _ start) hname⟩

end Passes

end Import

/-! ## Printing -/

namespace ImportText

structure Name where
  first : Char
  rest : List Char
  isWordStart_first : isWordStart first = true
  all_rest : rest.all isWordPart = true
  not_keyword : isKeywordText (String.ofList (first :: rest)) = false

def Name.text (name : Name) : List Char := name.first :: name.rest

/-- What an import takes from its file. -/
inductive Clause where
  /-- Everything, as in `import "p";`. -/
  | everything
  /-- The listed names, as in `import {A, B} from "p";`. -/
  | listed (names : List Name)
  /-- Everything under a name, as in `import * as X from "p";`. -/
  | renamed (name : Name)

/-- Names with commas between them. -/
def namesText : List Name → List Char
  | [] => []
  | [name] => name.text
  | name :: names => name.text ++ ',' :: ' ' :: namesText names

/-- The text of a clause, with the blank behind it. -/
def Clause.text : Clause → List Char
  | .everything => []
  | .listed names => '\x7b' :: (namesText names ++ '\x7d' :: " from ".toList)
  | .renamed name => "* as ".toList ++ (name.text ++ " from ".toList)

/-- A path between quotes. It has everything but a quote of this sort, a backslash and a line
feed. -/
structure Literal where
  quote : Char
  path : List Char
  isQuote : quote = '"' ∨ quote = '\''
  plain : ∀ c ∈ path, c ≠ quote ∧ c ≠ '\\' ∧ c ≠ '\n'

def Literal.text (literal : Literal) : List Char :=
  literal.quote :: (literal.path ++ [literal.quote])

structure Statement where
  clause : Clause
  literal : Literal

def Statement.text (s : Statement) : List Char :=
  "import ".toList ++ (s.clause.text ++ (s.literal.text ++ [';']))

/-- A comment that ends with its line, and the number of spaces in front of it. -/
structure Comment where
  indent : Nat
  body : List Char
  onLine : '\n' ∉ body

def Comment.text (comment : Comment) : List Char :=
  List.replicate comment.indent ' ' ++ '/' :: '/' :: comment.body

/-- A line: a statement, a comment, a comment behind a statement, or nothing. -/
structure Line where
  statement : Option Statement
  comment : Option Comment

def Line.text (line : Line) : List Char :=
  (line.statement.map Statement.text).getD [] ++ (line.comment.map Comment.text).getD []

def print (lines : List Line) : String := String.ofList (joinLines (lines.map Line.text))

/-- The import on a line with a number: the path as it is, and its kind. -/
def Line.import? (number : Nat) (line : Line) : Option Import :=
  line.statement.map fun s =>
    let path := String.ofList s.literal.path
    ⟨path, .of path, number⟩

/-- The imports of some lines, of which the first one has a number. -/
def imports (number : Nat) (lines : List Line) : List Import :=
  (lines.zipIdx number).filterMap fun (line, number) => line.import? number

/-! ## Reading a statement -/

theorem Name.ne_import (name : Name) : String.ofList (name.first :: name.rest) ≠ "import" := by
  intro himport
  have hkeyword := name.not_keyword
  rw [himport] at hkeyword
  exact absurd hkeyword (by decide)

theorem Name.passes (name : Name) {d : Char} {ds : List Char} (hd : isWordPart d = false)
    (hds : Import.Passes (d :: ds)) : Import.Passes (name.text ++ d :: ds) :=
  hds.word name.isWordStart_first name.all_rest hd name.ne_import

theorem lexeme_comma (cs : List Char) : lexeme ',' cs = (.operator, 0) :=
  (Scanned.operator rfl rfl rfl rfl (operatorLength?_of_head (by decide) rfl cs)).lexeme_eq

theorem passes_from : Import.Passes " from ".toList :=
  Import.Passes.blank (Import.passes_nil.blank.word (c := 'f') (w := "rom".toList) (by decide)
    (by decide) (by decide) (by decide))

/-- Names with a closing brace behind them. -/
theorem passes_namesText {ds : List Char} (hds : Import.Passes ds) (names : List Name) :
    Import.Passes (namesText names ++ '\x7d' :: ds) := by
  have hbrace : Import.Passes ('\x7d' :: ds) :=
    hds.mark (by decide) fun X => lexeme_punctuation (by decide) _
  induction names with
  | nil => exact hbrace
  | cons name names ih =>
      cases names with
      | nil => exact name.passes (by decide) hbrace
      | cons name' names =>
          have hcomma := ih.blank.mark (c := ',') (by decide) fun X => lexeme_comma _
          have htext := name.passes (by decide) hcomma
          simpa [namesText] using htext

theorem Clause.passes (clause : Clause) : Import.Passes clause.text := by
  cases clause with
  | everything => exact Import.passes_nil
  | listed names =>
      exact (passes_namesText passes_from names).mark (by decide) fun X =>
        lexeme_punctuation (by decide) _
  | renamed name =>
      have hname : Import.Passes (name.text ++ " from ".toList) :=
        name.passes (by decide) passes_from
      have has : Import.Passes ('a' :: (['s'] ++ ' ' :: (name.text ++ " from ".toList))) :=
        hname.blank.word (by decide) (by decide) (by decide) (by decide)
      exact has.blank.mark (by decide) fun X => (Scanned.operator rfl rfl rfl rfl rfl).lexeme_eq

theorem Literal.enclosed (literal : Literal) : Enclosed literal.quote literal.path := by
  have h := literal.plain
  generalize literal.path = path at h
  induction path with
  | nil => exact .nil
  | cons c path ih =>
      obtain ⟨hquote, hescape, -⟩ := h c List.mem_cons_self
      exact .character hquote hescape (ih fun d hd => h d (List.mem_cons_of_mem c hd))

/-- A literal is read to its closing quote. -/
theorem Literal.lexeme_eq (literal : Literal) (X : List Char) :
    lexeme literal.quote ((literal.path ++ [literal.quote]) ++ X)
      = (.string, (literal.path ++ [literal.quote]).length) := by
  have hescape : literal.quote ≠ '\\' := by
    rcases literal.isQuote with h | h <;> rw [h] <;> decide
  have hlength := literal.enclosed.stringLength_eq hescape X
  have hcomment : commentLength? literal.quote ((literal.path ++ [literal.quote]) ++ X) = none := by
    rcases literal.isQuote with h | h <;> rw [h] <;> rfl
  refine (Scanned.string hcomment (stringLength?_eq_some_iff.mpr ⟨literal.isQuote, ?_⟩)).lexeme_eq
  rw [List.append_assoc, List.singleton_append, hlength, List.length_append, List.length_singleton]

def Literal.token (literal : Literal) (start : Nat) : Token :=
  ⟨.string, String.ofList literal.text, start⟩

theorem Literal.isTerminated_token (literal : Literal) (start : Nat) :
    (literal.token start).isTerminated = true := by
  rw [Token.isTerminated, token, String.toList_ofList]
  exact literal.enclosed.closesString

theorem Literal.unquoted_token (literal : Literal) (start : Nat) :
    Import.unquoted (literal.token start) = String.ofList literal.path := by
  rw [Import.unquoted, token, String.toList_ofList, text, List.tail_cons, List.dropLast_concat]

theorem Literal.significantTokens_append (literal : Literal) (offset : Nat) (X : List Char) :
    significantTokens (tokensFrom offset (literal.text ++ X))
      = literal.token offset
          :: significantTokens (tokensFrom (offset + byteLength literal.text) X) :=
  significantTokens_token rfl (literal.lexeme_eq X)

theorem significantTokens_import (offset : Nat) (X : List Char) :
    significantTokens (tokensFrom offset ("import ".toList ++ X))
      = ⟨.keyword, "import", offset⟩
          :: significantTokens (tokensFrom (offset + byteLength "import ".toList) X) := by
  have hkind : wordKind ('i' :: "mport".toList) (' ' :: X) = .keyword := by
    rw [wordKind]
    exact if_pos (by decide)
  have hlex := lexeme_word (c := 'i') (w := "mport".toList) (X := ' ' :: X) (by decide) (by decide)
    (by simp [runLength, show isWordPart ' ' = false by decide])
  rw [hkind] at hlex
  show significantTokens (tokensFrom offset ('i' :: ("mport".toList ++ ' ' :: X))) = _
  rw [significantTokens_token rfl hlex, significantTokens_blank _ (by decide), Nat.add_assoc]
  rfl

theorem significantTokens_semicolon (offset : Nat) (X : List Char) :
    significantTokens (tokensFrom offset (';' :: X))
      = ⟨.operator, ";", offset⟩
          :: significantTokens (tokensFrom (offset + byteLength [';']) X) :=
  significantTokens_token (w := []) rfl (lexeme_punctuation (by decide) X)

/-- **A printed statement is read as its import**, whatever stands behind it. -/
theorem Statement.ofTokens_text {source : String} (s : Statement) (offset : Nat) (X : List Char) :
    Import.ofTokens source (significantTokens (tokensFrom offset (s.text ++ X)))
      = .ofPath (String.ofList s.literal.path) (positionAt source offset).line
          :: Import.ofTokens source
              (significantTokens (tokensFrom (offset + byteLength s.text) X)) := by
  obtain ⟨front, hfront, hclause⟩ := s.clause.passes (offset + byteLength "import ".toList)
    (s.literal.text ++ ';' :: X)
  have htext : s.text ++ X
      = "import ".toList ++ (s.clause.text ++ (s.literal.text ++ ';' :: X)) := by
    -- not by `rw`, which evaluates the literal
    unfold text
    rw [List.append_assoc, List.append_assoc, List.append_assoc, List.singleton_append]
  have hlength : byteLength s.text = byteLength "import ".toList
      + (byteLength s.clause.text + (byteLength s.literal.text + byteLength [';'])) := by
    unfold text
    rw [byteLength_append, byteLength_append, byteLength_append]
  rw [hlength, htext, significantTokens_import, hclause, s.literal.significantTokens_append,
    significantTokens_semicolon,
    Import.ofTokens_statement rfl hfront rfl (s.literal.isTerminated_token _) rfl,
    s.literal.unquoted_token, Nat.add_assoc, Nat.add_assoc, Nat.add_assoc]

/-! ## Reading lines -/

theorem Comment.significantTokens_append (comment : Comment) (offset : Nat) {X : List Char}
    (hX : runLength (· != '\n') X = 0) :
    significantTokens (tokensFrom offset (comment.text ++ X))
      = significantTokens (tokensFrom (offset + byteLength comment.text) X) := by
  have hspaces : (List.replicate comment.indent ' ').all isAsciiBlank = true := by
    simp [isAsciiBlank]
  rw [text, List.append_assoc, significantTokens_blanks_append offset hspaces]
  rw [List.cons_append, tokensFrom_append (lexeme_lineComment_append comment.onLine hX),
    significantTokens_comment rfl, byteLength_append, Nat.add_assoc]

/-! A line has no line feed in it. -/

theorem Name.newline_notMem (name : Name) : '\n' ∉ name.text := by
  intro hmem
  rcases List.mem_cons.mp hmem with hfirst | hrest
  · have hstart := name.isWordStart_first
    rw [← hfirst] at hstart
    exact absurd hstart (by decide)
  · exact absurd (List.all_eq_true.mp name.all_rest _ hrest) (by decide)

theorem newline_notMem_namesText (names : List Name) : '\n' ∉ namesText names := by
  induction names with
  | nil => exact List.not_mem_nil
  | cons name names ih =>
      cases names with
      | nil => exact name.newline_notMem
      | cons name' names =>
          show '\n' ∉ name.text ++ ',' :: ' ' :: namesText (name' :: names)
          simp [name.newline_notMem, ih]

theorem Clause.newline_notMem (clause : Clause) : '\n' ∉ clause.text := by
  cases clause with
  | everything => exact List.not_mem_nil
  | listed names => simp [text, newline_notMem_namesText]
  | renamed name => simp [text, name.newline_notMem]

theorem Literal.newline_notMem (literal : Literal) : '\n' ∉ literal.text := by
  have hquote : '\n' ≠ literal.quote := by
    rcases literal.isQuote with h | h <;> rw [h] <;> decide
  have hpath : '\n' ∉ literal.path := fun hmem => (literal.plain _ hmem).2.2 rfl
  simp [text, hquote, hpath]

theorem Statement.newline_notMem (s : Statement) : '\n' ∉ s.text := by
  have hkeyword : '\n' ∉ "import ".toList := by decide
  unfold text
  rw [List.mem_append, List.mem_append, List.mem_append]
  simp only [hkeyword, s.clause.newline_notMem, s.literal.newline_notMem, List.mem_singleton,
    false_or]
  decide

theorem Line.newline_notMem (line : Line) : '\n' ∉ line.text := by
  obtain ⟨statement, comment⟩ := line
  have hstatement : '\n' ∉ (statement.map Statement.text).getD [] := by
    cases statement with
    | none => exact List.not_mem_nil
    | some s => exact s.newline_notMem
  have hcomment : '\n' ∉ (comment.map Comment.text).getD [] := by
    cases comment with
    | none => exact List.not_mem_nil
    | some comment => simp [Comment.text, comment.onLine]
  rw [text, List.mem_append, not_or]
  exact ⟨hstatement, hcomment⟩

theorem imports_cons (number : Nat) (line : Line) (lines : List Line) :
    imports number (line :: lines)
      = (line.import? number).toList ++ imports (number + 1) lines := by
  cases himport : line.import? number with
  | none => simp [imports, himport]
  | some i => simp [imports, himport]

section Lines

variable {source : String} {before : List Char}

/-- A line is read as its import, if it is the end of the text or a line feed stands behind it. -/
theorem Line.ofTokens_text (line : Line) {X : List Char}
    (hsource : source.toList = before ++ (line.text ++ X)) (hX : runLength (· != '\n') X = 0) :
    Import.ofTokens source (significantTokens (tokensFrom (byteLength before) (line.text ++ X)))
      = (line.import? (1 + before.count '\n')).toList
          ++ Import.ofTokens source
              (significantTokens (tokensFrom (byteLength (before ++ line.text)) X)) := by
  obtain ⟨statement, comment⟩ := line
  have hcomment : ∀ offset, significantTokens (tokensFrom offset
        ((comment.map Comment.text).getD [] ++ X))
      = significantTokens (tokensFrom
          (offset + byteLength ((comment.map Comment.text).getD [])) X) := by
    intro offset
    cases comment with
    | none => rfl
    | some comment => exact comment.significantTokens_append offset hX
  rw [byteLength_append, ← line_positionAt_append hsource]
  cases statement with
  | none =>
      rw [text, import?]
      exact congrArg _ (hcomment _)
  | some s =>
      rw [text, byteLength_append, ← Nat.add_assoc, ← hcomment, List.append_assoc]
      exact s.ofTokens_text _ _

/-- **Lines are read one by one.** The induction is on the lines that are left, and the text in
front of them grows. -/
theorem ofTokens_lines (lines : List Line)
    (hsource : source.toList = before ++ joinLines (lines.map Line.text)) :
    Import.ofTokens source
        (significantTokens (tokensFrom (byteLength before) (joinLines (lines.map Line.text))))
      = imports (1 + before.count '\n') lines := by
  induction lines generalizing before with
  | nil =>
      show Import.ofTokens source (significantTokens (tokensFrom _ [])) = []
      rw [tokensFrom]
      rfl
  | cons line lines ih =>
      cases lines with
      | nil =>
          -- no line feed stands behind the last line, so a comment there ends with the text
          have htext : joinLines ([line].map Line.text) = line.text ++ [] :=
            (List.append_nil line.text).symm
          rw [htext] at hsource ⊢
          rw [line.ofTokens_text hsource rfl, imports_cons, tokensFrom]
          rfl
      | cons next lines =>
          have htext : joinLines ((line :: next :: lines).map Line.text)
              = line.text ++ '\n' :: joinLines ((next :: lines).map Line.text) := rfl
          rw [htext] at hsource ⊢
          have hrest := @ih (before ++ line.text ++ ['\n']) (by simp [hsource])
          have hoffset : byteLength (before ++ line.text ++ ['\n'])
              = byteLength (before ++ line.text) + '\n'.utf8Size := by
            rw [byteLength_append _ ['\n'], byteLength_cons, byteLength_nil, Nat.add_zero]
          have hcount : (before ++ line.text ++ ['\n']).count '\n' = before.count '\n' + 1 := by
            simp [List.count_append, List.count_eq_zero.mpr line.newline_notMem]
          rw [line.ofTokens_text hsource (by simp [runLength]),
            significantTokens_blank _ (by decide), ← hoffset, hrest, imports_cons _ line, hcount]
          rfl

end Lines

/-- **Reading inverts printing.** The imports of printed lines are those that were printed, in
order, each with its path, the kind of its path and the number of its line. -/
theorem importsOf_print (lines : List Line) : importsOf (print lines) = imports 1 lines := by
  have hsource : (print lines).toList = [] ++ joinLines (lines.map Line.text) :=
    String.toList_ofList
  have hlines := ofTokens_lines lines hsource
  rw [importsOf, tokenizeSignificant, tokenize, hsource]
  exact hlines

example : print
    [⟨none, some ⟨1, " import \"A\";".toList, by decide⟩⟩,
      ⟨some ⟨.listed [⟨'A', [], by decide, by decide, by decide⟩,
            ⟨'B', ['1'], by decide, by decide, by decide⟩],
          ⟨'"', ['/', '/', ';'], by decide, by simp⟩⟩,
        some ⟨0, " both".toList, by decide⟩⟩]
      = " // import \"A\";\nimport \x7bA, B1\x7d from \"//;\";// both" := by
  decide

end ImportText

end SolidityTools

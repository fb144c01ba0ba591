import SolidityTools.Proofs.InPlace.Function
import SolidityTools.Proofs.Outline.Declaration
import SolidityTools.Proofs.Outline.Location

set_option autoImplicit false

/-! # Parameter types

A signature lists the types of the parameters, which two scans take out of the tokens between the
parentheses: one splits them at the commas outside brackets, the other one reads each piece up to
the end of its type. Neither knows the grammar of types. They are compared here with parameter
lists that are given as trees (`ParameterList`).

What carries the scans through a type of any depth is that they count round and square brackets
alike. The count is the number of those that are open (`nesting`), so inside a bracket no comma
splits and no token ends a type, and behind the bracket that closes it both are where they were in
front of it.
-/

namespace SolidityTools

open Grammar InPlace

/-! ## Counting brackets -/

/-- The number of round and square brackets that are open. Braces do not count. -/
def Bracket.nesting (stack : List Bracket) : Nat := stack.count .round + stack.count .square

def bracketsBehind (depth : Nat) (t : Token) : Nat :=
  if t.isOperatorIn ["(", "["] then depth + 1
  else if t.isOperatorIn [")", "]"] then depth - 1 else depth

section Brackets

open SolidityTools.Bracket (nesting)

variable {ok : List Bracket → Token → Bool} {stack behind outer : List Bracket} {t : Token}
  {ts : List Token}

theorem Token.isOperatorIn_pair (t : Token) (text text' : String) :
    t.isOperatorIn [text, text'] = (t.isOperator text || t.isOperator text') := by
  simp [isOperatorIn, isOperator, Bool.and_or_distrib_left, Bool.beq_eq_decide_eq]

theorem Token.isWord_of_isKeyword {text : String} (h : t.isKeyword text = true) :
    t.isWord = true := by
  simp [isWord, kind_of_isKeyword h]

theorem Bracket.nesting_singleton {b : Bracket} (hb : b ≠ .curly) : nesting [b] = 1 := by
  cases b with
  | round => rfl
  | square => rfl
  | curly => exact absurd rfl hb

theorem Bracket.nesting_append (stack outer : List Bracket) :
    nesting (stack ++ outer) = nesting stack + nesting outer := by
  simp only [nesting, List.count_append]
  omega

/-- **The count is the number of brackets that are open.** -/
theorem bracketsBehind_nesting (h : Bracket.behind? stack t = some behind) :
    bracketsBehind (nesting stack) t = nesting behind := by
  rw [bracketsBehind, Token.isOperatorIn_pair, Token.isOperatorIn_pair]
  rcases Bracket.cases_of_behind? h with ⟨hopened, hclosed, rfl⟩ | ⟨b, ht, rfl⟩ | ⟨b, ht, rfl⟩
  · have hopen := Bracket.opened?_eq_none_iff.mp hopened
    have hclose := Bracket.closed?_eq_none_iff.mp hclosed
    simp only [Bracket.opener, Bracket.closer] at hopen hclose
    simp [hopen .round, hopen .square, hclose .round, hclose .square]
  · rw [Token.isOperator_iff] at ht
    cases b <;> simp [Token.isOperator_eq_decide, ht, nesting, Bracket.opener] <;> omega
  · rw [Token.isOperator_iff] at ht
    cases b <;> simp [Token.isOperator_eq_decide, ht, nesting, Bracket.closer]

/-! ## Splitting at commas -/

/-- In a parameter, commas stand in brackets only. -/
def inParameter (stack : List Bracket) (t : Token) : Bool :=
  nesting stack != 0 || !t.isOperator ","

/-- **A parameter is not split.** Its tokens go to the front of the first piece behind it. -/
theorem splitParameters_append (h : Balanced inParameter stack ts) (us : List Token) :
    splitParameters (nesting stack) (ts ++ us) = prependToFirst ts (splitParameters 0 us) := by
  induction h with
  | done => exact (prependToFirst_nil (splitParameters_ne_nil 0 us)).symm
  | @cons stack behind t ts hbehind hok h ih =>
      have hcomma : ¬(nesting stack == 0 && t.isOperator ",") := by
        simp only [inParameter, Bool.or_eq_true, bne_iff_ne, Bool.not_eq_true'] at hok
        rcases hok with hnesting | hcomma
        · simp [hnesting]
        · simp [hcomma]
      have hnext := bracketsBehind_nesting hbehind
      rw [bracketsBehind] at hnext
      rw [List.cons_append, splitParameters_cons_other hcomma, hnext, ih, ← prependToFirst_append]
      rfl

theorem splitParameters_end (h : Balanced inParameter [] ts) : splitParameters 0 ts = [ts] := by
  have happend := splitParameters_append h []
  rwa [List.append_nil, splitParameters, prependToFirst, List.append_nil] at happend

theorem splitParameters_comma (h : Balanced inParameter [] ts) (comma : Mark ",")
    (us : List Token) :
    splitParameters 0 (ts ++ comma.1 :: us) = ts :: splitParameters 0 us := by
  have hcomma : splitParameters 0 (comma.1 :: us) = [] :: splitParameters 0 us := by
    rw [splitParameters, comma.2]
    rfl
  have happend := splitParameters_append h (comma.1 :: us)
  rwa [hcomma, prependToFirst, List.append_nil] at happend

/-! ## Reading a type -/

/-- In brackets everything belongs to the type. -/
theorem typeTail_inside {depth : Nat} (hdepth : depth ≠ 0) (behindDot : Bool) (t : Token)
    (ts : List Token) :
    typeTail depth behindDot (t :: ts)
      = t :: typeTail (bracketsBehind depth t) (t.isOperator ".") ts := by
  simp [typeTail, bracketsBehind, hdepth]

/-- Balanced tokens in brackets belong to the type. -/
theorem exists_typeTail_append (h : Balanced ok stack ts) (houter : nesting outer ≠ 0)
    (behindDot : Bool) (us : List Token) :
    ∃ behindDot', typeTail (nesting (stack ++ outer)) behindDot (ts ++ us)
      = ts ++ typeTail (nesting outer) behindDot' us := by
  induction h generalizing behindDot with
  | done => exact ⟨behindDot, rfl⟩
  | @cons stack behind t ts hbehind hok h ih =>
      -- the outer bracket stays open throughout, so no token ends the type
      have hinside : nesting (stack ++ outer) ≠ 0 := by
        rw [Bracket.nesting_append]
        omega
      obtain ⟨behindDot', htail⟩ := ih (t.isOperator ".")
      refine ⟨behindDot', ?_⟩
      rw [List.cons_append, typeTail_inside hinside,
        bracketsBehind_nesting (Bracket.behind?_append hbehind outer), htail, List.cons_append]

/-- **A group belongs to the type as a whole.** -/
theorem typeTail_group {b : Bracket} (hb : b ≠ .curly) {opener closer : Token}
    (hopener : opener.isOperator b.opener = true) (hcloser : closer.isOperator b.closer = true)
    (h : Balanced ok [] ts) (behindDot : Bool) (us : List Token) :
    typeTail 0 behindDot (opener :: (ts ++ closer :: us))
      = opener :: (ts ++ closer :: typeTail 0 false us) := by
  have hnesting := Bracket.nesting_singleton hb
  have hopens : opener.isOperatorIn ["(", "["] = true := by
    rw [Token.isOperator_iff] at hopener
    rw [Token.isOperatorIn_pair]
    cases b <;> simp_all [Token.isOperator_eq_decide, Bracket.opener]
  have hclosed : bracketsBehind 1 closer = 0 := by
    rw [← hnesting, bracketsBehind_nesting (Bracket.behind?_closing hcloser [])]
    rfl
  have hdot : closer.isOperator "." = false := by
    rw [Token.isOperator_eq_decide, Token.isOperator_iff.mp hcloser]
    cases b <;> decide
  obtain ⟨behindDot', htail⟩ := @exists_typeTail_append ok [] [b] ts h (by simp [hnesting])
    (opener.isOperator ".") (closer :: us)
  rw [List.nil_append, hnesting, typeTail_inside one_ne_zero, hclosed, hdot] at htail
  rw [typeTail]
  simp [hopens, htail]

end Brackets

/-- A word is no part of a type, unless there is a dot in front of it or it is `payable`. -/
theorem typeTail_word {t : Token} (hword : t.isWord = true)
    (hpayable : t.isKeyword "payable" = false) (ts : List Token) :
    typeTail 0 false (t :: ts) = [] := by
  simp [typeTail, Token.isOperatorIn_pair, Token.isOperator_of_isWord hword, hpayable]

theorem typeTail_payable {t : Token} (hpayable : t.isKeyword "payable" = true) (ts : List Token) :
    typeTail 0 false (t :: ts) = t :: typeTail 0 false ts := by
  have hword := Token.isWord_of_isKeyword hpayable
  simp [typeTail, Token.isOperatorIn_pair, Token.isOperator_of_isWord hword, hpayable]

theorem typeTail_member {dot name : Token} (hdot : dot.isOperator "." = true)
    (hname : name.isWord = true) (ts : List Token) :
    typeTail 0 false (dot :: name :: ts) = dot :: name :: typeTail 0 false ts := by
  have hbracket : ∀ text text', text ≠ "." → text' ≠ "." →
      dot.isOperatorIn [text, text'] = false := by
    intro text text' htext htext'
    simp [Token.isOperatorIn, Token.text_of_isOperator hdot, htext.symm, htext'.symm]
  simp [typeTail, hdot, hbracket, Token.isOperatorIn_pair name, Token.isOperator_of_isWord hname]

theorem typeTokens_word {t : Token} (hword : t.isWord = true) (ts : List Token) :
    typeTokens (t :: ts) = t :: typeTail 0 false ts := by
  simp [typeTokens, Token.isOperatorIn_pair, Token.isOperator_of_isWord hword]

/-! ## Types as trees -/

namespace Grammar

/-- Balanced tokens of any sort. -/
def anything (_ : List Bracket) (_ : Token) : Bool := true

/-- The type of a parameter. The names of a path may be words of any sort, as the lexer takes many
of them for keywords. -/
inductive ParameterType where
  | elementary (name : {t : Token // t.kind = .type}) (payable : Option (Keyword "payable"))
  | path (first : Word) (rest : List (Mark "." × Word))
  | mapping (keyword : Keyword "mapping") (opener : Mark "(") (key : ParameterType)
      (arrow : Mark "=>") (value : ParameterType) (closer : Mark ")")
  | array (element : ParameterType) (opener : Mark "[") (length : Tokens anything)
      (closer : Mark "]")

namespace ParameterType

def tokens : ParameterType → List Token
  | elementary name payable => name.1 :: optional payable
  | path first rest => first.1 :: rest.flatMap fun part => [part.1.1, part.2.1]
  | mapping keyword opener key arrow value closer =>
      keyword.1 :: opener.1 :: ((key.tokens ++ arrow.1 :: value.tokens) ++ [closer.1])
  | array element opener length closer => element.tokens ++ opener.1 :: (length.1 ++ [closer.1])

/-- The type as a signature should have it. -/
def text (type : ParameterType) : String :=
  String.join ((type.tokens.filter (!·.isKeyword "payable")).map (·.text))

end ParameterType

/-- A parameter: its type, its data location and its name. -/
structure Parameter where
  type : ParameterType
  location : Option {t : Token // ["memory", "storage", "calldata"].any t.isKeyword = true}
  name : Option {t : Token // t.isWord = true ∧ t.isKeyword "payable" = false}

namespace Parameter

def behindType (p : Parameter) : List Token := optional p.location ++ optional p.name

def tokens (p : Parameter) : List Token := p.type.tokens ++ p.behindType

end Parameter

/-- Parameters with commas between them. -/
inductive ParameterList where
  | empty
  | listed (first : Parameter) (others : List (Mark "," × Parameter))

namespace ParameterList

def parameters : ParameterList → List Parameter
  | empty => []
  | listed first others => first :: others.map Prod.snd

def tokens : ParameterList → List Token
  | empty => []
  | listed first others =>
      first.tokens ++ others.flatMap fun other => other.1.1 :: other.2.tokens

/-- The types as a signature should have them. -/
def types (list : ParameterList) : List String := list.parameters.map fun p => p.type.text

end ParameterList

/-- The declaration of a function, up to the end of its parameters. -/
structure FunctionHeader where
  head : FunctionHead
  opener : Mark "("
  parameters : ParameterList
  closer : Mark ")"

namespace FunctionHeader

def behindName (d : FunctionHeader) : List Token :=
  d.opener.1 :: (d.parameters.tokens ++ [d.closer.1])

def tokens (d : FunctionHeader) : List Token := d.head.keyword :: (d.head.behind ++ d.behindName)

def signature (d : FunctionHeader) : String :=
  d.head.name.text ++ "(" ++ String.intercalate "," d.parameters.types ++ ")"

end FunctionHeader

/-! ## Types are read to their end -/

section Types

open SolidityTools.Bracket (nesting)

theorem balanced_word {ok : List Bracket → Token → Bool} {stack : List Bracket} {t : Token}
    {ts : List Token} (ht : t.isWord = true) (hok : ok stack t = true) (h : Balanced ok stack ts) :
    Balanced ok stack (t :: ts) :=
  balanced_cons (opened?_of_kind_ne (Token.kind_ne_operator_of_isWord ht)) hok h

theorem inParameter_of_isWord {t : Token} (ht : t.isWord = true) (stack : List Bracket) :
    inParameter stack t = true := by
  simp [inParameter, Token.isOperator_of_isWord ht]

theorem inParameter_of_isOperator {text : String} {t : Token} (ht : t.isOperator text = true)
    (htext : text ≠ ",") (stack : List Bracket) : inParameter stack t = true := by
  simp [inParameter, Token.isOperator, Token.text_of_isOperator ht, htext]

theorem inParameter_append {b : Bracket} (hb : b ≠ .curly) (stack : List Bracket) (t : Token) :
    inParameter (stack ++ [b]) t = true := by
  simp [inParameter, Bracket.nesting_append, Bracket.nesting_singleton hb]

theorem balanced_parameterGroup {ok : List Bracket → Token → Bool} {b : Bracket} (hb : b ≠ .curly)
    {opener closer : Token} (hopener : opener.isOperator b.opener = true)
    (hcloser : closer.isOperator b.closer = true) {ts : List Token} (h : Balanced ok [] ts) :
    Balanced inParameter [] (opener :: (ts ++ [closer])) := by
  refine h.group hopener hcloser (inParameter_of_isOperator hopener ?_ _)
    (inParameter_of_isOperator hcloser ?_ _) fun stack t _ => inParameter_append hb stack t
  · cases b <;> decide
  · cases b <;> decide

namespace ParameterType

/-- The brackets of a type are balanced, and commas stand in brackets only. -/
theorem balanced (type : ParameterType) : Balanced inParameter [] type.tokens := by
  induction type with
  | elementary name payable =>
      have hname : name.1.isWord = true := by simp [Token.isWord, name.2]
      refine balanced_word hname (inParameter_of_isWord hname _) ?_
      cases payable with
      | none => exact .done
      | some payable =>
          have hpayable := Token.isWord_of_isKeyword payable.2
          exact balanced_word hpayable (inParameter_of_isWord hpayable _) .done
  | path first rest =>
      refine balanced_word first.2 (inParameter_of_isWord first.2 _)
        (balanced_flatMap fun part _ => ?_)
      refine balanced_cons (opened?_of_isOperator_ne part.1.2 (by decide))
        (inParameter_of_isOperator part.1.2 (by decide) _) ?_
      exact balanced_word part.2.2 (inParameter_of_isWord part.2.2 _) .done
  | mapping keyword opener key arrow value closer hkey hvalue =>
      have hkeyword := Token.isWord_of_isKeyword keyword.2
      have hinside : Balanced inParameter [] (key.tokens ++ arrow.1 :: value.tokens) := by
        refine hkey.append (balanced_cons (opened?_of_isOperator_ne arrow.2 (by decide)) ?_ hvalue)
        exact inParameter_of_isOperator arrow.2 (by decide) _
      exact balanced_word hkeyword (inParameter_of_isWord hkeyword _)
        (@balanced_parameterGroup _ .round (by decide) _ _ opener.2 closer.2 _ hinside)
  | array element opener length closer helement =>
      exact helement.append
        (@balanced_parameterGroup _ .square (by decide) _ _ opener.2 closer.2 _ length.2)

/-- **A type is read to its end.** The tokens behind it are looked at as behind any other type. -/
theorem typeTokens_append (type : ParameterType) (rest : List Token) :
    typeTokens (type.tokens ++ rest) = type.tokens ++ typeTail 0 false rest := by
  induction type generalizing rest with
  | elementary name payable =>
      have hname : name.1.isWord = true := by simp [Token.isWord, name.2]
      rw [tokens, List.cons_append, typeTokens_word hname, List.cons_append]
      cases payable with
      | none => rfl
      | some payable => exact congrArg (name.1 :: ·) (typeTail_payable payable.2 rest)
  | path first parts =>
      -- by itself, as the induction on the type says nothing about the parts of a path
      have hparts : ∀ parts : List (Mark "." × Word),
          typeTail 0 false ((parts.flatMap fun part => [part.1.1, part.2.1]) ++ rest)
            = (parts.flatMap fun part => [part.1.1, part.2.1]) ++ typeTail 0 false rest := by
        intro parts
        induction parts with
        | nil => rfl
        | cons part parts ih =>
            simp only [List.flatMap_cons, List.cons_append, List.nil_append]
            rw [typeTail_member part.1.2 part.2.2, ih]
      rw [tokens, List.cons_append, typeTokens_word first.2, hparts, List.cons_append]
  | mapping keyword opener key arrow value closer =>
      have hinside : Balanced anything [] (key.tokens ++ arrow.1 :: value.tokens) := by
        have hvalue : Balanced anything [] value.tokens := value.balanced.mono fun _ _ _ => rfl
        exact (key.balanced.mono fun _ _ _ => rfl).append
          (balanced_cons (opened?_of_isOperator_ne arrow.2 (by decide)) rfl hvalue)
      have hgroup := @typeTail_group _ _ .round (by decide) _ _ opener.2 closer.2 hinside false rest
      rw [tokens, List.cons_append, typeTokens_word (Token.isWord_of_isKeyword keyword.2)]
      simpa using hgroup
  | array element opener length closer ih =>
      have hgroup := @typeTail_group _ _ .square (by decide) _ _ opener.2 closer.2 length.2 false
        rest
      have hsplit : (array element opener length closer).tokens ++ rest
          = element.tokens ++ (opener.1 :: (length.1 ++ closer.1 :: rest)) := by
        simp [tokens]
      rw [hsplit, ih, hgroup]
      simp [tokens]

end ParameterType

/-! ## Parameters -/

namespace Parameter

/-- What stands behind a type ends it. -/
theorem typeTail_behindType (p : Parameter) : typeTail 0 false p.behindType = [] := by
  rw [behindType]
  cases p.location with
  | some location =>
      obtain ⟨text, htext, hkeyword⟩ := List.any_eq_true.mp location.2
      have hpayable : location.1.isKeyword "payable" = false := by
        rw [Token.isKeyword_eq_decide, Token.isKeyword_iff.mp hkeyword]
        revert htext
        simp only [List.mem_cons, List.not_mem_nil, or_false]
        rintro (rfl | rfl | rfl) <;> decide
      exact typeTail_word (Token.isWord_of_isKeyword hkeyword) hpayable _
  | none =>
      cases p.name with
      | none => rfl
      | some name => exact typeTail_word name.2.1 name.2.2 _

theorem parameterType_eq (p : Parameter) : parameterType p.tokens = p.type.text := by
  rw [parameterType, tokens, p.type.typeTokens_append, p.typeTail_behindType, List.append_nil]
  rfl

theorem balanced (p : Parameter) : Balanced inParameter [] p.tokens := by
  have hlocation : Balanced inParameter [] (optional p.location) := by
    cases p.location with
    | none => exact .done
    | some location =>
        obtain ⟨text, -, hkeyword⟩ := List.any_eq_true.mp location.2
        have hword := Token.isWord_of_isKeyword hkeyword
        exact balanced_word hword (inParameter_of_isWord hword _) .done
  have hname : Balanced inParameter [] (optional p.name) := by
    cases p.name with
    | none => exact .done
    | some name => exact balanced_word name.2.1 (inParameter_of_isWord name.2.1 _) .done
  exact p.type.balanced.append (hlocation.append hname)

theorem tokens_ne_nil (p : Parameter) : p.tokens ≠ [] := by
  have htype : p.type.tokens ≠ [] := by
    induction p.type with
    | elementary => exact List.cons_ne_nil _ _
    | path => exact List.cons_ne_nil _ _
    | mapping => exact List.cons_ne_nil _ _
    | array element opener length closer ih => simp [ParameterType.tokens]
  simp [tokens, htype]

end Parameter

namespace ParameterList

theorem splitParameters_listed (first : Parameter) (others : List (Mark "," × Parameter)) :
    splitParameters 0 (listed first others).tokens
      = (listed first others).parameters.map Parameter.tokens := by
  induction others generalizing first with
  | nil =>
      rw [tokens, List.flatMap_nil, List.append_nil, splitParameters_end first.balanced]
      rfl
  | cons other others ih =>
      have hnext := ih other.2
      rw [tokens, parameters] at hnext
      rw [tokens, List.flatMap_cons, List.cons_append, splitParameters_comma first.balanced, hnext]
      rfl

/-- **The types of a parameter list are those of its parameters.** -/
theorem parameterTypes_eq (list : ParameterList) : parameterTypes list.tokens = list.types := by
  cases list with
  | empty => rfl
  | listed first others =>
      have hall : ((listed first others).parameters.map Parameter.tokens).filter (!·.isEmpty)
          = (listed first others).parameters.map Parameter.tokens := by
        refine List.filter_eq_self.mpr fun ts hts => ?_
        obtain ⟨p, -, rfl⟩ := List.mem_map.mp hts
        simpa using p.tokens_ne_nil
      rw [parameterTypes, splitParameters_listed, hall, List.map_map, types]
      exact List.map_congr_left fun p _ => p.parameterType_eq

theorem balanced (list : ParameterList) : Balanced anything [] list.tokens := by
  have hparameter : ∀ p : Parameter, Balanced anything [] p.tokens :=
    fun p => p.balanced.mono fun _ _ _ => rfl
  cases list with
  | empty => exact .done
  | listed first others =>
      refine (hparameter first).append (balanced_flatMap fun other _ => ?_)
      exact balanced_cons (opened?_of_isOperator_ne other.1.2 (by decide)) rfl (hparameter other.2)

end ParameterList

/-! ## Declarations -/

/-- What is read at the keyword of a declaration. -/
theorem FunctionHeader.exists_functionDeclaration? (d : FunctionHeader)
    (sourceLength index : Nat) (behind : List Token) :
    ∃ f, functionDeclaration? sourceLength index (d.tokens ++ behind) = some f ∧
      f.kind = d.head.kind ∧ f.name = d.head.name.text ∧ f.offset = d.head.name.start ∧
      f.paramTypes = d.parameters.types := by
  have hgroup : Group.parentheses? (d.parameters.tokens ++ d.closer.1 :: behind)
      = some ⟨d.parameters.tokens, d.closer.1, behind⟩ :=
    d.parameters.balanced.close?_eq .round d.closer.2 behind
  have hsplit : d.tokens ++ behind = d.head.keyword :: (d.head.behind ++
      d.opener.1 :: (d.parameters.tokens ++ d.closer.1 :: behind)) := by
    simp [tokens, behindName]
  rw [hsplit, d.head.functionDeclaration?_eq, functionWith, if_pos d.opener.2, hgroup]
  exact ⟨_, rfl, rfl, rfl, rfl, d.parameters.parameterTypes_eq⟩

end Types

end Grammar

theorem mem_functionDeclarations_of_eq_some {sourceLength index : Nat} {before ts : List Token}
    {f : FunctionDeclaration}
    (h : functionDeclaration? sourceLength (index + before.length) ts = some f) :
    f ∈ functionDeclarations sourceLength index (before ++ ts) := by
  induction before generalizing index with
  | nil =>
      cases ts with
      | nil => cases h
      | cons t ts =>
          have hfirst : functionDeclaration? sourceLength index (t :: ts) = some f := h
          exact List.mem_append_left _ (by simp [hfirst])
  | cons t before ih =>
      refine List.mem_append_right _ (ih ?_)
      rwa [List.length_cons, Nat.add_comm before.length, ← Nat.add_assoc] at h

/-- **Parameter types are recovered from any parameter list**, whatever blanks and comments stand
between its tokens. The function that is read where a declaration stands is listed with the types
of the parameters in their order, so that its signature depends on its name and on these types
only: not on the names of the parameters, nor on their data locations or their layout. -/
theorem Outline.paramTypes_eq_types (d : FunctionHeader) (sourceLength : Nat)
    {tokens before behind : List Token}
    (h : significantTokens tokens = before ++ (d.tokens ++ behind)) :
    ∃ f ∈ (Outline.ofTokens sourceLength tokens).functions,
      functionDeclaration? sourceLength before.length (d.tokens ++ behind) = some f ∧
      f.kind = d.head.kind ∧ f.name = d.head.name.text ∧ f.offset = d.head.name.start ∧
      f.paramTypes = d.parameters.types ∧ f.signature = d.signature := by
  obtain ⟨f, hf, hkind, hname, hoffset, htypes⟩ :=
    d.exists_functionDeclaration? sourceLength before.length behind
  have hlisted : f ∈ (Outline.ofTokens sourceLength tokens).functions := by
    have hmem := @mem_functionDeclarations_of_eq_some sourceLength 0 before (d.tokens ++ behind) f
    rw [Nat.zero_add, ← h] at hmem
    exact hmem hf
  refine ⟨f, hlisted, hf, hkind, hname, hoffset, htypes, ?_⟩
  rw [FunctionDeclaration.signature, hname, htypes, FunctionHeader.signature]

/-- A declaration with array, mapping and path types, one of which begins with a name that is taken
for a keyword, as does the name of the first parameter. -/
def Grammar.sampleHeader : FunctionHeader where
  head := .named ⟨⟨.keyword, "function", 13⟩, by decide⟩ ⟨⟨.function, "f", 22⟩, by decide⟩
  opener := ⟨⟨.operator, "(", 23⟩, by decide⟩
  parameters := .listed {
      type := .array
        (.elementary ⟨⟨.type, "address", 24⟩, rfl⟩ (some ⟨⟨.keyword, "payable", 32⟩, by decide⟩))
        ⟨⟨.operator, "[", 39⟩, by decide⟩ ⟨[], .done⟩ ⟨⟨.operator, "]", 40⟩, by decide⟩
      location := some ⟨⟨.keyword, "memory", 42⟩, by decide⟩
      name := some ⟨⟨.keyword, "from", 57⟩, by decide⟩ } [
    (⟨⟨.operator, ",", 61⟩, by decide⟩, {
      type := .mapping ⟨⟨.keyword, "mapping", 65⟩, by decide⟩ ⟨⟨.operator, "(", 72⟩, by decide⟩
        (.path ⟨⟨.identifier, "L", 73⟩, by decide⟩
          [(⟨⟨.operator, ".", 74⟩, by decide⟩, ⟨⟨.identifier, "T", 75⟩, by decide⟩)])
        ⟨⟨.operator, "=>", 76⟩, by decide⟩
        (.array (.elementary ⟨⟨.type, "uint", 78⟩, rfl⟩ none) ⟨⟨.operator, "[", 82⟩, by decide⟩
          ⟨[⟨.function, "g", 83⟩, ⟨.operator, "(", 84⟩, ⟨.number, "1", 85⟩, ⟨.operator, ",", 86⟩,
            ⟨.number, "2", 88⟩, ⟨.operator, ")", 89⟩], by decide⟩
          ⟨⟨.operator, "]", 90⟩, by decide⟩)
        ⟨⟨.operator, ")", 91⟩, by decide⟩
      location := some ⟨⟨.keyword, "storage", 92⟩, by decide⟩
      name := none }),
    (⟨⟨.operator, ",", 99⟩, by decide⟩, {
      type := .array
        (.array
          (.path ⟨⟨.keyword, "error", 101⟩, by decide⟩
            [(⟨⟨.operator, ".", 106⟩, by decide⟩, ⟨⟨.identifier, "B", 107⟩, by decide⟩)])
          ⟨⟨.operator, "[", 108⟩, by decide⟩
          ⟨[⟨.identifier, "x", 109⟩, ⟨.operator, "[", 110⟩, ⟨.number, "0", 111⟩,
            ⟨.operator, "]", 112⟩], by decide⟩
          ⟨⟨.operator, "]", 113⟩, by decide⟩)
        ⟨⟨.operator, "[", 114⟩, by decide⟩ ⟨[], .done⟩ ⟨⟨.operator, "]", 115⟩, by decide⟩
      location := none
      name := some ⟨⟨.identifier, "b", 117⟩, by decide⟩ })]
  closer := ⟨⟨.operator, ")", 118⟩, by decide⟩

/-- Commas in a comment and in brackets, and a line break between two parameters. -/
theorem Outline.paramTypes_eq_types_nested :
    let source := "contract C \x7b function f(address payable[] memory /* , */ from,\n" ++
      "  mapping(L.T=>uint[g(1, 2)])storage, error.B[x[0]][] b) view; \x7d"
    let ts := tokenizeSignificant source
    ts = ts.take 3 ++ (sampleHeader.tokens ++ ts.drop 44) ∧
      ∃ f ∈ (Outline.ofTokens 127 (tokenize source)).functions, f.offset = 22 ∧
        f.paramTypes = ["address[]", "mapping(L.T=>uint[g(1,2)])", "error.B[x[0]][]"] ∧
        f.signature = "f(address[],mapping(L.T=>uint[g(1,2)]),error.B[x[0]][])" := by
  intro source ts
  have hsplit : ts = ts.take 3 ++ (sampleHeader.tokens ++ ts.drop 44) := by decide +kernel
  obtain ⟨f, hlisted, -, -, -, hoffset, htypes, hsignature⟩ :=
    Outline.paramTypes_eq_types sampleHeader 127 hsplit
  exact ⟨hsplit, f, hlisted, hoffset, htypes.trans (by decide +kernel),
    hsignature.trans (by decide +kernel)⟩

end SolidityTools

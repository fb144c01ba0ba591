import SolidityTools.Proofs.Outline.Bracket
import SolidityTools.Proofs.Outline.Function

set_option autoImplicit false

/-! # Well-formed files

The outline takes any text, but it is meant for files that a compiler accepts. Such a file is
described here by a tree of its significant tokens: statements and containers at the top, members in
the containers, and in each member the parts that the outline cares about. What it does not look
into (initial values, parameter lists, bodies) is any balanced list of tokens that holds no
declaration. A semicolon stands in none of them but bodies, since it ends a statement: no parameter
list, no attribute and no expression of a file that compiles has one. The parts carry the conditions
on their tokens, so that every tree is well-formed.

From the tree one reads off the tokens and, without any search, the outline of the file
(`SourceFile.outline`). What is read for the mutability of a function is left open there: the
outline that the file should have is the one with the mutabilities that the attributes declare.
-/

namespace SolidityTools

/-- The keywords that begin the declaration of a type or a function. -/
def declarationKeywords : List String :=
  TypeKind.all.map TypeKind.keyword ++ FunctionKind.all.map FunctionKind.keyword

/-- Whether a token begins the declaration of a type or a function. -/
def Token.declares (t : Token) : Bool := declarationKeywords.any t.isKeyword

namespace Grammar

/-! ## Tokens -/

abbrev Keyword (text : String) : Type := {t : Token // t.isKeyword text = true}

abbrev Mark (text : String) : Type := {t : Token // t.isOperator text = true}

/-- A name that is not called. -/
abbrev Identifier : Type := {t : Token // t.kind = .identifier}

/-- A declared name, which may have a parameter list behind it. -/
abbrev Name : Type := {t : Token // t.isName = true}

abbrev Tokens (ok : List Bracket → Token → Bool) : Type := {ts : List Token // Balanced ok [] ts}

/-- The tokens of a part that may be missing. -/
def optional {p : Token → Prop} (t : Option {t : Token // p t}) : List Token :=
  (t.map Subtype.val).toList

def isBrace (t : Token) : Bool := t.isOperator "\x7b" || t.isOperator "\x7d"

/-- In a body anything may stand but declarations. -/
def inBody (_ : List Bracket) (t : Token) : Bool := !t.declares

/-- A parameter list and a statement end at the semicolon. -/
def inList (stack : List Bracket) (t : Token) : Bool := inBody stack t && !t.isOperator ";"

/-- An expression has braces in parentheses only, around named arguments. -/
def inExpression (stack : List Bracket) (t : Token) : Bool :=
  inList stack t && (stack.contains .round || !isBrace t)

/-- Bases and attributes have no braces at all. -/
def inHeader (stack : List Bracket) (t : Token) : Bool := inList stack t && !isBrace t

/-- Whether a token says who can see a variable or when it can be written. -/
def isModifier (t : Token) : Bool :=
  (Visibility.declared? t).isSome || t.isKeyword "constant" || t.isKeyword "immutable"

/-- In front of an initial value there is no assignment. -/
def inDeclarator (stack : List Bracket) (t : Token) : Bool :=
  inExpression stack t && (stack.contains .round || !t.isOperator "=")

/-- The length of an array is a constant expression. -/
def inType (stack : List Bracket) (t : Token) : Bool := inDeclarator stack t && !isModifier t

/-! ## State variables -/

inductive TypeName where
  | elementary (name : {t : Token // t.kind = .type}) (payable : Option (Keyword "payable"))
  | path (first : Identifier) (rest : List (Mark "." × Identifier))
  | mapping (keyword : Keyword "mapping") (opener : Mark "(") (key : TypeName)
      (keyName : Option Identifier) (arrow : Mark "=>") (value : TypeName)
      (valueName : Option Identifier) (closer : Mark ")")
  | array (element : TypeName) (opener : Mark "[") (length : Tokens inType) (closer : Mark "]")

namespace TypeName

def first : TypeName → Token
  | elementary name _ => name.1
  | path first _ => first.1
  | mapping keyword .. => keyword.1
  | array element .. => element.first

def tail : TypeName → List Token
  | elementary _ payable => optional payable
  | path _ rest => rest.flatMap fun part => [part.1.1, part.2.1]
  | mapping _ opener key keyName arrow value valueName closer =>
      opener.1 :: ((key.first :: key.tail) ++ optional keyName ++
        arrow.1 :: ((value.first :: value.tail) ++ optional valueName) ++ [closer.1])
  | array element opener length closer => element.tail ++ opener.1 :: (length.1 ++ [closer.1])

def tokens (type : TypeName) : List Token := type.first :: type.tail

end TypeName

/-- What may stand between the type and the name of a variable. -/
inductive Modifier where
  | visibility (visibility : Visibility) (keyword : Keyword visibility.keyword)
  | constant (keyword : Keyword "constant")
  | immutable (keyword : Keyword "immutable")
  | override (keyword : Keyword "override")
      (bases : Option (Mark "(" × List (Identifier ⊕ Mark "." ⊕ Mark ",") × Mark ")"))

namespace Modifier

def tokens : Modifier → List Token
  | visibility _ keyword => [keyword.1]
  | constant keyword => [keyword.1]
  | immutable keyword => [keyword.1]
  | override keyword none => [keyword.1]
  | override keyword (some (opener, bases, closer)) =>
      keyword.1 :: opener.1 ::
        (bases.map (Sum.elim Subtype.val (Sum.elim Subtype.val Subtype.val)) ++ [closer.1])

def visibility? : Modifier → Option Visibility
  | visibility v _ => some v
  | _ => none

def isConstant : Modifier → Bool
  | constant _ => true
  | _ => false

def isImmutable : Modifier → Bool
  | immutable _ => true
  | _ => false

end Modifier

structure VariableMember where
  type : TypeName
  modifiers : List Modifier
  name : Identifier
  value : Option (Mark "=" × Tokens inExpression)
  semicolon : Mark ";"

namespace VariableMember

/-- The tokens in front of the initial value. -/
def declarator (v : VariableMember) : List Token :=
  v.type.tokens ++ v.modifiers.flatMap Modifier.tokens ++ [v.name.1]

def initializer (v : VariableMember) : List Token :=
  match v.value with
  | some (assign, value) => assign.1 :: value.1
  | none => []

def tokens (v : VariableMember) : List Token := v.declarator ++ v.initializer ++ [v.semicolon.1]

/-- The variable as the outline should list it. -/
def declaration (v : VariableMember) : StateVariable where
  name := v.name.1.text
  offset := v.name.1.start
  visibility := (v.modifiers.filterMap Modifier.visibility?).getLast?
  isConstant := v.modifiers.any Modifier.isConstant
  isImmutable := v.modifiers.any Modifier.isImmutable

end VariableMember

/-! ## Members with a body -/

/-- A body in its braces. -/
structure Block where
  opener : Mark "\x7b"
  inside : Tokens inBody
  closer : Mark "\x7d"

def Block.tokens (b : Block) : List Token := b.opener.1 :: (b.inside.1 ++ [b.closer.1])

/-- The end of a member: a semicolon or a body. -/
inductive Ending where
  | semicolon (mark : Mark ";")
  | block (block : Block)

namespace Ending

def tokens : Ending → List Token
  | semicolon mark => [mark.1]
  | block b => b.tokens

/-- The body as the outline should list it, where its opening brace stands at `index`. -/
def body? (index : Nat) : Ending → Option FunctionBody
  | semicolon _ => none
  | block b => some {
      first := index + 1
      tokens := b.inside.1
      start := b.opener.1.start
      stop := b.closer.1.stop
      closed := true }

end Ending

/-- The beginning of a function: its keyword, and a name if the keyword is `function`. -/
inductive FunctionHead where
  | named (keyword : Keyword "function") (name : Name)
  | special (kind : FunctionKind) (hkind : kind ≠ .function) (keyword : Keyword kind.keyword)

namespace FunctionHead

/-- The kind that the keyword announces. -/
def kind : FunctionHead → FunctionKind
  | named .. => .function
  | special kind .. => kind

def keyword : FunctionHead → Token
  | named keyword _ => keyword.1
  | special _ _ keyword => keyword.1

def behind : FunctionHead → List Token
  | named _ name => [name.1]
  | special .. => []

def name : FunctionHead → Token
  | named _ name => name.1
  | special _ _ keyword => keyword.1

end FunctionHead

/-- A function, constructor, `receive` or `fallback`. -/
structure FunctionMember where
  head : FunctionHead
  opener : Mark "("
  parameters : Tokens inList
  closer : Mark ")"
  attributes : Tokens inHeader
  ending : Ending

namespace FunctionMember

/-- The parameter list and the attributes. -/
def behindName (f : FunctionMember) : List Token :=
  f.opener.1 :: (f.parameters.1 ++ [f.closer.1]) ++ f.attributes.1

/-- The tokens between the keyword and the end. -/
def signature (f : FunctionMember) : List Token := f.head.behind ++ f.behindName

def tokens (f : FunctionMember) : List Token :=
  f.head.keyword :: (f.signature ++ f.ending.tokens)

end FunctionMember

/-- A function with the position of its keyword among the tokens of a file. -/
structure PlacedFunction extends FunctionMember where
  index : Nat

/-- The function as the outline should list it, where `mutability` says what its attributes are read
for. -/
def PlacedFunction.declaration (mutability : List Token → Mutability) (f : PlacedFunction) :
    FunctionDeclaration where
  kind := f.head.kind
  name := f.head.name.text
  offset := f.head.name.start
  paramTypes := parameterTypes f.parameters.1
  mutability := mutability f.attributes.1
  body := f.ending.body? (f.index + 1 + f.signature.length)

/-- A struct, enum, event or error. -/
structure TypeMember where
  kind : TypeKind
  hkind : kind.isContainer = false
  keyword : Keyword kind.keyword
  name : Name
  parameters : Tokens inExpression
  ending : Ending

namespace TypeMember

def tokens (d : TypeMember) : List Token :=
  d.keyword.1 :: ((d.name.1 :: d.parameters.1) ++ d.ending.tokens)

def declaration (d : TypeMember) : TypeDeclaration := ⟨d.kind, d.name.1.text, d.name.1.start⟩

end TypeMember

structure ModifierMember where
  keyword : Keyword "modifier"
  signature : Tokens inExpression
  ending : Ending

def ModifierMember.tokens (m : ModifierMember) : List Token :=
  m.keyword.1 :: (m.signature.1 ++ m.ending.tokens)

/-- What `using` makes available: a library or a list of functions in braces. -/
inductive UsingSource where
  | library (tokens : Tokens inExpression)
  | list (block : Block)

def UsingSource.tokens : UsingSource → List Token
  | library tokens => tokens.1
  | list block => block.tokens

/-- A `using` declaration. -/
structure UsingMember where
  keyword : Keyword "using"
  source : UsingSource
  target : Keyword "for" × Tokens inExpression
  semicolon : Mark ";"

def UsingMember.tokens (u : UsingMember) : List Token :=
  u.keyword.1 :: (u.source.tokens ++ u.target.1.1 :: (u.target.2.1 ++ [u.semicolon.1]))

/-! ## Files -/

inductive Member where
  | ofVariable (v : VariableMember)
  | ofFunction (f : FunctionMember)
  | ofType (d : TypeMember)
  | ofModifier (m : ModifierMember)
  | ofUsing (u : UsingMember)

namespace Member

def tokens : Member → List Token
  | ofVariable v => v.tokens
  | ofFunction f => f.tokens
  | ofType d => d.tokens
  | ofModifier m => m.tokens
  | ofUsing u => u.tokens

def types : Member → List TypeDeclaration
  | ofType d => [d.declaration]
  | _ => []

def stateVariables : Member → List StateVariable
  | ofVariable v => [v.declaration]
  | _ => []

/-- The functions that a member declares, where its first token stands at `index`. -/
def functions (index : Nat) : Member → List PlacedFunction
  | ofFunction f => [⟨f, index⟩]
  | _ => []

end Member

/-- What each part of a list yields, given the position of its first token. -/
def indexed {α β : Type} (tokens : α → List Token) (yield : Nat → α → List β) (index : Nat) :
    List α → List β
  | [] => []
  | a :: as => yield index a ++ indexed tokens yield (index + (tokens a).length) as

/-- A contract, interface or library. -/
structure Container where
  abstractly : Option (Keyword "abstract")
  kind : TypeKind
  hkind : kind.isContainer = true
  keyword : Keyword kind.keyword
  name : Name
  bases : Tokens inHeader
  opener : Mark "\x7b"
  members : List Member
  closer : Mark "\x7d"

namespace Container

/-- The tokens between the keyword of a container and its members. -/
def header (c : Container) : List Token := c.name.1 :: (c.bases.1 ++ [c.opener.1])

def tokens (c : Container) : List Token :=
  optional c.abstractly ++ c.keyword.1 :: (c.header ++
    (c.members.flatMap Member.tokens ++ [c.closer.1]))

/-- The types that a container declares, with the container itself. -/
def types (c : Container) : List TypeDeclaration :=
  ⟨c.kind, c.name.1.text, c.name.1.start⟩ :: c.members.flatMap Member.types

/-- The functions that a container declares, where its first token stands at `index`. -/
def functions (index : Nat) (c : Container) : List PlacedFunction :=
  indexed Member.tokens Member.functions
    (index + (optional c.abstractly).length + 1 + c.header.length) c.members

end Container

/-- A statement at the top of a file. -/
structure Statement where
  keyword : {t : Token // ["pragma", "import", "using"].any t.isKeyword = true}
  inside : Tokens inList
  semicolon : Mark ";"

def Statement.tokens (s : Statement) : List Token := s.keyword.1 :: (s.inside.1 ++ [s.semicolon.1])

/-- A part of a file. -/
inductive Item where
  | ofStatement (s : Statement)
  | ofContainer (c : Container)

namespace Item

def tokens : Item → List Token
  | ofStatement s => s.tokens
  | ofContainer c => c.tokens

def types : Item → List TypeDeclaration
  | ofStatement _ => []
  | ofContainer c => c.types

def stateVariables : Item → List StateVariable
  | ofStatement _ => []
  | ofContainer c => c.members.flatMap Member.stateVariables

/-- The functions that a part declares, where its first token stands at `index`. -/
def functions (index : Nat) : Item → List PlacedFunction
  | ofStatement _ => []
  | ofContainer c => c.functions index

end Item

/-- A well-formed file. -/
structure SourceFile where
  items : List Item

def SourceFile.tokens (file : SourceFile) : List Token := file.items.flatMap Item.tokens

def SourceFile.functions (file : SourceFile) : List PlacedFunction :=
  indexed Item.tokens Item.functions 0 file.items

/-- The outline of a file, where `mutability` says what attributes are read for. It is the outline
that the file should have if they are read for what they declare (`declaredMutability`). -/
def SourceFile.outline (mutability : List Token → Mutability) (file : SourceFile) : Outline where
  tokens := file.tokens
  types := file.items.flatMap Item.types
  stateVariables := file.items.flatMap Item.stateVariables
  functions := file.functions.map (·.declaration mutability)

end Grammar

end SolidityTools

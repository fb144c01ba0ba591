import SolidityTools.Token

set_option autoImplicit false

/-! # Declared types

A contract, interface, library, struct, enum, event or error is announced by its keyword with
its name directly behind it. Wherever the two stand next to each other there is a declaration;
nothing else about the place matters.
-/

namespace SolidityTools

/-- What a type-like declaration declares. -/
inductive TypeKind where
  | contract
  | interface
  | library
  | struct
  | enum
  | event
  | error
deriving DecidableEq, Repr

namespace TypeKind

def keyword : TypeKind → String
  | .contract => "contract"
  | .interface => "interface"
  | .library => "library"
  | .struct => "struct"
  | .enum => "enum"
  | .event => "event"
  | .error => "error"

def all : List TypeKind := [.contract, .interface, .library, .struct, .enum, .event, .error]

/-- Contracts, interfaces and libraries hold members between their braces. -/
def isContainer : TypeKind → Bool
  | .contract | .interface | .library => true
  | _ => false

def announced? (t : Token) : Option TypeKind := all.find? fun kind => t.isKeyword kind.keyword

end TypeKind

structure TypeDeclaration where
  kind : TypeKind
  name : String
  /-- The byte offset of the name. -/
  offset : Nat
deriving DecidableEq, Repr

/-- The declaration that begins a list of tokens, if one does. -/
def typeDeclaration? : List Token → Option TypeDeclaration
  | t :: name :: _ =>
    match TypeKind.announced? t with
    | some kind => if name.isName then some ⟨kind, name.text, name.start⟩ else none
    | none => none
  | _ => none

/-- The type-like declarations among the tokens, in source order. -/
def typeDeclarations : List Token → List TypeDeclaration
  | [] => []
  | t :: ts => (typeDeclaration? (t :: ts)).toList ++ typeDeclarations ts

end SolidityTools

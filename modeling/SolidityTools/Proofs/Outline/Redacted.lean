import SolidityTools.Proofs.Outline.Mapped
import SolidityTools.Proofs.Token.Redacted

set_option autoImplicit false

/-! # Outlines do not read comments and strings

The outline of a file does not change when the texts of its comments and strings are taken away,
except that these are missing from the bodies of the functions and from the types of their
parameters, where a string may stand although it is no type. The same holds of the search for
writes: what is written is a word.
-/

namespace SolidityTools

open Token

theorem typeDeclarations_map_redacted (ts : List Token) :
    typeDeclarations (ts.map redacted) = typeDeclarations ts :=
  (typeDeclarations_map keepsCode_redacted ts).trans (List.map_id _)

theorem stateVariables_map_redacted (ts : List Token) :
    stateVariables (ts.map redacted) = stateVariables ts :=
  (stateVariables_map keepsCode_redacted ts).trans (List.map_id _)

/-! ## Functions -/

/-- The body, its tokens redacted. -/
def FunctionBody.redacted (b : FunctionBody) : FunctionBody :=
  { b with tokens := b.tokens.map Token.redacted }

/-- The function with the tokens of its body redacted and without the types of its parameters. -/
def FunctionDeclaration.redacted (f : FunctionDeclaration) : FunctionDeclaration :=
  { f with paramTypes := [], body := f.body.map FunctionBody.redacted }

theorem bodyFrom_map_redacted (sourceLength first : Nat) (brace : Token) (ts : List Token) :
    bodyFrom sourceLength first brace.redacted (ts.map redacted)
      = (bodyFrom sourceLength first brace ts).redacted := by
  simp only [bodyFrom, Group.braces?, Group.close?_map keepsCode_redacted, start_redacted]
  cases hgroup : Group.close? "\x7b" "\x7d" 0 ts with
  | none => rfl
  | some group =>
      have hcloser := redacted_of_isOperator (Group.isOperator_closer_of_close? hgroup)
      simp only [Option.map_some, Group.mapped, FunctionBody.redacted, hcloser]

theorem functionDeclarations_map_redacted (sourceLength index : Nat) (ts : List Token) :
    (functionDeclarations sourceLength index (ts.map redacted)).map FunctionDeclaration.redacted
      = (functionDeclarations sourceLength index ts).map FunctionDeclaration.redacted := by
  have hbody : ∀ first brace us,
      (bodyFrom sourceLength first (redacted brace) (us.map redacted)).redacted
        = (bodyFrom sourceLength first brace us).redacted := by
    intro first brace us
    rw [bodyFrom_map_redacted]
    simp [FunctionBody.redacted]
  have hparams : ∀ _ : List Token, ([] : List String) = [] := fun _ => rfl
  exact @functionDeclarations_map id redacted keepsCode_redacted (fun _ => [])
    FunctionBody.redacted FunctionBody.redacted sourceLength sourceLength hparams hbody index ts

/-! ## Writes -/

theorem writeTarget?_map_redacted (before : List Token) (t : Token) (behind : List Token) :
    writeTarget? (before.map redacted) t.redacted (behind.map redacted)
      = writeTarget? before t behind := by
  rw [writeTarget?_map keepsCode_redacted]
  cases htarget : writeTarget? before t behind with
  | none => rfl
  | some target => rw [Option.map_some, redacted_of_isWord (exists_of_writeTarget? htarget).2]

theorem startsExternalCall_map_redacted (ts : List Token) :
    startsExternalCall (ts.map redacted) = startsExternalCall ts :=
  startsExternalCall_map keepsCode_redacted ts

end SolidityTools

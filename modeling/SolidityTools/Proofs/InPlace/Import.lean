import SolidityTools.Proofs.InPlace.Lexer
import SolidityTools.Proofs.InPlace.Literal
import SolidityTools.Proofs.InPlace.Position

set_option autoImplicit false

/-! # Imports in place

An import is looked for in the tokens from the index behind its keyword on, which is at most the
number of tokens. The path is a piece of the text of a string literal; its quotes are there because
the literal is closed.
-/

namespace SolidityTools

open Text

namespace InPlace

/-- The text of the first closed string literal among some tokens. -/
def firstLiteral? : List Token → Option (Option String)
  | [] => some none
  | t :: ts =>
    if t.kind == .string then do
      let terminated ← isTerminated? t
      if terminated then do
        let path ← unquoted? t
        some (some path)
      else firstLiteral? ts
    else firstLiteral? ts

/-- The path named by the import whose keyword stands at an index. -/
def importPath? (tokens : List Token) (keyword : Nat) : Option (Option String) := do
  let behind ← tail? tokens (keyword + 1)
  firstLiteral? (behind.takeWhile (!·.isOperator ";"))

def importsFrom? (source : String) (tokens : List Token) (idx : Nat) : Option (List Import) :=
  if idx < tokens.length then do
    let t ← tokens[idx]?
    let imports ← importsFrom? source tokens (idx + 1)
    if t.isKeyword "import" then do
      let path ← importPath? tokens idx
      match path with
      | none => some imports
      | some path => do
        let position ← positionAt? source t.start
        some (.ofPath path position.line :: imports)
    else some imports
  else some []
termination_by tokens.length - idx

def importsOf? (source : String) : Option (List Import) := do
  let tokens ← tokenize? source
  importsFrom? source (significantTokens tokens) 0

theorem firstLiteral?_eq {tokens : List Token} (h : ∀ t ∈ tokens, OpensString t) :
    firstLiteral? tokens
      = some ((tokens.find? fun t => t.kind == .string && t.isTerminated).map Import.unquoted) := by
  induction tokens with
  | nil => rfl
  | cons t ts ih =>
      have ht := h t List.mem_cons_self
      have hts := ih fun u hu => h u (List.mem_cons_of_mem t hu)
      rw [firstLiteral?]
      by_cases hkind : t.kind = .string
      · rw [if_pos (by simpa using hkind), isTerminated?_eq ht]
        simp only [Option.bind_eq_bind, Option.bind_some]
        by_cases hterminated : t.isTerminated = true
        · -- only a literal that is closed has two quotes to cut off
          rw [if_pos hterminated, unquoted?_eq ht hkind hterminated,
            List.find?_cons_of_pos (by simp [hkind, hterminated])]
          rfl
        · rw [if_neg hterminated, hts, List.find?_cons_of_neg (by simp [hterminated])]
      · rw [if_neg (by simpa using hkind), hts, List.find?_cons_of_neg (by simp [hkind])]

/-- The keyword is at an index, so the tokens behind it are there. -/
theorem importPath?_append {before ts : List Token} (t : Token) (h : ∀ u ∈ ts, OpensString u) :
    importPath? (before ++ t :: ts) before.length = some (Import.path? ts) := by
  have hstatement : ∀ u ∈ ts.takeWhile (!·.isOperator ";"), OpensString u := fun u hu =>
    h u (List.takeWhile_subset _ hu)
  rw [importPath?, tail?_append_succ]
  exact firstLiteral?_eq hstatement

theorem importsFrom?_append (source : String) (before : List Token) {ts : List Token}
    (h : ∀ t ∈ ts, OpensString t) :
    importsFrom? source (before ++ ts) before.length = some (Import.ofTokens source ts) := by
  induction ts generalizing before with
  | nil =>
      rw [importsFrom?, if_neg (by simp)]
      rfl
  | cons t ts ih =>
      have hts : ∀ u ∈ ts, OpensString u := fun u hu => h u (List.mem_cons_of_mem t hu)
      have hnext := ih (before ++ [t]) hts
      rw [List.append_assoc, List.singleton_append, List.length_append] at hnext
      rw [importsFrom?, if_pos (by simp), getElem?_append_cons, Import.ofTokens,
        importPath?_append t hts]
      simp only [Option.bind_eq_bind, Option.bind_some]
      rw [List.length_singleton] at hnext
      simp only [hnext, Option.bind_some, positionAt?_eq]
      by_cases hkeyword : t.isKeyword "import" = true
      · rw [if_pos hkeyword, if_pos hkeyword]
        cases Import.path? ts with
        | none => rfl
        | some path => rfl
      · rw [if_neg hkeyword, if_neg hkeyword]

/-- **Every source has imports that can be read**, and they are those of the source. -/
theorem importsOf?_eq (source : String) : importsOf? source = some (importsOf source) := by
  have h : ∀ t ∈ significantTokens (tokenize source), OpensString t := fun t ht =>
    opensString_of_mem (List.mem_of_mem_filter ht)
  rw [importsOf?, tokenize?_eq]
  exact importsFrom?_append source [] h

end InPlace

end SolidityTools

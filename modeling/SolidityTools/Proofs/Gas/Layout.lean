import SolidityTools.Proofs.Gas.Estimate
import SolidityTools.Proofs.Layout.Row
import SolidityTools.Proofs.Outline.Mapped

set_option autoImplicit false

/-! # Formatting leaves the estimate unchanged

An estimate reads the places of tokens for one purpose only, to report the line of a function. So it
is a function of the significant tokens with their lines in the place of their offsets
(`estimate_eq_entries`): what is counted in a body does not change when tokens are moved, and the
declared functions and variables are moved with their tokens. Formatting keeps the tokens and their
lines.
-/

namespace SolidityTools

open Text Token

namespace Gas

/-! ## Counting -/

section Counting

variable (f : Nat → Nat) (isState : String → Bool)

theorem hasLiteralBound_map_moved (ts : List Token) :
    hasLiteralBound (ts.map (moved f)) = hasLiteralBound ts := by
  fun_induction hasLiteralBound ts with
  | case1 a b ts ih =>
      have hnumber : ∀ t : Token, ((moved f t).kind == .number) = (t.kind == .number) :=
        fun _ => rfl
      rw [List.map_cons] at ih
      simp only [List.map_cons, hasLiteralBound, hnumber, (keepsCode_moved f).isOperatorIn, ih]
  | case2 ts hts =>
      match ts with
      | [] => rfl
      | [t] => rfl
      | a :: b :: ts => exact absurd rfl (hts a b ts)

theorem loopHeader_map_moved (ts : List Token) :
    loopHeader (ts.map (moved f)) = (loopHeader ts).map (moved f) := by
  have hmoved := keepsCode_moved f
  cases ts with
  | nil => rfl
  | cons paren ts =>
      simp only [List.map_cons, loopHeader, hmoved.isOperator, Group.parentheses?,
        Group.close?_map hmoved]
      split
      · cases Group.close? "(" ")" 0 ts with
        | none => rfl
        | some group => rfl
      · rfl

theorem writeCounts_map_moved (before : List Token) (t : Token) (behind : List Token) :
    writeCounts isState (before.map (moved f)) (moved f t) (behind.map (moved f))
      = writeCounts isState before t behind := by
  have hmoved := keepsCode_moved f
  have htarget : (writeTarget? (before.map (moved f)) (moved f t) (behind.map (moved f))).any
        (fun target => isState target.text)
      = (writeTarget? before t behind).any fun target => isState target.text := by
    rw [writeTarget?_map hmoved, Option.any_map]
    rfl
  rw [writeCounts, htarget, isWrite_map hmoved, writeCounts]

theorem flowCounts_map_moved (t : Token) (behind : List Token) :
    flowCounts (moved f t) (behind.map (moved f)) = flowCounts t behind := by
  have hmoved := keepsCode_moved f
  have hcall := startsExternalCall_map hmoved (t :: behind)
  have hnames : namesContract (behind.map (moved f)) = namesContract behind := by
    cases behind with
    | nil => rfl
    | cons u behind => rfl
  rw [List.map_cons] at hcall
  simp only [flowCounts, hmoved.isKeyword, hnames, hcall, loopHeader_map_moved,
    hasLiteralBound_map_moved]

theorem bodyCounts_map_moved (body : List Token) :
    bodyCounts isState (body.map (moved f)) = bodyCounts isState body := by
  have hfrom : ∀ before ts, countsFrom isState (before.map (moved f)) (ts.map (moved f))
      = countsFrom isState before ts := by
    intro before ts
    induction ts generalizing before with
    | nil => rfl
    | cons t ts ih =>
        have hrest := ih (t :: before)
        rw [List.map_cons] at hrest
        rw [List.map_cons, countsFrom, writeCounts_map_moved, flowCounts_map_moved, hrest,
          countsFrom]
  exact hfrom [] body

end Counting

/-! ## Functions with their lines -/

/-- The function with its offset moved, and without a place of its body. -/
def movedFunction (f : Nat → Nat) : FunctionDeclaration → FunctionDeclaration :=
  .seen f id fun body => ⟨0, body.tokens.map (moved f), 0, 0, body.closed⟩

variable {f : Nat → Nat} {functions : List FunctionDeclaration} {d : FunctionDeclaration}

theorem keyOf_map_moved :
    keyOf (functions.map (movedFunction f)) (movedFunction f d) = keyOf functions d := by
  have hover : isOverloaded (functions.map (movedFunction f)) d.name
      = isOverloaded functions d.name := by
    rw [isOverloaded, List.filter_map, List.map_map]
    rfl
  show (if isOverloaded (functions.map (movedFunction f)) d.name then d.signature else d.name) = _
  rw [hover, keyOf]

theorem bodyTokens_moved : (movedFunction f d).bodyTokens = d.bodyTokens.map (moved f) := by
  show ((d.body.map _).map _).getD [] = _
  rw [FunctionDeclaration.bodyTokens]
  cases d.body with
  | none => rfl
  | some body => rfl

theorem map_movedFunction_eq (f : Nat → Nat) (sourceLength sourceLength' : Nat) (ts : List Token) :
    (functionDeclarations sourceLength' 0 (ts.map (moved f))).map (movedFunction id)
      = (functionDeclarations sourceLength 0 ts).map (movedFunction f) := by
  have hmoved := keepsCode_moved f
  have hparams := parameterTypes_map hmoved fun _ => rfl
  refine functionDeclarations_map hmoved hparams (fun first brace us => ?_) 0 ts
  simp only [bodyFrom, Group.braces?, Group.close?_map hmoved]
  cases Group.close? "\x7b" "\x7d" 0 us with
  | none => simp [moved]
  | some group => simp [moved, Group.mapped]

/-! ## The estimate of tokens with their lines -/

def functionsAmong (ts : List Token) : List FunctionDeclaration :=
  ((functionDeclarations 0 0 ts).map (movedFunction id)).filter (·.body.isSome)

/-- Whether a name is that of a mutable state variable that some tokens declare. -/
def isMutableAmong (ts : List Token) (name : String) : Bool :=
  (((stateVariables ts).filter fun v => !v.isConstant && !v.isImmutable).map (·.name)).contains name

/-- The entry of a function whose offset is its line. -/
def linedEntry (weights : GasWeights) (ts : List Token) (d : FunctionDeclaration) : FunctionGas :=
  let breakdown := bodyCounts (isMutableAmong ts) d.bodyTokens
  { name := keyOf (functionsAmong ts) d
    gas := breakdown.total weights d.mutability.isReadOnly
    line := d.offset
    readOnly := d.mutability.isReadOnly
    breakdown }

/-- The significant tokens of a source text, with their lines in the place of their offsets. -/
def linedTokens (source : String) : List Token :=
  (tokenizeSignificant source).map (moved fun offset => (positionAt source offset).line)

variable (source : String)

theorem isMutableAmong_linedTokens :
    isMutableAmong (linedTokens source) = (Outline.ofSource source).isMutableState := by
  funext name
  rw [isMutableAmong, linedTokens, stateVariables_map (keepsCode_moved _), List.filter_map,
    List.map_map]
  rfl

theorem functionsAmong_linedTokens :
    functionsAmong (linedTokens source)
      = (functionsOf source).map (movedFunction fun offset => (positionAt source offset).line) := by
  have hbody : (fun d : FunctionDeclaration => d.body.isSome)
        ∘ movedFunction (fun offset => (positionAt source offset).line)
      = fun d => d.body.isSome := by
    funext d
    exact Option.isSome_map
  rw [functionsAmong, linedTokens,
    map_movedFunction_eq _ (byteLength source.toList), List.filter_map, hbody]
  rfl

/-- An estimate is read off the significant tokens and their lines. -/
theorem estimate_eq_entries (weights : GasWeights) :
    estimate weights source
      = tableOf ((functionsAmong (linedTokens source)).map
          (linedEntry weights (linedTokens source))) := by
  rw [estimate_eq_tableOf, functionsAmong_linedTokens, List.map_map]
  refine congrArg tableOf (List.map_congr_left fun d _ => ?_)
  rw [Function.comp_apply, linedEntry, isMutableAmong_linedTokens, functionsAmong_linedTokens,
    keyOf_map_moved, bodyTokens_moved, bodyCounts_map_moved]
  rfl

/-! ## Formatting -/

theorem linedTokens_eq (source : String) :
    linedTokens source
      = (Layout.rowsOf source.toList).map fun row => ⟨row.1.1, row.1.2, row.2⟩ := by
  rw [Layout.rowsOf, List.map_map]
  rfl

/-- **Formatting leaves the gas estimate unchanged.** If every string of a source is closed and has
no line feed in it, and no blank stands by itself as a token, the estimate of the formatted source
is that of the source, with every key, count, amount and line. -/
theorem estimate_format (weights : GasWeights) (settings : EditorSettings) (source : String)
    (hstring : ∀ t ∈ tokenize source, t.kind = .string →
      t.isTerminated = true ∧ '\n' ∉ t.text.toList)
    (hother : ∀ t ∈ tokenize source, t.kind = .other → ∀ c ∈ t.text.toList, isBlank c = false) :
    estimate weights (format settings source) = estimate weights source := by
  have hregular := Layout.regular_of_tokenize hstring hother
  have htokens : linedTokens (format settings source) = linedTokens source := by
    rw [linedTokens_eq, linedTokens_eq, format, String.toList_ofList,
      Layout.rowsOf_formatText hregular]
  rw [estimate_eq_entries, htokens, estimate_eq_entries]

/-- A function whose name stands behind a comment of two lines, and a write of the state on an
indented line. -/
theorem estimate_format_lines :
    estimate .standard (format .standard
        "contract C \x7b\n\tuint s; /* f\t\n*/ function\n  set(int n) \x7b \n\t\ts = 1; \x7d \x7d")
      = [⟨"set", 41000, 4, false, ⟨1, 0, 0, 0, 0, 0, 0⟩⟩] := by
  have hformat := estimate_format .standard .standard
    "contract C \x7b\n\tuint s; /* f\t\n*/ function\n  set(int n) \x7b \n\t\ts = 1; \x7d \x7d"
    (by decide +kernel) (by decide +kernel)
  exact hformat.trans (by decide +kernel)

end Gas

end SolidityTools

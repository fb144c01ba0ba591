import SolidityTools.Proofs.Outline.Declaration
import SolidityTools.Proofs.Outline.Scan

set_option autoImplicit false

/-! # The outline of a well-formed file

A well-formed file has the outline that its tree says. Types and functions were found by their
keywords; what is left is that the pass over the members is in the same state in front of each of
them, and yields a variable where one stands and nothing else.
-/

namespace SolidityTools

open Grammar

namespace MemberScan

/-! ## Statements -/

theorem declared?_eq_none (s : MemberScan) {t : Token} (h : t.isOperator ";" = false) :
    s.declared? t = none := by
  simp [declared?, h]

theorem passes_opener (s : MemberScan) (mark : Mark "\x7b") :
    s.Passes [mark.1] [] (s.openBrace mark.1) := by
  have hshape := Token.isOperator_iff.mp mark.2
  refine .single (s.declared?_eq_none ?_) ?_
  · simp [Token.isOperator_eq_decide, hshape]
  · rw [step, if_pos mark.2]

theorem passes_closer (s : MemberScan) (mark : Mark "\x7d") :
    s.Passes [mark.1] [] (s.closeBrace mark.1) := by
  have hshape := Token.isOperator_iff.mp mark.2
  refine .single (s.declared?_eq_none ?_) ?_
  · simp [Token.isOperator_eq_decide, hshape]
  · rw [step, if_neg (by simp [Token.isOperator_iff, hshape]), if_pos mark.2]

/-- The first token of a member begins a statement. -/
theorem passes_first {t : Token} (hkind : t.kind ≠ .operator)
    (hcontainer : (TypeKind.announced? t).any (·.isContainer) = false) :
    between.Passes [t] [] (begun [t]) := by
  have hoperator : ∀ text, t.isOperator text = false := fun text => by
    simp [Token.isOperator, hkind]
  refine .single (by simp [declared?, hoperator]) ?_
  simp [step, hoperator, parensBehind, hcontainer, statementBehind, inContainer, between, begun]

/-- A semicolon ends a statement, which may have declared a variable. -/
theorem passes_semicolon (ts : List Token) (semicolon : Mark ";") :
    (begun ts).Passes [semicolon.1] (stateVariable? ts).toList between := by
  have hshape := Token.isOperator_iff.mp semicolon.2
  have hdeclared : (begun ts).declared? semicolon.1 = stateVariable? ts := by
    simp [declared?, inContainer, begun, Token.isOperator_eq_decide, hshape]
  have hstep : (begun ts).step semicolon.1 = between := by
    have hkind : semicolon.1.kind ≠ .keyword := by simp [Token.kind_of_isOperator semicolon.2]
    simp [step, parensBehind, statementBehind, inContainer, begun, between,
      Token.isOperator_eq_decide, hshape,
      (announced?_eq_none (Token.declares_of_kind_ne hkind)).1]
  intro rest
  rw [List.cons_append, allDeclared, hdeclared, hstep]
  rfl

/-- A body gives the statement up, and nothing in it begins another one. -/
theorem passes_block (ts : List Token) (b : Block) : (begun ts).Passes b.tokens [] between := by
  have hopener : (begun ts).Passes [b.opener.1] [] body := passes_opener _ b.opener
  have hinside : body.Passes b.inside.1 [] body := by
    refine passes_silent b.inside.2 rfl (fun k => ?_) (fun _ _ => id) (by simp [body])
    simp only [body, List.head?_cons, ne_eq, Option.some.injEq]
    omega
  have hcloser : body.Passes [b.closer.1] [] between := passes_closer _ b.closer
  exact hopener.append (hinside.append hcloser)

/-- **A member that begins with a keyword declares no variable**, unless the keyword is `mapping`.
-/
theorem passes_keyword {text : String} {keyword : Token} (hkeyword : keyword.isKeyword text = true)
    (htext : text ≠ "mapping")
    (hcontainer : (TypeKind.announced? keyword).any (·.isContainer) = false)
    {ts : List Token} (hts : Balanced inExpression [] ts) (e : Ending) :
    between.Passes (keyword :: (ts ++ e.tokens)) [] between := by
  have hshape := Token.isKeyword_iff.mp hkeyword
  have hkind := Token.kind_of_isKeyword hkeyword
  have hnone : stateVariable? ([keyword] ++ ts) = none := by
    have hstarts : startsType keyword = false := by
      simp [startsType, hkind, Token.isKeyword_eq_decide, hshape, htext]
    rw [List.singleton_append, stateVariable?, hstarts]
    rfl
  have hfirst := passes_first (by simp [hkind]) hcontainer
  have hbegun := passes_begun hts [keyword]
  have hend : (begun ([keyword] ++ ts)).Passes e.tokens [] between := by
    cases e with
    | semicolon mark =>
        have hsemicolon := passes_semicolon ([keyword] ++ ts) mark
        rwa [hnone] at hsemicolon
    | block b => exact passes_block _ b
  exact hfirst.append (hbegun.append hend)

end MemberScan

namespace Grammar

/-! ## Members -/

open MemberScan

theorem VariableMember.passes (v : VariableMember) :
    between.Passes v.tokens [v.declaration] between := by
  have hkind : v.type.first.kind ≠ .operator := by
    have hstarts := v.type.startsType_first
    intro hkind
    simp [startsType, Token.isKeyword, hkind] at hstarts
  have hstatement : between.Passes (v.declarator ++ v.initializer) []
      (begun (v.declarator ++ v.initializer)) := by
    cases v.balanced with
    | cons hbehind hok h =>
        obtain ⟨hopened, hclosed⟩ := opened?_of_kind_ne hkind
        rw [Bracket.behind?_plain hopened hclosed, Option.some.injEq] at hbehind
        subst hbehind
        have hdeclares := declares_of_inBody (inBody_of_inList (inList_of_inExpression hok))
        have hfirst := passes_first hkind (by rw [(announced?_eq_none hdeclares).1]; rfl)
        exact hfirst.append (passes_begun h [v.type.first])
  have hend := passes_semicolon (v.declarator ++ v.initializer) v.semicolon
  rw [v.stateVariable?_eq] at hend
  exact hstatement.append hend

theorem FunctionMember.passes (f : FunctionMember) : between.Passes f.tokens [] between := by
  have hcontainer : (TypeKind.announced? f.head.keyword).any (·.isContainer) = false := by
    rw [f.head.announced?_keyword]
    rfl
  have hkeyword : ∃ text, f.head.keyword.isKeyword text = true ∧ text ≠ "mapping" := by
    cases f.head with
    | named keyword name => exact ⟨_, keyword.2, by decide⟩
    | special kind hkind keyword => exact ⟨_, keyword.2, by cases kind <;> decide⟩
  obtain ⟨text, hkeyword, htext⟩ := hkeyword
  exact passes_keyword hkeyword htext hcontainer f.balanced_signature f.ending

theorem TypeMember.passes (d : TypeMember) : between.Passes d.tokens [] between := by
  have hcontainer : (TypeKind.announced? d.keyword.1).any (·.isContainer) = false := by
    rw [(TypeKind.announced?_of_isKeyword d.keyword.2).1, Option.any_some, d.hkind]
  have hname : Balanced inExpression [] (d.name.1 :: d.parameters.1) := by
    obtain ⟨hkeyword, hoperator⟩ := Token.kind_ne_of_isName d.name.2
    exact balanced_cons (opened?_of_kind_ne hoperator) (inExpression_of_inDeclarator
      (inDeclarator_of_inType (inType_of_kind_ne hkeyword hoperator))) d.parameters.2
  exact passes_keyword d.keyword.2 (by cases d.kind <;> decide) hcontainer hname d.ending

theorem any_isContainer_eq_false {text : String} (keyword : Keyword text)
    (htext : declarationKeywords.contains text = false) :
    (TypeKind.announced? keyword.1).any (·.isContainer) = false := by
  rw [(announced?_eq_none ((Token.declares_of_isKeyword keyword.2).trans htext)).1]
  rfl

theorem ModifierMember.passes (m : ModifierMember) : between.Passes m.tokens [] between :=
  passes_keyword m.keyword.2 (by decide) (any_isContainer_eq_false m.keyword (by decide))
    m.signature.2 m.ending

theorem UsingMember.passes (u : UsingMember) : between.Passes u.tokens [] between := by
  obtain ⟨keyword, source, ⟨preposition, target⟩, semicolon⟩ := u
  have hkeyword := any_isContainer_eq_false keyword (by decide)
  have hpreposition := any_isContainer_eq_false preposition (by decide)
  cases source with
  | library library =>
      have hok : inExpression [] preposition.1 = true :=
        inExpression_of_inDeclarator (inDeclarator_of_isKeyword preposition.2 (by decide))
      have htarget : Balanced inExpression [] (preposition.1 :: target.1) :=
        balanced_keyword preposition.2 hok target.2
      have hpasses := passes_keyword keyword.2 (by decide) hkeyword (library.2.append htarget)
        (.semicolon semicolon)
      rwa [List.append_assoc] at hpasses
  | list block =>
      -- the braces give the statement up, and the preposition begins another one
      have hlist := passes_keyword keyword.2 (by decide) hkeyword .done (.block block)
      have htarget := passes_keyword preposition.2 (by decide) hpreposition target.2
        (.semicolon semicolon)
      exact hlist.append htarget

/-- **Every member leads back to where it began**, and yields what it declares. -/
theorem Member.passes (m : Member) : between.Passes m.tokens m.stateVariables between := by
  cases m with
  | ofVariable v => exact v.passes
  | ofFunction f => exact f.passes
  | ofType d => exact d.passes
  | ofModifier m => exact m.passes
  | ofUsing u => exact u.passes

/-! ## Containers -/

theorem Container.passes (c : Container) :
    start.Passes c.tokens (c.members.flatMap Member.stateVariables) start := by
  have habstract : start.Passes (optional c.abstractly) [] start := by
    cases c.abstractly with
    | none => exact .nil
    | some keyword =>
        have hbody : inBody [] keyword.1 = true := by
          rw [inBody, Token.declares_of_isKeyword keyword.2]
          decide
        exact passes_silent (balanced_keyword keyword.2 hbody .done) rfl (by simp [start])
          (fun _ _ => id) (by simp [start])
  have hkeyword : start.Passes [c.keyword.1] [] announced := by
    have hshape := Token.isKeyword_iff.mp c.keyword.2
    refine .single ?_ ?_
    · simp [declared?, Token.isOperator_eq_decide, hshape]
    · simp [step, parensBehind, statementBehind, inContainer, start, announced,
        Token.isOperator_eq_decide, hshape, (TypeKind.announced?_of_isKeyword c.keyword.2).1,
        c.hkind]
  have hheader : announced.Passes (c.name.1 :: c.bases.1) [] announced := by
    obtain ⟨hname, hoperator⟩ := Token.kind_ne_of_isName c.name.2
    have hok : inHeader [] c.name.1 = true := by
      simp [inHeader, inList, inBody, isBrace, Token.declares_of_kind_ne hname, Token.isOperator,
        hoperator]
    have hbalanced := balanced_cons (opened?_of_kind_ne hoperator) hok c.bases.2
    exact passes_silent hbalanced rfl (by simp [announced])
      (fun _ _ h => inBody_of_inList (inList_of_inHeader h)) fun _ _ _ => isBrace_of_inHeader
  have hopener : announced.Passes [c.opener.1] [] between := passes_opener _ c.opener
  have hcloser : between.Passes [c.closer.1] [] start := passes_closer _ c.closer
  have hmembers := Passes.flatMap Member.passes c.members
  have hall := habstract.append (hkeyword.append ((hheader.append hopener).append
    (hmembers.append hcloser)))
  simpa [tokens, header] using hall

theorem Statement.passes (s : Statement) : start.Passes s.tokens [] start := by
  have hdeclares := s.noDeclaration
  have hok : ∀ t ∈ s.tokens, inBody [] t = true := fun t ht => by rw [inBody, hdeclares t ht]; rfl
  have hinside : Balanced inBody [] s.inside.1 := s.inside.2.mono fun _ _ => inBody_of_inList
  have hsemicolon : Balanced inBody [] [s.semicolon.1] :=
    balanced_cons (opened?_of_isOperator_ne s.semicolon.2 (by decide))
      (hok _ (by simp [tokens])) .done
  obtain ⟨text, -, hkeyword⟩ := List.any_eq_true.mp s.keyword.2
  have hbalanced : Balanced inBody [] s.tokens :=
    balanced_keyword hkeyword (hok _ (by simp [tokens])) (hinside.append hsemicolon)
  exact passes_silent hbalanced rfl (by simp [start]) (fun _ _ => id) (by simp [start])

theorem Item.passes (i : Item) : start.Passes i.tokens i.stateVariables start := by
  cases i with
  | ofStatement s => exact s.passes
  | ofContainer c => exact c.passes

/-- **The state variables of a file are found.** -/
theorem SourceFile.stateVariables_tokens (file : SourceFile) :
    stateVariables file.tokens = file.items.flatMap Item.stateVariables := by
  have h := Passes.flatMap Item.passes file.items []
  rw [List.append_nil, allDeclared, List.append_nil] at h
  exact h

end Grammar

/-- The mutabilities of a file decide whether two readings have the same outline. -/
theorem Grammar.SourceFile.outline_eq_outline_iff (file : SourceFile)
    (read read' : List Token → Mutability) : file.outline read = file.outline read' ↔
      ∀ f ∈ file.functions, read f.attributes.1 = read' f.attributes.1 := by
  constructor
  · intro h
    have hfunctions : file.functions.map (·.declaration read)
        = file.functions.map (·.declaration read') := congrArg Outline.functions h
    exact fun f hf => congrArg FunctionDeclaration.mutability (List.map_inj_left.mp hfunctions f hf)
  · intro h
    have hfunctions : file.functions.map (·.declaration read)
        = file.functions.map (·.declaration read') := by
      refine List.map_congr_left fun f hf => ?_
      rw [PlacedFunction.declaration, h f hf, PlacedFunction.declaration]
    rw [SourceFile.outline, hfunctions, SourceFile.outline]

/-- **The outline of a well-formed file is the one that was written**, whatever blanks and comments
stand between its tokens: no type, variable or function is missed, none is found where there is
none, and every function has its own body. Its mutability is the last keyword that counts. So the
outline is the one that the file should have exactly if that keyword is the declared mutability of
each function. -/
theorem Outline.ofTokens_eq_outline (sourceLength : Nat) (file : SourceFile) {tokens : List Token}
    (h : significantTokens tokens = file.tokens) :
    Outline.ofTokens sourceLength tokens = file.outline countedMutability ∧
      (Outline.ofTokens sourceLength tokens = file.outline declaredMutability ↔
        ∀ f ∈ file.functions,
          countedMutability f.attributes.1 = declaredMutability f.attributes.1) := by
  have houtline : Outline.ofTokens sourceLength tokens = file.outline countedMutability := by
    rw [Outline.ofTokens, h, file.typeDeclarations_tokens, file.stateVariables_tokens,
      file.functionDeclarations_tokens, SourceFile.outline]
  rw [houtline]
  exact ⟨rfl, file.outline_eq_outline_iff _ _⟩

/-- A file with a mapping and a function that writes it. -/
def Grammar.sampleFile : SourceFile where
  items := [
    .ofStatement {
      keyword := ⟨⟨.keyword, "pragma", 0⟩, by decide⟩
      inside := ⟨[⟨.keyword, "solidity", 7⟩, ⟨.number, "1", 16⟩], by decide⟩
      semicolon := ⟨⟨.operator, ";", 17⟩, by decide⟩ },
    .ofContainer {
      abstractly := none
      kind := .contract
      hkind := rfl
      keyword := ⟨⟨.keyword, "contract", 19⟩, by decide⟩
      name := ⟨⟨.identifier, "C", 28⟩, by decide⟩
      bases := ⟨[⟨.keyword, "is", 30⟩, ⟨.identifier, "B", 33⟩], by decide⟩
      opener := ⟨⟨.operator, "\x7b", 35⟩, by decide⟩
      members := [
        .ofVariable {
          type := .mapping ⟨⟨.keyword, "mapping", 37⟩, by decide⟩ ⟨⟨.operator, "(", 44⟩, by decide⟩
            (.elementary ⟨⟨.type, "uint", 45⟩, rfl⟩ none) none ⟨⟨.operator, "=>", 50⟩, by decide⟩
            (.elementary ⟨⟨.type, "bool", 53⟩, rfl⟩ none) none ⟨⟨.operator, ")", 57⟩, by decide⟩
          modifiers := [.visibility .publicly ⟨⟨.keyword, "public", 59⟩, by decide⟩]
          name := ⟨⟨.identifier, "seen", 76⟩, rfl⟩
          value := none
          semicolon := ⟨⟨.operator, ";", 80⟩, by decide⟩ },
        .ofFunction {
          head := .named ⟨⟨.keyword, "function", 82⟩, by decide⟩ ⟨⟨.function, "see", 91⟩, by decide⟩
          opener := ⟨⟨.operator, "(", 94⟩, by decide⟩
          parameters := ⟨[⟨.type, "uint", 95⟩, ⟨.identifier, "n", 100⟩], by decide⟩
          closer := ⟨⟨.operator, ")", 101⟩, by decide⟩
          attributes := ⟨[⟨.keyword, "external", 103⟩], by decide⟩
          ending := .block {
            opener := ⟨⟨.operator, "\x7b", 112⟩, by decide⟩
            inside := ⟨[⟨.identifier, "seen", 114⟩, ⟨.operator, "[", 118⟩, ⟨.identifier, "n", 119⟩,
              ⟨.operator, "]", 120⟩, ⟨.operator, "=", 122⟩, ⟨.keyword, "true", 124⟩,
              ⟨.operator, ";", 128⟩], by decide⟩
            closer := ⟨⟨.operator, "\x7d", 130⟩, by decide⟩ } }]
      closer := ⟨⟨.operator, "\x7d", 132⟩, by decide⟩ }]

/-- The outline of a file with a mapping and a function that writes it. -/
theorem Outline.ofTokens_sampleFile :
    Outline.ofTokens 133 (tokenize ("pragma solidity 1; contract C is B \x7b " ++
        "mapping(uint => bool) public /* all */ seen; " ++
        "function see(uint n) external \x7b seen[n] = true; \x7d \x7d")) = {
      tokens := sampleFile.tokens
      types := [⟨.contract, "C", 28⟩]
      stateVariables := [⟨"seen", 76, some .publicly, false, false⟩]
      functions := [{
        kind := .function, name := "see", offset := 91, paramTypes := ["uint"]
        mutability := .nonpayable
        body := some {
          first := 26
          tokens := [⟨.identifier, "seen", 114⟩, ⟨.operator, "[", 118⟩, ⟨.identifier, "n", 119⟩,
            ⟨.operator, "]", 120⟩, ⟨.operator, "=", 122⟩, ⟨.keyword, "true", 124⟩,
            ⟨.operator, ";", 128⟩]
          start := 112, stop := 131, closed := true } }] } :=
  (Outline.ofTokens_eq_outline 133 sampleFile (by decide +kernel)).1.trans rfl

end SolidityTools

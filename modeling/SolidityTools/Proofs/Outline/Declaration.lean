import SolidityTools.Proofs.Outline.Part

set_option autoImplicit false

/-! # Declared types and functions are found

Types and functions are looked for at every token. In a well-formed file that is right, since their
keywords stand nowhere but in front of a declaration: behind the keyword of one the next one is not
met before its member ends. A function also says where its body begins among the tokens of the file,
so its declaration depends on the position of its keyword and on nothing else around it.
-/

namespace SolidityTools

open Grammar

/-! ## Tokens that declare nothing -/

theorem typeDeclarations_append {ts : List Token}
    (h : ∀ t ∈ ts, TypeKind.announced? t = none) (rest : List Token) :
    typeDeclarations (ts ++ rest) = typeDeclarations rest := by
  induction ts with
  | nil => rfl
  | cons t ts ih =>
      have hnone : typeDeclaration? (t :: (ts ++ rest)) = none := by
        unfold typeDeclaration?
        split
        · next t' name more heq =>
            obtain ⟨rfl, -⟩ := List.cons.inj heq
            rw [h t List.mem_cons_self]
        · rfl
      rw [List.cons_append, typeDeclarations, hnone,
        ih fun u hu => h u (List.mem_cons_of_mem t hu)]
      rfl

theorem functionDeclarations_append {ts : List Token}
    (h : ∀ t ∈ ts, FunctionKind.announced? t = none) (sourceLength index : Nat)
    (rest : List Token) :
    functionDeclarations sourceLength index (ts ++ rest)
      = functionDeclarations sourceLength (index + ts.length) rest := by
  induction ts generalizing index with
  | nil => rfl
  | cons t ts ih =>
      have hnone : functionDeclaration? sourceLength index (t :: (ts ++ rest)) = none := by
        simp [functionDeclaration?, h t List.mem_cons_self]
      rw [List.cons_append, functionDeclarations, hnone,
        ih fun u hu => h u (List.mem_cons_of_mem t hu), List.length_cons, Nat.add_assoc,
        Nat.add_comm 1]
      rfl

namespace Grammar

theorem NoDeclaration.typeDeclarations {ts : List Token} (h : NoDeclaration ts)
    (rest : List Token) : typeDeclarations (ts ++ rest) = SolidityTools.typeDeclarations rest :=
  typeDeclarations_append (fun t ht => (announced?_eq_none (h t ht)).1) rest

theorem NoDeclaration.functionDeclarations {ts : List Token} (h : NoDeclaration ts)
    (sourceLength index : Nat) (rest : List Token) :
    functionDeclarations sourceLength index (ts ++ rest)
      = SolidityTools.functionDeclarations sourceLength (index + ts.length) rest :=
  functionDeclarations_append (fun t ht => (announced?_eq_none (h t ht)).2) sourceLength index rest

end Grammar

theorem typeDeclarations_keyword {kind : TypeKind} (keyword : Keyword kind.keyword) (name : Name)
    (rest : List Token) :
    typeDeclarations (keyword.1 :: name.1 :: rest)
      = ⟨kind, name.1.text, name.1.start⟩ :: typeDeclarations (name.1 :: rest) := by
  have hkeyword := (TypeKind.announced?_of_isKeyword keyword.2).1
  rw [typeDeclarations, typeDeclaration?, hkeyword]
  simp [name.2]

/-! ## One function -/

/-- **The attributes end where they end.** -/
theorem attributes_append {stack : List Bracket} {ts : List Token}
    (h : Balanced inHeader stack ts) (sourceLength index : Nat) (m : Mutability)
    (rest : List Token) :
    attributes sourceLength index (stack.count .round) m (ts ++ rest)
      = attributes sourceLength (index + ts.length) 0 (mutabilityBehind (stack.count .round) m ts)
          rest := by
  induction h generalizing index m with
  | done => rfl
  | @cons stack behind t ts hbehind hok h ih =>
      have hcount : openBehind (stack.count .round) t = behind.count .round := by
        have hround := Bracket.count_behind? hbehind .round 0
        simp only [Nat.zero_add, Bracket.opener, Bracket.closer] at hround
        exact hround
      have hsemicolon := isOperator_of_inList (inList_of_inHeader hok)
      have hopen := (Bool.or_eq_false_iff.mp (isBrace_of_inHeader hok)).1
      calc attributes sourceLength index (stack.count .round) m (t :: (ts ++ rest))
          = attributes sourceLength (index + 1) (openBehind (stack.count .round) t)
              (m.attribute (stack.count .round) t) (ts ++ rest) := by
            simp only [attributes, hsemicolon, hopen, Bool.and_false, Bool.false_eq_true, if_false]
            rfl
        _ = attributes sourceLength (index + 1 + ts.length) 0
              (mutabilityBehind (behind.count .round) (m.attribute (stack.count .round) t) ts)
              rest := by
            rw [hcount, ih]
        _ = _ := by
            rw [mutabilityBehind, hcount, List.length_cons, Nat.add_assoc, Nat.add_comm 1]

namespace Grammar

/-- The end of a function is its end, and its body is closed. -/
theorem Ending.attributes_eq (e : Ending) (sourceLength index : Nat) (m : Mutability)
    (rest : List Token) :
    attributes sourceLength index 0 m (e.tokens ++ rest) = (m, e.body? index) := by
  cases e with
  | semicolon mark => simp [tokens, attributes, mark.2, body?]
  | block b =>
      have hopener : b.opener.1.shape = (.operator, "\x7b") := Token.isOperator_iff.mp b.opener.2
      have hgroup : Group.braces? (b.inside.1 ++ b.closer.1 :: rest)
          = some ⟨b.inside.1, b.closer.1, rest⟩ := b.inside.2.close?_eq .curly b.closer.2 rest
      simp [tokens, Block.tokens, attributes, Token.isOperator_eq_decide, hopener, bodyFrom, hgroup,
        body?]

/-- What is read behind the name of a function. -/
theorem FunctionMember.functionWith_eq (f : FunctionMember) (sourceLength index : Nat)
    (kind : FunctionKind) (name : Token) (rest : List Token) :
    functionWith sourceLength kind index name (f.behindName ++ (f.ending.tokens ++ rest))
      = some {
          kind, name := name.text, offset := name.start,
          paramTypes := parameterTypes f.parameters.1
          mutability := countedMutability f.attributes.1
          body := f.ending.body? (index + 1 + f.behindName.length) } := by
  have hgroup : Group.parentheses? (f.parameters.1 ++ f.closer.1 ::
        (f.attributes.1 ++ (f.ending.tokens ++ rest)))
      = some ⟨f.parameters.1, f.closer.1, f.attributes.1 ++ (f.ending.tokens ++ rest)⟩ :=
    f.parameters.2.close?_eq .round f.closer.2 _
  have hattributes := attributes_append f.attributes.2 sourceLength
    (index + 2 + f.parameters.1.length + 1) .nonpayable (f.ending.tokens ++ rest)
  rw [List.count_nil, f.ending.attributes_eq, mutabilityBehind_eq_counted] at hattributes
  have hlength : index + 2 + f.parameters.1.length + 1 + f.attributes.1.length
      = index + 1 + f.behindName.length := by
    simp only [behindName, List.cons_append, List.length_cons, List.length_append, List.length_nil]
    omega
  have hsplit : f.behindName ++ (f.ending.tokens ++ rest) = f.opener.1 ::
      (f.parameters.1 ++ f.closer.1 :: (f.attributes.1 ++ (f.ending.tokens ++ rest))) := by
    simp [behindName]
  rw [hsplit, functionWith, if_pos f.opener.2, hgroup]
  simp only [hattributes, hlength]

/-- What announces a function is followed by its parameter list. -/
theorem FunctionHead.functionDeclaration?_eq (head : FunctionHead) (sourceLength index : Nat)
    (ts : List Token) :
    functionDeclaration? sourceLength index (head.keyword :: (head.behind ++ ts))
      = functionWith sourceLength head.kind (index + head.behind.length) head.name ts := by
  have hkeyword : ∀ {kind : FunctionKind} (keyword : Keyword kind.keyword),
      FunctionKind.announced? keyword.1 = some kind :=
    fun keyword => (FunctionKind.announced?_of_isKeyword keyword.2).2
  cases head with
  | named keyword name =>
      simp only [FunctionHead.keyword, behind, FunctionHead.kind, FunctionHead.name,
        List.cons_append, List.nil_append, functionDeclaration?, @hkeyword .function keyword,
        name.2, if_true, List.length_cons, List.length_nil]
  | special kind hkind keyword =>
      simp only [FunctionHead.keyword, behind, FunctionHead.kind, FunctionHead.name,
        List.nil_append, functionDeclaration?, hkeyword keyword]
      cases kind with
      | function => exact absurd rfl hkind
      | constructor => rfl
      | receive => rfl
      | fallback => rfl

/-- **A function is found at its keyword.** -/
theorem FunctionMember.functionDeclaration?_eq (f : FunctionMember) (sourceLength index : Nat)
    (rest : List Token) :
    functionDeclaration? sourceLength index (f.tokens ++ rest)
      = some ((PlacedFunction.mk f index).declaration countedMutability) := by
  have hlength : index + f.head.behind.length + 1 + f.behindName.length
      = index + 1 + f.signature.length := by
    rw [signature, List.length_append]
    omega
  rw [tokens, signature, List.cons_append, List.append_assoc, List.append_assoc,
    f.head.functionDeclaration?_eq, f.functionWith_eq, hlength]
  rfl

/-! ## Members -/

theorem FunctionHead.announced?_keyword (head : FunctionHead) :
    TypeKind.announced? head.keyword = none := by
  cases head with
  | named keyword name =>
      exact (@FunctionKind.announced?_of_isKeyword _ .function keyword.2).1
  | special kind hkind keyword => exact (FunctionKind.announced?_of_isKeyword keyword.2).1

theorem Member.typeDeclarations_append (m : Member) (rest : List Token) :
    typeDeclarations (m.tokens ++ rest) = m.types ++ typeDeclarations rest := by
  cases m with
  | ofVariable v => exact v.noDeclaration.typeDeclarations rest
  | ofFunction f =>
      refine SolidityTools.typeDeclarations_append (List.forall_mem_cons.mpr ⟨?_, ?_⟩) rest
      · exact f.head.announced?_keyword
      · exact fun t ht => (announced?_eq_none (f.noDeclaration t ht)).1
  | ofType d =>
      show typeDeclarations (d.keyword.1 :: d.name.1 :: (d.parameters.1 ++ d.ending.tokens ++ rest))
        = d.declaration :: typeDeclarations rest
      rw [typeDeclarations_keyword]
      exact congrArg (List.cons _) (d.noDeclaration.typeDeclarations rest)
  | ofModifier m => exact m.noDeclaration.typeDeclarations rest
  | ofUsing u => exact u.noDeclaration.typeDeclarations rest

theorem Member.functionDeclarations_append (m : Member) (sourceLength index : Nat)
    (rest : List Token) :
    functionDeclarations sourceLength index (m.tokens ++ rest)
      = (m.functions index).map (·.declaration countedMutability)
        ++ functionDeclarations sourceLength (index + m.tokens.length) rest := by
  cases m with
  | ofVariable v => exact v.noDeclaration.functionDeclarations sourceLength index rest
  | ofFunction f =>
      have hbehind := f.noDeclaration.functionDeclarations sourceLength (index + 1) rest
      have hfound := f.functionDeclaration?_eq sourceLength index rest
      rw [FunctionMember.tokens, List.cons_append] at hfound
      show functionDeclarations sourceLength index
          (f.head.keyword :: (f.signature ++ f.ending.tokens ++ rest)) = _
      rw [functionDeclarations, hfound, hbehind, tokens, FunctionMember.tokens, List.length_cons,
        Nat.add_assoc, Nat.add_comm 1]
      rfl
  | ofType d =>
      refine SolidityTools.functionDeclarations_append (List.forall_mem_cons.mpr ⟨?_, ?_⟩)
        sourceLength index rest
      · exact (TypeKind.announced?_of_isKeyword d.keyword.2).2
      · exact fun t ht => (announced?_eq_none (d.noDeclaration t ht)).2
  | ofModifier m => exact m.noDeclaration.functionDeclarations sourceLength index rest
  | ofUsing u => exact u.noDeclaration.functionDeclarations sourceLength index rest

/-! ## Containers and files -/

section Lists

variable {α : Type} {tokens : α → List Token}

theorem typeDeclarations_flatMap {types : α → List TypeDeclaration}
    (h : ∀ a rest, typeDeclarations (tokens a ++ rest) = types a ++ typeDeclarations rest)
    (as : List α) (rest : List Token) :
    typeDeclarations (as.flatMap tokens ++ rest) = as.flatMap types ++ typeDeclarations rest := by
  induction as with
  | nil => rfl
  | cons a as ih => rw [List.flatMap_cons, List.append_assoc, h, ih, List.flatMap_cons,
      List.append_assoc]

theorem functionDeclarations_flatMap {functions : Nat → α → List PlacedFunction}
    {sourceLength : Nat} (h : ∀ a index rest,
      functionDeclarations sourceLength index (tokens a ++ rest)
        = (functions index a).map (·.declaration countedMutability)
          ++ functionDeclarations sourceLength (index + (tokens a).length) rest)
    (as : List α) (index : Nat) (rest : List Token) :
    functionDeclarations sourceLength index (as.flatMap tokens ++ rest)
      = (indexed tokens functions index as).map (·.declaration countedMutability)
        ++ functionDeclarations sourceLength (index + (as.flatMap tokens).length) rest := by
  induction as generalizing index with
  | nil => rfl
  | cons a as ih => rw [List.flatMap_cons, List.append_assoc, h, ih, indexed, List.map_append,
      List.append_assoc, List.length_append, Nat.add_assoc]

end Lists

theorem Container.noDeclaration_abstractly (c : Container) :
    NoDeclaration (optional c.abstractly) := by
  cases c.abstractly with
  | none => exact .nil
  | some keyword => exact .keyword keyword (by decide) .nil

theorem Container.typeDeclarations_append (c : Container) (rest : List Token) :
    typeDeclarations (c.tokens ++ rest) = c.types ++ typeDeclarations rest := by
  have hcloser : NoDeclaration [c.closer.1] := .mark c.closer .nil
  calc typeDeclarations (c.tokens ++ rest)
      = typeDeclarations (optional c.abstractly ++ (c.keyword.1 :: (c.header ++
          (c.members.flatMap Member.tokens ++ ([c.closer.1] ++ rest))))) := by
        simp [tokens]
    _ = typeDeclarations (c.keyword.1 :: (c.header ++
          (c.members.flatMap Member.tokens ++ ([c.closer.1] ++ rest)))) :=
        c.noDeclaration_abstractly.typeDeclarations _
    _ = ⟨c.kind, c.name.1.text, c.name.1.start⟩ :: typeDeclarations (c.header ++
          (c.members.flatMap Member.tokens ++ ([c.closer.1] ++ rest))) :=
        typeDeclarations_keyword c.keyword c.name _
    _ = c.types ++ typeDeclarations rest := by
        rw [c.noDeclaration_header.typeDeclarations,
          typeDeclarations_flatMap Member.typeDeclarations_append, hcloser.typeDeclarations]
        rfl

theorem Container.functionDeclarations_append (c : Container) (sourceLength index : Nat)
    (rest : List Token) :
    functionDeclarations sourceLength index (c.tokens ++ rest)
      = (c.functions index).map (·.declaration countedMutability)
        ++ functionDeclarations sourceLength (index + c.tokens.length) rest := by
  have hcloser : NoDeclaration [c.closer.1] := .mark c.closer .nil
  have hfront : ∀ t ∈ optional c.abstractly ++ c.keyword.1 :: c.header,
      FunctionKind.announced? t = none := by
    refine List.forall_mem_append.mpr ⟨?_, List.forall_mem_cons.mpr ⟨?_, ?_⟩⟩
    · exact fun t ht => (announced?_eq_none (c.noDeclaration_abstractly t ht)).2
    · exact (TypeKind.announced?_of_isKeyword c.keyword.2).2
    · exact fun t ht => (announced?_eq_none (c.noDeclaration_header t ht)).2
  have hsplit : c.tokens ++ rest = (optional c.abstractly ++ c.keyword.1 :: c.header) ++
      (c.members.flatMap Member.tokens ++ ([c.closer.1] ++ rest)) := by
    simp [tokens]
  have hfirst : index + (optional c.abstractly ++ c.keyword.1 :: c.header).length
      = index + (optional c.abstractly).length + 1 + c.header.length := by
    rw [List.length_append, List.length_cons]
    omega
  have hlast : index + (optional c.abstractly).length + 1 + c.header.length
        + (c.members.flatMap Member.tokens).length + [c.closer.1].length
      = index + c.tokens.length := by
    simp only [tokens, List.length_append, List.length_cons]
    omega
  rw [hsplit, SolidityTools.functionDeclarations_append hfront, hfirst,
    functionDeclarations_flatMap fun m index rest =>
      m.functionDeclarations_append sourceLength index rest,
    hcloser.functionDeclarations, hlast, functions]

theorem Item.typeDeclarations_append (i : Item) (rest : List Token) :
    typeDeclarations (i.tokens ++ rest) = i.types ++ typeDeclarations rest := by
  cases i with
  | ofStatement s => exact s.noDeclaration.typeDeclarations rest
  | ofContainer c => exact c.typeDeclarations_append rest

theorem Item.functionDeclarations_append (i : Item) (sourceLength index : Nat)
    (rest : List Token) :
    functionDeclarations sourceLength index (i.tokens ++ rest)
      = (i.functions index).map (·.declaration countedMutability)
        ++ functionDeclarations sourceLength (index + i.tokens.length) rest := by
  cases i with
  | ofStatement s => exact s.noDeclaration.functionDeclarations sourceLength index rest
  | ofContainer c => exact c.functionDeclarations_append sourceLength index rest

/-- **The types of a file are found.** -/
theorem SourceFile.typeDeclarations_tokens (file : SourceFile) :
    typeDeclarations file.tokens = file.items.flatMap Item.types := by
  have h := typeDeclarations_flatMap Item.typeDeclarations_append file.items []
  rw [List.append_nil, typeDeclarations, List.append_nil] at h
  exact h

/-- **The functions of a file are found**, with the mutabilities that count. -/
theorem SourceFile.functionDeclarations_tokens (file : SourceFile) (sourceLength : Nat) :
    functionDeclarations sourceLength 0 file.tokens
      = file.functions.map (·.declaration countedMutability) := by
  have h := functionDeclarations_flatMap (fun i index rest =>
    Item.functionDeclarations_append i sourceLength index rest) file.items 0 []
  rw [List.append_nil, functionDeclarations, List.append_nil] at h
  exact h

end Grammar

end SolidityTools

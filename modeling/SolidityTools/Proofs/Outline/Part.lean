import SolidityTools.Proofs.Outline.Grammar

set_option autoImplicit false

/-! # The parts of a well-formed file

Types, modifiers and signatures are made of tokens that need not be looked at one by one: it is
enough that the brackets are balanced and that every token is allowed where it stands. Only the
keyword in front of a declaration is left out.
-/

namespace SolidityTools

/-! ## What a token announces -/

section Announced

variable {t : Token} {text : String}

theorem Token.declares_of_isKeyword (h : t.isKeyword text = true) :
    t.declares = declarationKeywords.contains text := by
  rw [Bool.eq_iff_iff]
  simp [Token.declares, Token.isKeyword_iff, Token.isKeyword_iff.mp h]

theorem Token.declares_of_kind_ne (h : t.kind ≠ .keyword) : t.declares = false := by
  simp [Token.declares, Token.isKeyword, h]

theorem Token.kind_ne_of_isName (h : t.isName = true) : t.kind ≠ .keyword ∧ t.kind ≠ .operator := by
  rw [Token.isName, Bool.or_eq_true, beq_iff_eq, beq_iff_eq] at h
  rcases h with h | h <;> simp [h]

theorem announced?_eq_none (h : t.declares = false) :
    TypeKind.announced? t = none ∧ FunctionKind.announced? t = none := by
  simp only [Token.declares, List.any_eq_false, declarationKeywords, List.mem_append,
    List.mem_map] at h
  constructor
  · exact List.find?_eq_none.mpr fun kind hkind => h _ (Or.inl ⟨kind, hkind, rfl⟩)
  · exact List.find?_eq_none.mpr fun kind hkind => h _ (Or.inr ⟨kind, hkind, rfl⟩)

theorem TypeKind.announced?_of_isKeyword {kind : TypeKind} (h : t.isKeyword kind.keyword = true) :
    TypeKind.announced? t = some kind ∧ FunctionKind.announced? t = none := by
  simp only [TypeKind.announced?, FunctionKind.announced?, Token.isKeyword_eq_decide,
    Token.isKeyword_iff.mp h]
  cases kind <;> decide

theorem FunctionKind.announced?_of_isKeyword {kind : FunctionKind}
    (h : t.isKeyword kind.keyword = true) :
    TypeKind.announced? t = none ∧ FunctionKind.announced? t = some kind := by
  simp only [TypeKind.announced?, FunctionKind.announced?, Token.isKeyword_eq_decide,
    Token.isKeyword_iff.mp h]
  cases kind <;> decide

end Announced

namespace Grammar

/-! ## The rules -/

section Rules

variable {stack outer : List Bracket} {t : Token} {text : String}

theorem declares_of_inBody (h : inBody stack t = true) : t.declares = false := by
  rwa [inBody, Bool.not_eq_true'] at h

theorem inBody_of_inList (h : inList stack t = true) : inBody stack t = true :=
  (Bool.and_eq_true_iff.mp h).1

theorem isOperator_of_inList (h : inList stack t = true) : t.isOperator ";" = false := by
  rw [inList, Bool.and_eq_true, Bool.not_eq_true'] at h
  exact h.2

theorem inList_of_inExpression (h : inExpression stack t = true) : inList stack t = true :=
  (Bool.and_eq_true_iff.mp h).1

theorem inExpression_of_inDeclarator (h : inDeclarator stack t = true) :
    inExpression stack t = true :=
  (Bool.and_eq_true_iff.mp h).1

theorem inDeclarator_of_inType (h : inType stack t = true) : inDeclarator stack t = true :=
  (Bool.and_eq_true_iff.mp h).1

theorem inList_of_inHeader (h : inHeader stack t = true) : inList stack t = true :=
  (Bool.and_eq_true_iff.mp h).1

theorem isBrace_of_inHeader (h : inHeader stack t = true) : isBrace t = false := by
  rw [inHeader, Bool.and_eq_true, Bool.not_eq_true'] at h
  exact h.2

theorem inExpression_of_inHeader (h : inHeader stack t = true) : inExpression stack t = true := by
  rw [inExpression, inList_of_inHeader h, isBrace_of_inHeader h, Bool.not_false, Bool.or_true,
    Bool.and_self]

/-- In parentheses a list may stand where an expression may stand. -/
theorem inExpression_of_inList (h : inList stack t = true) :
    inExpression (stack ++ [.round]) t = true := by
  have hlist : inList (stack ++ [.round]) t = true := h
  simp [inExpression, hlist]

/-- What a type allows is still allowed in more brackets. -/
theorem inType_append (h : inType stack t = true) : inType (stack ++ outer) t = true := by
  simp only [inType, inDeclarator, inExpression, inList, inBody, Bool.and_eq_true, Bool.or_eq_true,
    List.contains_append] at h ⊢
  obtain ⟨⟨⟨hlist, hbrace⟩, hassign⟩, hmodifier⟩ := h
  exact ⟨⟨⟨hlist, hbrace.imp_left Or.inl⟩, hassign.imp_left Or.inl⟩, hmodifier⟩

theorem inType_of_kind_ne (hkeyword : t.kind ≠ .keyword) (hoperator : t.kind ≠ .operator) :
    inType stack t = true := by
  simp [inType, inDeclarator, inExpression, inList, inBody, Token.declares_of_kind_ne hkeyword,
    isBrace, isModifier, Visibility.declared?, Visibility.all, Token.isOperator, Token.isKeyword,
    hkeyword, hoperator]

theorem inType_of_isOperator (h : t.isOperator text = true)
    (htext : text ∉ [";", "\x7b", "\x7d", "="]) : inType stack t = true := by
  simp only [List.mem_cons, List.not_mem_nil, or_false, not_or] at htext
  rw [Token.isOperator_iff] at h
  have hkind : t.kind = .operator := congrArg Prod.fst h
  simp [inType, inDeclarator, inExpression, inList, inBody, isBrace, isModifier,
    Token.declares_of_kind_ne, hkind, Visibility.declared?, Visibility.all, Token.isKeyword,
    Token.isOperator_eq_decide, h, htext]

theorem inDeclarator_of_isKeyword (h : t.isKeyword text = true)
    (htext : declarationKeywords.contains text = false) : inDeclarator stack t = true := by
  have hdeclares : t.declares = false := (Token.declares_of_isKeyword h).trans htext
  have hkind : t.kind = .keyword := Token.kind_of_isKeyword h
  simp [inDeclarator, inExpression, inList, inBody, hdeclares, isBrace, Token.isOperator, hkind]

theorem inType_of_isKeyword (h : t.isKeyword text = true) (htext : text ∉ declarationKeywords ++
      ["public", "private", "internal", "external", "constant", "immutable"]) :
    inType stack t = true := by
  rw [List.mem_append, not_or] at htext
  have hdeclarator : inDeclarator stack t = true :=
    inDeclarator_of_isKeyword h (by simpa using htext.1)
  have hmodifier := htext.2
  simp only [List.mem_cons, List.not_mem_nil, or_false, not_or] at hmodifier
  simp [inType, hdeclarator, isModifier, Visibility.declared?, Visibility.all, Visibility.keyword,
    Token.isKeyword_eq_decide, Token.isKeyword_iff.mp h, hmodifier]

end Rules

/-! ## Single tokens -/

section Tokens

variable {ok : List Bracket → Token → Bool} {stack : List Bracket} {t : Token} {ts : List Token}

/-- A token that is no operator is no bracket. -/
theorem opened?_of_kind_ne (h : t.kind ≠ .operator) :
    Bracket.opened? t = none ∧ Bracket.closed? t = none := by
  simp [Bracket.opened?, Bracket.closed?, Token.isOperator, h]

/-- Most operators are no brackets. -/
theorem opened?_of_isOperator_ne {text : String} (h : t.isOperator text = true)
    (htext : ∀ b ∈ Bracket.all, text ≠ b.opener ∧ text ≠ b.closer) :
    Bracket.opened? t = none ∧ Bracket.closed? t = none := by
  rw [Token.isOperator_iff] at h
  rw [Bracket.opened?, Bracket.closed?, List.find?_eq_none, List.find?_eq_none]
  refine ⟨fun b hb => ?_, fun b hb => ?_⟩
  · simp [Token.isOperator_iff, h, (htext b hb).1]
  · simp [Token.isOperator_iff, h, (htext b hb).2]

theorem balanced_cons (ht : Bracket.opened? t = none ∧ Bracket.closed? t = none)
    (hok : ok stack t = true) (h : Balanced ok stack ts) : Balanced ok stack (t :: ts) :=
  .cons (Bracket.behind?_plain ht.1 ht.2 stack) hok h

theorem balanced_flatMap {α : Type} {tokens : α → List Token} {as : List α}
    (h : ∀ a ∈ as, Balanced ok [] (tokens a)) : Balanced ok [] (as.flatMap tokens) := by
  induction as with
  | nil => exact .done
  | cons a as ih =>
      rw [List.flatMap_cons]
      exact (h a List.mem_cons_self).append (ih fun b hb => h b (List.mem_cons_of_mem a hb))

end Tokens

/-! ## Types and modifiers -/

section Cons

variable {stack : List Bracket} {t : Token} {ts : List Token} {text : String}

theorem balanced_identifier (name : Identifier) (h : Balanced inType stack ts) :
    Balanced inType stack (name.1 :: ts) := by
  have hkeyword : name.1.kind ≠ .keyword := by simp [name.2]
  have hoperator : name.1.kind ≠ .operator := by simp [name.2]
  exact balanced_cons (opened?_of_kind_ne hoperator) (inType_of_kind_ne hkeyword hoperator) h

theorem balanced_mark (ht : t.isOperator text = true)
    (hbracket : ∀ b ∈ Bracket.all, text ≠ b.opener ∧ text ≠ b.closer)
    (htext : text ∉ [";", "\x7b", "\x7d", "="]) (h : Balanced inType stack ts) :
    Balanced inType stack (t :: ts) :=
  balanced_cons (opened?_of_isOperator_ne ht hbracket) (inType_of_isOperator ht htext) h

theorem balanced_keyword {ok : List Bracket → Token → Bool} (ht : t.isKeyword text = true)
    (hok : ok stack t = true) (h : Balanced ok stack ts) : Balanced ok stack (t :: ts) := by
  have hkind : t.kind = .keyword := Token.kind_of_isKeyword ht
  exact balanced_cons (opened?_of_kind_ne (by simp [hkind])) hok h

theorem balanced_group {b : Bracket} {opener closer : Token}
    (hopener : opener.isOperator b.opener = true) (hcloser : closer.isOperator b.closer = true)
    (hb : b ≠ .curly) (h : Balanced inType [] ts) :
    Balanced inType [] (opener :: (ts ++ [closer])) := by
  refine h.group hopener hcloser (inType_of_isOperator hopener ?_)
    (inType_of_isOperator hcloser ?_) fun _ _ => inType_append
  · cases b <;> simp_all [Bracket.opener]
  · cases b <;> simp_all [Bracket.closer]

end Cons

theorem balanced_optional_identifier (name : Option Identifier) :
    Balanced inType [] (optional name) := by
  cases name with
  | none => exact .done
  | some name => exact balanced_identifier name .done

/-- A type is balanced, and holds neither a modifier nor an assignment. -/
theorem TypeName.balanced (type : TypeName) : Balanced inType [] type.tokens := by
  induction type with
  | elementary name payable =>
      have hname : inType [] name.1 = true :=
        inType_of_kind_ne (by simp [name.2]) (by simp [name.2])
      refine balanced_cons (opened?_of_kind_ne (by simp [first, name.2])) hname ?_
      cases payable with
      | none => exact .done
      | some payable =>
          exact balanced_keyword payable.2 (inType_of_isKeyword payable.2 (by decide)) .done
  | path first rest =>
      refine balanced_identifier first (balanced_flatMap fun part _ => ?_)
      exact balanced_mark part.1.2 (by decide) (by decide) (balanced_identifier part.2 .done)
  | mapping keyword opener key keyName arrow value valueName closer hkey hvalue =>
      have hinside : Balanced inType [] (key.tokens ++ optional keyName ++
          arrow.1 :: (value.tokens ++ optional valueName)) := by
        refine (hkey.append (balanced_optional_identifier keyName)).append ?_
        exact balanced_mark arrow.2 (by decide) (by decide)
          (hvalue.append (balanced_optional_identifier valueName))
      exact balanced_keyword keyword.2 (inType_of_isKeyword keyword.2 (by decide))
        (@balanced_group _ .round _ _ opener.2 closer.2 (by decide) hinside)
  | array element opener length closer helement =>
      exact helement.append
        (@balanced_group _ .square _ _ opener.2 closer.2 (by decide) length.2)

/-- What is overridden is like a type: the modifier says neither who sees the variable nor when it
is written. -/
theorem balanced_override (keyword : Keyword "override")
    (bases : Option (Mark "(" × List (Identifier ⊕ Mark "." ⊕ Mark ",") × Mark ")")) :
    Balanced inType [] (Modifier.override keyword bases).tokens := by
  have hkeyword : ∀ {ts : List Token}, Balanced inType [] ts →
      Balanced inType [] (keyword.1 :: ts) := fun h =>
    balanced_keyword keyword.2 (inType_of_isKeyword keyword.2 (by decide)) h
  cases bases with
  | none => exact hkeyword .done
  | some bases =>
      obtain ⟨opener, bases, closer⟩ := bases
      have hinside : Balanced inType []
          (bases.map (Sum.elim Subtype.val (Sum.elim Subtype.val Subtype.val))) := by
        rw [List.map_eq_flatMap]
        refine balanced_flatMap fun part _ => ?_
        rcases part with name | dot | comma
        · exact balanced_identifier name .done
        · exact balanced_mark dot.2 (by decide) (by decide) .done
        · exact balanced_mark comma.2 (by decide) (by decide) .done
      exact hkeyword (@balanced_group _ .round _ _ opener.2 closer.2 (by decide) hinside)

theorem Modifier.balanced (m : Modifier) : Balanced inDeclarator [] m.tokens := by
  have hkeyword : ∀ {text : String} (keyword : Keyword text),
      declarationKeywords.contains text = false → Balanced inDeclarator [] [keyword.1] :=
    fun keyword htext =>
      balanced_keyword keyword.2 (inDeclarator_of_isKeyword keyword.2 htext) .done
  cases m with
  | visibility v keyword => exact hkeyword keyword (by cases v <;> decide)
  | constant keyword => exact hkeyword keyword (by decide)
  | immutable keyword => exact hkeyword keyword (by decide)
  | override keyword bases =>
      exact (balanced_override keyword bases).mono fun _ _ => inDeclarator_of_inType

theorem VariableMember.balanced_declarator (v : VariableMember) :
    Balanced inDeclarator [] v.declarator := by
  have htype : Balanced inDeclarator [] v.type.tokens :=
    v.type.balanced.mono fun _ _ => inDeclarator_of_inType
  have hname : Balanced inDeclarator [] [v.name.1] :=
    (balanced_identifier v.name .done).mono fun _ _ => inDeclarator_of_inType
  exact (htype.append (balanced_flatMap fun m _ => m.balanced)).append hname

/-- A variable is an expression up to its semicolon. -/
theorem VariableMember.balanced (v : VariableMember) :
    Balanced inExpression [] (v.declarator ++ v.initializer) := by
  have hvalue : Balanced inExpression [] v.initializer := by
    unfold initializer
    split
    · next assign value hvalue =>
        have hshape := Token.isOperator_iff.mp assign.2
        have hkind := Token.kind_of_isOperator assign.2
        refine balanced_cons (opened?_of_isOperator_ne assign.2 (by decide)) ?_ value.2
        simp [inExpression, inList, inBody, isBrace, Token.declares_of_kind_ne, hkind,
          Token.isOperator_eq_decide, hshape]
    · exact .done
  exact (v.balanced_declarator.mono fun _ _ => inExpression_of_inDeclarator).append hvalue

/-- Between its keyword and its end a function is an expression. -/
theorem FunctionMember.balanced_signature (f : FunctionMember) :
    Balanced inExpression [] f.signature := by
  have hmark : ∀ {text : String} (mark : Mark text) (stack : List Bracket),
      text ∉ [";", "\x7b", "\x7d", "="] → inExpression stack mark.1 = true :=
    fun mark stack htext => inExpression_of_inDeclarator
      (inDeclarator_of_inType (inType_of_isOperator mark.2 htext))
  have hparameters : Balanced inExpression [] (f.opener.1 :: (f.parameters.1 ++ [f.closer.1])) :=
    @Balanced.group inList inExpression _ .round _ _ f.opener.2 f.closer.2
      (hmark f.opener _ (by decide)) (hmark f.closer _ (by decide)) f.parameters.2
      fun _ _ => inExpression_of_inList
  have hhead : Balanced inExpression [] f.head.behind := by
    cases f.head with
    | named _ name =>
        obtain ⟨hkeyword, hoperator⟩ := Token.kind_ne_of_isName name.2
        refine balanced_cons (opened?_of_kind_ne hoperator) ?_ .done
        exact inExpression_of_inDeclarator
          (inDeclarator_of_inType (inType_of_kind_ne hkeyword hoperator))
    | special => exact .done
  exact hhead.append
    (hparameters.append (f.attributes.2.mono fun _ _ => inExpression_of_inHeader))

/-! ## Where no declaration begins -/

/-- No declaration begins at one of the tokens. -/
def NoDeclaration (ts : List Token) : Prop := ∀ t ∈ ts, t.declares = false

namespace NoDeclaration

variable {t : Token} {ts us : List Token}

theorem nil : NoDeclaration [] := fun _ ht => absurd ht List.not_mem_nil

theorem cons (ht : t.declares = false) (h : NoDeclaration ts) : NoDeclaration (t :: ts) :=
  List.forall_mem_cons.mpr ⟨ht, h⟩

theorem append (h : NoDeclaration ts) (hus : NoDeclaration us) : NoDeclaration (ts ++ us) :=
  List.forall_mem_append.mpr ⟨h, hus⟩

theorem mark {text : String} (mark : Mark text) (h : NoDeclaration ts) :
    NoDeclaration (mark.1 :: ts) := by
  have hkind : mark.1.kind = .operator := Token.kind_of_isOperator mark.2
  exact .cons (Token.declares_of_kind_ne (by simp [hkind])) h

theorem keyword {text : String} (keyword : Keyword text)
    (htext : declarationKeywords.contains text = false) (h : NoDeclaration ts) :
    NoDeclaration (keyword.1 :: ts) :=
  .cons ((Token.declares_of_isKeyword keyword.2).trans htext) h

theorem name (name : Name) (h : NoDeclaration ts) : NoDeclaration (name.1 :: ts) :=
  .cons (Token.declares_of_kind_ne (Token.kind_ne_of_isName name.2).1) h

theorem balanced {ok : List Bracket → Token → Bool} (h : Balanced ok [] ts)
    (hok : ∀ stack t, ok stack t = true → inBody stack t = true) : NoDeclaration ts := by
  intro t ht
  obtain ⟨stack, hstack⟩ := h.exists_ok_of_mem ht
  exact declares_of_inBody (hok stack t hstack)

theorem expression (h : Balanced inExpression [] ts) : NoDeclaration ts :=
  .balanced h fun _ _ hok => inBody_of_inList (inList_of_inExpression hok)

end NoDeclaration

theorem Block.noDeclaration (b : Block) : NoDeclaration b.tokens :=
  .mark b.opener ((NoDeclaration.balanced b.inside.2 fun _ _ => id).append (.mark b.closer .nil))

theorem Ending.noDeclaration (e : Ending) : NoDeclaration e.tokens := by
  cases e with
  | semicolon mark => exact .mark mark .nil
  | block b => exact b.noDeclaration

theorem VariableMember.noDeclaration (v : VariableMember) : NoDeclaration v.tokens :=
  (NoDeclaration.expression v.balanced).append (.mark v.semicolon .nil)

theorem ModifierMember.noDeclaration (m : ModifierMember) : NoDeclaration m.tokens :=
  .keyword m.keyword (by decide)
    ((NoDeclaration.expression m.signature.2).append m.ending.noDeclaration)

theorem UsingMember.noDeclaration (u : UsingMember) : NoDeclaration u.tokens := by
  have hsource : NoDeclaration u.source.tokens := by
    cases u.source with
    | library tokens => exact .expression tokens.2
    | list block => exact block.noDeclaration
  have htarget : NoDeclaration (u.target.1.1 :: (u.target.2.1 ++ [u.semicolon.1])) :=
    .keyword u.target.1 (by decide)
      ((NoDeclaration.expression u.target.2.2).append (.mark u.semicolon .nil))
  exact .keyword u.keyword (by decide) (hsource.append htarget)

theorem FunctionMember.noDeclaration (f : FunctionMember) :
    NoDeclaration (f.signature ++ f.ending.tokens) :=
  (NoDeclaration.expression f.balanced_signature).append f.ending.noDeclaration

theorem TypeMember.noDeclaration (d : TypeMember) :
    NoDeclaration ((d.name.1 :: d.parameters.1) ++ d.ending.tokens) :=
  (NoDeclaration.name d.name (.expression d.parameters.2)).append d.ending.noDeclaration

theorem Container.noDeclaration_header (c : Container) : NoDeclaration c.header := by
  have hbases : Balanced inExpression [] c.bases.1 :=
    c.bases.2.mono fun _ _ => inExpression_of_inHeader
  exact .name c.name ((NoDeclaration.expression hbases).append (.mark c.opener .nil))

theorem Statement.noDeclaration (s : Statement) : NoDeclaration s.tokens := by
  have hkeyword : s.keyword.1.declares = false := by
    obtain ⟨text, htext, hkeyword⟩ := List.any_eq_true.mp s.keyword.2
    rw [Token.declares_of_isKeyword hkeyword]
    simp only [List.mem_cons, List.not_mem_nil, or_false] at htext
    rcases htext with rfl | rfl | rfl <;> decide
  exact .cons hkeyword ((NoDeclaration.balanced s.inside.2 fun _ _ => inBody_of_inList).append
    (.mark s.semicolon .nil))

end Grammar

end SolidityTools

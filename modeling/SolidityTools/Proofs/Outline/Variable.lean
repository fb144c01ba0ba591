import SolidityTools.Proofs.Outline.Part

set_option autoImplicit false

/-! # Reading the declaration of a variable

A state variable is read off its tokens without parsing them: the name is the last identifier before
the initial value, and the modifiers are found by their keywords. In a well-formed variable the type
holds no modifier and no assignment, so that this finds what was written.
-/

namespace SolidityTools

open Grammar

namespace Grammar

/-! ## Modifiers -/

section Modifiers

variable {t : Token} {ts : List Token}

theorem isModifier_eq_false_iff : isModifier t = false ↔
    Visibility.declared? t = none ∧ t.isKeyword "constant" = false ∧
      t.isKeyword "immutable" = false := by
  simp [isModifier, and_assoc]

theorem isModifier_of_mem (h : Balanced inType [] ts) : ∀ t ∈ ts, isModifier t = false := by
  intro t ht
  obtain ⟨stack, hok⟩ := h.exists_ok_of_mem ht
  rw [inType, Bool.and_eq_true, Bool.not_eq_true'] at hok
  exact hok.2

/-- What the modifiers among some tokens say. -/
structure Says (ts : List Token) (visibilities : List Visibility)
    (isConstant isImmutable : Bool) : Prop where
  visibility : ts.filterMap Visibility.declared? = visibilities
  constant : ts.any (·.isKeyword "constant") = isConstant
  immutable : ts.any (·.isKeyword "immutable") = isImmutable

theorem Says.append {us : List Token} {v v' : List Visibility} {c c' i i' : Bool}
    (h : Says ts v c i) (h' : Says us v' c' i') :
    Says (ts ++ us) (v ++ v') (c || c') (i || i') where
  visibility := by rw [List.filterMap_append, h.visibility, h'.visibility]
  constant := by rw [List.any_append, h.constant, h'.constant]
  immutable := by rw [List.any_append, h.immutable, h'.immutable]

theorem says_nothing (h : ∀ t ∈ ts, isModifier t = false) : Says ts [] false false where
  visibility := List.filterMap_eq_nil_iff.mpr fun t ht => (isModifier_eq_false_iff.mp (h t ht)).1
  constant := List.any_eq_false.mpr fun t ht => by simp [(isModifier_eq_false_iff.mp (h t ht)).2.1]
  immutable := List.any_eq_false.mpr fun t ht => by
    simp [(isModifier_eq_false_iff.mp (h t ht)).2.2]

end Modifiers

theorem Modifier.says (m : Modifier) :
    Says m.tokens m.visibility?.toList m.isConstant m.isImmutable := by
  cases m with
  | visibility v keyword =>
      have hshape := Token.isKeyword_iff.mp keyword.2
      constructor <;> cases v <;>
        simp [tokens, visibility?, isConstant, isImmutable, Visibility.declared?, Visibility.all,
          Visibility.keyword, Token.isKeyword_eq_decide, hshape]
  | constant keyword =>
      have hshape := Token.isKeyword_iff.mp keyword.2
      constructor <;>
        simp [tokens, visibility?, isConstant, isImmutable, Visibility.declared?, Visibility.all,
          Visibility.keyword, Token.isKeyword_eq_decide, hshape]
  | immutable keyword =>
      have hshape := Token.isKeyword_iff.mp keyword.2
      constructor <;>
        simp [tokens, visibility?, isConstant, isImmutable, Visibility.declared?, Visibility.all,
          Visibility.keyword, Token.isKeyword_eq_decide, hshape]
  | override keyword bases =>
      exact says_nothing (isModifier_of_mem (balanced_override keyword bases))

theorem says_modifiers (ms : List Modifier) : Says (ms.flatMap Modifier.tokens)
    (ms.filterMap Modifier.visibility?) (ms.any Modifier.isConstant)
    (ms.any Modifier.isImmutable) := by
  induction ms with
  | nil => exact says_nothing fun t ht => absurd ht List.not_mem_nil
  | cons m ms ih =>
      have hcons : (m :: ms).filterMap Modifier.visibility?
          = m.visibility?.toList ++ ms.filterMap Modifier.visibility? := by
        rw [List.filterMap_cons]
        cases m.visibility? <;> rfl
      rw [List.flatMap_cons, hcons, List.any_cons, List.any_cons]
      exact m.says.append ih

/-! ## The declarator -/

/-- The tokens in front of the initial value are passed. -/
theorem declarator_append {stack : List Bracket} {ts : List Token}
    (h : Balanced inDeclarator stack ts) (rest : List Token) :
    declarator (stack.count .round) (ts ++ rest) = ts ++ declarator 0 rest := by
  induction h with
  | done => rfl
  | @cons stack behind t ts hbehind hok h ih =>
      have hcount := Bracket.count_behind? hbehind .round 0
      simp only [Nat.zero_add, Bracket.opener, Bracket.closer] at hcount
      have hpassed : (behind.count .round == 0 && t.isOperator "=") = false := by
        by_cases hassign : t.isOperator "=" = true
        · -- an assignment stands in parentheses, and closes none
          have hshape := Token.isOperator_iff.mp hassign
          have hround : stack.contains .round = true := by
            rw [inDeclarator, hassign, Bool.not_true, Bool.or_false, Bool.and_eq_true] at hok
            exact hok.2
          have hsame : stack.count .round = behind.count .round := by
            simpa [Token.isOperator_eq_decide, hshape] using hcount
          have hpos : 0 < stack.count .round := List.count_pos_iff.mpr (by simpa using hround)
          simp only [← hsame, Bool.and_eq_false_iff, beq_eq_false_iff_ne]
          exact Or.inl (by omega)
        · simp [hassign]
      rw [List.cons_append, declarator]
      simp only [hcount, hpassed, Bool.false_eq_true, if_false, ih, List.cons_append]

theorem VariableMember.declarator_initializer (v : VariableMember) :
    SolidityTools.declarator 0 v.initializer = [] := by
  unfold initializer
  split
  · next assign value hvalue =>
      have hshape := Token.isOperator_iff.mp assign.2
      simp [SolidityTools.declarator, Token.isOperator_eq_decide, hshape]
  · rfl

theorem TypeName.startsType_first (type : TypeName) : startsType type.first = true := by
  induction type with
  | elementary name payable => simp [startsType, first, name.2]
  | path first rest => simp [startsType, TypeName.first, first.2]
  | mapping keyword => simp [startsType, first, keyword.2]
  | array element opener length closer ih => exact ih

/-- **A variable is read as it was written.** -/
theorem VariableMember.stateVariable?_eq (v : VariableMember) :
    stateVariable? (v.declarator ++ v.initializer) = some v.declaration := by
  have hdeclarator : SolidityTools.declarator 0 (v.declarator ++ v.initializer) = v.declarator := by
    have happend := declarator_append v.balanced_declarator v.initializer
    rwa [v.declarator_initializer, List.append_nil] at happend
  have hname : isModifier v.name.1 = false := by
    have hkind := v.name.2
    simp [isModifier_eq_false_iff, Visibility.declared?, Visibility.all, Token.isKeyword, hkind]
  have hsays : Says v.declarator (v.modifiers.filterMap Modifier.visibility?)
      (v.modifiers.any Modifier.isConstant) (v.modifiers.any Modifier.isImmutable) := by
    have htype := says_nothing (isModifier_of_mem v.type.balanced)
    have hlast : Says [v.name.1] [] false false := says_nothing (by simpa using hname)
    simpa [declarator] using (htype.append (says_modifiers v.modifiers)).append hlast
  have hlast : (v.declarator.tail.filter (·.kind == .identifier)).getLast? = some v.name.1 := by
    have htail : v.declarator.tail
        = (v.type.tail ++ v.modifiers.flatMap Modifier.tokens) ++ [v.name.1] := rfl
    have hkind : (v.name.1.kind == .identifier) = true := by simp [v.name.2]
    rw [htail, List.filter_append, List.filter_singleton, hkind]
    simp
  have hfirst : v.declarator ++ v.initializer = v.type.first ::
      (v.type.tail ++ v.modifiers.flatMap Modifier.tokens ++ [v.name.1] ++ v.initializer) := rfl
  rw [hfirst, stateVariable?, if_pos v.type.startsType_first, ← hfirst]
  simp only [hdeclarator, hlast, hsays.visibility, hsays.constant, hsays.immutable]
  rfl

end Grammar

end SolidityTools

import SolidityTools.Proofs.Outline.Function
import Mathlib.Data.List.Basic

set_option autoImplicit false

/-! # Where declarations stand

Nothing in an outline is made up: each declaration has its name and its place from a token of the
file, and the tokens of a body are tokens of the file. The pass over a file keeps tokens of the
statement begun so far, so for variables the induction also covers these.
-/

namespace SolidityTools

variable {ts : List Token}

/-! ## Types -/

theorem exists_of_typeDeclaration? {d : TypeDeclaration} (h : typeDeclaration? ts = some d) :
    ∃ t ∈ ts, t.isName = true ∧ d.name = t.text ∧ d.offset = t.start := by
  unfold typeDeclaration? at h
  split at h
  · next t name behind =>
      split at h
      · split at h
        · next hname =>
            obtain rfl := Option.some.inj h
            exact ⟨name, by simp, hname, rfl, rfl⟩
        · cases h
      · cases h
  · cases h

/-- A declared type has its name from a name among the tokens. -/
theorem exists_of_mem_typeDeclarations {d : TypeDeclaration} (h : d ∈ typeDeclarations ts) :
    ∃ t ∈ ts, t.isName = true ∧ d.name = t.text ∧ d.offset = t.start := by
  induction ts with
  | nil => cases h
  | cons t ts ih =>
      rw [typeDeclarations] at h
      rcases List.mem_append.mp h with h | h
      · exact exists_of_typeDeclaration? (Option.mem_toList.mp h)
      · obtain ⟨u, hu, hd⟩ := ih h
        exact ⟨u, List.mem_cons_of_mem t hu, hd⟩

/-! ## State variables -/

theorem declarator_sublist (parens : Nat) (ts : List Token) :
    (declarator parens ts).Sublist ts := by
  induction ts generalizing parens with
  | nil => exact .refl []
  | cons t ts ih =>
      simp only [declarator]
      generalize (if t.isOperator "(" = true then parens + 1
        else if t.isOperator ")" = true then parens - 1 else parens) = depth
      split
      · exact List.nil_sublist _
      · exact (ih depth).cons_cons t

theorem exists_of_stateVariable? {v : StateVariable} (h : stateVariable? ts = some v) :
    ∃ t ∈ ts, t.kind = .identifier ∧ v.name = t.text ∧ v.offset = t.start := by
  unfold stateVariable? at h
  split at h
  · cases h
  · next first rest =>
      split at h
      · simp only at h
        split at h
        · cases h
        · next name hname =>
            obtain rfl := Option.some.inj h
            have hmem := List.mem_of_getLast? hname
            rw [List.mem_filter, beq_iff_eq] at hmem
            exact ⟨name, (declarator_sublist 0 _).subset (List.mem_of_mem_tail hmem.1), hmem.2,
              rfl, rfl⟩
      · cases h

namespace MemberScan

theorem mem_of_mem_statement_step {s : MemberScan} {t u : Token}
    (h : u ∈ ((s.step t).statement).getD []) : u = t ∨ u ∈ s.statement.getD [] := by
  have htaken : ∀ {u}, u ∈ (s.statement.map (t :: ·)).getD [] →
      u = t ∨ u ∈ s.statement.getD [] := by
    intro u hu
    cases hs : s.statement with
    | none => simp [hs] at hu
    | some tokens =>
        rw [hs] at hu
        exact List.mem_cons.mp hu
  unfold step at h
  split at h
  · simp only [openBrace] at h
    split at h
    · cases h
    · exact htaken h
  · split at h
    · simp only [closeBrace] at h
      split at h
      · cases h
      · exact htaken h
    · simp only [statementBehind] at h
      cases hs : s.statement with
      | none =>
          simp only [hs] at h
          split at h
          · exact Or.inl (List.mem_singleton.mp h)
          · cases h
      | some tokens =>
          simp only [hs] at h
          split at h
          · cases h
          · exact List.mem_cons.mp h

theorem exists_of_mem_allDeclared {s : MemberScan} {v : StateVariable} (h : v ∈ s.allDeclared ts) :
    ∃ t, (t ∈ s.statement.getD [] ∨ t ∈ ts) ∧ t.kind = .identifier ∧ v.name = t.text ∧
      v.offset = t.start := by
  induction ts generalizing s with
  | nil => cases h
  | cons t ts ih =>
      rw [allDeclared] at h
      rcases List.mem_append.mp h with h | h
      · rw [Option.mem_toList, declared?] at h
        split at h
        · obtain ⟨tokens, htokens, hv⟩ := Option.bind_eq_some_iff.mp h
          obtain ⟨u, hu, hname⟩ := exists_of_stateVariable? hv
          refine ⟨u, Or.inl ?_, hname⟩
          rw [htokens]
          exact List.mem_reverse.mp hu
        · cases h
      · obtain ⟨u, hu, hname⟩ := ih h
        refine ⟨u, ?_, hname⟩
        rcases hu with hu | hu
        · rcases mem_of_mem_statement_step hu with rfl | hu
          · exact Or.inr List.mem_cons_self
          · exact Or.inl hu
        · exact Or.inr (List.mem_cons_of_mem t hu)

end MemberScan

/-- A state variable has its name from an identifier among the tokens. -/
theorem exists_of_mem_stateVariables {v : StateVariable} (h : v ∈ stateVariables ts) :
    ∃ t ∈ ts, t.kind = .identifier ∧ v.name = t.text ∧ v.offset = t.start := by
  obtain ⟨t, ht, hname⟩ := MemberScan.exists_of_mem_allDeclared h
  rcases ht with ht | ht
  · cases ht
  · exact ⟨t, ht, hname⟩

/-! ## Functions -/

theorem FunctionKind.isWord_of_announced? {t : Token} {kind : FunctionKind}
    (h : announced? t = some kind) : t.isWord = true := by
  have hkeyword := List.find?_some h
  simp only [Token.isKeyword, Bool.and_eq_true, beq_iff_eq] at hkeyword
  simp [Token.isWord, hkeyword.1]

theorem mem_of_mem_bodyFrom {sourceLength first : Nat} {brace t : Token}
    (h : t ∈ (bodyFrom sourceLength first brace ts).tokens) : t ∈ ts := by
  unfold bodyFrom at h
  split at h
  · next group hgroup =>
      rw [← Group.inside_append_of_close? hgroup]
      exact List.mem_append_left _ h
  · exact h

theorem mem_of_mem_bodyAt? {sourceLength index : Nat} {body : FunctionBody}
    (h : bodyAt? sourceLength index ts = some body) {t : Token} (ht : t ∈ body.tokens) :
    t ∈ ts := by
  cases ts with
  | nil => cases h
  | cons u ts =>
      rw [bodyAt?] at h
      split at h
      · obtain rfl := Option.some.inj h
        exact List.mem_cons_of_mem u (mem_of_mem_bodyFrom ht)
      · cases h

/-- The name of a declared function is a word among some tokens, at its place, and its body is made
of these tokens. -/
structure FunctionDeclaration.StandsIn (f : FunctionDeclaration) (ts : List Token) : Prop where
  exists_word : ∃ t ∈ ts, t.isWord = true ∧ f.name = t.text ∧ f.offset = t.start
  body : ∀ t ∈ f.bodyTokens, t ∈ ts

namespace FunctionParts

theorem Announced.isWord {before : List Token} {name : Token} {kind : FunctionKind}
    (h : Announced before name kind) : name.isWord = true := by
  cases h with
  | function _ _ hname =>
      simp only [Token.isName, Bool.or_eq_true, beq_iff_eq] at hname
      rcases hname with hname | hname <;> simp [Token.isWord, hname]
  | special _ hname => exact FunctionKind.isWord_of_announced? hname

theorem Of.standsIn {p : FunctionParts} {f : FunctionDeclaration} {sourceLength index : Nat}
    (h : p.Of sourceLength index f) : f.StandsIn p.tokens where
  exists_word := by
    refine ⟨p.name, ?_, h.announced.isWord, h.name_eq, h.offset_eq⟩
    simp [p.tokens_eq]
  body := by
    intro t ht
    rw [FunctionDeclaration.bodyTokens] at ht
    cases hbody : f.body with
    | none =>
        rw [hbody] at ht
        cases ht
    | some body =>
        rw [hbody] at ht
        have hending := mem_of_mem_bodyAt? (h.body.symm.trans hbody) ht
        simp [p.tokens_eq, FunctionParts.behind, hending]

end FunctionParts

theorem standsIn_of_mem_functionDeclarations {sourceLength index : Nat} {f : FunctionDeclaration}
    (h : f ∈ functionDeclarations sourceLength index ts) : f.StandsIn ts := by
  obtain ⟨p, rfl, hof⟩ := FunctionParts.exists_of_mem_functionDeclarations h
  exact hof.standsIn

/-! ## Writes -/

/-- The root of a location is a word of it. -/
theorem exists_of_accessRoot {root : Option Token} {depth : Nat} {before : List Token} {t : Token}
    (h : accessRoot root depth before = some t) :
    root = some t ∨ t ∈ before ∧ t.isWord = true := by
  fun_induction accessRoot root depth before with
  | case1 => exact Or.inl h
  | case2 root depth u before _ ih =>
      exact (ih h).imp_right fun h => ⟨List.mem_cons_of_mem u h.1, h.2⟩
  | case3 root depth u before _ _ ih =>
      exact (ih h).imp_right fun h => ⟨List.mem_cons_of_mem u h.1, h.2⟩
  | case4 root depth u before _ _ ih =>
      exact (ih h).imp_right fun h => ⟨List.mem_cons_of_mem u h.1, h.2⟩
  | case5 => exact Or.inl h
  | case6 root u _ hword =>
      obtain rfl := Option.some.inj h
      exact Or.inr ⟨List.mem_cons_self, hword⟩
  | case7 => exact Or.inl h
  | case8 root u dot before _ ih =>
      exact (ih h).imp_right fun h => ⟨List.mem_cons_of_mem u h.1, h.2⟩
  | case9 root u dot before _ hword _ ih =>
      rcases ih h with h | h
      · obtain rfl := Option.some.inj h
        exact Or.inr ⟨List.mem_cons_self, hword⟩
      · exact Or.inr ⟨List.mem_cons_of_mem u (List.mem_cons_of_mem dot h.1), h.2⟩
  | case10 root u dot before _ hword _ =>
      obtain rfl := Option.some.inj h
      exact Or.inr ⟨List.mem_cons_self, hword⟩
  | case11 => exact Or.inl h

theorem exists_of_writeTarget? {before behind : List Token} {t u : Token}
    (h : writeTarget? before t behind = some u) : (u ∈ before ∨ u ∈ behind) ∧ u.isWord = true := by
  unfold writeTarget? at h
  split at h
  · obtain ⟨hmem, hword⟩ := (exists_of_accessRoot h).resolve_left (by simp)
    exact ⟨Or.inl hmem, hword⟩
  · split at h
    · obtain ⟨hhead, hword⟩ := Option.filter_eq_some_iff.mp h
      exact ⟨Or.inr (List.mem_of_head? hhead), hword⟩
    · cases h

end SolidityTools

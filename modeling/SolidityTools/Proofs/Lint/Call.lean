import SolidityTools.Lint.Call
import SolidityTools.Proofs.Outline.Redacted

set_option autoImplicit false

/-! # The search for a late write

A body is split at its first external call, and behind the call the first write of a state variable
is looked for. What is found is a word of the body. So it is found at the same place when the texts
of comments and strings are taken away.
-/

namespace SolidityTools.Lint

/-! ## What is found -/

theorem exists_of_firstWrite? {p : Token → Bool} {before ts : List Token} {u : Token}
    (h : firstWrite? p before ts = some u) : (u ∈ before ∨ u ∈ ts) ∧ u.isWord = true := by
  induction ts generalizing before with
  | nil => cases h
  | cons t ts ih =>
      rw [firstWrite?] at h
      split at h
      · next target htarget =>
          obtain rfl := Option.some.inj h
          obtain ⟨hmem, hword⟩ := exists_of_writeTarget? (Option.filter_eq_some_iff.mp htarget).1
          exact ⟨hmem.imp_right (List.mem_cons_of_mem t), hword⟩
      · obtain ⟨hmem, hword⟩ := ih h
        refine ⟨?_, hword⟩
        rcases hmem with hmem | hmem
        · rcases List.mem_cons.mp hmem with rfl | hmem
          · exact Or.inr List.mem_cons_self
          · exact Or.inl hmem
        · exact Or.inr (List.mem_cons_of_mem t hmem)

theorem append_of_behindExternalCall? {before ts passed rest : List Token}
    (h : behindExternalCall? before ts = some (passed, rest)) :
    passed.reverse ++ rest = before.reverse ++ ts := by
  fun_induction behindExternalCall? before ts with
  | case1 before dot member ts _ =>
      obtain ⟨rfl, rfl⟩ := Prod.mk.inj (Option.some.inj h)
      simp
  | case2 before dot member ts _ ih => simpa using ih h
  | case3 => cases h

theorem exists_of_lateWrite? {isState : String → Bool} {body : List Token} {u : Token}
    (h : lateWrite? isState body = some u) : u ∈ body ∧ u.isWord = true := by
  unfold lateWrite? at h
  split at h
  · cases h
  · next before rest hcall =>
      obtain ⟨hmem, hword⟩ := exists_of_firstWrite? h
      refine ⟨?_, hword⟩
      have hbody : body = before.reverse ++ rest := (append_of_behindExternalCall? hcall).symm
      rw [hbody, List.mem_append, List.mem_reverse]
      exact hmem

/-! ## The search in redacted tokens -/

theorem behindExternalCall?_map_redacted (before ts : List Token) :
    behindExternalCall? (before.map Token.redacted) (ts.map Token.redacted)
      = (behindExternalCall? before ts).map fun (passed, rest) =>
          (passed.map Token.redacted, rest.map Token.redacted) := by
  fun_induction behindExternalCall? before ts with
  | case1 before dot member ts hcall =>
      rw [← startsExternalCall_map_redacted] at hcall
      simp only [List.map_cons] at hcall ⊢
      rw [behindExternalCall?, if_pos hcall]
      rfl
  | case2 before dot member ts hcall ih =>
      rw [← startsExternalCall_map_redacted] at hcall
      simp only [List.map_cons] at hcall ih ⊢
      rw [behindExternalCall?, if_neg hcall, ih]
  | case3 ts before hshort =>
      match ts, hshort with
      | [], _ => rfl
      | [t], _ => rfl
      | dot :: member :: ts, hshort => exact (hshort dot member ts rfl).elim

theorem firstWrite?_map_redacted (p : Token → Bool) (before ts : List Token) :
    firstWrite? p (before.map Token.redacted) (ts.map Token.redacted)
      = firstWrite? p before ts := by
  induction ts generalizing before with
  | nil => rfl
  | cons t ts ih =>
      rw [List.map_cons, firstWrite?, writeTarget?_map_redacted, ← List.map_cons, ih, firstWrite?]

theorem lateWrite?_map_redacted (isState : String → Bool) (body : List Token) :
    lateWrite? isState (body.map Token.redacted) = lateWrite? isState body := by
  have hcall := behindExternalCall?_map_redacted [] body
  rw [List.map_nil] at hcall
  rw [lateWrite?, lateWrite?, hcall]
  cases behindExternalCall? [] body with
  | none => rfl
  | some parts => exact firstWrite?_map_redacted _ parts.1 parts.2

end SolidityTools.Lint

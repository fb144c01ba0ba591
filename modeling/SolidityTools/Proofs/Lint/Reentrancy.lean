import SolidityTools.Gas.Breakdown
import SolidityTools.Proofs.Lint.Call
import SolidityTools.Proofs.Token.Reading
import Mathlib.Data.List.Forall2

set_option autoImplicit false

/-! # Which functions write state after a call

The rule on late writes is described by places in a body: some token calls out, some token behind
it writes a state variable. The search stops at the first call and at the first such write behind
it, and it does not look at the name of the called member. Neither can hide anything: what stands
behind some call stands behind the first one, and the name of a member writes nothing
(`writtenAt?_member`). So the rule reports a function exactly if two such places exist, and the
gas estimate, which looks at every token for itself, counts both of them.
-/

namespace SolidityTools

/-! ## Places in a body -/

def CallsAt (body : List Token) (i : Nat) : Prop := startsExternalCall (body.drop i) = true

/-- The root of the location that the token at an index writes. -/
def writtenAt? (body : List Token) (j : Nat) : Option Token :=
  body[j]?.bind fun t => writeTarget? (body.take j).reverse t (body.drop (j + 1))

theorem writtenAt?_append (before : List Token) (t : Token) (ts : List Token) :
    writtenAt? (before.reverse ++ t :: ts) before.length = writeTarget? before t ts := by
  have hlength : before.length = before.reverse.length := before.length_reverse.symm
  rw [writtenAt?, hlength, List.getElem?_append_right (Nat.le_refl _), Nat.sub_self,
    List.getElem?_cons_zero, Option.bind_some, List.take_left, List.reverse_reverse,
    ← List.drop_drop, List.drop_left, List.drop_succ_cons, List.drop_zero]

theorem lt_length_of_writtenAt? {body : List Token} {j : Nat} {u : Token}
    (h : writtenAt? body j = some u) : j < body.length := by
  obtain ⟨t, ht, -⟩ := Option.bind_eq_some_iff.mp h
  exact (List.getElem?_eq_some_iff.mp ht).1

/-- A call consists of a dot and the name of a member. -/
theorem CallsAt.exists_tokens {body : List Token} {i : Nat} (h : CallsAt body i) :
    ∃ dot member rest, body.drop i = dot :: member :: rest ∧ dot.isOperator "." = true ∧
      member.isWord = true ∧ member.text ∈ externalMembers := by
  unfold CallsAt at h
  generalize body.drop i = ts at h ⊢
  unfold startsExternalCall at h
  split at h
  · next dot member rest =>
      simp only [Bool.and_eq_true, List.contains_eq_mem, decide_eq_true_eq] at h
      exact ⟨dot, member, rest, rfl, h.1.1, h.1.2, h.2⟩
  · cases h

/-- The name of a called member writes nothing. -/
theorem isWrite_eq_false_of_member {t : Token} (hword : t.isWord = true)
    (htext : t.text ∈ externalMembers) : t.isWrite = false := by
  have hkind : t.kind ≠ .operator := Token.kind_ne_operator_of_isWord hword
  have hdelete : t.text ≠ "delete" := by
    intro heq
    rw [heq] at htext
    revert htext
    decide
  simp [Token.isWrite, Token.isAssignment, Token.isStepOperator, Token.isOperatorIn,
    Token.isKeyword, hkind, hdelete]

theorem writeTarget?_eq_none {before behind : List Token} {t : Token} (h : t.isWrite = false) :
    writeTarget? before t behind = none := by
  have h' := h
  simp only [Token.isWrite, Bool.or_eq_false_iff] at h'
  rw [writeTarget?, h'.1.1, h'.1.2, h]
  rfl

theorem writtenAt?_member {body : List Token} {i : Nat} (h : CallsAt body i) :
    writtenAt? body (i + 1) = none := by
  obtain ⟨dot, member, rest, hdrop, -, hword, htext⟩ := h.exists_tokens
  have hmember : body[i + 1]? = some member := by
    rw [← List.getElem?_drop, hdrop]
    rfl
  rw [writtenAt?, hmember, Option.bind_some,
    writeTarget?_eq_none (isWrite_eq_false_of_member hword htext)]

/-! ## State -/

/-- The outline declares a variable of this name that is neither constant nor immutable. -/
def Outline.DeclaresState (o : Outline) (name : String) : Prop :=
  ∃ v ∈ o.stateVariables, v.name = name ∧ v.isConstant = false ∧ v.isImmutable = false

theorem Outline.isMutableState_iff (o : Outline) (name : String) :
    o.isMutableState name = true ↔ o.DeclaresState name := by
  simp only [isMutableState, mutableVariables, DeclaresState, List.contains_eq_mem,
    decide_eq_true_eq, List.mem_map, List.mem_filter, Bool.and_eq_true, Bool.not_eq_true']
  exact exists_congr fun v => by tauto

namespace Lint

/-! ## The search -/

theorem exists_of_behindExternalCall? {before ts passed rest : List Token}
    (h : behindExternalCall? before ts = some (passed, rest)) :
    ∃ i, CallsAt ts i ∧ (∀ k < i, ¬CallsAt ts k) ∧ passed.length = before.length + i + 2 := by
  fun_induction behindExternalCall? before ts with
  | case1 before dot member ts hcall =>
      obtain ⟨rfl, -⟩ := Prod.mk.inj (Option.some.inj h)
      exact ⟨0, hcall, by simp, by simp⟩
  | case2 before dot member ts hcall ih =>
      obtain ⟨i, hi, hfirst, hlength⟩ := ih h
      refine ⟨i + 1, hi, fun k hk => ?_, by rw [hlength, List.length_cons]; omega⟩
      cases k with
      | zero => exact hcall
      | succ k => exact hfirst k (by omega)
  | case3 => cases h

theorem not_callsAt_of_behindExternalCall? {before ts : List Token}
    (h : behindExternalCall? before ts = none) (i : Nat) : ¬CallsAt ts i := by
  fun_induction behindExternalCall? before ts generalizing i with
  | case1 => cases h
  | case2 before dot member ts hcall ih =>
      cases i with
      | zero => exact hcall
      | succ i => exact ih h i
  | case3 ts before hshort =>
      -- a call takes two tokens
      intro hcall
      obtain ⟨dot, member, rest, hdrop, -⟩ := hcall.exists_tokens
      have hlength : 2 ≤ ts.length := by
        have := congrArg List.length hdrop
        simp only [List.length_drop, List.length_cons] at this
        omega
      cases ts with
      | nil => exact absurd hlength (by simp)
      | cons first ts =>
          cases ts with
          | nil => exact absurd hlength (by simp)
          | cons second ts => exact hshort first second ts rfl

/-- The search for a write goes over the indices behind `before`. -/
theorem exists_of_firstWrite?_eq_some {p : Token → Bool} {before ts : List Token} {u : Token}
    (h : firstWrite? p before ts = some u) :
    ∃ j, before.length ≤ j ∧ writtenAt? (before.reverse ++ ts) j = some u ∧ p u = true ∧
      ∀ k, before.length ≤ k → k < j → ∀ v, writtenAt? (before.reverse ++ ts) k = some v →
        p v = false := by
  induction ts generalizing before with
  | nil => cases h
  | cons t ts ih =>
      have hhere := writtenAt?_append before t ts
      rw [firstWrite?] at h
      split at h
      · next target htarget =>
          obtain rfl := Option.some.inj h
          obtain ⟨hwritten, hp⟩ := Option.filter_eq_some_iff.mp htarget
          exact ⟨before.length, Nat.le_refl _, hhere.trans hwritten, hp, fun k hle hlt => by omega⟩
      · next hnone =>
          obtain ⟨j, hle, hwritten, hp, hfirst⟩ := ih h
          rw [List.reverse_cons, List.append_assoc, List.singleton_append] at hwritten hfirst
          rw [List.length_cons] at hle
          refine ⟨j, by omega, hwritten, hp, fun k hk hkj v hv => ?_⟩
          rcases Nat.eq_or_lt_of_le hk with rfl | hk
          · rw [hhere] at hv
            rw [hv] at hnone
            simpa [Option.filter] using hnone
          · exact hfirst k hk hkj v hv

theorem eq_false_of_firstWrite?_eq_none {p : Token → Bool} {before ts : List Token}
    (h : firstWrite? p before ts = none) {j : Nat} (hj : before.length ≤ j) {v : Token}
    (hv : writtenAt? (before.reverse ++ ts) j = some v) : p v = false := by
  induction ts generalizing before with
  | nil =>
      have hlt := lt_length_of_writtenAt? hv
      rw [List.append_nil, List.length_reverse] at hlt
      omega
  | cons t ts ih =>
      rw [firstWrite?] at h
      split at h
      · cases h
      · next hnone =>
          rcases Nat.eq_or_lt_of_le hj with rfl | hj
          · rw [writtenAt?_append] at hv
            rw [hv] at hnone
            simpa [Option.filter] using hnone
          · refine ih h hj ?_
            rwa [List.reverse_cons, List.append_assoc, List.singleton_append]

/-- The first write of state behind the first call of a body, and its root. -/
structure FirstLateWrite (isState : String → Bool) (body : List Token) (i j : Nat)
    (target : Token) : Prop where
  calls : CallsAt body i
  first_call : ∀ k < i, ¬CallsAt body k
  behind : i < j
  writes : writtenAt? body j = some target
  state : isState target.text = true
  first_write : ∀ k, i < k → k < j → ∀ v, writtenAt? body k = some v → isState v.text = false

theorem exists_firstLateWrite {isState : String → Bool} {body : List Token} {target : Token}
    (h : lateWrite? isState body = some target) :
    ∃ i j, FirstLateWrite isState body i j target := by
  unfold lateWrite? at h
  split at h
  · cases h
  · next passed rest hcall =>
      obtain ⟨i, hi, hfirst, hlength⟩ := exists_of_behindExternalCall? hcall
      obtain ⟨j, hle, hwritten, hstate, hearlier⟩ := exists_of_firstWrite?_eq_some h
      rw [append_of_behindExternalCall? hcall, List.reverse_nil, List.nil_append]
        at hwritten hearlier
      rw [hlength, List.length_nil] at hle hearlier
      refine ⟨i, j, hi, hfirst, by omega, hwritten, hstate, fun k hk hkj v hv => ?_⟩
      rcases Nat.eq_or_lt_of_le (show i + 1 ≤ k from hk) with rfl | hk
      · rw [writtenAt?_member hi] at hv
        cases hv
      · exact hearlier k (by omega) hkj v hv

theorem eq_false_of_lateWrite?_eq_none {isState : String → Bool} {body : List Token}
    (h : lateWrite? isState body = none) {i j : Nat} (hcall : CallsAt body i) (hij : i < j)
    {v : Token} (hv : writtenAt? body j = some v) : isState v.text = false := by
  unfold lateWrite? at h
  split at h
  · next hnone => exact absurd hcall (not_callsAt_of_behindExternalCall? hnone i)
  · next passed rest hfound =>
      -- what stands behind this call stands behind the first one
      obtain ⟨first, hfirst, hearlier, hlength⟩ := exists_of_behindExternalCall? hfound
      have hle : first ≤ i := by
        by_contra hlt
        exact hearlier i (by omega) hcall
      have hbody : body = passed.reverse ++ rest := (append_of_behindExternalCall? hfound).symm
      have hne : j ≠ first + 1 := by
        rintro rfl
        rw [writtenAt?_member hfirst] at hv
        cases hv
      rw [List.length_nil] at hlength
      rw [hbody] at hv
      exact eq_false_of_firstWrite?_eq_none h (by omega) hv

end Lint

/-! ## The counts of the estimate -/

namespace Gas

variable {isState : String → Bool}

theorem externalCalls_pos {body : List Token} {i : Nat} (h : CallsAt body i)
    (before : List Token) : 1 ≤ (countsFrom isState before body).externalCalls := by
  induction body generalizing before i with
  | nil =>
      rw [CallsAt, List.drop_nil] at h
      cases h
  | cons t ts ih =>
      show 1 ≤ _ + (flowCounts t ts).externalCalls
        + (countsFrom isState (t :: before) ts).externalCalls
      cases i with
      | zero =>
          obtain ⟨dot, member, rest, hdrop, hdot, -⟩ := h.exists_tokens
          rw [List.drop_zero] at hdrop
          obtain ⟨rfl, -⟩ := List.cons.inj hdrop
          -- a dot is none of the keywords that are looked for first
          have hkeyword : ∀ text, t.isKeyword text = false := by
            intro text
            simp [Token.isKeyword, Token.kind_of_isOperator hdot]
          have hcounts : (flowCounts t ts).externalCalls = 1 := by
            have hcall : startsExternalCall (t :: ts) = true := h
            simp [flowCounts, hkeyword, hcall]
          omega
      | succ i =>
          have := ih h (t :: before)
          omega

/-- Every write of state is counted. -/
theorem storageWrites_pos {before ts : List Token} {j : Nat} {target : Token}
    (h : writtenAt? (before.reverse ++ ts) j = some target) (hj : before.length ≤ j)
    (hstate : isState target.text = true) : 1 ≤ (countsFrom isState before ts).storageWrites := by
  induction ts generalizing before with
  | nil =>
      have hlt := lt_length_of_writtenAt? h
      rw [List.append_nil, List.length_reverse] at hlt
      omega
  | cons t ts ih =>
      show 1 ≤ (writeCounts isState before t ts).storageWrites + (flowCounts t ts).storageWrites
        + (countsFrom isState (t :: before) ts).storageWrites
      rcases Nat.eq_or_lt_of_le hj with rfl | hj
      · rw [writtenAt?_append] at h
        have hwrite : t.isWrite = true := by
          by_contra hnot
          rw [writeTarget?_eq_none (by simpa using hnot)] at h
          cases h
        have hcounts : (writeCounts isState before t ts).storageWrites = 1 := by
          simp [writeCounts, hwrite, h, hstate]
        omega
      · have hbehind : writtenAt? ((t :: before).reverse ++ ts) j = some target := by
          rwa [List.reverse_cons, List.append_assoc, List.singleton_append]
        have := ih hbehind hj
        omega

end Gas

namespace Lint

/-! ## The rule -/

/-- A function with a body that is not read-only calls out and writes state at some place behind. -/
def Reentrant (o : Outline) (f : FunctionDeclaration) : Prop :=
  f.body.isSome = true ∧ f.mutability.isReadOnly = false ∧
    ∃ i j target, CallsAt f.bodyTokens i ∧ i < j ∧ writtenAt? f.bodyTokens j = some target ∧
      o.DeclaresState target.text

theorem reentrant_iff (o : Outline) (f : FunctionDeclaration) :
    Reentrant o f ↔ f.mutability.isReadOnly = false ∧
      (lateWrite? o.isMutableState f.bodyTokens).isSome = true := by
  constructor
  · rintro ⟨-, hmutability, i, j, target, hcall, hij, hwritten, hstate⟩
    refine ⟨hmutability, Option.isSome_iff_ne_none.mpr fun hnone => ?_⟩
    have hfalse := eq_false_of_lateWrite?_eq_none hnone hcall hij hwritten
    rw [← o.isMutableState_iff, hfalse] at hstate
    cases hstate
  · rintro ⟨hmutability, hsome⟩
    obtain ⟨target, htarget⟩ := Option.isSome_iff_exists.mp hsome
    obtain ⟨i, j, hlate⟩ := exists_firstLateWrite htarget
    refine ⟨?_, hmutability, i, j, target, hlate.calls, hlate.behind, hlate.writes,
      (o.isMutableState_iff _).mp hlate.state⟩
    -- a function without a body has no tokens to call with
    cases hbody : f.body with
    | some body => rfl
    | none =>
        have hnil : f.bodyTokens = [] := by rw [FunctionDeclaration.bodyTokens, hbody]; rfl
        have hcall := hlate.calls
        rw [CallsAt, hnil, List.drop_nil] at hcall
        cases hcall

instance (o : Outline) (f : FunctionDeclaration) : Decidable (Reentrant o f) :=
  decidable_of_iff _ (reentrant_iff o f).symm

def lateWriteFinding (f : FunctionDeclaration) (target : Token) : Finding :=
  ⟨target.start, "State variable `" ++ target.text ++
    "` is written after an external call in `" ++ f.name ++
    "`; update state before calling out"⟩

/-- The finding on a function: it points at the root of the first write of state behind the first
call, and the gas estimate counts the call and the write. -/
structure Reports (o : Outline) (f : FunctionDeclaration) (finding : Finding) : Prop where
  points : ∃ i j target, FirstLateWrite o.isMutableState f.bodyTokens i j target ∧
    finding = lateWriteFinding f target
  calls : 1 ≤ (Gas.bodyCounts o.isMutableState f.bodyTokens).externalCalls
  writes : 1 ≤ (Gas.bodyCounts o.isMutableState f.bodyTokens).storageWrites

theorem reports_of_lateWrite? {o : Outline} {f : FunctionDeclaration} {target : Token}
    (h : lateWrite? o.isMutableState f.bodyTokens = some target) :
    Reports o f (lateWriteFinding f target) := by
  obtain ⟨i, j, hfirst⟩ := exists_firstLateWrite h
  have hwritten : writtenAt? ([].reverse ++ f.bodyTokens) j = some target := hfirst.writes
  exact ⟨⟨i, j, target, hfirst, rfl⟩, Gas.externalCalls_pos hfirst.calls [],
    Gas.storageWrites_pos hwritten (Nat.zero_le j) hfirst.state⟩

theorem lateWrites_report (o : Outline) (fs : List FunctionDeclaration) :
    List.Forall₂ (Reports o) (fs.filter fun f => decide (Reentrant o f))
      ((fs.filter fun f => !f.mutability.isReadOnly).filterMap fun f =>
        (lateWrite? o.isMutableState f.bodyTokens).map (lateWriteFinding f)) := by
  induction fs with
  | nil => exact .nil
  | cons f fs ih =>
      have hiff := reentrant_iff o f
      by_cases hreadOnly : f.mutability.isReadOnly = true
      · rw [hreadOnly] at hiff
        rw [List.filter_cons_of_neg (by simp [hiff]), List.filter_cons_of_neg (by simp [hreadOnly])]
        exact ih
      · rw [Bool.not_eq_true] at hreadOnly
        rw [List.filter_cons_of_pos (l := fs) (p := fun f => !f.mutability.isReadOnly)
          (by simp [hreadOnly])]
        cases hlate : lateWrite? o.isMutableState f.bodyTokens with
        | none =>
            rw [List.filter_cons_of_neg (by simp [hiff, hlate]),
              List.filterMap_cons_none (by rw [hlate]; rfl)]
            exact ih
        | some target =>
            rw [List.filter_cons_of_pos (by simp [hiff, hreadOnly, hlate]),
              List.filterMap_cons_some (by rw [hlate]; rfl)]
            exact .cons (reports_of_lateWrite? hlate) ih

/-- **The rule on late writes is exact.** Its findings are, one for one and in the order of the
file, those of the functions that write state at some place behind a call. -/
theorem reentrantWrites_reports (settings : LintSettings) (source : String) :
    List.Forall₂ (Reports (Outline.ofSource source))
      ((Outline.ofSource source).functions.filter fun f =>
        decide (Reentrant (Outline.ofSource source) f))
      (reentrantWrites (.ofSource settings source)) :=
  lateWrites_report (Outline.ofSource source) (Outline.ofSource source).functions

end Lint

end SolidityTools

import SolidityTools.Proofs.Token.Group
import SolidityTools.Proofs.Token.Reading

set_option autoImplicit false

/-! # Balanced brackets

The searches of the outline look at one sort of bracket each. Where all three sorts are balanced
together, each of them finds the bracket that was meant. `Balanced` says so with the brackets that
are open at a place, innermost first, and lets every token depend on them: a brace may be allowed in
parentheses only.
-/

namespace SolidityTools

inductive Bracket where
  | round
  | square
  | curly
deriving DecidableEq, Repr

namespace Bracket

/-- The operator that opens a group. -/
def opener : Bracket → String
  | .round => "("
  | .square => "["
  | .curly => "\x7b"

/-- The operator that closes a group. -/
def closer : Bracket → String
  | .round => ")"
  | .square => "]"
  | .curly => "\x7d"

def all : List Bracket := [.round, .square, .curly]

theorem mem_all (b : Bracket) : b ∈ all := by cases b <;> decide

def opened? (t : Token) : Option Bracket := all.find? fun b => t.isOperator b.opener

def closed? (t : Token) : Option Bracket := all.find? fun b => t.isOperator b.closer

variable {t : Token} {b : Bracket}

theorem opened?_eq_none_iff : opened? t = none ↔ ∀ b : Bracket, t.isOperator b.opener = false := by
  simp [opened?, mem_all]

theorem closed?_eq_none_iff : closed? t = none ↔ ∀ b : Bracket, t.isOperator b.closer = false := by
  simp [closed?, mem_all]

theorem isOperator_of_opened? (h : opened? t = some b) : t.isOperator b.opener = true := by
  simpa using List.find?_some h

theorem isOperator_of_closed? (h : closed? t = some b) : t.isOperator b.closer = true := by
  simpa using List.find?_some h

/-- An opening bracket opens nothing else and closes nothing. -/
theorem opened?_of_isOperator (h : t.isOperator b.opener = true) :
    opened? t = some b ∧ closed? t = none := by
  rw [Token.isOperator_iff] at h
  simp only [opened?, closed?, Token.isOperator_eq_decide, h]
  cases b <;> decide

/-- A closing bracket closes nothing else and opens nothing. -/
theorem closed?_of_isOperator (h : t.isOperator b.closer = true) :
    closed? t = some b ∧ opened? t = none := by
  rw [Token.isOperator_iff] at h
  simp only [opened?, closed?, Token.isOperator_eq_decide, h]
  cases b <;> decide

/-! ## Open brackets -/

/-- The brackets that are open behind a token, unless it closes one that is not the innermost. -/
def behind? (stack : List Bracket) (t : Token) : Option (List Bracket) :=
  match opened? t, closed? t, stack with
  | some b, _, stack => some (b :: stack)
  | none, none, stack => some stack
  | none, some b, inner :: stack => if inner = b then some stack else none
  | none, some _, [] => none

variable {stack behind : List Bracket}

theorem behind?_plain (hopened : opened? t = none) (hclosed : closed? t = none)
    (stack : List Bracket) : behind? stack t = some stack := by
  simp [behind?, hopened, hclosed]

theorem behind?_opening (ht : t.isOperator b.opener = true) (stack : List Bracket) :
    behind? stack t = some (b :: stack) := by
  simp [behind?, (opened?_of_isOperator ht).1]

theorem behind?_closing (ht : t.isOperator b.closer = true) (stack : List Bracket) :
    behind? (b :: stack) t = some stack := by
  obtain ⟨hclosed, hopened⟩ := closed?_of_isOperator ht
  simp [behind?, hclosed, hopened]

/-- A token is no bracket, or opens one, or closes the innermost. -/
theorem cases_of_behind? (h : behind? stack t = some behind) :
    (opened? t = none ∧ closed? t = none ∧ behind = stack) ∨
      (∃ b : Bracket, t.isOperator b.opener = true ∧ behind = b :: stack) ∨
      ∃ b : Bracket, t.isOperator b.closer = true ∧ stack = b :: behind := by
  unfold behind? at h
  split at h
  · next closed stack b hopened =>
      obtain rfl := Option.some.inj h
      exact Or.inr (Or.inl ⟨b, isOperator_of_opened? hopened, rfl⟩)
  · next stack hopened hclosed =>
      obtain rfl := Option.some.inj h
      exact Or.inl ⟨hopened, hclosed, rfl⟩
  · next b inner stack hopened hclosed =>
      split at h
      · next heq =>
          obtain rfl := Option.some.inj h
          exact Or.inr (Or.inr ⟨b, isOperator_of_closed? hclosed, by rw [heq]⟩)
      · cases h
  · cases h

theorem eq_of_behind?_opening (h : behind? stack t = some behind)
    (ht : t.isOperator b.opener = true) : behind = b :: stack := by
  rw [behind?_opening ht, Option.some.injEq] at h
  exact h.symm

theorem eq_of_behind?_closing (h : behind? stack t = some behind)
    (ht : t.isOperator b.closer = true) : stack = b :: behind := by
  obtain ⟨hclosed, hopened⟩ := closed?_of_isOperator ht
  rcases cases_of_behind? h with ⟨-, hnone, -⟩ | ⟨b', ht', -⟩ | ⟨b', ht', hstack⟩
  · rw [hclosed] at hnone
    cases hnone
  · rw [(opened?_of_isOperator ht').1] at hopened
    cases hopened
  · obtain rfl := Option.some.inj (hclosed.symm.trans (closed?_of_isOperator ht').1)
    exact hstack

/-- Brackets further out stay open. -/
theorem behind?_append (h : behind? stack t = some behind) (outer : List Bracket) :
    behind? (stack ++ outer) t = some (behind ++ outer) := by
  rcases cases_of_behind? h with ⟨hopened, hclosed, rfl⟩ | ⟨b, ht, rfl⟩ | ⟨b, ht, rfl⟩
  · exact behind?_plain hopened hclosed _
  · exact behind?_opening ht _
  · exact behind?_closing ht _

theorem count_behind? (h : behind? stack t = some behind) (b : Bracket) (n : Nat) :
    (if t.isOperator b.opener = true then n + stack.count b + 1
      else if t.isOperator b.closer = true then n + stack.count b - 1
      else n + stack.count b) = n + behind.count b := by
  rcases cases_of_behind? h with ⟨hopened, hclosed, rfl⟩ | ⟨b', ht, rfl⟩ | ⟨b', ht, rfl⟩
  · simp [opened?_eq_none_iff.mp hopened, closed?_eq_none_iff.mp hclosed]
  · obtain ⟨hopened, hclosed⟩ := opened?_of_isOperator ht
    by_cases hb : b' = b
    · subst hb
      rw [if_pos ht, List.count_cons_self, Nat.add_assoc]
    · have hopen : ¬t.isOperator b.opener = true := fun hopen =>
        hb (Option.some.inj (hopened.symm.trans (opened?_of_isOperator hopen).1))
      simp [hopen, closed?_eq_none_iff.mp hclosed, List.count_cons_of_ne hb]
  · obtain ⟨hclosed, hopened⟩ := closed?_of_isOperator ht
    by_cases hb : b' = b
    · subst hb
      rw [if_neg (by simp [opened?_eq_none_iff.mp hopened]), if_pos ht, List.count_cons_self]
      omega
    · have hclose : ¬t.isOperator b.closer = true := fun hclose =>
        hb (Option.some.inj (hclosed.symm.trans (closed?_of_isOperator hclose).1))
      simp [hclose, opened?_eq_none_iff.mp hopened, List.count_cons_of_ne hb]

end Bracket

/-- Tokens whose brackets are balanced, once those of the stack are closed that are open in front of
them. Every token is allowed by `ok`, given the brackets that are open there. -/
inductive Balanced (ok : List Bracket → Token → Bool) : List Bracket → List Token → Prop
  | done : Balanced ok [] []
  | cons {stack behind : List Bracket} {t : Token} {ts : List Token}
      (hbehind : Bracket.behind? stack t = some behind) (hok : ok stack t = true)
      (h : Balanced ok behind ts) : Balanced ok stack (t :: ts)

namespace Balanced

variable {ok ok' : List Bracket → Token → Bool} {stack : List Bracket} {ts : List Token}

/-! ## Deciding balance -/

def check (ok : List Bracket → Token → Bool) : List Bracket → List Token → Bool
  | stack, [] => stack.isEmpty
  | stack, t :: ts => ok stack t && (Bracket.behind? stack t).any fun behind => check ok behind ts

theorem check_eq_true_iff : check ok stack ts = true ↔ Balanced ok stack ts := by
  constructor
  · intro h
    induction ts generalizing stack with
    | nil =>
        obtain rfl := List.isEmpty_iff.mp h
        exact .done
    | cons t ts ih =>
        simp only [check, Bool.and_eq_true, Option.any_eq_true] at h
        obtain ⟨hok, behind, hbehind, hcheck⟩ := h
        exact .cons hbehind hok (ih hcheck)
  · intro h
    induction h with
    | done => rfl
    | cons hbehind hok h ih => simp [check, hbehind, hok, ih]

instance (ok : List Bracket → Token → Bool) (stack : List Bracket) (ts : List Token) :
    Decidable (Balanced ok stack ts) :=
  decidable_of_iff _ check_eq_true_iff

/-! ## Putting balanced tokens together -/

/-- Balanced tokens in front of others, in brackets that are open around both. -/
theorem append_of_imp {outer : List Bracket} {us : List Token} (h : Balanced ok stack ts)
    (hok : ∀ stack t, ok stack t = true → ok' (stack ++ outer) t = true)
    (hus : Balanced ok' outer us) : Balanced ok' (stack ++ outer) (ts ++ us) := by
  induction h with
  | done => exact hus
  | cons hbehind ht h ih => exact .cons (Bracket.behind?_append hbehind outer) (hok _ _ ht) ih

theorem append {us : List Token} (h : Balanced ok stack ts) (hus : Balanced ok [] us) :
    Balanced ok stack (ts ++ us) := by
  have happend := h.append_of_imp (fun stack t ht => by rwa [List.append_nil]) hus
  rwa [List.append_nil] at happend

theorem mono (h : Balanced ok stack ts) (hok : ∀ stack t, ok stack t = true → ok' stack t = true) :
    Balanced ok' stack ts := by
  have happend := h.append_of_imp (fun stack t ht => by simpa using hok stack t ht) .done
  rwa [List.append_nil, List.append_nil] at happend

theorem group {b : Bracket} {opener closer : Token} (hopener : opener.isOperator b.opener = true)
    (hcloser : closer.isOperator b.closer = true) (hok : ok' [] opener = true)
    (hok' : ok' [b] closer = true) (h : Balanced ok [] ts)
    (himp : ∀ stack t, ok stack t = true → ok' (stack ++ [b]) t = true) :
    Balanced ok' [] (opener :: (ts ++ [closer])) :=
  .cons (Bracket.behind?_opening hopener []) hok
    (h.append_of_imp himp (.cons (Bracket.behind?_closing hcloser []) hok' .done))

theorem exists_ok_of_mem (h : Balanced ok stack ts) {t : Token} (ht : t ∈ ts) :
    ∃ stack, ok stack t = true := by
  induction h with
  | done => cases ht
  | cons _ hok h ih =>
      rcases List.mem_cons.mp ht with rfl | ht
      · exact ⟨_, hok⟩
      · exact ih ht

/-! ## Searching for one sort of bracket -/

/-- **The search for a closing bracket passes balanced tokens.** -/
theorem close?_eq (h : Balanced ok stack ts) (b : Bracket) {last : Token}
    (hlast : last.isOperator b.closer = true) (rest : List Token) :
    Group.close? b.opener b.closer (stack.count b) (ts ++ last :: rest)
      = some ⟨ts, last, rest⟩ := by
  induction h with
  | done =>
      have hopen := Bracket.opened?_eq_none_iff.mp (Bracket.closed?_of_isOperator hlast).2 b
      exact Group.close?_closer_zero (by simp [hopen]) hlast rest
  | @cons stack behind t ts hbehind hok h ih =>
      have hcount := Bracket.count_behind? hbehind b 0
      simp only [Nat.zero_add] at hcount
      rw [List.cons_append]
      by_cases hopen : t.isOperator b.opener = true
      · rw [if_pos hopen] at hcount
        rw [Group.close?_opener hopen, hcount, ih]
        rfl
      · by_cases hclose : t.isOperator b.closer = true
        · -- the bracket that is closed is the innermost one
          rw [Bracket.eq_of_behind?_closing hbehind hclose, List.count_cons_self,
            Group.close?_closer_succ hopen hclose, ih]
          rfl
        · rw [if_neg hopen, if_neg hclose] at hcount
          rw [Group.close?_other hopen hclose, hcount, ih]
          rfl

end Balanced

end SolidityTools

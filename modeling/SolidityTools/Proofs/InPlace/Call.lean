import SolidityTools.Proofs.InPlace.Group
import SolidityTools.Proofs.InPlace.Write
import SolidityTools.Proofs.Lint.Call

set_option autoImplicit false

/-! # Calls to other contracts in place

A low-level call is judged by the text of its statement in front of it. The statement begins behind
the last delimiter before the call, and the text that counts begins behind the guards in it. The end
of a guard is searched in the whole text; if it is behind the call, the call is checked, and the
text is not cut there. So the ends that are used to cut are ends of beginnings of the statement.

A late write is searched from the index two behind an external call, which is at most the number of
tokens, since the call takes two of them.
-/

namespace SolidityTools

open Text Lint

namespace InPlace

/-! ## The statement of a call -/

/-- The byte offset of the last character that satisfies `p` in a text that stands at an offset. -/
def lastOffset? (p : Char → Bool) (offset : Nat) : List Char → Option Nat
  | [] => none
  | c :: cs =>
    match lastOffset? p (offset + c.utf8Size) cs with
    | some last => some last
    | none => if p c then some offset else none

/-- The byte offset at which the statement of a call begins. -/
def statementStart? (masked : List Char) (call : Nat) : Option Nat := do
  let before ← slice? masked 0 call
  match lastOffset? endsStatement 0 before with
  | some last => some (last + 1)
  | none => some 0

theorem lastOffset?_append {p : Char → Bool} {bs : List Char} (hbs : ∀ c ∈ bs, ¬p c = true)
    (offset : Nat) (as : List Char) :
    lastOffset? p offset (as ++ bs) = lastOffset? p offset as := by
  have hnone : ∀ n, lastOffset? p n bs = none := by
    intro n
    induction bs generalizing n with
    | nil => rfl
    | cons c bs ih =>
        rw [lastOffset?, ih (fun d hd => hbs d (List.mem_cons_of_mem c hd))]
        exact if_neg (hbs c List.mem_cons_self)
  induction as generalizing offset with
  | nil => exact hnone offset
  | cons c as ih => rw [List.cons_append, lastOffset?, lastOffset?, ih]

theorem lastOffset?_concat {p : Char → Bool} {c : Char} (hc : p c = true) (offset : Nat)
    (as : List Char) : lastOffset? p offset (as ++ [c]) = some (offset + byteLength as) := by
  induction as generalizing offset with
  | nil => exact if_pos hc
  | cons d as ih =>
      rw [List.cons_append, lastOffset?, ih, byteLength_cons, Nat.add_assoc]

/-- What stands in front of a statement ends with a delimiter, or nothing does. -/
theorem statementStart?_append {front statement : List Char}
    (hfront : front = [] ∨ ∃ as d, front = as ++ [d] ∧ endsStatement d = true)
    (hstatement : ∀ c ∈ statement, ¬endsStatement c = true) (beyond : List Char) :
    statementStart? (front ++ (statement ++ beyond)) (byteLength front + byteLength statement)
      = some (byteLength front) := by
  have hslice := slice?_append [] (front ++ statement) beyond
  rw [List.nil_append, List.append_assoc, byteLength_nil, Nat.zero_add, byteLength_append] at hslice
  rw [statementStart?, hslice]
  simp only [Option.bind_eq_bind, Option.bind_some, lastOffset?_append hstatement]
  rcases hfront with rfl | ⟨as, d, rfl, hd⟩
  · rfl
  · have hsize : d.utf8Size = 1 := by
      simp only [endsStatement, Bool.or_eq_true, beq_iff_eq] at hd
      rcases hd with (rfl | rfl) | rfl <;> decide
    rw [lastOffset?_concat hd, byteLength_append, byteLength_cons, byteLength_nil, hsize]
    simp

/-! ## Beginnings of a text -/

theorem byteLength_take_le {i j : Nat} (h : i ≤ j) (cs : List Char) :
    byteLength (cs.take i) ≤ byteLength (cs.take j) := by
  have hsplit : cs.take j = cs.take i ++ (cs.drop i).take (j - i) := by
    rw [← List.take_add, Nat.add_sub_cancel' h]
  rw [hsplit, byteLength_append]
  exact Nat.le_add_right _ _

/-- The longer of two beginnings has more bytes. -/
theorem byteLength_take_lt_iff {i j : Nat} {cs : List Char} (hi : i ≤ cs.length)
    (hj : j ≤ cs.length) : byteLength (cs.take i) < byteLength (cs.take j) ↔ i < j := by
  constructor
  · intro h
    by_contra hle
    exact absurd (byteLength_take_le (Nat.le_of_not_lt hle) cs) (Nat.not_le_of_lt h)
  · intro h
    have hsplit : cs.take j = cs.take i ++ (cs.drop i).take (j - i) := by
      rw [← List.take_add, Nat.add_sub_cancel' (Nat.le_of_lt h)]
    have hlength : ((cs.drop i).take (j - i)).length = j - i := by
      rw [List.length_take, List.length_drop]
      omega
    have hbytes := length_le_byteLength ((cs.drop i).take (j - i))
    rw [hsplit, byteLength_append]
    omega

theorem byteLength_take_max (i j : Nat) (cs : List Char) :
    max (byteLength (cs.take i)) (byteLength (cs.take j)) = byteLength (cs.take (max i j)) := by
  rcases Nat.le_total i j with h | h
  · rw [Nat.max_eq_right h, Nat.max_eq_right (byteLength_take_le h cs)]
  · rw [Nat.max_eq_left h, Nat.max_eq_left (byteLength_take_le h cs)]

/-! ## Guards -/

/-- The byte offset behind the groups of some guards, or nothing if one of the groups reaches over
the call. The guards are those of a statement that begins at `start`. -/
def afterGuards? (masked : List Char) (start call behind : Nat) :
    List (Hit String) → Option (Option Nat)
  | [] => some (some behind)
  | guard :: guards => do
    let paren ← predecessor? (start + (guard.start + byteLength guard.phrase))
    let close := groupEnd masked paren
    if call < close then some none
    else afterGuards? masked start call (max behind close) guards

def isChecked? (masked : List Char) (call : Nat) : Option Bool := do
  let start ← statementStart? masked call
  let statement ← slice? masked start call
  let behind ← afterGuards? masked start call start (Pattern.condition.hits statement)
  match behind with
  | none => some true
  | some behind => do
    let lead ← slice? masked (min behind call) call
    some (lead.contains '=' || lead.contains '!' || Pattern.startsReturn lead)

section Guards

variable {front statement beyond : List Char}

theorem groupEnd_guard {guard : Hit String} (h : guard ∈ Pattern.condition.hits statement) :
    ∃ paren, predecessor? (byteLength front + (guard.start + byteLength guard.phrase)) = some paren
      ∧ guardReach beyond guard ≤ (statement ++ beyond).length
      ∧ groupEnd (front ++ (statement ++ beyond)) paren
          = byteLength front
            + byteLength ((statement ++ beyond).take (guardReach beyond guard)) := by
  have hheader : Pattern.condition.Recognises fun _ phrase => IsHeader phrase :=
    Pattern.headerOf_recognises (by decide)
  have hcuts := hheader.cuts (fun _ _ h => h.beginsSolid.ne_nil) h
  obtain ⟨lead, hlead, -⟩ := hcuts.phrase
  obtain ⟨X, hX⟩ := exists_append_groupText 0 ('(' :: (guard.behind ++ beyond))
  have hsize : '('.utf8Size = 1 := by decide
  have htext : statement ++ beyond
      = (guard.before.reverse ++ lead) ++ '(' :: (guard.behind ++ beyond) := by
    rw [hcuts.eq_append, hlead]
    simp
  have hreach : guardReach beyond guard
      = (guard.before.reverse ++ lead ++ groupText 0 ('(' :: (guard.behind ++ beyond))).length := by
    rw [guardReach, hlead]
    simp only [List.length_append, List.length_reverse, List.length_cons, List.length_nil]
    omega
  have hsplit : statement ++ beyond
      = (guard.before.reverse ++ lead ++ groupText 0 ('(' :: (guard.behind ++ beyond))) ++ X := by
    rw [htext, List.append_assoc _ _ X, ← hX]
  refine ⟨byteLength (front ++ (guard.before.reverse ++ lead)), ?_, ?_, ?_⟩
  · have hstop : byteLength front + (guard.start + byteLength guard.phrase)
        = byteLength (front ++ (guard.before.reverse ++ lead)) + 1 := by
      rw [guard.start_eq, hlead]
      simp only [byteLength_append, byteLength_cons, byteLength_nil, hsize]
      omega
    rw [hstop, predecessor?]
  · rw [hreach, hsplit]
    simp only [List.length_append]
    omega
  · have htake : (statement ++ beyond).take (guardReach beyond guard)
        = guard.before.reverse ++ lead ++ groupText 0 ('(' :: (guard.behind ++ beyond)) := by
      rw [hreach, hsplit, List.take_left]
    rw [htake, htext, ← List.append_assoc front, groupEnd_append]
    simp only [byteLength_append]
    omega

/-- A guard reaches over the call if its group ends behind it. -/
theorem call_lt_iff {reach : Nat} (hreach : reach ≤ (statement ++ beyond).length) :
    byteLength statement < byteLength ((statement ++ beyond).take reach)
      ↔ statement.length < reach := by
  have hlength : statement.length ≤ (statement ++ beyond).length := by simp
  have h := byteLength_take_lt_iff hlength hreach
  rwa [List.take_left] at h

/-- The ends of the guards are passed one by one. -/
theorem afterGuards?_eq {guards : List (Hit String)}
    (h : ∀ guard ∈ guards, guard ∈ Pattern.condition.hits statement) (reached : Nat) :
    afterGuards? (front ++ (statement ++ beyond)) (byteLength front)
        (byteLength front + byteLength statement)
        (byteLength front + byteLength (statement.take reached)) guards
      = some (if (guards.map (guardReach beyond)).any (statement.length < ·) then none
          else some (byteLength front + byteLength (statement.take
            ((guards.map (guardReach beyond)).foldl max reached)))) := by
  induction guards generalizing reached with
  | nil => rfl
  | cons guard guards ih =>
      obtain ⟨paren, hparen, hle, hend⟩ :=
        @groupEnd_guard front statement beyond guard (h guard List.mem_cons_self)
      have hnext := ih fun g hg => h g (List.mem_cons_of_mem guard hg)
      rw [afterGuards?, hparen]
      simp only [Option.bind_eq_bind, Option.bind_some, hend, Nat.add_lt_add_iff_left,
        call_lt_iff hle, List.map_cons, List.any_cons, List.foldl_cons]
      by_cases hover : statement.length < guardReach beyond guard
      · -- the group ends behind the call, whatever the guards behind this one do
        rw [if_pos hover, if_pos (by simp [hover])]
      · -- the group ends in the statement, so the text from the call on does not matter
        have htake : (statement ++ beyond).take (guardReach beyond guard)
            = statement.take (guardReach beyond guard) :=
          List.take_append_of_le_length (Nat.le_of_not_lt hover)
        rw [if_neg hover, htake, Nat.add_max_add_left, byteLength_take_max, hnext]
        simp only [hover, decide_false, Bool.false_or]

/-- The text behind a beginning of the statement. -/
theorem slice?_statement (reached : Nat) :
    slice? (front ++ (statement ++ beyond))
        (min (byteLength front + byteLength (statement.take reached))
          (byteLength front + byteLength statement))
        (byteLength front + byteLength statement)
      = some (statement.drop reached) := by
  have hsplit : front ++ (statement ++ beyond)
      = (front ++ statement.take reached) ++ (statement.drop reached ++ beyond) := by
    rw [List.append_assoc, ← List.append_assoc (statement.take reached), List.take_append_drop]
  have hbytes : byteLength statement
      = byteLength (statement.take reached) + byteLength (statement.drop reached) := by
    rw [← byteLength_append, List.take_append_drop]
  have hstart : min (byteLength front + byteLength (statement.take reached))
      (byteLength front + byteLength statement)
        = byteLength (front ++ statement.take reached) := by
    rw [byteLength_append]
    omega
  have hstop : byteLength front + byteLength statement
      = byteLength (front ++ statement.take reached) + byteLength (statement.drop reached) := by
    rw [byteLength_append]
    omega
  rw [hstart, hstop, hsplit]
  exact slice?_append _ _ _

/-- A call is judged by its statement and the text from the call on. -/
theorem isChecked?_append
    (hfront : front = [] ∨ ∃ as d, front = as ++ [d] ∧ endsStatement d = true)
    (hstatement : ∀ c ∈ statement, ¬endsStatement c = true) (beyond : List Char) :
    isChecked? (front ++ (statement ++ beyond)) (byteLength front + byteLength statement)
      = some (isChecked statement beyond) := by
  have hguards := @afterGuards?_eq front statement beyond _ (fun guard hguard => hguard) 0
  rw [List.take_zero, byteLength_nil, Nat.add_zero] at hguards
  rw [isChecked?, statementStart?_append hfront hstatement]
  simp only [Option.bind_eq_bind, Option.bind_some, slice?_append, hguards, isChecked]
  by_cases hover : ((Pattern.condition.hits statement).map (guardReach beyond)).any
      (statement.length < ·) = true
  · simp only [hover, if_true, Bool.true_or]
  · simp only [if_neg hover, slice?_statement, Option.bind_some]
    rw [Bool.not_eq_true] at hover
    rw [hover, Bool.false_or]

end Guards

/-! ## Unchecked calls -/

/-- Low-level calls whose result is dropped. -/
def uncheckedCalls? (s : Subject) : Option (List Finding) :=
  collect? (fun hit => do
    let checked ← isChecked? s.masked hit.start
    some (if checked then [] else
      [⟨hit.start + byteLength hit.value.1,
        "Return value of low-level `" ++ hit.value.2 ++ "` is not checked"⟩]))
    (Pattern.lowLevelCall.hits s.masked)

/-- In front of a call stand a delimiter, or nothing, and the beginning of the statement. -/
theorem isChecked?_eq {hit : Hit (List Char × String)} {cs : List Char}
    (h : hit ∈ Pattern.lowLevelCall.hits cs) :
    isChecked? cs hit.start
      = some (isChecked (hit.before.takeWhile (!endsStatement ·)).reverse
          (hit.phrase ++ hit.behind)) := by
  have hcuts := Pattern.lowLevelCall_recognises.cuts
    (by rintro value phrase ⟨behind, rfl, hsolid⟩; simp [hsolid.ne_nil]) h
  have hsplit : hit.before.reverse = (hit.before.dropWhile (!endsStatement ·)).reverse
      ++ (hit.before.takeWhile (!endsStatement ·)).reverse := by
    rw [← List.reverse_append, List.takeWhile_append_dropWhile]
  have hfront : (hit.before.dropWhile (!endsStatement ·)).reverse = [] ∨
      ∃ as d, (hit.before.dropWhile (!endsStatement ·)).reverse = as ++ [d]
        ∧ endsStatement d = true := by
    cases hdrop : hit.before.dropWhile (!endsStatement ·) with
    | nil => exact Or.inl rfl
    | cons d as =>
        refine Or.inr ⟨as.reverse, d, List.reverse_cons, ?_⟩
        have hhead := List.head?_dropWhile_not (!endsStatement ·) hit.before
        simpa [hdrop] using hhead
  have hstatement : ∀ c ∈ (hit.before.takeWhile (!endsStatement ·)).reverse,
      ¬endsStatement c = true := by
    intro c hc
    have hc' := List.all_eq_true.mp List.all_takeWhile c (List.mem_reverse.mp hc)
    simpa using hc'
  have hchecked := isChecked?_append hfront hstatement (hit.phrase ++ hit.behind)
  rwa [← List.append_assoc, ← byteLength_append, ← hsplit, ← hcuts.eq_append, ← hit.start_eq]
    at hchecked

theorem uncheckedCalls?_eq (s : Subject) : uncheckedCalls? s = some (uncheckedCalls s) := by
  refine collect?_toList fun hit hhit => ?_
  rw [isChecked?_eq hhit]
  simp only [Option.bind_eq_bind, Option.bind_some]
  split
  · rfl
  · rfl

/-! ## Reentrancy -/

/-- The index of the first external call. The tokens stand at an index. -/
def externalCallFrom? (idx : Nat) : List Token → Option Nat
  | [] => none
  | t :: ts => if startsExternalCall (t :: ts) then some idx else externalCallFrom? (idx + 1) ts

/-- The root of the first write from an index on whose root satisfies `p`. -/
def firstWriteFrom? (p : Token → Bool) (body : List Token) (idx : Nat) : Option (Option Token) :=
  if idx < body.length then do
    let target ← writeTarget? body idx
    match target.filter p with
    | some target => some (some target)
    | none => firstWriteFrom? p body (idx + 1)
  else some none
termination_by body.length - idx

/-- The state variable that a body writes after its first external call. -/
def lateWriteOf? (isState : String → Bool) (body : List Token) : Option (Option Token) :=
  match externalCallFrom? 0 body with
  | none => some none
  | some call => firstWriteFrom? (fun t => isState t.text) body (call + 2)

/-- Functions that write state after an external call. -/
def reentrantWrites? (s : Subject) : Option (List Finding) :=
  collect? (fun f => do
    let target ← lateWriteOf? s.outline.isMutableState f.bodyTokens
    some (target.map fun target =>
      (⟨target.start, "State variable `" ++ target.text ++
        "` is written after an external call in `" ++ f.name ++
        "`; update state before calling out"⟩ : Finding)).toList)
    (s.outline.functions.filter (!·.mutability.isReadOnly))

/-- The call takes two tokens, and the search goes on behind them. -/
theorem externalCallFrom?_eq (before ts : List Token) :
    (externalCallFrom? before.length ts).map (· + 2)
      = (behindExternalCall? before ts).map (·.1.length) := by
  fun_induction behindExternalCall? before ts with
  | case1 before dot member ts hcall =>
      rw [externalCallFrom?, if_pos hcall]
      rfl
  | case2 before dot member ts hcall ih =>
      rw [externalCallFrom?, if_neg hcall]
      exact ih
  | case3 ts before hnot =>
      cases ts with
      | nil => rfl
      | cons t ts =>
          cases ts with
          | nil => rfl
          | cons u ts => exact (hnot t u ts rfl).elim

theorem firstWriteFrom?_append (p : Token → Bool) (before ts : List Token) :
    firstWriteFrom? p (before.reverse ++ ts) before.length = some (firstWrite? p before ts) := by
  induction ts generalizing before with
  | nil =>
      rw [firstWriteFrom?, if_neg (by simp)]
      rfl
  | cons t ts ih =>
      have hnext := ih (t :: before)
      rw [reverse_cons_append, List.length_cons] at hnext
      rw [firstWriteFrom?, if_pos (by simp), writeTarget?_append, firstWrite?]
      simp only [Option.bind_eq_bind, Option.bind_some, hnext]
      cases (SolidityTools.writeTarget? before t ts).filter p with
      | none => rfl
      | some target => rfl

theorem lateWriteOf?_eq (isState : String → Bool) (body : List Token) :
    lateWriteOf? isState body = some (lateWrite? isState body) := by
  have hcall := externalCallFrom?_eq [] body
  rw [List.length_nil] at hcall
  rw [lateWriteOf?, lateWrite?]
  cases hbehind : behindExternalCall? [] body with
  | none =>
      rw [hbehind, Option.map_none, Option.map_eq_none_iff] at hcall
      rw [hcall]
  | some split =>
      obtain ⟨passed, rest⟩ := split
      rw [hbehind, Option.map_some, Option.map_eq_some_iff] at hcall
      obtain ⟨call, hfrom, hlength⟩ := hcall
      have hbody := append_of_behindExternalCall? hbehind
      rw [List.reverse_nil, List.nil_append] at hbody
      rw [hfrom]
      simp only [hlength, ← hbody]
      exact firstWriteFrom?_append _ passed rest

theorem reentrantWrites?_eq (s : Subject) : reentrantWrites? s = some (reentrantWrites s) := by
  refine collect?_toList fun f _ => ?_
  rw [lateWriteOf?_eq]
  rfl

end InPlace

end SolidityTools

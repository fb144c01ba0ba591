import SolidityTools.Proofs.InPlace.Function
import SolidityTools.Proofs.InPlace.Group
import SolidityTools.Proofs.Lint.Guard
import SolidityTools.Proofs.Lint.Mask

set_option autoImplicit false

/-! # Groups of parentheses in the masked text and among the tokens

The rules that search the masked text count its parentheses, and the outline counts those among the
tokens. They find the same groups: a parenthesis that masking leaves is an operator, since it stands
neither in a comment nor in a string (`isOperator_of_mem_maskToken`), and every operator stays
in the masked text. So both searches go on together, token by token (`groupText_mask`).
-/

namespace SolidityTools

open Text

namespace Lexer

theorem start_eq_of_tokensFrom_eq_append {start : Nat} {cs : List Char} {before behind : List Token}
    {t : Token} (h : tokensFrom start cs = before ++ t :: behind) :
    t.start = start + byteLength (before.flatMap fun u => u.text.toList) := by
  induction before generalizing start cs with
  | nil =>
      cases cs with
      | nil => simp [tokensFrom] at h
      | cons c cs =>
          rw [tokensFrom_cons] at h
          obtain ⟨rfl, -⟩ := List.cons.inj h
          rfl
  | cons u before ih =>
      cases cs with
      | nil => simp [tokensFrom] at h
      | cons c cs =>
          rw [tokensFrom_cons] at h
          obtain ⟨rfl, hrest⟩ := List.cons.inj h
          rw [ih hrest, List.flatMap_cons, String.toList_ofList, byteLength_append, Nat.add_assoc]

end Lexer

namespace Lint

/-! ## Marks in the masked text -/

/-- A punctuation mark in the masked text is an operator. -/
theorem isOperator_of_mem_maskToken {start : Nat} {cs : List Char} {t : Token}
    (ht : t ∈ Lexer.tokensFrom start cs) {e : Char} (hmark : e ∈ Lexer.punctuation)
    (he : e ∈ maskToken t) : t.isOperator (String.ofList [e]) = true := by
  by_cases hmasked : isMasked t = true
  · -- what is hidden is blank
    have hblank := List.all_eq_true.mp (all_isAsciiBlank_maskToken hmasked) e he
    rw [(Lexer.inert_of_mem_punctuation hmark).1] at hblank
    cases hblank
  · rw [maskToken, if_neg hmasked] at he
    have hliteral : t.kind ≠ .comment ∧ t.kind ≠ .string := by simpa [isMasked] using hmasked
    obtain ⟨_, c, w, rest, htext, hlex, -⟩ := Lexer.exists_tokensFrom_of_mem ht
    rw [htext] at he
    obtain ⟨rfl, rfl, hkind⟩ :=
      Lexer.eq_of_mem_punctuation hlex hliteral.1 hliteral.2 hmark he
    rw [Token.isOperator, hkind, ← htext, String.ofList_toList]
    simp

theorem maskToken_of_isOperator {t : Token} {c : Char}
    (ht : t.isOperator (String.ofList [c]) = true) : maskToken t = [c] := by
  have hvisible : isMasked t = false := by simp [isMasked, Token.kind_of_isOperator ht]
  rw [maskToken_of_visible hvisible, Token.toList_of_isOperator ht]

/-! ## Groups -/

/-- The tokens of a group behind its opening parenthesis, through the parenthesis that closes it;
all of them if none does. `depth` further groups are open. -/
def groupTokens (depth : Nat) (ts : List Token) : List Token :=
  match Group.close? "(" ")" depth ts with
  | some group => group.inside ++ [group.closer]
  | none => ts

section Steps

variable {t : Token}

theorem groupTokens_push {depth depth' : Nat} {ts : List Token}
    (h : Group.close? "(" ")" depth (t :: ts) = (Group.close? "(" ")" depth' ts).map (Group.push t)) :
    groupTokens depth (t :: ts) = t :: groupTokens depth' ts := by
  rw [groupTokens, groupTokens, h]
  cases Group.close? "(" ")" depth' ts with
  | none => rfl
  | some group => rfl

theorem groupTokens_closer_zero (hopen : ¬t.isOperator "(" = true)
    (hclose : t.isOperator ")" = true) (ts : List Token) : groupTokens 0 (t :: ts) = [t] := by
  rw [groupTokens, Group.close?_closer_zero hopen hclose]
  rfl

end Steps

/-- A text without parentheses is passed over. -/
theorem groupText_append_of_plain {w : List Char} (hw : ∀ c ∈ w, c ≠ '(' ∧ c ≠ ')') (depth : Nat)
    (X : List Char) : groupText depth (w ++ X) = w ++ groupText depth X := by
  induction w with
  | nil => rfl
  | cons c w ih =>
      obtain ⟨hopen, hclose⟩ := hw c List.mem_cons_self
      rw [List.cons_append, groupText, if_neg (by simpa using hopen), if_neg (by simpa using hclose),
        ih fun d hd => hw d (List.mem_cons_of_mem c hd), List.cons_append]

/-- **Counting in the masked text and among the tokens.** A group in the masked text is the masked
text of the tokens of the group. -/
theorem groupText_mask {ts : List Token} (hts : ∀ t ∈ ts, ∀ e ∈ Lexer.punctuation,
      e ∈ maskToken t → t.isOperator (String.ofList [e]) = true) (depth : Nat) :
    groupText (depth + 1) (mask ts) = mask (groupTokens depth ts) := by
  induction ts generalizing depth with
  | nil => rfl
  | cons t ts ih =>
      have hrest := fun depth => ih (fun u hu => hts u (List.mem_cons_of_mem t hu)) depth
      rw [mask_cons]
      by_cases hopen : t.isOperator "(" = true
      · have hmask : maskToken t = ['('] := maskToken_of_isOperator hopen
        rw [groupTokens_push (Group.close?_opener hopen depth ts), mask_cons, hmask,
          List.singleton_append, groupText_opener, hrest]
        rfl
      · by_cases hclose : t.isOperator ")" = true
        · have hmask : maskToken t = [')'] := maskToken_of_isOperator hclose
          rw [hmask, List.singleton_append]
          cases depth with
          | zero =>
              rw [groupTokens_closer_zero hopen hclose, groupText_closer_zero, mask_cons, hmask]
              rfl
          | succ depth =>
              rw [groupTokens_push (Group.close?_closer_succ hopen hclose depth ts), mask_cons, hmask,
                groupText_closer_succ, hrest]
              rfl
        · -- no other token has a parenthesis in the masked text
          have hplain : ∀ c ∈ maskToken t, c ≠ '(' ∧ c ≠ ')' := by
            intro c hc
            constructor
            · rintro rfl
              exact hopen (hts t List.mem_cons_self '(' (by decide) hc)
            · rintro rfl
              exact hclose (hts t List.mem_cons_self ')' (by decide) hc)
          rw [groupTokens_push (Group.close?_other hopen hclose depth ts), mask_cons,
            groupText_append_of_plain hplain, hrest]

/-! ## Ends of groups -/

/-- The byte offset behind a group whose opening parenthesis has been passed, or the end of the
source. -/
def groupStop (source : String) (ts : List Token) : Nat :=
  ((Group.parentheses? ts).map (·.closer.stop)).getD (byteLength source.toList)

/-- A group whose opening parenthesis has been passed, with all that stands in front of it. -/
theorem byteLength_groupTokens {source : String} {before behind : List Token} {t : Token}
    (h : tokenize source = before ++ t :: behind) :
    byteLength ((before ++ t :: groupTokens 0 behind).flatMap fun u => u.text.toList)
      = groupStop source behind := by
  rw [groupTokens, groupStop, Group.parentheses?]
  cases hclose : Group.close? "(" ")" 0 behind with
  | none =>
      have htexts : (tokenize source).flatMap (fun u => u.text.toList) = source.toList :=
        Lexer.flatMap_text_tokensFrom 0 source.toList
      show byteLength ((before ++ t :: behind).flatMap _) = byteLength source.toList
      rw [← h, htexts]
  | some group =>
      -- the closing parenthesis is the last of the tokens
      have hsplit : tokenize source = (before ++ t :: group.inside) ++ group.closer :: group.rest := by
        rw [h, ← Group.inside_append_of_close? hclose]
        simp
      have hstart := Lexer.start_eq_of_tokensFrom_eq_append hsplit
      rw [Nat.zero_add] at hstart
      show byteLength ((before ++ t :: (group.inside ++ [group.closer])).flatMap _)
        = group.closer.stop
      rw [← List.cons_append, ← List.append_assoc, List.flatMap_append, byteLength_append, Token.stop,
        hstart, List.flatMap_singleton]

/-- Among all tokens of a source a group ends where it ends in the masked text. -/
theorem byteLength_groupText_mask {source : String} {before behind : List Token} {t : Token}
    (h : tokenize source = before ++ t :: behind) (ht : t.isOperator "(" = true) :
    t.start + byteLength (groupText 0 (mask (t :: behind))) = groupStop source behind := by
  have hmarks : ∀ u ∈ behind, ∀ e ∈ Lexer.punctuation, e ∈ maskToken u →
      u.isOperator (String.ofList [e]) = true := fun u hu e =>
    isOperator_of_mem_maskToken (h ▸ List.mem_append_right before (List.mem_cons_of_mem t hu))
  have hmask : maskToken t = ['('] := maskToken_of_isOperator ht
  have hgroup : groupText 0 (mask (t :: behind)) = mask (t :: groupTokens 0 behind) := by
    rw [mask_cons, mask_cons, hmask, List.singleton_append, groupText_opener,
      groupText_mask hmarks, List.singleton_append]
  calc t.start + byteLength (groupText 0 (mask (t :: behind)))
      = byteLength (before.flatMap fun u => u.text.toList)
          + byteLength ((t :: groupTokens 0 behind).flatMap fun u => u.text.toList) := by
        rw [hgroup, byteLength_mask, Lexer.start_eq_of_tokensFrom_eq_append h, Nat.zero_add]
    _ = byteLength ((before ++ t :: groupTokens 0 behind).flatMap fun u => u.text.toList) := by
        rw [List.flatMap_append, byteLength_append]
    _ = groupStop source behind := byteLength_groupTokens h

/-- White space and comments do not matter for the end of a group. -/
theorem groupStop_significantTokens (source : String) (ts : List Token) :
    groupStop source (significantTokens ts) = groupStop source ts := by
  rw [groupStop, groupStop, Group.parentheses?, Group.parentheses?, Group.close?_significantTokens,
    Option.map_map]
  rfl

/-- A significant token, and the tokens of the source in front of it and behind it. -/
theorem exists_append_of_significantTokens {ts before behind : List Token} {t : Token}
    (h : significantTokens ts = before ++ t :: behind) :
    ∃ front back, ts = front ++ t :: back ∧ significantTokens front = before ∧
      significantTokens back = behind := by
  obtain ⟨front, rest, hts, hfront, hrest⟩ := List.filter_eq_append_iff.mp h
  obtain ⟨gap, back, rfl, hgap, -, hback⟩ := List.filter_eq_cons_iff.mp hrest
  -- white space and comments in front of the token belong to what is before it
  refine ⟨front ++ gap, back, by rw [hts, List.append_assoc], ?_, hback⟩
  rw [significantTokens, List.filter_append, hfront, List.filter_eq_nil_iff.mpr hgap,
    List.append_nil]

theorem exists_of_getElem?_significantTokens {ts : List Token} {i : Nat} {t : Token}
    (h : (significantTokens ts)[i]? = some t) :
    ∃ before behind, ts = before ++ t :: behind ∧ (significantTokens before).length = i ∧
      significantTokens ts = significantTokens before ++ t :: significantTokens behind := by
  obtain ⟨hlt, ht⟩ := List.getElem?_eq_some_iff.mp h
  have hsplit : significantTokens ts
      = (significantTokens ts).take i ++ t :: (significantTokens ts).drop (i + 1) := by
    rw [← ht, ← List.drop_eq_getElem_cons hlt, List.take_append_drop]
  obtain ⟨before, behind, hts, hbefore, hbehind⟩ := exists_append_of_significantTokens hsplit
  refine ⟨before, behind, hts, ?_, ?_⟩
  · rw [hbefore, List.length_take_of_le (by omega)]
  · rw [hbefore, hbehind]
    exact hsplit

/-- The search by indices finds the token that ends the group. -/
theorem groupStop_of_split {source : String} {before behind : List Token} {t : Token}
    (h : tokenizeSignificant source = before ++ t :: behind) (ht : t.isOperator "(" = true) :
    match InPlace.matchingIndex? (tokenizeSignificant source) before.length "(" ")" with
    | none => groupStop source behind = byteLength source.toList
    | some j => ∃ u, (tokenizeSignificant source)[j]? = some u ∧ groupStop source behind = u.stop := by
  rw [h, InPlace.matchingIndex?_append ht, groupStop, Group.parentheses?]
  cases hclose : Group.close? "(" ")" 0 behind with
  | none => rfl
  | some group =>
      refine ⟨group.closer, ?_, rfl⟩
      show (before ++ t :: behind)[before.length + 1 + group.inside.length]? = some group.closer
      rw [← Group.inside_append_of_close? hclose, Nat.add_assoc, List.getElem?_append_right (by omega),
        Nat.add_sub_cancel_left, Nat.add_comm 1, List.getElem?_cons_succ,
        List.getElem?_append_right (Nat.le_refl _), Nat.sub_self, List.getElem?_cons_zero]

/-- **Both searches for the end of a group agree.** Behind every opening parenthesis among the
significant tokens of a source, the group of the masked text ends where the group of the tokens does:
with the token that closes it, or with the source. The same holds of the two searches that go by
offsets and by indices. -/
theorem groupText_stop_eq (source : String) {i : Nat} {t : Token}
    (hi : (tokenizeSignificant source)[i]? = some t) (ht : t.isOperator "(" = true) :
    t.start + byteLength (groupText 0 (dropBytes t.start (mask (tokenize source))))
        = groupStop source ((tokenizeSignificant source).drop (i + 1)) ∧
      match InPlace.matchingIndex? (tokenizeSignificant source) i "(" ")" with
      | none =>
          InPlace.groupEnd (mask (tokenize source)) t.start = byteLength source.toList
      | some j => ∃ u, (tokenizeSignificant source)[j]? = some u ∧
          InPlace.groupEnd (mask (tokenize source)) t.start = u.stop := by
  obtain ⟨before, behind, hts, rfl, hsignificant⟩ := exists_of_getElem?_significantTokens hi
  have hmask : mask (tokenize source) = mask before ++ mask (t :: behind) := by
    rw [hts, mask_append]
  have hstart : t.start = byteLength (mask before) := by
    rw [byteLength_mask, Lexer.start_eq_of_tokensFrom_eq_append hts, Nat.zero_add]
  have hstop : t.start + byteLength (groupText 0 (mask (t :: behind)))
      = groupStop source (significantTokens behind) := by
    rw [byteLength_groupText_mask hts ht, groupStop_significantTokens]
  have hend : InPlace.groupEnd (mask (tokenize source)) t.start
      = groupStop source (significantTokens behind) := by
    rw [hmask, hstart, InPlace.groupEnd_append, ← hstart, hstop]
  constructor
  · rw [hmask, hstart, dropBytes_byteLength_append, ← hstart, hstop]
    rw [tokenizeSignificant, hsignificant, ← List.drop_drop, List.drop_left, List.drop_one,
      List.tail_cons]
  · rw [hend]
    exact groupStop_of_split hsignificant ht

/-- Parentheses in a string and in a comment do not count, and the last group is left open. -/
theorem groupText_stop_eq_call :
    let source := "f(\"(\", g(x) /* ) */) + h((y)"
    (InPlace.matchingIndex? (tokenizeSignificant source) 1 "(" ")" = some 8 ∧
        ∃ u, (tokenizeSignificant source)[8]? = some u ∧
          InPlace.groupEnd (mask (tokenize source)) 1 = u.stop) ∧
      InPlace.matchingIndex? (tokenizeSignificant source) 11 "(" ")" = none ∧
        InPlace.groupEnd (mask (tokenize source)) 24 = byteLength source.toList := by
  intro source
  have hclosed : InPlace.matchingIndex? (tokenizeSignificant source) 1 "(" ")" = some 8 := by
    decide +kernel
  have hopen : InPlace.matchingIndex? (tokenizeSignificant source) 11 "(" ")" = none := by
    decide +kernel
  have hfirst := (groupText_stop_eq source (i := 1) (t := ⟨.operator, "(", 1⟩)
    (by decide +kernel) (by decide +kernel)).2
  have hlast := (groupText_stop_eq source (i := 11) (t := ⟨.operator, "(", 24⟩)
    (by decide +kernel) (by decide +kernel)).2
  rw [hclosed] at hfirst
  rw [hopen] at hlast
  exact ⟨⟨hclosed, hfirst⟩, hopen, hlast⟩

end Lint

end SolidityTools

import SolidityTools.Proofs.Token.Reading

set_option autoImplicit false

/-! # Where tokens stand

Each significant token stands in the text at the place it remembers, and they stand there one
behind the other (`Ordered`). So a token is found by its place, and no token occurs twice.
-/

namespace SolidityTools

open Text

namespace Lexer

/-! ## Beginnings of a text -/

theorem byteLength_pos {cs : List Char} (h : cs ≠ []) : 0 < byteLength cs := by
  obtain ⟨c, cs, rfl⟩ := List.exists_cons_of_ne_nil h
  have hpos : 0 < c.utf8Size := c.utf8Size_pos
  rw [byteLength_cons]
  omega

/-- Of two beginnings of one text, the one with fewer bytes is a beginning of the other. -/
theorem exists_append_of_byteLength_le {as bs X Y : List Char} (h : as ++ X = bs ++ Y)
    (hle : byteLength as ≤ byteLength bs) : ∃ m, bs = as ++ m ∧ X = m ++ Y := by
  rcases List.append_eq_append_iff.mp h with ⟨m, rfl, rfl⟩ | ⟨m, rfl, rfl⟩
  · exact ⟨m, rfl, rfl⟩
  · cases m with
    | nil => exact ⟨[], by simp, rfl⟩
    | cons c m =>
        have hpos := byteLength_pos (List.cons_ne_nil c m)
        rw [byteLength_append] at hle
        omega

/-- A beginning of a text is known by its bytes. -/
theorem eq_of_byteLength_eq {as bs X Y : List Char} (h : as ++ X = bs ++ Y)
    (heq : byteLength as = byteLength bs) : as = bs := by
  obtain ⟨m, rfl, -⟩ := exists_append_of_byteLength_le h heq.le
  cases m with
  | nil => exact (List.append_nil as).symm
  | cons c m =>
      have hpos := byteLength_pos (List.cons_ne_nil c m)
      rw [byteLength_append] at heq
      omega

/-! ## Places of tokens -/

/-- Each token stands in the text at its place. -/
theorem Reads.exists_append {offset : Nat} {cs : List Char} {ts : List Token}
    (h : Reads offset cs ts) {t : Token} (ht : t ∈ ts) :
    ∃ P S, cs = P ++ (t.text.toList ++ S) ∧ t.start = offset + byteLength P := by
  induction h with
  | done => cases ht
  | @token offset gap c w rest kind ts hgap hc hk hlex h ih =>
      rcases List.mem_cons.mp ht with rfl | ht
      · exact ⟨gap, rest, by simp, rfl⟩
      · obtain ⟨P, S, rfl, hstart⟩ := ih ht
        refine ⟨gap ++ c :: (w ++ P), S, by simp, ?_⟩
        rw [hstart, ← List.cons_append, byteLength_append, byteLength_append]
        omega

theorem Reads.le_start {offset : Nat} {cs : List Char} {ts : List Token} (h : Reads offset cs ts)
    {t : Token} (ht : t ∈ ts) : offset ≤ t.start := by
  obtain ⟨P, S, -, hstart⟩ := h.exists_append ht
  omega

theorem Reads.pairwise {offset : Nat} {cs : List Char} {ts : List Token} (h : Reads offset cs ts) :
    ts.Pairwise fun t u => t.stop ≤ u.start := by
  induction h with
  | done => exact .nil
  | @token offset gap c w rest kind ts hgap hc hk hlex h ih =>
      refine List.Pairwise.cons (fun u hu => ?_) ih
      have := h.le_start hu
      simpa only [Token.stop, String.toList_ofList] using this

theorem Reads.exists_lexeme {offset : Nat} {cs : List Char} {ts : List Token}
    (h : Reads offset cs ts) {t : Token} (ht : t ∈ ts) :
    ∃ c w rest, t.text.toList = c :: w ∧ isAsciiBlank c = false ∧
      lexeme c (w ++ rest) = (t.kind, w.length) := by
  induction h with
  | done => cases ht
  | @token offset gap c w rest kind ts hgap hc hk hlex h ih =>
      rcases List.mem_cons.mp ht with rfl | ht
      · exact ⟨c, w, rest, String.toList_ofList, hc, hlex⟩
      · exact ih ht

theorem Reads.start_lt_stop {offset : Nat} {cs : List Char} {ts : List Token}
    (h : Reads offset cs ts) {t : Token} (ht : t ∈ ts) : t.start < t.stop := by
  obtain ⟨c, w, -, htext, -⟩ := h.exists_lexeme ht
  have hpos : 0 < c.utf8Size := c.utf8Size_pos
  rw [Token.stop, htext, byteLength_cons]
  omega

/-- Tokens end with the text at the latest. -/
theorem Reads.stop_le {offset : Nat} {cs : List Char} {ts : List Token} (h : Reads offset cs ts)
    {t : Token} (ht : t ∈ ts) : t.stop ≤ offset + byteLength cs := by
  obtain ⟨P, S, rfl, hstart⟩ := h.exists_append ht
  rw [Token.stop, hstart, byteLength_append, byteLength_append]
  omega

/-- A token that stands at the beginning of a text is read first. -/
theorem Reads.exists_cons {offset : Nat} {X : List Char} {ts : List Token} {t : Token}
    (h : Reads offset (t.text.toList ++ X) ts) (ht : t ∈ ts) (hstart : t.start = offset) :
    ∃ ts₂, ts = t :: ts₂ ∧ Reads t.stop X ts₂ := by
  generalize hcs : t.text.toList ++ X = cs at h
  cases h with
  | done => cases ht
  | @token _ gap c w rest kind ts hgap hc hk hlex h =>
      have hpos : 0 < c.utf8Size := c.utf8Size_pos
      rcases List.mem_cons.mp ht with rfl | ht
      · have hgap : gap = [] := by
          cases gap with
          | nil => rfl
          | cons d gap =>
              have := byteLength_pos (List.cons_ne_nil d gap)
              simp only at hstart
              omega
        subst hgap
        rw [String.toList_ofList, List.nil_append, List.cons_append] at hcs
        obtain rfl := List.append_cancel_left (List.cons.inj hcs).2
        refine ⟨ts, rfl, ?_⟩
        rw [Token.stop, String.toList_ofList]
        exact h
      · have := h.le_start ht
        rw [byteLength_cons] at this
        omega

theorem Reads.exists_operator {offset : Nat} {cs : List Char} {ts : List Token}
    (h : Reads offset cs ts) {t : Token} (ht : t ∈ ts) {e : Char}
    (htext : t.isOperator (String.ofList [e]) = true) :
    ∃ P S, cs = P ++ e :: S ∧ t.start = offset + byteLength P ∧ t.stop = t.start + e.utf8Size := by
  obtain ⟨P, S, hcs, hstart⟩ := h.exists_append ht
  have htext' : t.text.toList = [e] := Token.toList_of_isOperator htext
  refine ⟨P, S, ?_, hstart, ?_⟩
  · rw [hcs, htext']
    rfl
  · rw [Token.stop, htext']
    simp

/-! ## The order of tokens -/

/-- No token is empty, and each stands behind the one before. -/
structure Ordered (ts : List Token) : Prop where
  start_lt_stop : ∀ t ∈ ts, t.start < t.stop
  pairwise : ts.Pairwise fun t u => t.stop ≤ u.start

theorem Reads.ordered {offset : Nat} {cs : List Char} {ts : List Token} (h : Reads offset cs ts) :
    Ordered ts :=
  ⟨fun _ ht => h.start_lt_stop ht, h.pairwise⟩

theorem ordered_tokenizeSignificant (source : String) : Ordered (tokenizeSignificant source) :=
  (reads_significantTokens 0 source.toList).ordered

/-- The tokens stand one behind the other with white space and comments, too. -/
theorem ordered_tokensFrom (start : Nat) (cs : List Char) : Ordered (tokensFrom start cs) := by
  induction hn : cs.length using Nat.strongRecOn generalizing start cs with
  | _ n ih =>
      cases cs with
      | nil => exact ⟨by simp [tokensFrom], by simp [tokensFrom]⟩
      | cons c cs =>
          have hpos := byteLength_pos (List.cons_ne_nil c (cs.take (lexeme c cs).2))
          have hrest := ih _ (hn ▸ length_drop_lexeme_lt c cs)
            (start + byteLength (c :: cs.take (lexeme c cs).2)) (cs.drop (lexeme c cs).2) rfl
          rw [tokensFrom_cons]
          refine ⟨fun t ht => ?_, List.Pairwise.cons (fun u hu => ?_) hrest.pairwise⟩
          · rcases List.mem_cons.mp ht with rfl | ht
            · rw [Token.stop, String.toList_ofList]
              omega
            · exact hrest.start_lt_stop t ht
          · obtain ⟨P, S, -, hstart⟩ := exists_append_of_mem_tokensFrom hu
            rw [Token.stop, String.toList_ofList, hstart]
            exact Nat.le_add_right _ _

theorem ordered_tokenize (source : String) : Ordered (tokenize source) :=
  ordered_tokensFrom 0 source.toList

namespace Ordered

variable {ts ts₁ ts₂ X Y : List Token} {t u : Token}

theorem left (h : Ordered (ts₁ ++ ts₂)) : Ordered ts₁ :=
  ⟨fun t ht => h.start_lt_stop t (List.mem_append_left _ ht),
    (List.pairwise_append.mp h.pairwise).1⟩

theorem right (h : Ordered (ts₁ ++ ts₂)) : Ordered ts₂ :=
  ⟨fun t ht => h.start_lt_stop t (List.mem_append_right _ ht),
    (List.pairwise_append.mp h.pairwise).2.1⟩

theorem stop_le_start (h : Ordered (ts₁ ++ ts₂)) (ht : t ∈ ts₁) (hu : u ∈ ts₂) :
    t.stop ≤ u.start :=
  (List.pairwise_append.mp h.pairwise).2.2 t ht u hu

/-- The tokens around a token. -/
theorem around (h : Ordered ts) (hts : ts = X ++ t :: Y) :
    (∀ u ∈ X, u.stop ≤ t.start) ∧ ∀ u ∈ Y, t.stop ≤ u.start := by
  rw [hts] at h
  have hright : Ordered ([t] ++ Y) := h.right
  exact ⟨fun u hu => h.stop_le_start hu List.mem_cons_self,
    fun u hu => hright.stop_le_start (List.mem_singleton_self t) hu⟩

/-- Of two tokens one ends in front of the other. -/
theorem stop_le_start_or (h : Ordered ts) (ht : t ∈ ts) (hu : u ∈ ts) (hne : t ≠ u) :
    t.stop ≤ u.start ∨ u.stop ≤ t.start := by
  obtain ⟨X, Y, hts⟩ := List.append_of_mem ht
  obtain ⟨hX, hY⟩ := h.around hts
  rw [hts] at hu
  rcases List.mem_append.mp hu with hu | hu
  · exact Or.inr (hX u hu)
  · exact Or.inl (hY u ((List.mem_cons.mp hu).resolve_left hne.symm))

/-- A token is known by where it begins, and by where it ends. -/
theorem eq_of_start_eq (h : Ordered ts) (ht : t ∈ ts) (hu : u ∈ ts) (heq : t.start = u.start) :
    t = u := by
  by_contra hne
  have hstart := h.start_lt_stop t ht
  have hstart' := h.start_lt_stop u hu
  rcases h.stop_le_start_or ht hu hne with hle | hle <;> omega

theorem eq_of_stop_eq (h : Ordered ts) (ht : t ∈ ts) (hu : u ∈ ts) (heq : t.stop = u.stop) :
    t = u := by
  by_contra hne
  have hstart := h.start_lt_stop t ht
  have hstart' := h.start_lt_stop u hu
  rcases h.stop_le_start_or ht hu hne with hle | hle <;> omega

/-- No token occurs twice. -/
theorem nodup (h : Ordered ts) : ts.Nodup := by
  refine h.pairwise.imp_of_mem fun {t u} ht hu hle heq => ?_
  have hpos := h.start_lt_stop t ht
  rw [heq] at hle hpos
  omega

end Ordered

end Lexer

end SolidityTools

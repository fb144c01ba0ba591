import SolidityTools.Proofs.Layout.Loop
import SolidityTools.Proofs.Token.Reading

set_option autoImplicit false

/-! # Counted loops by the shapes of their tokens

Whether a bracket closes a group and whether a header counts does not depend on where the tokens
stand: tokens of the same shapes make up a group of the same shapes, and a header of the same
counter.
-/

namespace SolidityTools

/-- A token without its place. -/
def Token.unplaced (t : Token) : Token := ⟨t.kind, t.text, 0⟩

theorem map_unplaced_of_map_shape {ts us : List Token}
    (h : ts.map Token.shape = us.map Token.shape) :
    ts.map Token.unplaced = us.map Token.unplaced := by
  have hcomp : Token.unplaced = (fun s : TokenKind × String => ⟨s.1, s.2, 0⟩) ∘ Token.shape := rfl
  rw [hcomp, ← List.map_map, ← List.map_map, h]

theorem Group.close?_append_of_shape {opener closer : String} {d : Nat} {ts : List Token}
    {g : Group} (h : Group.close? opener closer d ts = some g) {inside : List Token} {last : Token}
    (hinside : inside.map Token.shape = g.inside.map Token.shape)
    (hlast : last.shape = g.closer.shape) (rest : List Token) :
    Group.close? opener closer d (inside ++ last :: rest) = some ⟨inside, last, rest⟩ := by
  have hoperator := fun {t u : Token} (h : u.shape = t.shape) => Token.isOperator_congr h
  induction ts generalizing d g inside with
  | nil => cases h
  | cons t ts ih =>
      -- the token that closes the group is the first one, or it is passed
      have hpass : ∀ d' g', Group.close? opener closer d' ts = some g' → g'.push t = g →
          (∀ u us, u.shape = t.shape → Group.close? opener closer d (u :: us)
            = (Group.close? opener closer d' us).map (Group.push u)) →
          Group.close? opener closer d (inside ++ last :: rest) = some ⟨inside, last, rest⟩ := by
        rintro d' g' hg' rfl hstep
        obtain ⟨u, us, rfl, hu, hus⟩ := List.map_eq_cons_iff.mp hinside
        rw [List.cons_append, hstep u _ hu, ih hg' hus hlast]
        rfl
      by_cases hopen : t.isOperator opener = true
      · rw [Group.close?_opener hopen] at h
        obtain ⟨g', hg', hpush⟩ := Option.map_eq_some_iff.mp h
        refine hpass _ g' hg' hpush fun u us hu => ?_
        exact Group.close?_opener (by rw [hoperator hu, hopen]) d us
      · by_cases hclose : t.isOperator closer = true
        · cases d with
          | zero =>
              rw [Group.close?_closer_zero hopen hclose, Option.some.injEq] at h
              subst h
              obtain rfl := List.map_eq_nil_iff.mp hinside
              exact Group.close?_closer_zero (by rwa [hoperator hlast])
                (by rwa [hoperator hlast]) rest
          | succ d =>
              rw [Group.close?_closer_succ hopen hclose] at h
              obtain ⟨g', hg', hpush⟩ := Option.map_eq_some_iff.mp h
              refine hpass _ g' hg' hpush fun u us hu => ?_
              exact Group.close?_closer_succ (by rwa [hoperator hu]) (by rwa [hoperator hu]) d us
        · rw [Group.close?_other hopen hclose] at h
          obtain ⟨g', hg', hpush⟩ := Option.map_eq_some_iff.mp h
          refine hpass _ g' hg' hpush fun u us hu => ?_
          exact Group.close?_other (by rwa [hoperator hu]) (by rwa [hoperator hu]) d us

namespace Layout

theorem declaredCounter?_map_unplaced (ts : List Token) :
    declaredCounter? (ts.map Token.unplaced)
      = (declaredCounter? ts).map fun x => (x.1, x.2.map Token.unplaced) := by
  match ts with
  | type :: counter :: assign :: zero :: semicolon :: rest =>
      simp only [List.map_cons, declaredCounter?]
      split
      · next hif =>
          rw [if_pos]
          · rfl
          · exact hif
      · next hif =>
          rw [if_neg]
          · rfl
          · exact hif
  | [] => rfl
  | [_] => rfl
  | [_, _] => rfl
  | [_, _, _] => rfl
  | [_, _, _, _] => rfl

theorem isBound_map_unplaced (counter : String) (ts : List Token) :
    isBound counter (ts.map Token.unplaced) = isBound counter ts := by
  match ts with
  | [] => rfl
  | [_] => rfl
  | [_, _] => rfl
  | _ :: _ :: _ :: _ => rfl

theorem isIncrement_map_unplaced (counter : String) (ts : List Token) :
    isIncrement counter (ts.map Token.unplaced) = isIncrement counter ts := by
  match ts with
  | [] => rfl
  | [_] => rfl
  | [_, _] => rfl
  | _ :: _ :: _ :: _ => rfl

theorem countedHeader?_map_unplaced (ts : List Token) :
    countedHeader? (ts.map Token.unplaced)
      = (countedHeader? ts).map fun x => (x.1, x.2.unplaced) := by
  have hcomp : (fun t : Token => !t.isOperator ";") ∘ Token.unplaced
      = fun t => !t.isOperator ";" := rfl
  simp only [countedHeader?, declaredCounter?_map_unplaced]
  cases declaredCounter? ts with
  | none => rfl
  | some declared =>
      simp only [Option.map_some, Option.bind_eq_bind, Option.bind_some, List.dropWhile_map,
        List.takeWhile_map, hcomp]
      cases declared.2.dropWhile (!·.isOperator ";") with
      | nil => rfl
      | cons semicolon increment =>
          simp only [List.map_cons, isBound_map_unplaced, isIncrement_map_unplaced]
          split
          · rfl
          · rfl

theorem exists_countedHeader?_of_shape {header header' : List Token} {counter : String}
    {semicolon : Token} (h : countedHeader? header = some (counter, semicolon))
    (hshape : header'.map Token.shape = header.map Token.shape) :
    ∃ semicolon', countedHeader? header' = some (counter, semicolon') := by
  have hmap := countedHeader?_map_unplaced header'
  rw [map_unplaced_of_map_shape hshape, countedHeader?_map_unplaced, h, Option.map_some] at hmap
  obtain ⟨⟨counter', semicolon'⟩, hheader, heq⟩ := Option.map_eq_some_iff.mp hmap.symm
  obtain ⟨rfl, -⟩ := Prod.mk.inj heq
  exact ⟨semicolon', hheader⟩

end Layout

end SolidityTools

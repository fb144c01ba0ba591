import SolidityTools.Outline
import SolidityTools.Proofs.Token.Group
import SolidityTools.Proofs.Token.Place

set_option autoImplicit false

/-! # The parts of a function

Every function that the outline lists was cut out of the tokens of the file in the same way: its
name, its parameters in parentheses, its attributes up to the first brace or semicolon outside
parentheses, and its body if it is a brace. `FunctionParts` is the tokens cut so, and `Of` says
what the outline lists of them, field by field. Whatever is to be shown of listed functions can be
read off their parts (`exists_of_mem_functionDeclarations`), and there is only one way to cut
(`Of.unique`).
-/

namespace SolidityTools

variable {ts : List Token}

/-! ## Attributes -/

/-- The parentheses open behind a token. One that closes nothing is skipped. -/
def openBehind (parens : Nat) (t : Token) : Nat :=
  if t.isOperator "(" then parens + 1 else if t.isOperator ")" then parens - 1 else parens

/-- The mutability behind attributes. -/
def mutabilityBehind (parens : Nat) (m : Mutability) : List Token → Mutability
  | [] => m
  | t :: ts => mutabilityBehind (openBehind parens t) (m.attribute parens t) ts

def Mutability.declared? (t : Token) : Option Mutability :=
  [payable, view, pure].find? fun m => t.isKeyword m.name

/-- A mutability keyword, and the parentheses that are open in front of it. -/
structure PlacedMutability where
  mutability : Mutability
  parens : Nat
deriving DecidableEq, Repr

namespace PlacedMutability

/-- Whether the outline goes by a keyword. In parentheses `payable` belongs to a type, while `view`
and `pure` count wherever they stand. -/
def counts (k : PlacedMutability) : Bool := k.mutability.isReadOnly || k.parens == 0

def last (ks : List PlacedMutability) : Mutability :=
  (ks.map mutability).getLast?.getD .nonpayable

end PlacedMutability

/-- The mutability keywords among tokens in front of which some parentheses are open. -/
def placedMutabilities (parens : Nat) : List Token → List PlacedMutability
  | [] => []
  | t :: ts =>
    ((Mutability.declared? t).map (⟨·, parens⟩)).toList ++
      placedMutabilities (openBehind parens t) ts

/-- The mutability that attributes declare: the last keyword outside parentheses. -/
def declaredMutability (attributes : List Token) : Mutability :=
  PlacedMutability.last ((placedMutabilities 0 attributes).filter (·.parens == 0))

/-- The mutability that attributes are read for: the last keyword that counts. -/
def countedMutability (attributes : List Token) : Mutability :=
  PlacedMutability.last ((placedMutabilities 0 attributes).filter PlacedMutability.counts)

/-- Whether a token outside parentheses is the end of the attributes. -/
def endsAttributes (t : Token) : Bool := t.isOperator ";" || t.isOperator "\x7b"

/-- The attributes that some tokens begin with. -/
def attributeTokens (parens : Nat) : List Token → List Token
  | [] => []
  | t :: ts =>
    if parens == 0 && endsAttributes t then [] else t :: attributeTokens (openBehind parens t) ts

/-- The tokens behind these attributes. -/
def attributeEnding (parens : Nat) : List Token → List Token
  | [] => []
  | t :: ts =>
    if parens == 0 && endsAttributes t then t :: ts else attributeEnding (openBehind parens t) ts

theorem attribute_eq_getD (m : Mutability) (parens : Nat) (t : Token) :
    m.attribute parens t = ((Mutability.declared? t).filter fun m =>
      m.isReadOnly || parens == 0).getD m := by
  rw [Mutability.attribute]
  by_cases hview : t.isKeyword "view" = true
  · have hshape := Token.isKeyword_iff.mp hview
    simp [Mutability.declared?, Mutability.name, Mutability.isReadOnly, Token.isKeyword_eq_decide,
      hshape, Option.filter_some]
  · by_cases hpure : t.isKeyword "pure" = true
    · have hshape := Token.isKeyword_iff.mp hpure
      simp [Mutability.declared?, Mutability.name, Mutability.isReadOnly,
        Token.isKeyword_eq_decide, hshape, Option.filter_some]
    · by_cases hpayable : t.isKeyword "payable" = true
      · have hshape := Token.isKeyword_iff.mp hpayable
        cases parens == 0 <;>
          simp [Mutability.declared?, Mutability.name, Mutability.isReadOnly,
            Token.isKeyword_eq_decide, hshape, Option.filter_some]
      · simp [Mutability.declared?, Mutability.name, hview, hpure, hpayable]

theorem getD_getLast?_append {α : Type} (o : Option α) (as : List α) (a : α) :
    (o.toList ++ as).getLast?.getD a = as.getLast?.getD (o.getD a) := by
  rw [List.getLast?_append]
  cases as.getLast? <;> cases o <;> rfl

theorem map_counts_placedMutabilities_cons (parens : Nat) (t : Token) (ts : List Token) :
    ((placedMutabilities parens (t :: ts)).filter PlacedMutability.counts).map (·.mutability)
      = ((Mutability.declared? t).filter fun m => m.isReadOnly || parens == 0).toList ++
        ((placedMutabilities (openBehind parens t) ts).filter PlacedMutability.counts).map
          (·.mutability) := by
  rw [placedMutabilities, List.filter_append, List.map_append]
  cases hdeclared : Mutability.declared? t with
  | none => rfl
  | some m =>
      cases hcounts : (m.isReadOnly || parens == 0) <;>
        simp [PlacedMutability.counts, hcounts, Option.filter_some]

/-- The mutability behind attributes is the last one that counts. -/
theorem mutabilityBehind_eq (parens : Nat) (m : Mutability) (ts : List Token) :
    mutabilityBehind parens m ts = (((placedMutabilities parens ts).filter
      PlacedMutability.counts).map (·.mutability)).getLast?.getD m := by
  induction ts generalizing parens m with
  | nil => rfl
  | cons t ts ih =>
      rw [mutabilityBehind, ih, map_counts_placedMutabilities_cons, getD_getLast?_append,
        attribute_eq_getD]

theorem mutabilityBehind_eq_counted (attributes : List Token) :
    mutabilityBehind 0 .nonpayable attributes = countedMutability attributes :=
  mutabilityBehind_eq 0 .nonpayable attributes

theorem attributeTokens_append_attributeEnding (parens : Nat) (ts : List Token) :
    attributeTokens parens ts ++ attributeEnding parens ts = ts := by
  induction ts generalizing parens with
  | nil => rfl
  | cons t ts ih =>
      rw [attributeTokens, attributeEnding]
      split
      · rfl
      · rw [List.cons_append, ih]

/-- Attributes reach to the first brace or semicolon outside parentheses, or to the end of the
file. -/
structure AttributesEnd (parens : Nat) (attributes ending : List Token) : Prop where
  inside : ∀ us t vs, attributes = us ++ t :: vs → us.foldl openBehind parens = 0 →
    endsAttributes t = false
  ends : ∀ t ∈ ending.head?, attributes.foldl openBehind parens = 0 ∧ endsAttributes t = true

theorem attributesEnd_nil_iff {parens : Nat} {ending : List Token} :
    AttributesEnd parens [] ending ↔
      ∀ t ∈ ending.head?, parens = 0 ∧ endsAttributes t = true := by
  constructor
  · exact fun h => h.ends
  · intro h
    refine ⟨fun us t vs heq => ?_, h⟩
    simp at heq

theorem attributesEnd_cons_iff {parens : Nat} {t : Token} {attributes ending : List Token} :
    AttributesEnd parens (t :: attributes) ending ↔
      (parens = 0 → endsAttributes t = false) ∧
        AttributesEnd (openBehind parens t) attributes ending := by
  constructor
  · intro h
    refine ⟨h.inside [] t attributes rfl, fun us u vs heq hopen => ?_, h.ends⟩
    exact h.inside (t :: us) u vs (by rw [heq, List.cons_append]) hopen
  · rintro ⟨hfirst, h⟩
    refine ⟨fun us u vs heq hopen => ?_, h.ends⟩
    cases us with
    | nil =>
        obtain ⟨rfl, -⟩ := List.cons.inj heq
        exact hfirst hopen
    | cons _ us =>
        obtain ⟨rfl, htail⟩ := List.cons.inj heq
        exact h.inside us u vs htail hopen

theorem attributesEnd_attributeTokens (parens : Nat) (ts : List Token) :
    AttributesEnd parens (attributeTokens parens ts) (attributeEnding parens ts) := by
  induction ts generalizing parens with
  | nil => exact attributesEnd_nil_iff.mpr nofun
  | cons t ts ih =>
      rw [attributeTokens, attributeEnding]
      split
      · next h =>
          refine attributesEnd_nil_iff.mpr fun u hu => ?_
          obtain rfl := Option.some.inj hu
          simpa using h
      · next h => exact attributesEnd_cons_iff.mpr ⟨by simpa using h, ih _⟩

theorem AttributesEnd.attributeTokens_eq {parens : Nat} {attributes ending : List Token}
    (h : AttributesEnd parens attributes ending) :
    attributeTokens parens (attributes ++ ending) = attributes := by
  induction attributes generalizing parens with
  | nil =>
      cases ending with
      | nil => rfl
      | cons t ending =>
          obtain ⟨hparens, hends⟩ := attributesEnd_nil_iff.mp h t rfl
          simp [attributeTokens, hparens, hends]
  | cons t attributes ih =>
      obtain ⟨hfirst, hrest⟩ := attributesEnd_cons_iff.mp h
      rw [List.cons_append, attributeTokens, if_neg (by simpa using hfirst), ih hrest]

theorem attributesEnd_iff {parens : Nat} {attributes ending : List Token} :
    AttributesEnd parens attributes ending ↔
      attributeTokens parens (attributes ++ ending) = attributes := by
  constructor
  · exact AttributesEnd.attributeTokens_eq
  · intro h
    have hends := attributesEnd_attributeTokens parens (attributes ++ ending)
    have hsplit := attributeTokens_append_attributeEnding parens (attributes ++ ending)
    rw [h] at hends hsplit
    rwa [List.append_cancel_left hsplit] at hends

/-- Reading the attributes, one token at a time. -/
theorem attributes_cons (sourceLength index parens : Nat) (m : Mutability) (t : Token)
    (ts : List Token) :
    attributes sourceLength index parens m (t :: ts)
      = if parens == 0 && endsAttributes t then
          (m, if t.isOperator "\x7b" then some (bodyFrom sourceLength (index + 1) t ts) else none)
        else attributes sourceLength (index + 1) (openBehind parens t) (m.attribute parens t) ts := by
  rw [attributes, endsAttributes]
  cases hparens : parens == 0
  · rfl
  · cases hsemicolon : t.isOperator ";" with
    | true => simp [Token.isOperator_eq_decide, Token.isOperator_iff.mp hsemicolon]
    | false => cases t.isOperator "\x7b" <;> rfl

/-- The body that begins with the first of some tokens, which stands at `index`. -/
def bodyAt? (sourceLength index : Nat) : List Token → Option FunctionBody
  | [] => none
  | t :: ts =>
    if t.isOperator "\x7b" then some (bodyFrom sourceLength (index + 1) t ts) else none

/-- Attributes are read up to their end, where the body begins if it is a brace. -/
theorem attributes_eq (sourceLength index parens : Nat) (m : Mutability) (ts : List Token) :
    attributes sourceLength index parens m ts
      = (mutabilityBehind parens m (attributeTokens parens ts),
        bodyAt? sourceLength (index + (attributeTokens parens ts).length)
          (attributeEnding parens ts)) := by
  induction ts generalizing index parens m with
  | nil => rfl
  | cons t ts ih =>
      rw [attributes_cons, attributeTokens, attributeEnding]
      split
      · rfl
      · rw [ih, List.length_cons, Nat.add_assoc index 1, Nat.add_comm 1]
        rfl

/-! ## Functions -/

/-- The tokens of a file, cut at the parts of a function. -/
@[ext] structure FunctionParts where
  /-- The tokens in front of the name, the keyword `function` included. -/
  before : List Token
  /-- The name, or the keyword where there is no name. -/
  name : Token
  opener : Token
  parameters : List Token
  closer : Token
  attributes : List Token
  /-- The brace of the body or the semicolon, with all that follows. -/
  ending : List Token

namespace FunctionParts

/-- The tokens behind the parameters. -/
def behind (p : FunctionParts) : List Token := p.attributes ++ p.ending

/-- The tokens in front of the attributes. -/
def front (p : FunctionParts) : List Token :=
  p.before ++ p.name :: p.opener :: (p.parameters ++ [p.closer])

def tokens (p : FunctionParts) : List Token := p.front ++ p.behind

/-- The name of a function has the keyword `function` in front of it. Other functions are named by
their keywords. -/
inductive Announced (before : List Token) (name : Token) : FunctionKind → Prop
  | function {keyword : Token} (hbefore : before.getLast? = some keyword)
      (hkeyword : FunctionKind.announced? keyword = some .function) (hname : name.isName = true) :
      Announced before name .function
  | special {kind : FunctionKind} (hkind : kind ≠ .function)
      (hname : FunctionKind.announced? name = some kind) : Announced before name kind

/-- The parts are those of a listed function, the first of the tokens standing at `index`. -/
structure Of (p : FunctionParts) (sourceLength index : Nat) (f : FunctionDeclaration) : Prop where
  announced : Announced p.before p.name f.kind
  name_eq : f.name = p.name.text
  offset_eq : f.offset = p.name.start
  opener : p.opener.isOperator "(" = true
  closer : Group.parentheses? (p.parameters ++ p.closer :: p.behind)
    = some ⟨p.parameters, p.closer, p.behind⟩
  paramTypes : f.paramTypes = parameterTypes p.parameters
  attributes : AttributesEnd 0 p.attributes p.ending
  mutability : f.mutability = mutabilityBehind 0 .nonpayable p.attributes
  body : f.body = bodyAt? sourceLength (index + p.front.length + p.attributes.length) p.ending

variable {p q : FunctionParts} {f : FunctionDeclaration} {sourceLength index : Nat}

theorem tokens_eq (p : FunctionParts) : p.tokens
    = p.before ++ p.name :: p.opener :: (p.parameters ++ p.closer :: p.behind) := by
  simp [tokens, front]

theorem Announced.cons {before : List Token} {name : Token} {kind : FunctionKind}
    (h : Announced before name kind) (t : Token) : Announced (t :: before) name kind := by
  cases h with
  | function hbefore hkeyword hname =>
      exact .function (by rw [List.getLast?_cons, hbefore, Option.getD_some]) hkeyword hname
  | special hkind hname => exact .special hkind hname

/-- One more token in front of everything. -/
def push (t : Token) (p : FunctionParts) : FunctionParts := { p with before := t :: p.before }

theorem tokens_push (t : Token) (p : FunctionParts) : (p.push t).tokens = t :: p.tokens := rfl

theorem Of.push (h : p.Of sourceLength (index + 1) f) (t : Token) :
    (p.push t).Of sourceLength index f where
  announced := h.announced.cons t
  name_eq := h.name_eq
  offset_eq := h.offset_eq
  opener := h.opener
  closer := h.closer
  paramTypes := h.paramTypes
  attributes := h.attributes
  mutability := h.mutability
  body := by
    have hlength : (p.push t).front.length = p.front.length + 1 := rfl
    rw [hlength, ← Nat.add_assoc, Nat.add_right_comm index]
    exact h.body

theorem exists_of_functionWith {kind : FunctionKind} {name : Token} {before : List Token}
    (hname : Announced before name kind)
    (h : functionWith sourceLength kind (index + before.length) name ts = some f) :
    ∃ p : FunctionParts, p.tokens = before ++ name :: ts ∧ p.Of sourceLength index f := by
  cases ts with
  | nil => cases h
  | cons opener ts =>
      rw [functionWith] at h
      split at h
      · next hopener =>
          cases hgroup : Group.parentheses? ts with
          | none => simp [hgroup] at h
          | some group =>
              rw [hgroup] at h
              simp only [attributes_eq] at h
              obtain rfl := Option.some.inj h
              have hbehind := attributeTokens_append_attributeEnding 0 group.rest
              have hsplit := Group.inside_append_of_close? hgroup
              refine ⟨⟨before, name, opener, group.inside, group.closer,
                attributeTokens 0 group.rest, attributeEnding 0 group.rest⟩, ?_, ?_⟩
              · simp only [tokens_eq, behind, hbehind, hsplit]
              · refine ⟨hname, rfl, rfl, hopener, ?_, rfl, attributesEnd_attributeTokens _ _, rfl,
                  ?_⟩
                · simp only [behind, hbehind, hsplit]
                  exact hgroup
                · have hlength : index + before.length + 2 + group.inside.length + 1 = index
                      + (before ++ name :: opener :: (group.inside ++ [group.closer])).length := by
                    simp only [List.length_append, List.length_cons, List.length_nil]
                    omega
                  simp only [hlength, front]
      · cases h

theorem exists_of_functionDeclaration?
    (h : functionDeclaration? sourceLength index ts = some f) :
    ∃ p : FunctionParts, p.tokens = ts ∧ p.Of sourceLength index f := by
  unfold functionDeclaration? at h
  split at h
  · cases h
  · next t ts =>
      split at h
      · cases h
      · next name ts hkind =>
          split at h
          · next hname =>
              have hannounced : Announced [t] name .function := .function rfl hkind hname
              exact exists_of_functionWith hannounced h
          · cases h
      · cases h
      · next behind _ _ kind hkind hnamed hbare =>
          -- the earlier cases have taken the keyword `function`
          have hspecial : kind ≠ .function := by
            rintro rfl
            cases behind with
            | nil => exact hbare rfl rfl
            | cons name behind => exact hnamed name behind rfl rfl
          have hannounced : Announced [] t kind := .special hspecial hkind
          exact exists_of_functionWith hannounced h

/-- **A listed function has its parts among the tokens.** -/
theorem exists_of_mem_functionDeclarations
    (h : f ∈ functionDeclarations sourceLength index ts) :
    ∃ p : FunctionParts, p.tokens = ts ∧ p.Of sourceLength index f := by
  induction ts generalizing index with
  | nil => cases h
  | cons t ts ih =>
      rw [functionDeclarations] at h
      rcases List.mem_append.mp h with h | h
      · exact exists_of_functionDeclaration? (Option.mem_toList.mp h)
      · obtain ⟨p, htokens, hof⟩ := ih h
        exact ⟨p.push t, by rw [tokens_push, htokens], hof.push t⟩

/-- **A function has its parts in one way only**, as its name is known by its place. -/
theorem Of.unique (hordered : Lexer.Ordered ts) (hp : p.Of sourceLength index f)
    (hq : q.Of sourceLength index f) (htokens : p.tokens = ts) (htokens' : q.tokens = ts) :
    p = q := by
  rw [tokens_eq] at htokens htokens'
  -- no two tokens stand at one place, so the names are the same token, which cuts in one way
  have hname : p.name = q.name := hordered.eq_of_start_eq (by simp [← htokens])
    (by simp [← htokens']) (hp.offset_eq.symm.trans hq.offset_eq)
  rw [← hname] at htokens'
  obtain ⟨hbefore, hbehind⟩ :=
    Group.eq_of_nodup hordered.nodup htokens.symm htokens'.symm
  obtain ⟨hopener, hgroup⟩ := List.cons.inj hbehind
  have hcloser := hp.closer
  rw [hgroup, hq.closer] at hcloser
  obtain ⟨hparameters, hcloser, hrest⟩ := Group.mk.inj (Option.some.inj hcloser)
  have hattributes : p.attributes = q.attributes := by
    rw [← hp.attributes.attributeTokens_eq, ← hq.attributes.attributeTokens_eq]
    exact congrArg (attributeTokens 0) hrest.symm
  have hending : p.ending = q.ending := by
    have hcut : q.attributes ++ p.ending = q.attributes ++ q.ending := by
      rw [← hattributes]
      exact hrest.symm.trans (congrArg (· ++ q.ending) hattributes.symm)
    exact List.append_cancel_left hcut
  exact FunctionParts.ext hbefore hname hopener hparameters.symm hcloser.symm hattributes hending

end FunctionParts

end SolidityTools

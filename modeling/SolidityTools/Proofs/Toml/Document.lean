import SolidityTools.Proofs.Toml.Value

set_option autoImplicit false

/-! # Written tables are read back

A table is written as a header and a line for each field. The reader goes from line to line
(`lines?_of_line`): the header opens a new table at the end of the entries, and each field is added
at the end of that table, since its key is not there yet.
-/

namespace SolidityTools

namespace Toml

/-! ## Entries -/

namespace Entries

theorem get?_append_of_get?_eq_none {front : Entries} {key : String} (h : front.get? key = none)
    (value : Value) (behind : Entries) :
    Entries.get? (front ++ (key, value) :: behind) key = some value := by
  have hfront : front.find? (·.1 == key) = none := by simpa [get?] using h
  rw [get?, List.find?_append, hfront, Option.none_or, List.find?_cons_of_pos (by simp)]
  rfl

theorem replace_append {front : Entries} {key : String} (h : front.get? key = none)
    (value value' : Value) :
    Entries.replace (front ++ [(key, value)]) key value' = front ++ [(key, value')] := by
  have hne : ∀ entry ∈ front, ¬(entry.1 == key) = true := by
    have hfront : front.find? (·.1 == key) = none := by simpa [get?] using h
    simpa using hfront
  rw [replace, List.map_append, List.map_singleton, if_pos (by simp)]
  congr 1
  calc front.map (fun entry => if entry.1 == key then (key, value') else entry)
      = front.map id := List.map_congr_left fun entry hentry => if_neg (hne entry hentry)
    _ = front := List.map_id front

end Entries

/-! ## Keys -/

/-- Whether a key can be written without quotes. -/
def isBareKey (key : String) : Bool := !key.toList.isEmpty && key.toList.all isKeyCharacter

theorem exists_of_isBareKey {key : String} (h : isBareKey key = true) :
    ∃ c w, key.toList = c :: w ∧ isKeyCharacter c = true := by
  rw [isBareKey, Bool.and_eq_true] at h
  cases hkey : key.toList with
  | nil => simp [hkey] at h
  | cons c w =>
      rw [hkey, List.all_cons, Bool.and_eq_true] at h
      exact ⟨c, w, rfl, h.2.1⟩

theorem ne_of_isKeyCharacter {c d : Char} (hc : isKeyCharacter c = true)
    (hd : isKeyCharacter d = false) : c ≠ d := by
  rintro rfl
  rw [hd] at hc
  cases hc

theorem skipBlanks_cons {c : Char} (hspace : c ≠ ' ') (htab : c ≠ '\t') (cs : List Char) :
    skipBlanks (c :: cs) = c :: cs :=
  List.dropWhile_cons_of_neg (by simp [hspace, htab])

theorem skipBlanks_key {key : String} (h : isBareKey key = true) (X : List Char) :
    skipBlanks (key.toList ++ X) = key.toList ++ X := by
  obtain ⟨c, w, hkey, hc⟩ := exists_of_isBareKey h
  rw [hkey, List.cons_append]
  exact skipBlanks_cons (ne_of_isKeyCharacter hc (by decide))
    (ne_of_isKeyCharacter hc (by decide)) _

/-- A key of one part is read up to the next character that is not blank. -/
theorem key?_append {key : String} (h : isBareKey key = true) (steps : Nat) {X Y : List Char}
    {c : Char} (hX : ∀ d ∈ X.head?, isKeyCharacter d = false) (hskip : skipBlanks X = c :: Y)
    (hc : c ≠ '.') : key? (steps + 1) (key.toList ++ X) = some ([key], c :: Y) := by
  have hpart : keyPart? (key.toList ++ X) = some (key, X) := by
    have hall : ∀ d ∈ key.toList, isKeyCharacter d = true := by
      rw [isBareKey, Bool.and_eq_true] at h
      exact List.all_eq_true.mp h.2
    have htake : (key.toList ++ X).takeWhile isKeyCharacter = key.toList := by
      rw [List.takeWhile_append_of_pos hall]
      cases X with
      | nil => simp
      | cons d X => simp [hX d rfl]
    obtain ⟨d, w, hkey, -⟩ := exists_of_isBareKey h
    rw [keyPart?, htake]
    split
    · next hnil =>
        rw [hnil] at hkey
        cases hkey
    · rw [String.ofList_toList, List.drop_left]
  rw [key?, skipBlanks_key h, hpart]
  simp only [Option.bind_eq_bind, Option.bind_some, hskip]
  split
  · next heq => exact absurd (List.cons.inj heq).1 hc
  · rfl

/-! ## Fields -/

def entriesOf (fields : List (String × WrittenValue)) : Entries :=
  fields.map fun field => (field.1, field.2.value)

theorem get?_entriesOf_eq_none {fields : List (String × WrittenValue)} {key : String}
    (h : key ∉ fields.map Prod.fst) : Entries.get? (entriesOf fields) key = none := by
  rw [Entries.get?, Option.map_eq_none_iff, List.find?_eq_none]
  intro entry hentry heq
  obtain ⟨field, hfield, rfl⟩ := List.mem_map.mp hentry
  exact h (List.mem_map.mpr ⟨field, hfield, beq_iff_eq.mp heq⟩)

/-- What is asked of the fields of a table: their keys are bare and different. -/
structure Writable (fields : List (String × WrittenValue)) : Prop where
  isBareKey : ∀ field ∈ fields, isBareKey field.1 = true
  nodup : (fields.map Prod.fst).Nodup

theorem writable_of_keys {fields : List (String × WrittenValue)} (keys : List String)
    (h : fields.map Prod.fst = keys) (hbare : ∀ key ∈ keys, isBareKey key = true)
    (hnodup : keys.Nodup) : Writable fields where
  isBareKey field hfield := hbare field.1 (h ▸ List.mem_map_of_mem hfield)
  nodup := h ▸ hnodup

/-- Some of the fields may be left out. -/
theorem Writable.filter {fields : List (String × WrittenValue)} (h : Writable fields)
    (p : String × WrittenValue → Bool) : Writable (fields.filter p) where
  isBareKey field hfield := h.isBareKey field (List.mem_of_mem_filter hfield)
  nodup := h.nodup.sublist (List.filter_sublist.map Prod.fst)

/-! ## Lines -/

namespace Document

/-- At the end of the file everything has been read. -/
theorem lines?_nil (document : Document) (steps : Nat) :
    document.lines? steps [] = some document := by
  cases steps with
  | zero => rfl
  | succ steps => rfl

/-- The reader goes on behind the line end. -/
theorem lines?_of_line {document document' : Document} {cs rest : List Char}
    (h : document.line? cs = some (document', '\n' :: rest)) (hcs : cs ≠ []) (steps : Nat) :
    document.lines? (steps + 1) cs = document'.lines? steps rest := by
  obtain ⟨c, cs, rfl⟩ := List.exists_cons_of_ne_nil hcs
  rw [lines?, h]
  · rfl
  · exact List.cons_ne_nil c cs

theorem line?_newline (document : Document) (rest : List Char) :
    document.line? ('\n' :: rest) = some (document, '\n' :: rest) := rfl

/-- A header opens a new table at the end. -/
theorem line?_header {entries : Entries} {name : String} (hname : isBareKey name = true)
    (hnew : entries.get? name = none) (current : List String) (rest : List Char) :
    line? ⟨entries, current⟩ ('[' :: (name.toList ++ ']' :: '\n' :: rest))
      = some (⟨entries ++ [(name, .table .header [])], [name]⟩, '\n' :: rest) := by
  have hkey : ∀ steps, key? (steps + 1) (name.toList ++ ']' :: '\n' :: rest)
      = some ([name], ']' :: '\n' :: rest) :=
    fun steps => key?_append hname steps (by simp; decide) rfl (by decide)
  have hheader : header? [']'] (name.toList ++ ']' :: '\n' :: rest)
      = some ([name], '\n' :: rest) := by
    rw [header?, hkey]
    rfl
  obtain ⟨c, w, hc, hbare⟩ := exists_of_isBareKey hname
  have hopen : openTable [] name .header entries
      = some (entries ++ [(name, .table .header [])]) := by
    rw [openTable, changeAlong, hnew]
    rfl
  rw [line?, skipBlanks_cons (by decide) (by decide)]
  split
  · next heq =>
      -- the name does not begin with a bracket
      rw [hc, List.cons_append] at heq
      exact absurd (List.cons.inj (List.cons.inj heq).2).1
        (ne_of_isKeyCharacter hbare (by decide))
  · next heq =>
      obtain rfl := (List.cons.inj heq).2
      rw [hheader]
      simp only [Option.bind_eq_bind, Option.bind_some]
      show (openTable [] name .header entries).bind _ = _
      rw [hopen]
      rfl
  · next hne => exact absurd rfl (hne _)

theorem skipBlanks_text (value : WrittenValue) (X : List Char) :
    skipBlanks (' ' :: (value.text ++ X)) = value.text ++ X := by
  have hfirst : ∃ c w, value.text = c :: w ∧ c ≠ ' ' ∧ c ≠ '\t' := by
    cases value with
    | word n =>
        have hdigits : (WrittenValue.word n).text = Nat.toDigits 10 n.toNat := by
          rw [WrittenValue.text, Nat.toString_eq_repr, Nat.toList_repr]
        obtain ⟨d, ds, hds⟩ := List.exists_cons_of_ne_nil (@Nat.toDigits_ne_nil n.toNat 10)
        have hd : d.isDigit = true :=
          Nat.isDigit_of_mem_toDigits (by decide) (by decide) (hds ▸ List.mem_cons_self)
        refine ⟨d, ds, by rw [hdigits, hds], ?_, ?_⟩
        · rintro rfl
          cases hd
        · rintro rfl
          cases hd
    | truth b =>
        cases b with
        | true => exact ⟨'t', "rue".toList, rfl, by decide, by decide⟩
        | false => exact ⟨'f', "alse".toList, rfl, by decide, by decide⟩
    | texts items =>
        rcases items with _ | ⟨item, _ | ⟨next, items⟩⟩
        · exact ⟨'[', _, rfl, by decide, by decide⟩
        · exact ⟨'[', _, rfl, by decide, by decide⟩
        · exact ⟨'[', _, rfl, by decide, by decide⟩
  obtain ⟨c, w, htext, hspace, htab⟩ := hfirst
  rw [htext, List.cons_append]
  exact skipBlanks_cons hspace htab _

/-- A new key is added to the last table. -/
theorem changeOpened_assign {front inner : Entries} {name key : String}
    (hname : front.get? name = none) (hnew : inner.get? key = none) (value : Value) :
    changeOpened (assign [] key value) [name] .header (front ++ [(name, .table .header inner)])
      = some (front ++ [(name, .table .header (inner ++ [(key, value)]))]) := by
  have hassign : assign [] key value .header inner = some (inner ++ [(key, value)]) := by
    rw [assign, changeAlong, hnew]
    rfl
  rw [changeOpened, Entries.get?_append_of_get?_eq_none hname]
  simp only [changeOpened, hassign, Option.bind_eq_bind, Option.bind_some,
    Entries.replace_append hname]

/-- The line of a field adds it at the end of the last table. -/
theorem line?_writeField {front inner : Entries} {name key : String} (hkey : isBareKey key = true)
    (hname : front.get? name = none) (hnew : inner.get? key = none) (value : WrittenValue)
    (rest : List Char) :
    line? ⟨front ++ [(name, .table .header inner)], [name]⟩ (writeField key value ++ rest)
      = some (⟨front ++ [(name, .table .header (inner ++ [(key, value.value)]))], [name]⟩,
          '\n' :: rest) := by
  have htext : writeField key value ++ rest
      = key.toList ++ ' ' :: '=' :: ' ' :: (value.text ++ '\n' :: rest) := by
    simp [writeField]
  have hread : ∀ steps, key? (steps + 1) (writeField key value ++ rest)
      = some ([key], '=' :: ' ' :: (value.text ++ '\n' :: rest)) := by
    intro steps
    rw [htext]
    exact key?_append hkey steps (by simp; decide) rfl (by decide)
  have hvalue : value? depthLimit (2 * (' ' :: (value.text ++ '\n' :: rest)).length + 2)
        (skipBlanks (' ' :: (value.text ++ '\n' :: rest)))
      = some (value.value, '\n' :: rest) := by
    rw [skipBlanks_text]
    refine value?_text value rest ?_
    rw [List.length_cons, List.length_append]
    omega
  have hsplit : splitKey? [key] = some ([], key) := rfl
  obtain ⟨c, w, hc, hbare⟩ := exists_of_isBareKey hkey
  have hbracket : c ≠ '[' := ne_of_isKeyCharacter hbare (by decide)
  have hline : writeField key value ++ rest
      = c :: (w ++ (" = ".toList ++ (value.text ++ '\n' :: rest))) := by
    rw [htext, hc]
    rfl
  have hskip : skipBlanks (writeField key value ++ rest) = writeField key value ++ rest := by
    rw [htext]
    exact skipBlanks_key hkey _
  rw [line?, hskip]
  split
  · next heq =>
      rw [hline] at heq
      exact absurd (List.cons.inj heq).1 hbracket
  · next heq =>
      rw [hline] at heq
      exact absurd (List.cons.inj heq).1 hbracket
  · have hnext : nextLine? false (writeField key value ++ rest) = none := by
      rw [hline, nextLine?]
      · simp [ne_of_isKeyCharacter hbare (by decide : isKeyCharacter '\n' = false),
          ne_of_isKeyCharacter hbare (by decide : isKeyCharacter '#' = false),
          ne_of_isKeyCharacter hbare (by decide : isKeyCharacter ' ' = false),
          ne_of_isKeyCharacter hbare (by decide : isKeyCharacter '\t' = false)]
      · exact fun _ h => absurd h (ne_of_isKeyCharacter hbare (by decide))
    rw [hnext, hread]
    simp only [Option.isSome_none, Option.bind_eq_bind, Option.bind_some, hsplit, hvalue,
      changeOpened_assign hname hnew]
    rfl

/-! ## Tables -/

/-- The lines of some fields add them at the end of the last table, one by one. -/
theorem lines?_fields {front : Entries} {name : String} (hname : front.get? name = none)
    (before : List (String × WrittenValue)) {fields : List (String × WrittenValue)}
    (h : Writable (before ++ fields)) (steps : Nat) (rest : List Char) :
    lines? ⟨front ++ [(name, .table .header (entriesOf before))], [name]⟩ (steps + fields.length)
        (fields.flatMap (fun (key, value) => writeField key value) ++ rest)
      = lines? ⟨front ++ [(name, .table .header (entriesOf (before ++ fields)))], [name]⟩ steps
          rest := by
  induction fields generalizing before with
  | nil =>
      rw [List.append_nil]
      rfl
  | cons field fields ih =>
      obtain ⟨key, value⟩ := field
      have hsplit : before ++ (key, value) :: fields = (before ++ [(key, value)]) ++ fields := by
        simp
      have hkey : isBareKey key = true :=
        h.isBareKey (key, value) (List.mem_append_right _ List.mem_cons_self)
      have hnew : key ∉ before.map Prod.fst := by
        have hnodup := h.nodup
        rw [List.map_append, List.map_cons, List.nodup_append] at hnodup
        exact fun hmem => hnodup.2.2 key hmem key List.mem_cons_self rfl
      have hline := line?_writeField hkey hname (get?_entriesOf_eq_none hnew) value
        (fields.flatMap (fun (key, value) => writeField key value) ++ rest)
      have hentries : entriesOf before ++ [(key, value.value)]
          = entriesOf (before ++ [(key, value)]) := by
        rw [entriesOf, entriesOf, List.map_append]
        rfl
      rw [hsplit] at h ⊢
      rw [List.flatMap_cons, List.append_assoc, List.length_cons, ← Nat.add_assoc,
        lines?_of_line hline, hentries]
      · exact ih (before ++ [(key, value)]) h
      · obtain ⟨c, w, hc, -⟩ := exists_of_isBareKey hkey
        simp [writeField, hc]

/-- **A written table is read back** as one more entry. -/
theorem lines?_writeTable {front : Entries} {name : String} (hname : front.get? name = none)
    (hbare : isBareKey name = true) {fields : List (String × WrittenValue)} (h : Writable fields)
    (current : List String) (steps : Nat) (rest : List Char) :
    lines? ⟨front, current⟩ (steps + fields.length + 1) (writeTable name fields ++ rest)
      = lines? ⟨front ++ [(name, .table .header (entriesOf fields))], [name]⟩ steps rest := by
  have htext : writeTable name fields ++ rest
      = '[' :: (name.toList ++ ']' :: '\n' ::
          (fields.flatMap (fun (key, value) => writeField key value) ++ rest)) := by
    simp [writeTable]
  rw [htext, lines?_of_line (line?_header hbare hname current _) (List.cons_ne_nil _ _)]
  exact lines?_fields hname [] h steps rest

/-- Every step of the reader has a character of its own. -/
theorem length_lt_length_writeTable (name : String) (fields : List (String × WrittenValue)) :
    fields.length + 1 ≤ (writeTable name fields).length := by
  have hfields : fields.length
      ≤ (fields.flatMap fun field => writeField field.1 field.2).length := by
    induction fields with
    | nil => exact Nat.le_refl _
    | cons field fields ih =>
        have hpos : 1 ≤ (writeField field.1 field.2).length := by
          simp only [writeField, List.length_append, List.length_singleton]
          omega
        rw [List.flatMap_cons, List.length_append, List.length_cons]
        omega
  have htext : writeTable name fields
      = '[' :: name.toList ++ [']', '\n']
          ++ fields.flatMap fun field => writeField field.1 field.2 :=
    rfl
  rw [htext]
  simp only [List.length_append, List.length_cons]
  omega

end Document

end Toml

end SolidityTools

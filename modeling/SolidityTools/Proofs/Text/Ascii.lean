import SolidityTools.Proofs.Text.Bytes

set_option autoImplicit false

/-! # Bytes that are characters

A byte below 128 is a character by itself, and a byte of a longer encoding never is
(`utf8EncodeChar_cases`). So a search over the bytes of a text for ASCII characters finds what a
search over its characters finds: a byte in the middle of a character is never taken for one.
-/

namespace SolidityTools.Text

/-- The character that a byte is by itself. -/
def characterOf? (b : UInt8) : Option Char :=
  if b.toNat < 128 then some (Char.ofNat b.toNat) else none

/-- Whether a byte is a character that satisfies `p`. -/
def byteIs (p : Char → Bool) (b : UInt8) : Bool := (characterOf? b).any p

theorem characterOf?_ofNat {n : Nat} (h : n < 128) :
    characterOf? (UInt8.ofNat n) = some (Char.ofNat n) := by
  have hn : (UInt8.ofNat n).toNat = n := toNat_byte (by omega)
  rw [characterOf?, hn, if_pos h]

theorem characterOf?_ofNat_eq_none {n : Nat} (hle : 128 ≤ n) (hlt : n < 256) :
    characterOf? (UInt8.ofNat n) = none := by
  have hn : (UInt8.ofNat n).toNat = n := toNat_byte hlt
  rw [characterOf?, hn, if_neg (by omega)]

/-- A character is a byte, or it has several bytes none of which is a character. -/
theorem utf8EncodeChar_cases (c : Char) :
    (∃ b, String.utf8EncodeChar c = [b] ∧ characterOf? b = some c)
      ∨ c.utf8Size ≠ 1 ∧ ∀ b ∈ String.utf8EncodeChar c, characterOf? b = none := by
  by_cases hv : c.val.toNat ≤ 127
  · left
    refine ⟨UInt8.ofNat c.val.toNat, by rw [String.utf8EncodeChar.eq_1, if_pos hv], ?_⟩
    rw [characterOf?_ofNat (by omega)]
    exact congrArg some (Char.ofNat_toNat c)
  · right
    constructor
    · rw [← String.length_utf8EncodeChar, String.utf8EncodeChar.eq_1, if_neg hv]
      split_ifs <;> simp
    · -- the first byte tells the length, and each further byte has the upper bits `10`
      rw [String.utf8EncodeChar.eq_1, if_neg hv]
      split_ifs <;>
        simp (disch := omega) only [List.mem_cons, List.not_mem_nil, or_false, forall_eq_or_imp,
          forall_eq, characterOf?_ofNat_eq_none, and_true]

/-- Behind the first byte of a character no byte of it is a character. -/
theorem exists_utf8EncodeChar (c : Char) :
    ∃ b M, String.utf8EncodeChar c = b :: M ∧ ∀ m ∈ M, characterOf? m = none := by
  rcases utf8EncodeChar_cases c with ⟨b, hb, -⟩ | ⟨-, hall⟩
  · exact ⟨b, [], hb, fun m hm => by cases hm⟩
  · obtain ⟨b, M, hM⟩ := List.exists_cons_of_ne_nil (@String.utf8EncodeChar_ne_nil c)
    exact ⟨b, M, hM, fun m hm => hall m (hM ▸ List.mem_cons_of_mem b hm)⟩

/-! ## Searching bytes -/

/-- Only characters of one byte satisfy `p`. -/
def AsciiOnly (p : Char → Bool) : Prop := ∀ c, p c = true → c.utf8Size = 1

theorem AsciiOnly.of_lt {p : Char → Bool} (h : ∀ c : Char, p c = true → c.toNat < 128) :
    AsciiOnly p := by
  intro c hc
  have hlt := h c hc
  rw [Char.utf8Size_eq_one_iff, UInt32.le_iff_toNat_le]
  show c.toNat ≤ 127
  omega

theorem AsciiOnly.or {p q : Char → Bool} (hp : AsciiOnly p) (hq : AsciiOnly q) :
    AsciiOnly fun c => p c || q c := by
  intro c hc
  rcases Bool.or_eq_true _ _ |>.mp hc with h | h
  · exact hp c h
  · exact hq c h

theorem asciiOnly_beq {d : Char} (hd : d.utf8Size = 1) : AsciiOnly (· == d) := by
  intro c hc
  rw [eq_of_beq hc]
  exact hd

section Search

variable {p : Char → Bool}

theorem byteIs_of_characterOf? {b : UInt8} {c : Char} (h : characterOf? b = some c) :
    byteIs p b = p c := by
  rw [byteIs, h]
  rfl

theorem byteIs_of_characterOf?_eq_none {b : UInt8} (h : characterOf? b = none) :
    byteIs p b = false := by
  rw [byteIs, h]
  rfl

/-- The first byte of a text. -/
theorem head?_bytes (hp : AsciiOnly p) (cs : List Char) :
    (bytes cs).head?.any (byteIs p) = cs.head?.any p := by
  cases cs with
  | nil => rfl
  | cons c cs =>
      rw [bytes_cons]
      rcases utf8EncodeChar_cases c with ⟨b, hb, hc⟩ | ⟨hsize, hall⟩
      · rw [hb]
        exact byteIs_of_characterOf? hc
      · obtain ⟨b, X, hX⟩ := List.exists_cons_of_ne_nil (@String.utf8EncodeChar_ne_nil c)
        have hbyte : byteIs p b = false :=
          byteIs_of_characterOf?_eq_none (hall b (hX ▸ List.mem_cons_self))
        have hc : p c = false := by
          rw [Bool.eq_false_iff]
          exact fun h => hsize (hp c h)
        rw [hX]
        exact hbyte.trans hc.symm

theorem takeWhile_bytes (hp : AsciiOnly p) (cs : List Char) :
    (bytes cs).takeWhile (byteIs p) = bytes (cs.takeWhile p) := by
  induction cs with
  | nil => rfl
  | cons c cs ih =>
      rw [bytes_cons]
      rcases utf8EncodeChar_cases c with ⟨b, hb, hc⟩ | ⟨hsize, hall⟩
      · have hbyte : byteIs p b = p c := byteIs_of_characterOf? hc
        rw [hb, List.singleton_append, List.takeWhile_cons, List.takeWhile_cons, hbyte, ih]
        split
        · rw [bytes_cons, hb]
          rfl
        · rfl
      · obtain ⟨b, X, hX⟩ := List.exists_cons_of_ne_nil (@String.utf8EncodeChar_ne_nil c)
        have hbyte : byteIs p b = false :=
          byteIs_of_characterOf?_eq_none (hall b (hX ▸ List.mem_cons_self))
        have hc : ¬p c = true := fun h => hsize (hp c h)
        rw [hX, List.cons_append, List.takeWhile_cons_of_neg (by simp [hbyte]),
          List.takeWhile_cons_of_neg hc]
        rfl

end Search

end SolidityTools.Text

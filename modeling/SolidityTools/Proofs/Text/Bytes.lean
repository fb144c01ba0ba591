import SolidityTools.Text.Offset
import Mathlib.Data.List.Lex
import Mathlib.Data.String.Basic

set_option autoImplicit false

/-! # The bytes of a text

A text is stored as the UTF-8 encodings of its characters, one behind the other. The first byte of
an encoding tells how long it is, and the more bytes there are, the greater is the first one; the
digits of the code point follow from the most to the least significant. So of two characters the
smaller one has the smaller encoding (`utf8EncodeChar_append_lt`), and texts that are ordered
character by character are so byte by byte (`bytes_lt_bytes`).
-/

namespace SolidityTools.Text

def bytes (cs : List Char) : List UInt8 := cs.flatMap String.utf8EncodeChar

theorem bytes_cons (c : Char) (cs : List Char) :
    bytes (c :: cs) = String.utf8EncodeChar c ++ bytes cs := List.flatMap_cons

theorem bytes_append (as bs : List Char) : bytes (as ++ bs) = bytes as ++ bytes bs :=
  List.flatMap_append

theorem length_bytes (cs : List Char) : (bytes cs).length = byteLength cs := by
  induction cs with
  | nil => rfl
  | cons c cs ih => rw [bytes_cons, List.length_append, String.length_utf8EncodeChar, ih,
      byteLength_cons]

theorem length_le_byteLength (cs : List Char) : cs.length ≤ byteLength cs := by
  induction cs with
  | nil => exact Nat.le_refl 0
  | cons c cs ih =>
      have hpos : 0 < c.utf8Size := c.utf8Size_pos
      rw [List.length_cons, byteLength_cons]
      omega

/-! ## The order of bytes -/

theorem toNat_byte {n : Nat} (h : n < 256) : (UInt8.ofNat n).toNat = n :=
  UInt8.toNat_ofNat_of_lt' h

/-- A code point has at most 21 bits. -/
theorem toNat_val_lt (c : Char) : c.val.toNat < 0x110000 := by
  have hvalid := c.valid
  simp only [UInt32.isValidChar, Nat.isValidChar] at hvalid
  omega

/-- A smaller character has a smaller encoding, whatever follows. There is a case for each pair of
lengths; in encodings of one length the first digits that differ decide. -/
theorem utf8EncodeChar_append_lt {c d : Char} (h : c < d) (X Y : List UInt8) :
    String.utf8EncodeChar c ++ X < String.utf8EncodeChar d ++ Y := by
  have hlt : c.val.toNat < d.val.toNat := h
  have hc := toNat_val_lt c
  have hd := toNat_val_lt d
  -- six bits are one digit
  have htwo : ∀ n : Nat, n / 4096 = n / 64 / 64 := by omega
  have hthree : ∀ n : Nat, n / 262144 = n / 64 / 64 / 64 := by omega
  rw [String.utf8EncodeChar.eq_1, String.utf8EncodeChar.eq_1]
  generalize c.val.toNat = v at *
  generalize d.val.toNat = w at *
  simp only [htwo, hthree]
  split_ifs <;>
    simp (disch := omega) only [List.cons_append, List.nil_append, List.cons_lt_cons_iff,
      UInt8.lt_iff_toNat_lt, ← UInt8.toNat_inj, toNat_byte] <;>
    omega

/-- **A smaller text has the smaller bytes.** -/
theorem bytes_lt_bytes {as bs : List Char} (h : as < bs) : bytes as < bytes bs := by
  induction h with
  | nil =>
      rw [bytes_cons]
      obtain ⟨b, X, hX⟩ := List.exists_cons_of_ne_nil String.utf8EncodeChar_ne_nil
      rw [hX]
      exact List.Lex.nil
  | @cons c as bs _ ih =>
      rw [bytes_cons, bytes_cons]
      exact List.append_left_lt ih
  | rel h =>
      rw [bytes_cons, bytes_cons]
      exact utf8EncodeChar_append_lt h _ _

end SolidityTools.Text

set_option autoImplicit false

/-! # Byte offsets

Places in a source text are byte offsets into its UTF-8 encoding, while the program works on
characters. A character occupies one to four bytes, so an offset may point at a character or
inside one. The functions here split a text at an offset: everything that *starts* before the
offset comes first, so that an offset inside a character puts that character into the first
part.
-/

namespace SolidityTools.Text

/-- The number of bytes that a text occupies. -/
def byteLength : List Char → Nat
  | [] => 0
  | c :: cs => c.utf8Size + byteLength cs

@[simp] theorem byteLength_nil : byteLength [] = 0 := rfl

@[simp] theorem byteLength_cons (c : Char) (cs : List Char) :
    byteLength (c :: cs) = c.utf8Size + byteLength cs := rfl

@[simp] theorem byteLength_append (as bs : List Char) :
    byteLength (as ++ bs) = byteLength as + byteLength bs := by
  induction as with
  | nil => simp
  | cons c cs ih => simp [ih, Nat.add_assoc]

/-- The characters that start before an offset. -/
def takeBytes : Nat → List Char → List Char
  | 0, _ => []
  | _, [] => []
  | n + 1, c :: cs => c :: takeBytes (n + 1 - c.utf8Size) cs

/-- The characters that start at an offset or after it. -/
def dropBytes : Nat → List Char → List Char
  | 0, cs => cs
  | _, [] => []
  | n + 1, c :: cs => dropBytes (n + 1 - c.utf8Size) cs

@[simp] theorem takeBytes_zero (cs : List Char) : takeBytes 0 cs = [] := by
  simp [takeBytes]

@[simp] theorem dropBytes_zero (cs : List Char) : dropBytes 0 cs = cs := by
  simp [dropBytes]

/-- Splitting at an offset loses nothing. -/
theorem takeBytes_append_dropBytes (n : Nat) (cs : List Char) :
    takeBytes n cs ++ dropBytes n cs = cs := by
  induction cs generalizing n with
  | nil => cases n <;> rfl
  | cons c cs ih => cases n <;> simp [takeBytes, dropBytes, ih]

/-- The offset just past a prefix cuts that prefix off. -/
theorem takeBytes_byteLength_append (as bs : List Char) :
    takeBytes (byteLength as) (as ++ bs) = as := by
  induction as with
  | nil => simp
  | cons c cs ih =>
    have hc : 0 < c.utf8Size := c.utf8Size_pos
    have hpos : 0 < byteLength (c :: cs) := by rw [byteLength_cons]; omega
    obtain ⟨n, hn⟩ := Nat.exists_eq_add_of_lt hpos
    rw [Nat.zero_add] at hn
    have hr : n + 1 - c.utf8Size = byteLength cs := by
      rw [← hn, byteLength_cons]; omega
    rw [hn, List.cons_append, takeBytes, hr, ih]

/-- The offset just past a prefix leaves what follows it. -/
theorem dropBytes_byteLength_append (as bs : List Char) :
    dropBytes (byteLength as) (as ++ bs) = bs := by
  have h := takeBytes_append_dropBytes (byteLength as) (as ++ bs)
  rw [takeBytes_byteLength_append] at h
  exact List.append_cancel_left h

/-- The text with the bytes from `start` up to `stop` replaced. -/
def replaceBytes (cs : List Char) (start stop : Nat) (new : List Char) : List Char :=
  takeBytes start cs ++ new ++ dropBytes stop cs

end SolidityTools.Text

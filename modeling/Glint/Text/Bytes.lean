/-!
# Byte positions in a text

A text is a list of characters, but every position that a message or a record
mentions counts the bytes of its UTF-8 form. The functions here cut a text at
such a position. A position inside a character cuts before that character when
a part is dropped and after it when a part is taken, so the results are exact
at the boundaries of characters and defined everywhere.

## Main definitions

* `Text.byteLength` — the number of bytes of a text
* `Text.takeBytes`, `Text.dropBytes` — the text before and from a byte position
* `Text.slice` — the text between two byte positions

## Main results

* `Text.byteLength_eq_utf8ByteSize` — the length of a text is the size of its string
* `Text.takeBytes_append`, `Text.dropBytes_append` — a cut at a boundary gives
  back the two parts
-/

namespace Glint.Text

/-- The number of bytes of a text in UTF-8. -/
def byteLength : List Char → Nat
  | [] => 0
  | c :: cs => c.utf8Size + byteLength cs

/-- The characters that start before byte `n`. -/
def takeBytes (n : Nat) : List Char → List Char
  | [] => []
  | c :: cs => if n = 0 then [] else c :: takeBytes (n - c.utf8Size) cs

/-- The characters that start at or after byte `n`. -/
def dropBytes (n : Nat) : List Char → List Char
  | [] => []
  | c :: cs => if n = 0 then c :: cs else dropBytes (n - c.utf8Size) cs

/-- The text from byte `start` up to byte `stop`. -/
def slice (start stop : Nat) (cs : List Char) : List Char :=
  takeBytes (stop - start) (dropBytes start cs)

@[simp] theorem byteLength_nil : byteLength [] = 0 := rfl

@[simp] theorem byteLength_cons (c : Char) (cs : List Char) :
    byteLength (c :: cs) = c.utf8Size + byteLength cs := rfl

@[simp] theorem byteLength_append (as bs : List Char) :
    byteLength (as ++ bs) = byteLength as + byteLength bs := by
  induction as with
  | nil => simp
  | cons a as ih => simp [ih, Nat.add_assoc]

/-- The bytes of a text are those of the string that it makes up. -/
theorem byteLength_eq_utf8ByteSize (cs : List Char) :
    byteLength cs = (String.ofList cs).utf8ByteSize := by
  induction cs with
  | nil => rfl
  | cons c cs ih =>
    have h : String.ofList (c :: cs) = String.singleton c ++ String.ofList cs := by
      rw [← String.toList_inj]
      simp
    rw [h, String.utf8ByteSize_append, byteLength_cons, ih]
    simp

@[simp] theorem takeBytes_zero (cs : List Char) : takeBytes 0 cs = [] := by
  cases cs <;> simp [takeBytes]

@[simp] theorem dropBytes_zero (cs : List Char) : dropBytes 0 cs = cs := by
  cases cs <;> simp [dropBytes]

/-- Taking the bytes of a leading part gives that part. -/
theorem takeBytes_append (as bs : List Char) : takeBytes (byteLength as) (as ++ bs) = as := by
  induction as with
  | nil => simp
  | cons a as ih =>
    have ha := Nat.ne_of_gt a.utf8Size_pos
    simp [takeBytes, ha, ih]

/-- Dropping the bytes of a leading part gives what follows it. -/
theorem dropBytes_append (as bs : List Char) : dropBytes (byteLength as) (as ++ bs) = bs := by
  induction as with
  | nil => simp
  | cons a as ih =>
    have ha := Nat.ne_of_gt a.utf8Size_pos
    simp [dropBytes, ha, ih]

/-- The text between two boundaries is the part that lies between them. -/
theorem slice_append (as bs cs : List Char) :
    slice (byteLength as) (byteLength as + byteLength bs) (as ++ bs ++ cs) = bs := by
  rw [slice, List.append_assoc, dropBytes_append, Nat.add_sub_cancel_left, takeBytes_append]

end Glint.Text

import Glint.Error
import Glint.Word

/-!
# Members of a block

A block holds members, each with a type, a size and a byte offset. A member may
be an array of a fixed length, or one whose length the device learns at run
time; the latter is counted as one element.

## Main definitions

* `ArrayLength`, `Member` — a member of a block
* `Member.totalSize` — the size of a list of members
-/

namespace Glint

/-- The length of an array member. -/
inductive ArrayLength
  | fixed (count : UInt32)
  | runtime
  deriving DecidableEq, Repr, Inhabited

/-- A member of a block: its name and type, its size in bytes, the byte offset in the
block, and its array length if it is an array. -/
structure Member where
  name : String
  glslType : String
  size : UInt32
  offset : UInt32
  array? : Option ArrayLength
  deriving DecidableEq, Repr, Inhabited

/-- The size in bytes of a list of members. A size that is not a word is reported at the
byte position `at_`. -/
def Member.totalSize (members : List Member) (at_ : Nat) : Except ReflectError UInt32 :=
  match Word.total? (members.map Member.size) with
  | some size => .ok size
  | none => .error (.malformed at_ .blockTooLarge)

end Glint

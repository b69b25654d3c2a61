import Glint.Text.Split
import Glint.Token
import Glint.TypeEnv

/-!
# Packing the members of a block

The members of a block stand between semicolons, each as a type, a name and
perhaps an array length in brackets. They are packed without padding: every
member starts where the one before it ends.

## Main definitions

* `MemberShape` — what the tokens of one member say
* `Member.pack` — the members that a list of tokens declares
* `StructType.ofText` — the layout of a structure with given members
-/

namespace Glint

open Text

/-- What the tokens of a member say: its type, its name and its array length. -/
structure MemberShape where
  glslType : String
  name : String
  array? : Option ArrayLength
  deriving DecidableEq, Repr

namespace MemberShape

/-- The length of an array, which has to be a decimal number. -/
def readCount (t : Token) : Except ReflectError UInt32 :=
  match if t.kind == .number then decimal? t.text.toList else none with
  | some count => .ok count
  | none => .error (.malformed t.offset (.arrayLength t.text))

/-- The array length that follows the name of a member, if there is one. -/
def readArray (name : String) : List Token → Except ReflectError (Option ArrayLength)
  | [] => .ok none
  | [opening, closing] =>
    if opening.isPunct '[' && closing.isPunct ']' then .ok (some .runtime)
    else .error (.malformed opening.offset (.afterMember opening.text name))
  | [opening, count, closing] =>
    if opening.isPunct '[' && closing.isPunct ']' then
      (readCount count).map fun n => some (.fixed n)
    else .error (.malformed opening.offset (.afterMember opening.text name))
  | other :: _ => .error (.malformed other.offset (.afterMember other.text name))

/-- The shape of the member with a first token and the tokens that follow it. -/
def read (first : Token) : List Token → Except ReflectError MemberShape
  | [] => .error (.malformed first.offset .missingTypeAndName)
  | second :: rest =>
    if first.isIdent && second.isIdent then
      (readArray second.text rest).map fun array? => ⟨first.text, second.text, array?⟩
    else .error (.malformed first.offset .missingTypeAndName)

/-- The size of a member whose elements have a given size, if it is a word. -/
def size? (shape : MemberShape) (element : UInt32) : Option UInt32 :=
  match shape.array? with
  | some (.fixed count) => Word.mul? element count
  | some .runtime | none => some element

end MemberShape

namespace Member

/-- The members that a list of fields declares, packed from a byte offset on. An empty
field declares nothing. -/
def packFrom (env : TypeEnv) (offset : UInt32) :
    List (List Token) → Except ReflectError (List Member)
  | [] => .ok []
  | [] :: fields => packFrom env offset fields
  | (first :: more) :: fields => do
    let shape ← MemberShape.read first more
    let element ← env.byteSize shape.glslType
    let tooLarge := ReflectError.malformed first.offset (.memberTooLarge shape.name)
    match shape.size? element with
    | none => .error tooLarge
    | some size =>
      -- The end of a member is a word even if no other member starts there.
      match Word.add? offset size with
      | none => .error tooLarge
      | some next =>
        let members ← packFrom env next fields
        return ⟨shape.name, shape.glslType, size, offset, shape.array?⟩ :: members

/-- The members that a list of tokens declares. -/
def pack (env : TypeEnv) (ts : List Token) : Except ReflectError (List Member) :=
  packFrom env 0 (splitWhere (·.isPunct ';') ts)

/-- The members that a text declares. -/
def ofText (env : TypeEnv) (text : String) : Except ReflectError (List Member) :=
  pack env (Token.scan text)

end Member

/-- The layout of a structure whose members a text declares. -/
def StructType.ofText (env : TypeEnv) (text : String) : Except ReflectError StructType := do
  let members ← Member.ofText env text
  let size ← Member.totalSize members 0
  return ⟨size, members⟩

end Glint

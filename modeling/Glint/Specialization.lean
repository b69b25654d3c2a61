import Glint.Binary32
import Glint.Error
import Glint.Format

/-!
# Specialization constants

A specialization constant gets its value when the pipeline is built. The values of
a shader's constants are packed into one block of bytes, each at the offset of its
constant, with the lowest byte first.

## Main definitions

* `SpecConstant` — a specialization constant and its place in the data
* `SpecConstant.encode` — the bytes of a value
* `SpecData.ofValues` — the data for given values
-/

namespace Glint

/-- A specialization constant: its number, its name and type, and the bytes of the data
that it takes. -/
structure SpecConstant where
  id : UInt32
  name : String
  glslType : String
  scalar : ScalarType
  size : UInt32
  offset : UInt32
  deriving DecidableEq, Repr, Inhabited

/-- The bytes of a word, the lowest first. -/
def wordBytes (w : UInt32) : List UInt8 :=
  [w.toUInt8, (w >>> 8).toUInt8, (w >>> 16).toUInt8, (w >>> 24).toUInt8]

namespace SpecConstant

/-- The word that stands for a value of the constant. -/
def word (c : SpecConstant) (value : Int32) : UInt32 :=
  match c.scalar with
  | .int32 | .uint32 => value.toUInt32
  | .float32 => Binary32.ofInt value.toInt

/-- The bytes that stand for a value of the constant, as many as it has room for. -/
def encode (c : SpecConstant) (value : Int32) : List UInt8 :=
  (wordBytes (c.word value)).take c.size.toNat

/-- The byte after the constant. -/
def stop (c : SpecConstant) : UInt32 :=
  c.offset + c.size

end SpecConstant

/-- The constants of a shader and the bytes of their values. -/
structure SpecData where
  constants : List SpecConstant
  data : List UInt8
  deriving DecidableEq, Repr, Inhabited

namespace SpecData

/-- Replace the bytes from a position on. -/
def overwrite (start : Nat) (bytes data : List UInt8) : List UInt8 :=
  data.take start ++ bytes ++ data.drop (start + bytes.length)

/-- The number of bytes that the constants need. -/
def length (constants : List SpecConstant) : Nat :=
  (constants.map fun c => c.stop.toNat).foldl max 0

/-- A constant with the value given for it. -/
def valueOf (values : String → Option Int32) (c : SpecConstant) :
    Except ReflectError (SpecConstant × Int32) :=
  match values c.name with
  | some value => .ok (c, value)
  | none => .error (.missingValue c.name)

/-- Write the value of a constant into the data. -/
def write (data : List UInt8) (given : SpecConstant × Int32) : List UInt8 :=
  overwrite given.1.offset.toNat (given.1.encode given.2) data

/-- The data of the constants for given values. Every constant needs one; where constants
overlap, the later one stays. -/
def ofValues (constants : List SpecConstant) (values : String → Option Int32) :
    Except ReflectError SpecData := do
  -- All values are looked up before any data is made.
  let given ← constants.mapM (valueOf values)
  return ⟨constants, given.foldl write (List.replicate (length constants) 0)⟩

end SpecData

end Glint

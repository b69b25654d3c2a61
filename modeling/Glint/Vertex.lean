import Glint.TypeEnv

/-!
# Vertex attributes

Every vertex input reads from a buffer binding of its own, numbered after its
first location. An input that takes several slots, such as a matrix, gives one
attribute for each slot: all have the binding and the stride of the input, and
their locations and offsets go up slot by slot.

## Main definitions

* `VertexAttribute` — one slot of a vertex input
* `VertexAttribute.ofInput?` — the slots of an input
* `VertexBinding.ofAttributes` — the bindings that a list of attributes needs
-/

namespace Glint

/-- Whether a binding advances with every vertex or with every instance. -/
inductive InputRate
  | perVertex
  | perInstance
  deriving DecidableEq, Repr, Inhabited

namespace InputRate

/-- The name of a rate in a record. -/
def name : InputRate → String
  | .perVertex => "vertex"
  | .perInstance => "instance"

/-- The rate with a given name. -/
def ofName? (text : String) : Option InputRate :=
  [.perVertex, .perInstance].find? (·.name == text)

theorem ofName?_name (rate : InputRate) : ofName? rate.name = some rate := by
  cases rate <;> decide

end InputRate

/-- One slot of a vertex input. -/
structure VertexAttribute where
  name : String
  glslType : String
  binding : UInt32
  location : UInt32
  rate : InputRate
  stride : UInt32
  format : VertexFormat
  offset : UInt32
  deriving DecidableEq, Repr, Inhabited

/-- A buffer binding that vertex attributes read from. -/
structure VertexBinding where
  binding : UInt32
  stride : UInt32
  rate : InputRate
  deriving DecidableEq, Repr, Inhabited

namespace VertexAttribute

/-- The attribute in a slot of an input of a given type. -/
def ofSlot (location : UInt32) (glslType name : String) (type : ValueType) (slot : UInt32) :
    VertexAttribute :=
  { name := name
    glslType := glslType
    binding := location
    location := location + slot
    rate := .perVertex
    stride := type.size
    format := type.format
    offset := slot * type.slotStride }

/-- The attributes of an input at a location, one for each slot of its type, if all their
locations are words. -/
def ofInput? (location : UInt32) (glslType name : String) (type : ValueType) :
    Option (List VertexAttribute) :=
  -- The last location is one less than this sum.
  if location.toNat + type.slots.toNat ≤ UInt32.size then
    some ((List.range type.slots.toNat).map fun slot =>
      ofSlot location glslType name type (UInt32.ofNat slot))
  else none

/-- The attribute is the first slot of its input. -/
def opensBinding (a : VertexAttribute) : Bool :=
  a.location == a.binding

/-- The attribute, read once for each instance if its binding is one of those. -/
def withInstances (instanced : UInt32 → Bool) (a : VertexAttribute) : VertexAttribute :=
  if instanced a.binding then { a with rate := .perInstance } else a

/-- The binding that an attribute reads from. -/
def toBinding (a : VertexAttribute) : VertexBinding :=
  ⟨a.binding, a.stride, a.rate⟩

end VertexAttribute

/-- The bindings of a list of attributes, one for each first slot. -/
def VertexBinding.ofAttributes (attributes : List VertexAttribute) : List VertexBinding :=
  (attributes.filter VertexAttribute.opensBinding).map VertexAttribute.toBinding

end Glint

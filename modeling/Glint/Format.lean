/-!
# Vertex formats

A vertex attribute is fetched as one to four channels of 32 bits, all of the same
scalar type.

## Main definitions

* `ScalarType` — signed and unsigned integers and floating point numbers
* `VertexFormat` — a number of channels of a scalar type
* `VertexFormat.name`, `VertexFormat.ofName?` — a format by its name
-/

namespace Glint

/-- The 32-bit scalar types. -/
inductive ScalarType
  | float32
  | int32
  | uint32
  deriving DecidableEq, Repr, Inhabited

/-- The channels of a vertex format. -/
inductive Channels
  | r
  | rg
  | rgb
  | rgba
  deriving DecidableEq, Repr, Inhabited

/-- How a vertex attribute is fetched: its channels and their scalar type. -/
structure VertexFormat where
  channels : Channels
  scalar : ScalarType
  deriving DecidableEq, Repr, Inhabited

namespace ScalarType

/-- Every scalar type. -/
def all : List ScalarType :=
  [.float32, .int32, .uint32]

/-- The name of a scalar type in a record. -/
def name : ScalarType → String
  | .float32 => "float32"
  | .int32 => "int32"
  | .uint32 => "uint32"

/-- The scalar type with a given name. -/
def ofName? (text : String) : Option ScalarType :=
  all.find? (·.name == text)

theorem ofName?_name (scalar : ScalarType) : ofName? scalar.name = some scalar := by
  cases scalar <;> decide

/-- The last part of the names of the formats of a scalar type. -/
def formatTail : ScalarType → String
  | .float32 => "Sfloat"
  | .int32 => "Sint"
  | .uint32 => "Uint"

end ScalarType

namespace Channels

/-- Every choice of channels. -/
def all : List Channels :=
  [.r, .rg, .rgb, .rgba]

/-- The first part of the names of the formats with these channels. -/
def formatHead : Channels → String
  | .r => "R32"
  | .rg => "R32G32"
  | .rgb => "R32G32B32"
  | .rgba => "R32G32B32A32"

end Channels

namespace VertexFormat

/-- Every format. -/
def all : List VertexFormat :=
  Channels.all.flatMap fun channels => ScalarType.all.map fun scalar => ⟨channels, scalar⟩

/-- The name of a format: each channel with its width, then the scalar type. -/
def name (format : VertexFormat) : String :=
  format.channels.formatHead ++ format.scalar.formatTail

/-- The format with a given name. -/
def ofName? (text : String) : Option VertexFormat :=
  all.find? (·.name == text)

theorem ofName?_name (format : VertexFormat) : ofName? format.name = some format := by
  obtain ⟨channels, scalar⟩ := format
  cases channels <;> cases scalar <;> decide

end VertexFormat

end Glint

import Glint.Descriptor
import Glint.Format

/-!
# Types known to the reader of a shader

Names of types are resolved in an environment of three partial maps: value types
such as `vec3`, opaque types such as `sampler2D`, and structures that the caller
has laid out. Every size and format that a record mentions comes from here.

## Main definitions

* `ValueType` — size, scalar type and attribute slots of a value type
* `StructType` — size and members of a structure
* `TypeEnv` — the environment, and the ways to extend it
* `TypeEnv.glsl` — the environment of the shading language without structures
* `TypeEnv.byteSize`, `TypeEnv.valueType`, `TypeEnv.opaqueKind` — what a name resolves to
-/

namespace Glint

/-- What is known of a value type: its size in bytes, the scalar type and number of the
components in one attribute slot, the format of a slot, the number of locations it takes,
and the distance in bytes between two of its slots. -/
structure ValueType where
  size : UInt32
  scalar : ScalarType
  components : UInt32
  format : VertexFormat
  slots : UInt32
  slotStride : UInt32
  deriving DecidableEq, Repr, Inhabited

namespace ValueType

/-- A vector of 32-bit components. -/
def vector (scalar : ScalarType) (components : UInt32) (format : VertexFormat) : ValueType :=
  { size := components * 4
    scalar := scalar
    components := components
    format := format
    slots := 1
    slotStride := 0 }

/-- A single 32-bit component. -/
def ofScalar (scalar : ScalarType) (format : VertexFormat) : ValueType :=
  vector scalar 1 format

/-- A square matrix of floating point numbers, which takes one slot for each column. -/
def matrix (columns : UInt32) (format : VertexFormat) : ValueType :=
  { size := columns * (columns * 4)
    scalar := .float32
    components := columns
    format := format
    slots := columns
    slotStride := columns * 4 }

/-- The type has one component in one slot. -/
def isScalar (type : ValueType) : Bool :=
  type.components == 1 && type.slots == 1

end ValueType

/-- The size in bytes and the members of a structure. -/
structure StructType where
  size : UInt32
  members : List Member
  deriving DecidableEq, Repr, Inhabited

/-- A structure of which only the size is known. -/
def StructType.ofSize (size : UInt32) : StructType :=
  ⟨size, []⟩

/-- The names of types and what they stand for. -/
structure TypeEnv where
  value? : String → Option ValueType
  opaqueKind? : String → Option DescriptorKind
  struct? : String → Option StructType

namespace TypeEnv

/-- The environment that knows no names. -/
def empty : TypeEnv :=
  ⟨fun _ => none, fun _ => none, fun _ => none⟩

/-- Let a name stand for a value type. -/
def withValue (env : TypeEnv) (name : String) (type : ValueType) : TypeEnv :=
  { env with value? := fun n => if n = name then some type else env.value? n }

/-- Let a name stand for an opaque type. -/
def withOpaque (env : TypeEnv) (name : String) (kind : DescriptorKind) : TypeEnv :=
  { env with opaqueKind? := fun n => if n = name then some kind else env.opaqueKind? n }

/-- Let a name stand for a structure. -/
def withStruct (env : TypeEnv) (name : String) (layout : StructType) : TypeEnv :=
  { env with struct? := fun n => if n = name then some layout else env.struct? n }

/-- The value types of the shading language. -/
def glslValues : List (String × ValueType) :=
  [("int", .ofScalar .int32 ⟨.r, .int32⟩),
    ("uint", .ofScalar .uint32 ⟨.r, .uint32⟩),
    ("float", .ofScalar .float32 ⟨.r, .float32⟩),
    ("vec2", .vector .float32 2 ⟨.rg, .float32⟩),
    ("vec3", .vector .float32 3 ⟨.rgb, .float32⟩),
    ("vec4", .vector .float32 4 ⟨.rgba, .float32⟩),
    ("ivec2", .vector .int32 2 ⟨.rg, .int32⟩),
    ("ivec3", .vector .int32 3 ⟨.rgb, .int32⟩),
    ("ivec4", .vector .int32 4 ⟨.rgba, .int32⟩),
    ("uvec2", .vector .uint32 2 ⟨.rg, .uint32⟩),
    ("uvec3", .vector .uint32 3 ⟨.rgb, .uint32⟩),
    ("uvec4", .vector .uint32 4 ⟨.rgba, .uint32⟩),
    ("mat2", .matrix 2 ⟨.rg, .float32⟩),
    ("mat3", .matrix 3 ⟨.rgb, .float32⟩),
    ("mat4", .matrix 4 ⟨.rgba, .float32⟩)]

/-- The opaque types of the shading language. -/
def glslOpaques : List (String × DescriptorKind) :=
  [("sampler2D", .combinedImageSampler),
    ("samplerBuffer", .uniformTexelBuffer),
    ("image2D", .storageImage)]

/-- The types of the shading language, without structures. -/
def glsl : TypeEnv :=
  { value? := fun name => glslValues.lookup name
    opaqueKind? := fun name => glslOpaques.lookup name
    struct? := fun _ => none }

/-- The size in bytes of a value type or, failing that, of a structure. -/
def byteSize (env : TypeEnv) (name : String) : Except ReflectError UInt32 :=
  match env.value? name with
  | some type => .ok type.size
  | none =>
    match env.struct? name with
    | some layout => .ok layout.size
    | none => .error (.unknownType name)

/-- The value type that a name stands for. -/
def valueType (env : TypeEnv) (name : String) : Except ReflectError ValueType :=
  match env.value? name with
  | some type => .ok type
  | none => .error (.unknownType name)

/-- The kind of descriptor of the opaque type that a name stands for. -/
def opaqueKind (env : TypeEnv) (name : String) : Except ReflectError DescriptorKind :=
  match env.opaqueKind? name with
  | some kind => .ok kind
  | none => .error (.unknownType name)

end TypeEnv

end Glint

import Glint.Pipeline

/-!
# Numbers for the device interface

The records of a reflection in the numbers of the Vulkan interface: the constants
of its enumerations, and the fields of its structures in their order.

## Main definitions

* `VertexFormat.vulkan`, `InputRate.vulkan`, `DescriptorKind.vulkan` — enumeration constants
* `VertexAttribute.vulkan`, `VertexBinding.vulkan`, `Descriptor.vulkan`, `PushRange.vulkan`,
  `SpecConstant.vulkan` — the fields of a structure
-/

namespace Glint

/-- The place of a scalar type among the formats of the same channels. -/
def ScalarType.formatRank : ScalarType → UInt32
  | .uint32 => 0
  | .int32 => 1
  | .float32 => 2

/-- The number of the unsigned format with these channels. -/
def Channels.firstFormat : Channels → UInt32
  | .r => 98
  | .rg => 101
  | .rgb => 104
  | .rgba => 107

/-- The number of a format. -/
def VertexFormat.vulkan (format : VertexFormat) : UInt32 :=
  format.channels.firstFormat + format.scalar.formatRank

/-- The number of an input rate. -/
def InputRate.vulkan : InputRate → UInt32
  | .perVertex => 0
  | .perInstance => 1

/-- The number of a kind of descriptor. -/
def DescriptorKind.vulkan : DescriptorKind → UInt32
  | .combinedImageSampler => 1
  | .storageImage => 3
  | .uniformTexelBuffer => 4
  | .uniformBuffer => 6
  | .storageBuffer => 7

/-- The flags of a set of stages; the bits are the same. -/
def StageSet.vulkan (stages : StageSet) : UInt32 :=
  stages.bits

/-- An attribute: binding, location, format and offset. -/
def VertexAttribute.vulkan (a : VertexAttribute) : List UInt32 :=
  [a.binding, a.location, a.format.vulkan, a.offset]

/-- A vertex binding: binding, stride and input rate. -/
def VertexBinding.vulkan (b : VertexBinding) : List UInt32 :=
  [b.binding, b.stride, b.rate.vulkan]

/-- A binding of a set: binding, kind, number of descriptors and stages. -/
def Descriptor.vulkan (d : Descriptor) : List UInt32 :=
  [d.binding, d.kind.vulkan, 1, d.stages.vulkan]

/-- The bindings of a set. -/
def DescriptorSet.vulkan (s : DescriptorSet) : List (List UInt32) :=
  s.descriptors.map Descriptor.vulkan

/-- A push constant range: stages, offset and size. -/
def PushRange.vulkan (r : PushRange) : List UInt32 :=
  [r.stages.vulkan, r.offset, r.size]

/-- A specialization map entry: number, offset and size. -/
def SpecConstant.vulkan (c : SpecConstant) : List UInt32 :=
  [c.id, c.offset, c.size]

/-- The map entries of specialization data. -/
def SpecData.vulkan (s : SpecData) : List (List UInt32) :=
  s.constants.map SpecConstant.vulkan

end Glint

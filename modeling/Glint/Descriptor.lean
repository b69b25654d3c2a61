import Glint.Member

/-!
# Descriptor sets

A descriptor gives shaders access to a resource at a binding of a set. Buffers
have a size and members; images, samplers and texel buffers are opaque, and their
size is recorded as zero. The bindings of a set stand in the order in which they
were first seen. A binding that is seen again must agree in kind and size with
its first declaration, and then adds its stages to it.

## Main definitions

* `DescriptorKind` — the kinds of descriptor
* `Descriptor`, `DescriptorSet` — a descriptor, and the descriptors of one set
* `DescriptorSet.merge` — add a descriptor, or the stages of one declared already
* `DescriptorSet.size` — the size in bytes of a set of buffers
* `DescriptorSet.update` — change one set of a list in ascending order
-/

namespace Glint

/-- The kinds of descriptor. -/
inductive DescriptorKind
  | uniformBuffer
  | storageBuffer
  | combinedImageSampler
  | uniformTexelBuffer
  | storageImage
  deriving DecidableEq, Repr, Inhabited

namespace DescriptorKind

/-- Every kind of descriptor. -/
def all : List DescriptorKind :=
  [.uniformBuffer, .storageBuffer, .combinedImageSampler, .uniformTexelBuffer, .storageImage]

/-- The name of a kind in a record. -/
def name : DescriptorKind → String
  | .uniformBuffer => "uniformBuffer"
  | .storageBuffer => "storageBuffer"
  | .combinedImageSampler => "combinedImageSampler"
  | .uniformTexelBuffer => "uniformTexelBuffer"
  | .storageImage => "storageImage"

/-- The kind with a given name. -/
def ofName? (text : String) : Option DescriptorKind :=
  all.find? (·.name == text)

theorem ofName?_name (kind : DescriptorKind) : ofName? kind.name = some kind := by
  cases kind <;> decide

/-- A kind without a linear size in bytes. -/
def isOpaque : DescriptorKind → Bool
  | .uniformBuffer | .storageBuffer => false
  | .combinedImageSampler | .uniformTexelBuffer | .storageImage => true

end DescriptorKind

/-- The storage keywords that declare a block of a descriptor. -/
inductive BlockStorage
  | uniform
  | buffer
  deriving DecidableEq, Repr

namespace BlockStorage

/-- The keyword as it is written. -/
def keyword : BlockStorage → String
  | .uniform => "uniform"
  | .buffer => "buffer"

/-- The storage keyword that a word is. -/
def ofKeyword? (word : String) : Option BlockStorage :=
  [.uniform, .buffer].find? (·.keyword == word)

/-- The kind of the descriptors that a block declares. -/
def kind : BlockStorage → DescriptorKind
  | .uniform => .uniformBuffer
  | .buffer => .storageBuffer

end BlockStorage

/-- A descriptor at a binding, with the stages that read it. -/
structure Descriptor where
  name : String
  binding : UInt32
  kind : DescriptorKind
  stages : StageSet
  size : UInt32
  members : List Member
  deriving DecidableEq, Repr, Inhabited

/-- The descriptors of one set, in the order in which they were first seen. -/
structure DescriptorSet where
  set : UInt32
  descriptors : List Descriptor
  deriving DecidableEq, Repr, Inhabited

namespace DescriptorSet

/-- The set without descriptors. -/
def empty (set : UInt32) : DescriptorSet :=
  ⟨set, []⟩

/-- The first descriptor at a binding. -/
def descriptor? (s : DescriptorSet) (binding : UInt32) : Option Descriptor :=
  s.descriptors.find? (·.binding == binding)

/-- The size in bytes of the buffers of a set, in a word of 64 bits. A set with an opaque
descriptor has none. -/
def size (s : DescriptorSet) : Except ReflectError UInt64 :=
  if s.descriptors.any (·.kind.isOpaque) then .error (.unsizedSet s.set)
  else .ok ((s.descriptors.map (·.size.toUInt64)).foldl (· + ·) 0)

/-- Add a descriptor after others of the set numbered `set`, or add its stages to the one
at its binding if the two agree in kind and size. -/
def mergeInto (set : UInt32) (new : Descriptor) :
    List Descriptor → Except ReflectError (List Descriptor)
  | [] => .ok [new]
  | old :: others =>
    if old.binding = new.binding then
      if old.kind = new.kind ∧ old.size = new.size then
        .ok ({ old with stages := old.stages.union new.stages } :: others)
      else .error (.conflictingBinding set new.binding)
    else (mergeInto set new others).map (old :: ·)

/-- Add a descriptor to a set, or its stages to the descriptor at its binding. -/
def merge (s : DescriptorSet) (new : Descriptor) : Except ReflectError DescriptorSet :=
  (mergeInto s.set new s.descriptors).map (⟨s.set, ·⟩)

/-- Add descriptors to a set one after the other. -/
def mergeAll (s : DescriptorSet) (new : List Descriptor) : Except ReflectError DescriptorSet :=
  new.foldlM merge s

/-- Change the set numbered `set` in a list of sets in ascending order. A set that is not in
the list is empty before the change and takes its place in the order. -/
def update (set : UInt32) (change : DescriptorSet → Except ReflectError DescriptorSet) :
    List DescriptorSet → Except ReflectError (List DescriptorSet)
  | [] => (change (empty set)).map ([·])
  | s :: ss =>
    if s.set = set then (change s).map (· :: ss)
    else if set < s.set then (change (empty set)).map (· :: s :: ss)
    else (update set change ss).map (s :: ·)

end DescriptorSet

end Glint

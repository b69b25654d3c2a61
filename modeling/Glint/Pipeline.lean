import Glint.Interface

/-!
# The interface of a pipeline

The interfaces of the shaders of a pipeline are merged in the order in which they
are given. Descriptors at the same binding must agree, and so must push constants
of the same name; both collect the stages that declare them.

## Main definitions

* `Pipeline` — the merged interface of the shaders of a pipeline
* `Pipeline.ofInterfaces` — merge interfaces
* `Pipeline.set?`, `Pipeline.pushConstant?`, `Pipeline.specData` — look into the result
-/

namespace Glint

/-- The specialization constants of one shader of a pipeline. -/
structure StageConstants where
  sourceName : String
  stage : Stage
  constants : List SpecConstant
  deriving DecidableEq, Repr, Inhabited

/-- The merged interface of the shaders of a pipeline. -/
structure Pipeline where
  sourceNames : List String
  vertexInputs : List VertexAttribute
  vertexBindings : List VertexBinding
  sets : List DescriptorSet
  pushRanges : List PushRange
  pushFields : List PushField
  specializations : List StageConstants
  deriving DecidableEq, Repr, Inhabited

namespace Pipeline

/-- The sets and push constants of the shaders merged so far. -/
structure Merged where
  sets : List DescriptorSet
  push : PushLayout

/-- Add a set of a shader, which takes its place even if it is empty. -/
def addSet (sets : List DescriptorSet) (new : DescriptorSet) :
    Except ReflectError (List DescriptorSet) :=
  DescriptorSet.update new.set (·.mergeAll new.descriptors) sets

/-- Add the sets and then the push constants of a shader. -/
def addInterface (m : Merged) (i : Interface) : Except ReflectError Merged := do
  -- A conflict between sets is found before one between push constants.
  let sets ← i.descriptorSets.foldlM addSet m.sets
  let push ← m.push.add i.stage i.pushConstants
  return ⟨sets, push⟩

/-- The specialization constants of a shader, if it has any. -/
def specialization? (i : Interface) : Option StageConstants :=
  if i.specConstants.isEmpty then none else some ⟨i.sourceName, i.stage, i.specConstants⟩

/-- The merged interface of shaders, whose attributes at the given bindings are read once
for each instance. -/
def ofInterfaces (instanced : UInt32 → Bool) (shaders : List Interface) :
    Except ReflectError Pipeline := do
  let merged ← shaders.foldlM addInterface ⟨[], .empty⟩
  let vertexInputs := shaders.flatMap (·.attributes instanced)
  return {
    sourceNames := shaders.map Interface.sourceName
    vertexInputs := vertexInputs
    vertexBindings := VertexBinding.ofAttributes vertexInputs
    sets := merged.sets
    pushRanges := merged.push.ranges
    pushFields := merged.push.fields
    specializations := shaders.filterMap specialization? }

/-- The first set with a given number. -/
def set? (p : Pipeline) (set : UInt32) : Option DescriptorSet :=
  p.sets.find? (·.set == set)

/-- The push constant with a given name. -/
def pushConstant? (p : Pipeline) (name : String) : Option PushField :=
  p.pushFields.find? (·.name == name)

/-- The specialization data of every shader that has constants. -/
def specData (p : Pipeline) (values : String → Option Int32) :
    Except ReflectError (List (Stage × SpecData)) :=
  p.specializations.mapM fun s => do
    let data ← SpecData.ofValues s.constants values
    return (s.stage, data)

end Pipeline

end Glint

import Glint.Comment
import Glint.Item
import Glint.PushConstant
import Glint.Specialization
import Glint.Vertex

/-!
# The interface of a shader

The items of a shader are collected in the order of its text. Descriptors go to
their sets, which are kept in ascending order; specialization constants are packed
one after the other; inputs matter only in the vertex stage, since in the others
they are filled by the stage before.

## Main definitions

* `ShaderText` — the text of a shader with its name and stage
* `Interface` — what a shader asks of the pipeline that it is part of
* `Interface.ofText` — the interface of a shader
* `Interface.attributes`, `Interface.pushRange?`, `Interface.specData` — what a pipeline
  needs of it
-/

namespace Glint

/-- The text of a shader, with its name and its stage. -/
structure ShaderText where
  name : String
  stage : Stage
  text : String
  deriving DecidableEq, Repr

/-- An output or an input block of a stage, by the text of its declaration. -/
structure StageLink where
  location? : Option UInt32
  declaration : String
  deriving DecidableEq, Repr, Inhabited

/-- What a shader asks of the pipeline that it is part of. -/
structure Interface where
  sourceName : String
  stage : Stage
  vertexInputs : List VertexAttribute
  descriptorSets : List DescriptorSet
  pushConstants : List Member
  specConstants : List SpecConstant
  outputs : List StageLink
  inputBlocks : List StageLink
  deriving DecidableEq, Repr, Inhabited

/-- The items of a shader collected so far. There is a push constant block once
`pushConstants?` is present, be it empty, and `specSize` bytes of specialization data are
taken. -/
structure Collected where
  vertexInputs : List VertexAttribute
  descriptorSets : List DescriptorSet
  pushConstants? : Option (List Member)
  specConstants : List SpecConstant
  specSize : UInt32
  outputs : List StageLink
  inputBlocks : List StageLink

namespace Collected

/-- Nothing collected. -/
def empty : Collected :=
  ⟨[], [], none, [], 0, [], []⟩

/-- Add a stage input. Only the vertex stage has attributes for it. -/
def addInput (env : TypeEnv) (stage : Stage) (at_ : Nat) (location : UInt32)
    (glslType name : String) (c : Collected) : Except ReflectError Collected :=
  -- The type of an input matters only where it becomes attributes.
  if stage = .vertex then do
    let type ← env.valueType glslType
    match VertexAttribute.ofInput? location glslType name type with
    | some slots => return { c with vertexInputs := c.vertexInputs ++ slots }
    | none => .error (.malformed at_ (.inputTooLong name))
  else .ok c

/-- Add a descriptor to its set. -/
def addDescriptor (set : UInt32) (new : Descriptor) (c : Collected) :
    Except ReflectError Collected :=
  (DescriptorSet.update set (·.merge new) c.descriptorSets).map fun sets =>
    { c with descriptorSets := sets }

/-- Add the block of push constants, of which there may be one. -/
def addPushConstants (at_ : Nat) (members : List Member) (c : Collected) :
    Except ReflectError Collected :=
  if c.pushConstants?.isSome then .error (.malformed at_ .secondPushConstants)
  else .ok { c with pushConstants? := some members }

/-- Add a specialization constant after the data taken so far. -/
def addSpecConstant (env : TypeEnv) (at_ : Nat) (id : UInt32) (glslType name : String)
    (c : Collected) : Except ReflectError Collected := do
  let type ← env.valueType glslType
  if type.isScalar then
    match Word.add? c.specSize type.size with
    | some next =>
      let constant := ⟨id, name, glslType, type.scalar, type.size, c.specSize⟩
      return { c with specConstants := c.specConstants ++ [constant], specSize := next }
    | none => .error (.malformed at_ .constantsTooLarge)
  else .error (.malformed at_ (.constantNotScalar name))

/-- Add the item of a declaration that starts at byte `at_`. -/
def addItem (env : TypeEnv) (stage : Stage) (at_ : Nat) (c : Collected) :
    Item → Except ReflectError Collected
  | .vertexInput location glslType name => c.addInput env stage at_ location glslType name
  | .inputBlock location? declaration =>
    .ok { c with inputBlocks := c.inputBlocks ++ [⟨location?, declaration⟩] }
  | .output location? declaration =>
    .ok { c with outputs := c.outputs ++ [⟨location?, declaration⟩] }
  | .descriptor set binding name kind size members =>
    c.addDescriptor set ⟨name, binding, kind, stage.flag, size, members⟩
  | .pushConstants members => c.addPushConstants at_ members
  | .specConstant id glslType name => c.addSpecConstant env at_ id glslType name

/-- Add what a declaration declares. -/
def addDeclaration (env : TypeEnv) (stage : Stage) (c : Collected) (d : Declaration) :
    Except ReflectError Collected := do
  let item ← Item.ofDeclaration env d
  c.addItem env stage d.offset item

/-! ### Changes of other parts -/

variable {f : Collected → Collected} {c : Collected}

/-- A change of other parts may come before the push constants are added or after. -/
theorem addPushConstants_map (hblock : (f c).pushConstants? = c.pushConstants?)
    (hset : ∀ members, f { c with pushConstants? := some members } =
      { f c with pushConstants? := some members }) (at_ : Nat) (members : List Member) :
    (f c).addPushConstants at_ members = (c.addPushConstants at_ members).map f := by
  rw [addPushConstants, addPushConstants, hblock]
  split
  · rfl
  · rw [Except.map, hset]

/-- A change of other parts may come before a specialization constant is added or after. -/
theorem addSpecConstant_map (hsize : (f c).specSize = c.specSize)
    (hadd : ∀ constant next,
      f { c with specConstants := c.specConstants ++ [constant], specSize := next } =
        { f c with specConstants := (f c).specConstants ++ [constant], specSize := next })
    (env : TypeEnv) (at_ : Nat) (id : UInt32) (glslType name : String) :
    (f c).addSpecConstant env at_ id glslType name =
      (c.addSpecConstant env at_ id glslType name).map f := by
  rw [addSpecConstant, addSpecConstant, hsize]
  cases env.valueType glslType with
  | error e => rfl
  | ok type =>
    simp only [bind, Except.bind]
    split
    · cases Word.add? c.specSize type.size with
      | none => rfl
      | some next => exact congrArg Except.ok (hadd _ next).symm
    · rfl

end Collected

namespace Interface

/-- The interface with the items collected from a shader. -/
def ofCollected (name : String) (stage : Stage) (c : Collected) : Interface :=
  { sourceName := name
    stage := stage
    vertexInputs := c.vertexInputs
    descriptorSets := c.descriptorSets
    pushConstants := c.pushConstants?.getD []
    specConstants := c.specConstants
    outputs := c.outputs
    inputBlocks := c.inputBlocks }

/-- The interface of a shader. -/
def ofText (env : TypeEnv) (source : ShaderText) : Except ReflectError Interface := do
  -- Every byte position from here on counts in the text without comments.
  let declarations ← Declaration.readAll (Comment.strip source.text)
  let collected ← declarations.foldlM (Collected.addDeclaration env source.stage) .empty
  return ofCollected source.name source.stage collected

/-- The vertex attributes, those of the given bindings once for each instance. -/
def attributes (i : Interface) (instanced : UInt32 → Bool) : List VertexAttribute :=
  i.vertexInputs.map (·.withInstances instanced)

/-- The range of the push constants: from the lowest offset, as long as all the members
together. There is none without push constants, or if the length is not a word. -/
def pushRange? (i : Interface) : Option PushRange :=
  match (i.pushConstants.map Member.offset).min?, Word.total? (i.pushConstants.map Member.size) with
  | some offset, some size => some ⟨i.stage.flag, offset, size⟩
  | _, _ => none

/-- The specialization data for given values. -/
def specData (i : Interface) (values : String → Option Int32) : Except ReflectError SpecData :=
  SpecData.ofValues i.specConstants values

end Interface

end Glint

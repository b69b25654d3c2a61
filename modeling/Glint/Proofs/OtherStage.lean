import Glint.Proofs.Outcome
import Glint.Proofs.StageUnion
import Glint.Interface

/-!
# One text in two stages

The stage of a shader shows in three places: in the stage of its interface, in the stages of its
descriptors, and in the vertex attributes, which only the vertex stage makes of its inputs.
Whether the descriptors of a text agree does not depend on their stages, and the types of its
inputs are looked up in the vertex stage alone. So two other stages make the same of any text, and
any of them accepts what the vertex stage accepts.

## Main definitions

* `Interface.inStage` — the interface with the flags of a stage
* `Collected.inStage` — what another stage than the vertex stage collects instead

## Main results

* `Collected.follows_addItem_inStage` — what an item adds in a stage and in another one
* `Collected.follows_foldlM_inStage` — what the declarations of a text add
* `Interface.ofText_inStage` — the interfaces of a text in two stages
-/

namespace Glint

/-- The descriptor in a single stage. -/
def Descriptor.inStage (stage : Stage) (d : Descriptor) : Descriptor :=
  { d with stages := stage.flag }

/-- The set with every descriptor in a single stage. -/
def DescriptorSet.inStage (stage : Stage) (s : DescriptorSet) : DescriptorSet :=
  { s with descriptors := s.descriptors.map (·.inStage stage) }

/-- What is collected, as a stage other than the vertex stage collects it: without attributes. -/
def Collected.inStage (stage : Stage) (c : Collected) : Collected :=
  { c with
    vertexInputs := []
    descriptorSets := c.descriptorSets.map (·.inStage stage) }

/-- The interface with the flags of a stage. -/
def Interface.inStage (stage : Stage) (i : Interface) : Interface :=
  { i with
    stage := stage
    descriptorSets := i.descriptorSets.map (·.inStage stage) }

/-! ### Descriptors -/

namespace Descriptor

variable (stage : Stage) (d : Descriptor)

@[simp] theorem binding_inStage : (d.inStage stage).binding = d.binding := rfl

@[simp] theorem kind_inStage : (d.inStage stage).kind = d.kind := rfl

@[simp] theorem size_inStage : (d.inStage stage).size = d.size := rfl

/-- A descriptor that is read again in its stage stays as it is. -/
theorem union_inStage (new : Descriptor) :
    { d.inStage stage with
      stages := (d.inStage stage).stages.union (new.inStage stage).stages } = d.inStage stage := by
  rw [inStage, inStage, StageSet.union_self]

end Descriptor

namespace DescriptorSet

variable (stage : Stage)

@[simp] theorem set_inStage (s : DescriptorSet) : (s.inStage stage).set = s.set := rfl

/-- Whether descriptors agree does not depend on their stages. -/
theorem mergeInto_inStage (set : UInt32) (new : Descriptor) (ds : List Descriptor) :
    mergeInto set (new.inStage stage) (ds.map (·.inStage stage)) =
      (mergeInto set new ds).map (List.map (·.inStage stage)) := by
  induction ds with
  | nil => rfl
  | cons old others ih =>
    rw [List.map_cons, mergeInto, mergeInto, ih, Descriptor.union_inStage]
    -- The binding, the kind and the size decide, and a stage changes none of them.
    by_cases hbinding : old.binding = new.binding
    · by_cases hagree : old.kind = new.kind ∧ old.size = new.size
      · simp [hbinding, hagree, Except.map, Descriptor.inStage]
      · simp [hbinding, hagree, Except.map]
    · cases mergeInto set new others <;> simp [hbinding, Except.map]

theorem merge_inStage (new : Descriptor) (s : DescriptorSet) :
    (s.inStage stage).merge (new.inStage stage) = (s.merge new).map (inStage stage) := by
  rw [merge, merge]
  dsimp only [inStage]
  rw [mergeInto_inStage]
  cases mergeInto s.set new s.descriptors <;> rfl

theorem update_inStage (set : UInt32) (new : Descriptor) (ss : List DescriptorSet) :
    update set (·.merge (new.inStage stage)) (ss.map (·.inStage stage)) =
      (update set (·.merge new) ss).map (List.map (·.inStage stage)) := by
  have hempty : (empty set).merge (new.inStage stage) =
      ((empty set).merge new).map (inStage stage) := merge_inStage stage new (empty set)
  induction ss with
  | nil =>
    rw [List.map_nil, update, update, hempty]
    cases (empty set).merge new <;> rfl
  | cons s ss ih =>
    rw [List.map_cons, update, update, merge_inStage, hempty, ih, set_inStage]
    by_cases hset : s.set = set
    · rw [if_pos hset, if_pos hset]
      cases s.merge new <;> rfl
    · rw [if_neg hset, if_neg hset]
      by_cases hbefore : set < s.set
      · rw [if_pos hbefore, if_pos hbefore]
        cases (empty set).merge new <;> rfl
      · rw [if_neg hbefore, if_neg hbefore]
        cases update set (·.merge new) ss <;> rfl

end DescriptorSet

/-! ### Items -/

namespace Collected

open Outcome

variable (env : TypeEnv) {stage stage' : Stage} (at_ : Nat)

theorem addDescriptor_inStage (stage : Stage) (set : UInt32) (new : Descriptor) (c : Collected) :
    (c.inStage stage).addDescriptor set (new.inStage stage) =
      (c.addDescriptor set new).map (inStage stage) := by
  rw [addDescriptor, addDescriptor]
  dsimp only [inStage]
  rw [DescriptorSet.update_inStage]
  cases DescriptorSet.update set (·.merge new) c.descriptorSets <;> rfl

/-- A stage other than the vertex stage passes over an input, of which the vertex stage makes
attributes if it can. -/
theorem follows_addInput_inStage (hother : stage' ≠ .vertex) (location : UInt32)
    (glslType name : String) (c : Collected) :
    Follows (fun _ => stage = .vertex) (inStage stage')
      (c.addInput env stage at_ location glslType name)
      ((c.inStage stage').addInput env stage' at_ location glslType name) := by
  rw [addInput, addInput, if_neg hother]
  split
  · rename_i hvertex
    cases env.valueType glslType with
    | error e =>
      refine .excuse ?_ _
      exact hvertex
    | ok type =>
      simp only [bind, Except.bind]
      cases VertexAttribute.ofInput? location glslType name type with
      | none =>
        refine .excuse ?_ _
        exact hvertex
      | some slots =>
        -- The attributes are left out again.
        exact .ok _
  · exact .ok c

/-- An item adds the same in another stage, or it is an input that the vertex stage refuses. -/
theorem follows_addItem_inStage (hother : stage' ≠ .vertex) (item : Item) (c : Collected) :
    Follows (fun _ => stage = .vertex) (inStage stage') (c.addItem env stage at_ item)
      ((c.inStage stage').addItem env stage' at_ item) := by
  cases item with
  | vertexInput location glslType name => exact follows_addInput_inStage env at_ hother _ _ _ c
  | inputBlock location? declaration => exact .ok _
  | output location? declaration => exact .ok _
  | descriptor set binding name kind size members =>
    have hadd := addDescriptor_inStage stage' set ⟨name, binding, kind, stage.flag, size, members⟩ c
    rw [Descriptor.inStage] at hadd
    rw [addItem, addItem, hadd]
    exact .map_self _ _ _
  | pushConstants members =>
    have hadd := addPushConstants_map (f := inStage stage') (c := c) rfl (fun _ => rfl) at_ members
    rw [addItem, addItem, hadd]
    exact .map_self _ _ _
  | specConstant id glslType name =>
    have hadd := addSpecConstant_map (f := inStage stage') (c := c) rfl (fun _ _ => rfl) env at_ id
      glslType name
    rw [addItem, addItem, hadd]
    exact .map_self _ _ _

theorem follows_addDeclaration_inStage (hother : stage' ≠ .vertex) (c : Collected)
    (d : Declaration) :
    Follows (fun _ => stage = .vertex) (inStage stage') (c.addDeclaration env stage d)
      ((c.inStage stage').addDeclaration env stage' d) := by
  rw [addDeclaration, addDeclaration]
  cases Item.ofDeclaration env d with
  | error e => exact .error e
  | ok item => exact follows_addItem_inStage env d.offset hother item c

/-- What another stage collects from a text. -/
theorem follows_foldlM_inStage (hother : stage' ≠ .vertex) (ds : List Declaration) :
    Follows (fun _ => stage = .vertex) (inStage stage')
      (ds.foldlM (addDeclaration env stage) empty) (ds.foldlM (addDeclaration env stage') empty) :=
  Follows.foldlM (follows_addDeclaration_inStage env hother) ds empty

end Collected

/-! ### Interfaces -/

namespace Interface

open Outcome

theorem follows_ofText_inStage (env : TypeEnv) (name : String) {stage stage' : Stage}
    (hother : stage' ≠ .vertex) (text : String) :
    Follows (fun _ => stage = .vertex) (fun i => { i.inStage stage' with vertexInputs := [] })
      (ofText env ⟨name, stage, text⟩) (ofText env ⟨name, stage', text⟩) := by
  rw [ofText, ofText]
  cases Declaration.readAll (Comment.strip text) with
  | error e => exact .error e
  | ok ds => exact (Collected.follows_foldlM_inStage env hother ds).bind fun c => .ok _

/-- Two stages other than the vertex stage refuse a text with the same error, or have interfaces
that differ in the stage and in the stages of the descriptors, which are those of the interface.
What the vertex stage accepts is accepted in any other stage, and the interfaces differ in the
vertex attributes besides, of which the other stage has none. -/
theorem ofText_inStage (env : TypeEnv) (name text : String) :
    (∀ stage stage', stage ≠ .vertex → stage' ≠ .vertex →
      ofText env ⟨name, stage', text⟩ =
        (ofText env ⟨name, stage, text⟩).map (inStage stage')) ∧
      ∀ i, ofText env ⟨name, .vertex, text⟩ = .ok i → ∀ stage, stage ≠ .vertex →
        ofText env ⟨name, stage, text⟩ = .ok { i.inStage stage with vertexInputs := [] } := by
  refine ⟨fun stage stage' hstage hstage' => ?_, fun i hi stage hstage => ?_⟩
  · have hother := (follows_ofText_inStage env name hstage' text).eq_map fun _ => hstage
    have hself := (follows_ofText_inStage env name hstage text).eq_map fun _ => hstage
    rw [hother]
    cases hi : ofText env ⟨name, stage, text⟩ with
    | error e => rfl
    | ok i =>
      -- The stage itself has no attributes either.
      rw [hi] at hself
      have hnone : i.vertexInputs = [] := congrArg (·.vertexInputs) (Except.ok.inj hself)
      rw [Except.map, Except.map, ← hnone]
      rfl
  · exact (follows_ofText_inStage env name hstage text).eq_ok hi

/-- The text of a shader with an input and a descriptor. -/
def lantern : String :=
  "layout(location=0) in vec3 at;layout(binding=1) uniform sampler2D hue;"

/-- The vertex stage has an attribute for the input, and the fragment stage has the rest. -/
theorem ofText_inStage_lantern :
    (Stage.fragment ≠ .vertex ∧ Stage.compute ≠ .vertex ∧
      ofText .glsl ⟨"lantern", .compute, lantern⟩ =
        (ofText .glsl ⟨"lantern", .fragment, lantern⟩).map (inStage .compute)) ∧
    ∃ i, ofText .glsl ⟨"lantern", .vertex, lantern⟩ = .ok i ∧ i.vertexInputs.length = 1 ∧
      ofText .glsl ⟨"lantern", .fragment, lantern⟩ =
        .ok { i.inStage .fragment with vertexInputs := [] } := by
  have hother : Stage.fragment ≠ .vertex ∧ Stage.compute ≠ .vertex := by decide
  have hstages := ofText_inStage .glsl "lantern" lantern
  have hvertex : (ofText .glsl ⟨"lantern", .vertex, lantern⟩).toOption.map
      (·.vertexInputs.length) = some 1 := by
    decide +kernel
  refine ⟨⟨hother.1, hother.2, hstages.1 _ _ hother.1 hother.2⟩, ?_⟩
  cases hi : ofText .glsl ⟨"lantern", .vertex, lantern⟩ with
  | error e =>
    rw [hi] at hvertex
    cases hvertex
  | ok i =>
    rw [hi] at hvertex
    exact ⟨i, rfl, Option.some.inj hvertex, hstages.2 i hi _ hother.1⟩

end Interface

end Glint

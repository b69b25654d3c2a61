import Glint.Proofs.DescriptorMerge
import Glint.Proofs.PushMerge

/-!
# When shaders merge into a pipeline, and into what

The merge of shaders compares every declaration with the first one of its kind only, and
meets descriptors and push constants in the order of the shaders. What it decides does
not depend on that: it succeeds exactly if any two descriptors at one binding agree, any
two push constants of one name are declared alike, and the push constants of no stage
outgrow a word. Nothing is assumed of the shaders, which may repeat sets and bindings or
declare empty sets.

## Main definitions

* `Pipeline.declaredSets`, `Pipeline.pushed` — all that the shaders declare, in order
* `Pipeline.Mergeable` — the condition under which shaders merge
* `Pipeline.Blames` — what an error says of the shaders
* `Pipeline.MergedFrom` — what the merged interface holds

## Main results

* `Pipeline.ofInterfaces_exact` — success, content and errors of the merge
-/

namespace Glint.Pipeline

/-- The sets that shaders declare, in order. -/
def declaredSets (shaders : List Interface) : List DescriptorSet :=
  shaders.flatMap Interface.descriptorSets

/-- The push constants that shaders declare, each with its stage, in order. -/
def pushed (shaders : List Interface) : List Pushed :=
  shaders.flatMap fun i => i.pushConstants.map (i.stage, ·)

/-- The shaders can be parts of one pipeline. -/
structure Mergeable (shaders : List Interface) : Prop where
  bindings : ∀ set binding,
    Descriptor.AllAgree (DescriptorSet.declaredAt set binding (declaredSets shaders))
  pushNames : ∀ name, Pushed.AllAlike name (pushed shaders)
  pushSizes : ∀ stage, Pushed.sizeOf stage (pushed shaders) < UInt32.size

/-- What an error of the merge says of the shaders: that the descriptors at the binding it
names disagree, that the push constants of the name are not declared alike, or that
those of the stage outgrow a word. -/
def Blames (shaders : List Interface) : ReflectError → Prop
  | .conflictingBinding set binding =>
    ¬ Descriptor.AllAgree (DescriptorSet.declaredAt set binding (declaredSets shaders))
  | .conflictingPushConstant name => ¬ Pushed.AllAlike name (pushed shaders)
  | .malformed 0 (.pushConstantsTooLarge stage) =>
    UInt32.size ≤ Pushed.sizeOf stage (pushed shaders)
  | _ => False

/-- What the merged interface of shaders holds. The sets come of all declared ones. There is
one range for each stage with push constants, from the lowest offset and as long as all
its members together, and one field for each name, declared like all push constants of
that name and with the stages of all. -/
structure MergedFrom (shaders : List Interface) (p : Pipeline) : Prop where
  sets : DescriptorSet.Gathered (declaredSets shaders) p.sets
  rangeStages : p.pushRanges.map PushRange.stages =
    ((pushed shaders).map fun x => x.1.flag).eraseDups
  ranges : ∀ range ∈ p.pushRanges, ∃ stage, range.stages = stage.flag ∧
    ((Pushed.ofStage stage (pushed shaders)).map fun x => x.2.offset).min? = some range.offset ∧
    Pushed.sizeOf stage (pushed shaders) = range.size.toNat
  fieldNames : p.pushFields.map PushField.name =
    ((pushed shaders).map fun x => x.2.name).eraseDups
  fields : ∀ field ∈ p.pushFields,
    (∀ x ∈ Pushed.ofName field.name (pushed shaders), field.Agrees x.2) ∧
    field.stages = .unionAll ((Pushed.ofName field.name (pushed shaders)).map fun x => x.1.flag)

variable {shaders : List Interface} {m : Merged} {e : ReflectError}

/-! ### The merge as three runs -/

/-- Add all push constants of a shader. -/
def addPushedOf (layout : PushLayout) (i : Interface) : Except ReflectError PushLayout :=
  (i.pushConstants.map (i.stage, ·)).foldlM PushLayout.addPushed layout

/-- Add all sets of a shader. -/
def addSetsOf (sets : List DescriptorSet) (i : Interface) :
    Except ReflectError (List DescriptorSet) :=
  i.descriptorSets.foldlM addSet sets

theorem addInterface_mk (sets : List DescriptorSet) (push : PushLayout) (i : Interface) :
    addInterface ⟨sets, push⟩ i = do return ⟨← addSetsOf sets i, ← addPushedOf push i⟩ := by
  rw [addPushedOf, ← PushLayout.add_eq_foldlM]
  rfl

theorem foldlM_addSetsOf (sets : List DescriptorSet) :
    shaders.foldlM addSetsOf sets = (declaredSets shaders).foldlM addSet sets :=
  (Outcome.foldlM_flatMap ..).symm

theorem foldlM_addPushedOf (layout : PushLayout) :
    shaders.foldlM addPushedOf layout = (pushed shaders).foldlM PushLayout.addPushed layout :=
  (Outcome.foldlM_flatMap ..).symm

/-- Shaders are merged exactly if their sets, ranges and fields are, each on its own. -/
theorem foldlM_addInterface_eq_ok_iff :
    shaders.foldlM addInterface ⟨[], .empty⟩ = .ok m ↔
      (declaredSets shaders).foldlM addSet [] = .ok m.sets ∧
      PushRange.mergeRule.insertAll [] (pushed shaders) = .ok m.push.ranges ∧
      PushField.mergeRule.insertAll [] (pushed shaders) = .ok m.push.fields := by
  rw [Outcome.foldlM_pair_eq_ok_iff addInterface_mk, foldlM_addSetsOf, foldlM_addPushedOf,
    ← PushLayout.foldlM_addPushed_eq_ok_iff]
  constructor
  · rintro ⟨sets, push, hsets, hpush, rfl⟩
    exact ⟨hsets, hpush⟩
  · intro ⟨hsets, hpush⟩
    exact ⟨_, _, hsets, hpush, rfl⟩

/-- An error of the merge is right about the shaders. -/
theorem blames_of_foldlM_addInterface (h : shaders.foldlM addInterface ⟨[], .empty⟩ = .error e) :
    Blames shaders e := by
  rcases Outcome.foldlM_pair_eq_error addInterface_mk h with hsets | hpush
  · rw [foldlM_addSetsOf] at hsets
    obtain ⟨set, binding, rfl, hdisagree⟩ := DescriptorSet.exists_of_foldlM_eq_error hsets
    exact hdisagree
  · rw [foldlM_addPushedOf] at hpush
    rcases PushLayout.foldlM_addPushed_eq_error hpush with hrange | hfield
    · obtain ⟨stage, rfl, hlarge⟩ := PushRange.exists_of_insertAll_eq_error hrange
      exact hlarge
    · obtain ⟨name, rfl, hunlike⟩ := PushField.exists_of_insertAll_eq_error hfield
      exact hunlike

/-- Shaders are merged exactly if they can be parts of one pipeline. -/
theorem exists_foldlM_addInterface_iff :
    (∃ m, shaders.foldlM addInterface ⟨[], .empty⟩ = .ok m) ↔ Mergeable shaders := by
  constructor
  · intro ⟨m, hm⟩
    obtain ⟨hsets, hranges, hfields⟩ := foldlM_addInterface_eq_ok_iff.mp hm
    exact ⟨DescriptorSet.exists_foldlM_iff.mp ⟨_, hsets⟩,
      PushField.exists_insertAll_iff.mp ⟨_, hfields⟩,
      PushRange.exists_insertAll_iff.mp ⟨_, hranges⟩⟩
  · intro ⟨hbindings, hnames, hsizes⟩
    obtain ⟨sets, hsets⟩ := DescriptorSet.exists_foldlM_iff.mpr hbindings
    obtain ⟨ranges, hranges⟩ := PushRange.exists_insertAll_iff.mpr hsizes
    obtain ⟨fields, hfields⟩ := PushField.exists_insertAll_iff.mpr hnames
    exact ⟨⟨sets, ranges, fields⟩, foldlM_addInterface_eq_ok_iff.mpr ⟨hsets, hranges, hfields⟩⟩

/-! ### The merged interface -/

variable {instanced : UInt32 → Bool} {p : Pipeline}

/-- The interface of a pipeline is read off the merged sets and push constants and the
shaders themselves. -/
theorem ofInterfaces_eq_ok_iff :
    ofInterfaces instanced shaders = .ok p ↔
      ∃ m, shaders.foldlM addInterface ⟨[], .empty⟩ = .ok m ∧
        p = {
          sourceNames := shaders.map Interface.sourceName
          vertexInputs := shaders.flatMap (·.attributes instanced)
          vertexBindings := VertexBinding.ofAttributes (shaders.flatMap (·.attributes instanced))
          sets := m.sets
          pushRanges := m.push.ranges
          pushFields := m.push.fields
          specializations := shaders.filterMap specialization? } := by
  rw [ofInterfaces, Outcome.bind_eq_ok]
  simp only [Outcome.pure_eq_ok, eq_comm (a := p)]

theorem mergedFrom_of_ofInterfaces (h : ofInterfaces instanced shaders = .ok p) :
    MergedFrom shaders p := by
  obtain ⟨m, hm, rfl⟩ := ofInterfaces_eq_ok_iff.mp h
  obtain ⟨hsets, hranges, hfields⟩ := foldlM_addInterface_eq_ok_iff.mp hm
  exact {
    sets := DescriptorSet.gathered_of_foldlM hsets
    rangeStages := (MergeRule.merged_of_insertAll hranges).keys
    ranges := fun range => PushRange.exists_stage_of_mem hranges
    fieldNames := (MergeRule.merged_of_insertAll hfields).keys
    fields := fun field => PushField.of_mem_insertAll hfields }

/-- The merge succeeds exactly if the shaders can be parts of one pipeline. -/
theorem exists_ofInterfaces_iff :
    (∃ p, ofInterfaces instanced shaders = .ok p) ↔ Mergeable shaders := by
  rw [← exists_foldlM_addInterface_iff]
  constructor
  · intro ⟨p, h⟩
    obtain ⟨m, hm, -⟩ := ofInterfaces_eq_ok_iff.mp h
    exact ⟨m, hm⟩
  · intro ⟨m, hm⟩
    exact ⟨_, ofInterfaces_eq_ok_iff.mpr ⟨m, hm, rfl⟩⟩

theorem blames_of_ofInterfaces (h : ofInterfaces instanced shaders = .error e) :
    Blames shaders e := by
  rw [ofInterfaces, Outcome.bind_eq_error] at h
  rcases h with hmerge | ⟨m, -, hpure⟩
  · exact blames_of_foldlM_addInterface hmerge
  · cases hpure

/-- The merge succeeds exactly if the shaders can be parts of one pipeline, holds what they
declare, and fails only with an error that is right about them. -/
theorem ofInterfaces_exact (instanced : UInt32 → Bool) (shaders : List Interface) :
    ((∃ p, ofInterfaces instanced shaders = .ok p) ↔ Mergeable shaders) ∧
      (∀ p, ofInterfaces instanced shaders = .ok p → MergedFrom shaders p) ∧
      ∀ e, ofInterfaces instanced shaders = .error e → Blames shaders e :=
  ⟨exists_ofInterfaces_iff, fun _ => mergedFrom_of_ofInterfaces, fun _ => blames_of_ofInterfaces⟩

end Glint.Pipeline

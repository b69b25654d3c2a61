import Glint.Proofs.PipelineMerge
import Mathlib.Data.List.Sort

/-!
# The order of the shaders does not change the layout

Merging shaders in another order may find another conflict first, name a descriptor after
another declaration and list bindings in another order. Whether the shaders merge, the
numbers of the sets, what stands at each binding, the push constants and the inputs are
the same, since they depend only on which declarations there are.

## Main definitions

* `Descriptor.slot` — what a pipeline layout needs of a descriptor
* `Pipeline.SameLayout` — two merged interfaces give the same layout

## Main results

* `Pipeline.mergeable_perm` — shaders can be merged in any order or in none
* `Pipeline.ofInterfaces_perm` — the order of the shaders does not change the layout
-/

namespace Glint

/-! ### Descriptors -/

namespace Descriptor

variable {set : UInt32} {ds ds' : List Descriptor}

/-- What a pipeline layout needs of a descriptor: its binding, its kind and size, and the
stages that read it. -/
def slot (d : Descriptor) : UInt32 × DescriptorKind × UInt32 × StageSet :=
  (d.binding, d.kind, d.size, d.stages)

theorem AllAgree.perm (h : AllAgree ds) (hperm : ds.Perm ds') : AllAgree ds' :=
  fun a ha b hb => h a (hperm.mem_iff.mpr ha) b (hperm.mem_iff.mpr hb)

/-- Descriptors at one binding are joined to the same slot in any order. -/
theorem slot_joinAll?_perm {binding : UInt32} (hperm : ds.Perm ds')
    (hbinding : ∀ d ∈ ds, d.binding = binding) :
    ((mergeRule set).joinAll? ds).map slot = ((mergeRule set).joinAll? ds').map slot := by
  have hexists : (∃ d, (mergeRule set).joinAll? ds = some d) ↔
      ∃ d, (mergeRule set).joinAll? ds' = some d := by
    have hne : ds ≠ [] ↔ ds' ≠ [] := by
      rw [← List.length_pos_iff, ← List.length_pos_iff, hperm.length_eq]
    rw [exists_joinAll?_iff, exists_joinAll?_iff, hne]
    exact and_congr_right fun _ => ⟨fun h => h.perm hperm, fun h => h.perm hperm.symm⟩
  cases hds : (mergeRule set).joinAll? ds with
  | none =>
    have hnone : (mergeRule set).joinAll? ds' = none := by
      rw [Option.eq_none_iff_forall_ne_some]
      intro d hd
      obtain ⟨d', hd'⟩ := hexists.mpr ⟨d, hd⟩
      rw [hds] at hd'
      cases hd'
    rw [hnone]
  | some d =>
    obtain ⟨d', hds'⟩ := hexists.mp ⟨d, hds⟩
    rw [hds']
    obtain ⟨first, rest, rfl, hagree, rfl⟩ := joinAll?_eq_some_iff.mp hds
    obtain ⟨first', rest', rfl, -, rfl⟩ := joinAll?_eq_some_iff.mp hds'
    have hmem : first' ∈ first :: rest := hperm.mem_iff.mpr List.mem_cons_self
    obtain ⟨hkind, hsize⟩ := allAgree_cons_iff.mpr hagree first List.mem_cons_self first' hmem
    have hstages := StageSet.unionAll_perm (hperm.map stages)
    have hsame : first.binding = first'.binding :=
      (hbinding first List.mem_cons_self).trans (hbinding first' hmem).symm
    simp only [Option.map_some, slot, hkind, hsize, hstages, hsame]

end Descriptor

/-! ### Sets -/

namespace DescriptorSet

variable {declared declared' sets sets' : List DescriptorSet}

theorem declaredIn_perm (h : declared.Perm declared') (n : UInt32) :
    (declaredIn n declared).Perm (declaredIn n declared') :=
  (h.filter _).flatMap_right _

theorem declaredAt_perm (h : declared.Perm declared') (n binding : UInt32) :
    (declaredAt n binding declared).Perm (declaredAt n binding declared') :=
  (declaredIn_perm h n).filter _

/-- Two sets have the same number and the same slots up to order. -/
def SameSlots (s s' : DescriptorSet) : Prop :=
  s.set = s'.set ∧ (s.descriptors.map Descriptor.slot).Perm (s'.descriptors.map Descriptor.slot)

/-- Sets declared in another order are gathered to the same numbers with the same slots. -/
theorem Gathering.perm (h : Gathering declared sets) (h' : Gathering declared' sets')
    (hperm : declared.Perm declared') : List.Forall₂ SameSlots sets sets' := by
  have hnumbers : sets.map set = sets'.map set := by
    apply h.ascending.map_set_eq h'.ascending
    intro n
    rw [h.numbers, h'.numbers]
    exact (hperm.map set).mem_iff
  have hself : ∀ s ∈ sets', s = at_ s.set sets' := fun s hs => (h'.ascending.at_eq hs).symm
  -- Each set stands where the one with its number stands in the other list.
  have hsets : sets' = sets.map fun s => at_ s.set sets' := by
    calc
      sets' = sets'.map fun s => at_ s.set sets' :=
        (List.map_id' sets').symm.trans (List.map_congr_left hself)
      _ = (sets'.map set).map fun n => at_ n sets' := by rw [List.map_map]; rfl
      _ = sets.map fun s => at_ s.set sets' := by rw [← hnumbers, List.map_map]; rfl
  rw [hsets, List.forall₂_map_right_iff, List.forall₂_same]
  intro s hs
  refine ⟨(set_at_ _ _).symm, ?_⟩
  have hmerged := h.merged_at s.set
  rw [h.ascending.at_eq hs] at hmerged
  have hin := declaredIn_perm hperm s.set
  apply hmerged.perm Descriptor.slot (h'.merged_at s.set)
    (fun binding => (hin.map Descriptor.binding).mem_iff)
  intro binding
  have hbinding : ∀ d ∈ declaredAt s.set binding declared, d.binding = binding :=
    fun d hd => (mem_declaredAt_iff.mp hd).2
  exact Descriptor.slot_joinAll?_perm (declaredAt_perm hperm s.set binding) hbinding

end DescriptorSet

/-! ### Push constants -/

namespace Pushed

variable {ps ps' : List Pushed}

theorem sizeOf_perm (h : ps.Perm ps') (stage : Stage) : sizeOf stage ps = sizeOf stage ps' :=
  Word.sum_perm ((h.filter _).map _)

theorem AllAlike.perm {name : String} (h : AllAlike name ps) (hperm : ps.Perm ps') :
    AllAlike name ps' := by
  have hname : (ofName name ps).Perm (ofName name ps') := hperm.filter _
  intro p hp q hq
  exact h p (hname.mem_iff.mpr hp) q (hname.mem_iff.mpr hq)

end Pushed

/-- Elements that every group gives in any order are merged to the same list up to order. -/
theorem MergeRule.Merged.perm_of_joinAll? {α β κ ε : Type} [DecidableEq κ]
    {rule : MergeRule α β κ ε} {as as' : List α} {bs bs' : List β}
    (h : rule.Merged bs as) (h' : rule.Merged bs' as') (hperm : bs.Perm bs')
    (hjoin : ∀ k, rule.joinAll? (rule.group k bs) = rule.joinAll? (rule.group k bs')) :
    as.Perm as' := by
  have hview := h.perm id h' (fun k => (hperm.map rule.key).mem_iff)
    fun k => congrArg (Option.map id) (hjoin k)
  rwa [List.map_id, List.map_id] at hview

namespace Pipeline

variable {shaders shaders' : List Interface} {instanced : UInt32 → Bool} {p p' : Pipeline}

/-- Two merged interfaces give the same layout: the same sets with the same slots, and, up
to order, the same push constants, vertex inputs and specialization constants. -/
structure SameLayout (p p' : Pipeline) : Prop where
  sets : List.Forall₂ DescriptorSet.SameSlots p.sets p'.sets
  pushRanges : p.pushRanges.Perm p'.pushRanges
  pushFields : p.pushFields.Perm p'.pushFields
  vertexInputs : p.vertexInputs.Perm p'.vertexInputs
  vertexBindings : p.vertexBindings.Perm p'.vertexBindings
  specializations : p.specializations.Perm p'.specializations

theorem declaredSets_perm (h : shaders.Perm shaders') :
    (declaredSets shaders).Perm (declaredSets shaders') :=
  h.flatMap_right _

theorem pushed_perm (h : shaders.Perm shaders') : (pushed shaders).Perm (pushed shaders') :=
  h.flatMap_right _

/-- Shaders that can be parts of one pipeline can be so in any order. -/
theorem Mergeable.perm (h : Mergeable shaders) (hperm : shaders.Perm shaders') :
    Mergeable shaders' where
  bindings set binding :=
    (h.bindings set binding).perm
      (DescriptorSet.declaredAt_perm (declaredSets_perm hperm) set binding)
  pushNames name := (h.pushNames name).perm (pushed_perm hperm)
  pushSizes stage := Pushed.sizeOf_perm (pushed_perm hperm) stage ▸ h.pushSizes stage

theorem mergeable_perm (h : shaders.Perm shaders') : Mergeable shaders ↔ Mergeable shaders' :=
  ⟨fun hm => hm.perm h, fun hm => hm.perm h.symm⟩

theorem sameLayout_of_perm (hperm : shaders.Perm shaders')
    (h : ofInterfaces instanced shaders = .ok p) (h' : ofInterfaces instanced shaders' = .ok p') :
    SameLayout p p' := by
  obtain ⟨m, hm, rfl⟩ := ofInterfaces_eq_ok_iff.mp h
  obtain ⟨m', hm', rfl⟩ := ofInterfaces_eq_ok_iff.mp h'
  obtain ⟨hsets, hranges, hfields⟩ := foldlM_addInterface_eq_ok_iff.mp hm
  obtain ⟨hsets', hranges', hfields'⟩ := foldlM_addInterface_eq_ok_iff.mp hm'
  have hpushed := pushed_perm hperm
  have hinputs : (shaders.flatMap (·.attributes instanced)).Perm
      (shaders'.flatMap (·.attributes instanced)) := hperm.flatMap_right _
  refine ⟨?_, ?_, ?_, hinputs, (hinputs.filter _).map _, hperm.filterMap _⟩
  · exact (DescriptorSet.gathering_of_foldlM hsets).perm (DescriptorSet.gathering_of_foldlM hsets')
      (declaredSets_perm hperm)
  · apply (MergeRule.merged_of_insertAll hranges).perm_of_joinAll?
      (MergeRule.merged_of_insertAll hranges') hpushed
    intro stages
    exact PushRange.joinAll?_perm (hpushed.filter _)
      fun x hx => of_decide_eq_true (List.mem_filter.mp hx).2
  · apply (MergeRule.merged_of_insertAll hfields).perm_of_joinAll?
      (MergeRule.merged_of_insertAll hfields') hpushed
    intro name
    exact PushField.joinAll?_perm (hpushed.filter _) fun x hx => PushField.name_of_mem_ofName hx

/-- The order of the shaders decides neither whether they merge nor the layout. -/
theorem ofInterfaces_perm (instanced : UInt32 → Bool) (hperm : shaders.Perm shaders') :
    ((∃ p, ofInterfaces instanced shaders = .ok p) ↔
        ∃ p', ofInterfaces instanced shaders' = .ok p') ∧
      ∀ p p', ofInterfaces instanced shaders = .ok p →
        ofInterfaces instanced shaders' = .ok p' → SameLayout p p' := by
  refine ⟨?_, fun p p' => sameLayout_of_perm hperm⟩
  rw [exists_ofInterfaces_iff, exists_ofInterfaces_iff]
  exact mergeable_perm hperm

/-- A shader of a stage with one uniform buffer and one push constant, and with another binding
of its own. -/
def sharing (stage : Stage) (own : UInt32) : Interface where
  sourceName := stage.extension
  stage := stage
  vertexInputs := []
  descriptorSets :=
    [⟨0, [⟨"Camera", 1, .uniformBuffer, stage.flag, 64, []⟩,
      ⟨"image", own, .combinedImageSampler, stage.flag, 0, []⟩]⟩]
  pushConstants := [⟨"frame", "uint", 4, 0, none⟩]
  specConstants := []
  outputs := []
  inputBlocks := []

/-- Two stages that share a buffer and a push constant merge in both orders. -/
theorem ofInterfaces_perm_sharing :
    ∃ p p', ofInterfaces (fun _ => false) [sharing .vertex 2, sharing .fragment 3] = .ok p ∧
      ofInterfaces (fun _ => false) [sharing .fragment 3, sharing .vertex 2] = .ok p' ∧
      SameLayout p p' := by
  have hswap : [sharing .vertex 2, sharing .fragment 3].Perm
      [sharing .fragment 3, sharing .vertex 2] := .swap _ _ []
  exact ⟨_, _, rfl, rfl, (ofInterfaces_perm (fun _ => false) hswap).2 _ _ rfl rfl⟩

end Pipeline

end Glint

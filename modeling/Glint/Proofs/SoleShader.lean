import Glint.Proofs.PushCover

/-!
# A pipeline of one shader

The sets of a shader and those of a pipeline are gathered by different steps, and so are the
push constant ranges. For one shader both come out the same, because of what holds of
every shader that has been read: each set stands once, with each binding once, and the
push constants together fit in a word. What can still fail is a name that the push constant
block gives to two members.

## Main definitions

* `Member.Alike` — two members have the same type and take the same bytes
* `Pipeline.IsSole` — a pipeline is a single shader

## Main results

* `DescriptorSet.gathered_self` — sets that have been gathered are gathered to themselves
* `Pipeline.ofInterfaces_sole` — the pipeline of a shader that has been read
-/

namespace Glint

/-- Two members have the same type and take the same bytes. -/
def Member.Alike (m m' : Member) : Prop :=
  m.glslType = m'.glslType ∧ m.offset = m'.offset ∧ m.size = m'.size

/-! ### Sets that are gathered again -/

namespace DescriptorSet

variable {declared sets : List DescriptorSet} {s : DescriptorSet} {d : Descriptor}

theorem Ascending.nodup_numbers (h : Ascending sets) : (sets.map set).Nodup :=
  (List.pairwise_map.mpr h).imp UInt32.ne_of_lt

/-- Where each number stands once, what is declared in a set is what the set holds. -/
theorem declaredIn_self (hnumbers : (sets.map set).Nodup) (hs : s ∈ sets) :
    declaredIn s.set sets = s.descriptors := by
  rw [declaredIn, Pipeline.filter_eq_singleton_of_nodup hnumbers hs, List.flatMap_singleton]

/-- Where each binding of a set stands once as well, it is that of one descriptor. -/
theorem declaredAt_self (hnumbers : (sets.map set).Nodup) (hs : s ∈ sets)
    (hdistinct : (s.descriptors.map Descriptor.binding).Nodup) (hd : d ∈ s.descriptors) :
    declaredAt s.set d.binding sets = [d] := by
  rw [declaredAt, declaredIn_self hnumbers hs,
    Pipeline.filter_eq_singleton_of_nodup hdistinct hd]

/-- Sets that have been gathered are gathered to themselves. -/
theorem gathered_self (h : Gathered declared sets) : Gathered sets sets := by
  have hnumbers := h.ascending.nodup_numbers
  refine ⟨h.ascending, fun _ => Iff.rfl, h.distinct, ?_, ?_⟩
  · intro s hs
    rw [declaredIn_self hnumbers hs, eraseDups_of_nodup (h.distinct s hs)]
  · intro s hs d hd
    have hat := declaredAt_self hnumbers hs (h.distinct s hs) hd
    refine ⟨d, [], hat, ?_⟩
    rw [hat, List.map_singleton, StageSet.unionAll_cons]
    rfl

/-- Sets that have been gathered have one descriptor at most at each binding. -/
theorem Gathered.allAgree (h : Gathered declared sets) (n binding : UInt32) :
    Descriptor.AllAgree (declaredAt n binding sets) := by
  intro a ha b hb
  obtain ⟨⟨s, hs, rfl, has⟩, rfl⟩ := mem_declaredAt_iff.mp ha
  rw [declaredAt_self h.ascending.nodup_numbers hs (h.distinct s hs) has] at hb
  obtain rfl := List.mem_singleton.mp hb
  exact ⟨rfl, rfl⟩

end DescriptorSet

namespace Interface

variable {i : Interface}

/-- The sets of a shader that has been read come of the sets that its text declares. -/
theorem IsRead.exists_gathered (h : i.IsRead) :
    ∃ declared, DescriptorSet.Gathered declared i.descriptorSets := by
  obtain ⟨env, source, htext⟩ := h
  obtain ⟨ds, c, -, hc, rfl⟩ := ofText_eq_ok_iff.mp htext
  obtain ⟨items, -, hcollecting⟩ := collecting_of_foldlM hc
  exact ⟨_, (lists_of_collecting hcollecting).sets⟩

/-- The push constants of a shader that has been read fit in a word together. -/
theorem IsRead.sum_size (h : i.IsRead) :
    Word.sum (i.pushConstants.map Member.size) < UInt32.size := by
  obtain ⟨env, ts, hpack⟩ := h.exists_pack
  exact Member.sum_size_of_pack hpack

end Interface

namespace Pipeline

variable {instanced : UInt32 → Bool} {i : Interface} {p : Pipeline} {e : ReflectError}

/-! ### One shader -/

/-- The pipeline of a single shader: its sets, its attributes and its push constant range
as they are, a field for each name of a push constant in the order of the block, with the
stage of the shader alone, and its specialization constants in one entry, or in none if there
are none. -/
structure IsSole (instanced : UInt32 → Bool) (i : Interface) (p : Pipeline) : Prop where
  sourceNames : p.sourceNames = [i.sourceName]
  vertexInputs : p.vertexInputs = i.attributes instanced
  vertexBindings : p.vertexBindings = VertexBinding.ofAttributes (i.attributes instanced)
  sets : p.sets = i.descriptorSets
  pushRanges : p.pushRanges = i.pushRange?.toList
  fieldNames : p.pushFields.map PushField.name = (i.pushConstants.map Member.name).eraseDups
  fields : ∀ field ∈ p.pushFields, field.stages = i.stage.flag ∧
    ∀ m ∈ i.pushConstants, m.name = field.name → field.Agrees m
  specializations : p.specializations =
    if i.specConstants = [] then [] else [⟨i.sourceName, i.stage, i.specConstants⟩]

theorem declaredSets_singleton (i : Interface) : declaredSets [i] = i.descriptorSets :=
  List.flatMap_singleton ..

/-- A shader that has been read does not disagree with itself about a binding. -/
theorem allAgree_of_isRead (h : i.IsRead) (set binding : UInt32) :
    Descriptor.AllAgree (DescriptorSet.declaredAt set binding (declaredSets [i])) := by
  obtain ⟨declared, hgathered⟩ := h.exists_gathered
  rw [declaredSets_singleton]
  exact hgathered.allAgree set binding

theorem mem_ofName_pushed_singleton {x : Pushed} {name : String} :
    x ∈ Pushed.ofName name (pushed [i]) ↔
      x.1 = i.stage ∧ x.2 ∈ i.pushConstants ∧ x.2.name = name := by
  simp [Pushed.ofName, mem_pushed_iff, eq_comm (a := i.stage), and_assoc]

/-- The push constants of one shader take no more bytes than they are long together. -/
theorem sizeOf_pushed_singleton_le (stage : Stage) :
    Pushed.sizeOf stage (pushed [i]) ≤ Word.sum (i.pushConstants.map Member.size) := by
  rw [Pushed.sizeOf, ofStage_pushed]
  by_cases h : i.stage = stage
  · rw [List.filter_cons_of_pos (by simpa using h), List.filter_nil, pushed_singleton,
      List.map_map]
    rfl
  · rw [List.filter_cons_of_neg (by simpa using h)]
    exact Nat.zero_le _

/-- A shader that has been read can be a pipeline exactly if members of one name are alike. -/
theorem mergeable_singleton_iff (h : i.IsRead) :
    Mergeable [i] ↔
      ∀ m ∈ i.pushConstants, ∀ m' ∈ i.pushConstants, m.name = m'.name → m.Alike m' := by
  constructor
  · intro hmerge m hm m' hm' hname
    exact hmerge.pushNames m'.name (i.stage, m) (mem_ofName_pushed_singleton.mpr ⟨rfl, hm, hname⟩)
      (i.stage, m') (mem_ofName_pushed_singleton.mpr ⟨rfl, hm', rfl⟩)
  · intro halike
    refine ⟨allAgree_of_isRead h, ?_, ?_⟩
    · intro name x hx y hy
      obtain ⟨-, hx, hxname⟩ := mem_ofName_pushed_singleton.mp hx
      obtain ⟨-, hy, hyname⟩ := mem_ofName_pushed_singleton.mp hy
      exact halike x.2 hx y.2 hy (hxname.trans hyname.symm)
    · intro stage
      exact (sizeOf_pushed_singleton_le stage).trans_lt h.sum_size

/-- A single shader that has been read is refused only for two members of one name. -/
theorem exists_unlike_of_blames (h : i.IsRead) (hblames : Blames [i] e) :
    ∃ m ∈ i.pushConstants, ∃ m' ∈ i.pushConstants,
      m.name = m'.name ∧ ¬ m.Alike m' ∧ e = .conflictingPushConstant m.name := by
  -- Of the three conflicts only that of a name is left, since the others ask for two
  -- descriptors at one binding or for members that outgrow a word.
  unfold Blames at hblames
  split at hblames
  · rename_i set binding
    exact absurd (allAgree_of_isRead h set binding) hblames
  · rename_i name
    simp only [Pushed.AllAlike, not_forall] at hblames
    obtain ⟨x, hx, y, hy, hunlike⟩ := hblames
    obtain ⟨-, hx, hxname⟩ := mem_ofName_pushed_singleton.mp hx
    obtain ⟨-, hy, hyname⟩ := mem_ofName_pushed_singleton.mp hy
    exact ⟨x.2, hx, y.2, hy, hxname.trans hyname.symm, hunlike, congrArg _ hxname.symm⟩
  · rename_i stage
    exact absurd ((sizeOf_pushed_singleton_le stage).trans_lt h.sum_size) (Nat.not_lt.mpr hblames)
  · exact hblames.elim

/-- The push constants of one shader have one range, if they have any. -/
theorem pushRanges_of_sole (hp : ofInterfaces instanced [i] = .ok p) :
    p.pushRanges = i.pushRange?.toList := by
  rw [pushRanges_eq_of_nodup hp (List.nodup_singleton _)]
  cases hrange : i.pushRange? <;> simp [hrange]

/-- A field of a pipeline of one shader has the stage of the shader. -/
theorem stages_field_of_sole (hmerged : MergedFrom [i] p) {field : PushField}
    (hfield : field ∈ p.pushFields) : field.stages = i.stage.flag := by
  -- The name of the field is that of a push constant, so there is a stage to begin with.
  obtain ⟨x, hx, hxname⟩ := exists_pushed_of_mem hmerged hfield
  rw [(hmerged.fields field hfield).2]
  apply StageSet.unionAll_eq
  · rw [ne_eq, List.map_eq_nil_iff]
    exact List.ne_nil_of_mem (List.mem_filter.mpr ⟨hx, decide_eq_true hxname⟩)
  · intro stages hstages
    obtain ⟨y, hy, rfl⟩ := List.mem_map.mp hstages
    rw [(mem_ofName_pushed_singleton.mp hy).1]

theorem isSole_of_ofInterfaces (h : i.IsRead) (hp : ofInterfaces instanced [i] = .ok p) :
    IsSole instanced i p := by
  have hmerged := mergedFrom_of_ofInterfaces hp
  have hranges := pushRanges_of_sole hp
  obtain ⟨m, -, rfl⟩ := ofInterfaces_eq_ok_iff.mp hp
  have hattributes : [i].flatMap (·.attributes instanced) = i.attributes instanced :=
    List.flatMap_singleton ..
  refine {
    sourceNames := rfl
    vertexInputs := hattributes
    vertexBindings := congrArg VertexBinding.ofAttributes hattributes
    sets := ?_
    pushRanges := hranges
    fieldNames := ?_
    fields := fun field hfield => ⟨stages_field_of_sole hmerged hfield, ?_⟩
    specializations := ?_ }
  · obtain ⟨declared, hgathered⟩ := h.exists_gathered
    have hsets := hmerged.sets
    rw [declaredSets_singleton] at hsets
    -- The sets of the pipeline are gathered of those of the shader, and so are these themselves.
    exact hsets.unique (DescriptorSet.gathered_self hgathered)
  · rw [hmerged.fieldNames, pushed_singleton, List.map_map]
    rfl
  · intro member hmember hname
    have hpushed : (i.stage, member) ∈ pushed [i] :=
      mem_pushed_iff.mpr ⟨i, List.mem_singleton_self i, rfl, hmember⟩
    exact agrees_of_mem hmerged hfield hpushed hname
  · by_cases hnone : i.specConstants = [] <;> simp [specialization?, hnone]

/-- A pipeline of a single shader that has been read is that shader. There is one unless the
push constant block has two members of one name that are not alike, which is also the only
error. -/
theorem ofInterfaces_sole (instanced : UInt32 → Bool) (h : i.IsRead) :
    ((∃ p, ofInterfaces instanced [i] = .ok p) ↔
      ∀ m ∈ i.pushConstants, ∀ m' ∈ i.pushConstants, m.name = m'.name → m.Alike m') ∧
    (∀ p, ofInterfaces instanced [i] = .ok p → IsSole instanced i p) ∧
    ∀ e, ofInterfaces instanced [i] = .error e →
      ∃ m ∈ i.pushConstants, ∃ m' ∈ i.pushConstants,
        m.name = m'.name ∧ ¬ m.Alike m' ∧ e = .conflictingPushConstant m.name :=
  ⟨exists_ofInterfaces_iff.trans (mergeable_singleton_iff h), fun _ => isSole_of_ofInterfaces h,
    fun _ he => exists_unlike_of_blames h (blames_of_ofInterfaces he)⟩

/-- A vertex shader with a sampler and a push constant. -/
def terrain : Interface where
  sourceName := "terrain"
  stage := .vertex
  vertexInputs := []
  descriptorSets := [⟨1, [⟨"height", 2, .combinedImageSampler, Stage.vertex.flag, 0, []⟩]⟩]
  pushConstants := [⟨"model", "mat4", 64, 0, none⟩]
  specConstants := []
  outputs := []
  inputBlocks := []

theorem isRead_terrain : terrain.IsRead := by
  refine ⟨.glsl, ⟨"terrain", .vertex, ?_⟩, ?_⟩
  · exact "layout(set=1,binding=2)uniform sampler2D height;
      layout(push_constant)uniform P\x7bmat4 model;\x7d;"
  · decide +kernel

/-- The pipeline of a shader with a descriptor and a push constant. -/
theorem ofInterfaces_sole_terrain :
    terrain.IsRead ∧ ∃ p, ofInterfaces (· = 0) [terrain] = .ok p ∧ IsSole (· = 0) terrain p :=
  ⟨isRead_terrain, _, rfl, (ofInterfaces_sole _ isRead_terrain).2.1 _ rfl⟩

/-- A name that a block gives to two members of other types has no field. -/
example : ofInterfaces (fun _ => false)
    [{ terrain with pushConstants := [⟨"m", "mat4", 64, 0, none⟩, ⟨"m", "vec4", 16, 64, none⟩] }] =
      .error (.conflictingPushConstant "m") := by
  rfl

end Pipeline

end Glint

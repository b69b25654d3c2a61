import Glint.Proofs.PushCover

/-!
# The stages that a push has to name

The device takes a push of some bytes only with the stages of every range that has one of
these bytes. A field of a pipeline has the stages of the shaders that declare its name, while
the range of a stage has all bytes that the stage takes, whatever their names. So a field can
lack a stage: the ranges of all stages begin at byte 0, and a stage that takes bytes of a field
under another name meets the field without being one of its stages.

## Main definitions

* `StageSet.Within` — all stages of a set are stages of another
* `PushRange.Meets` — a range and a field have a byte in common
* `Pipeline.CarriesStages` — every field has the stages that a push of it has to name

## Main results

* `Pipeline.carriesStages_iff` — when the fields of a pipeline have all the stages
-/

namespace Glint

/-- All stages of a set are stages of another. -/
def StageSet.Within (s t : StageSet) : Prop :=
  s.bits &&& t.bits = s.bits

theorem StageSet.flag_within_iff {s : StageSet} {stage : Stage} :
    stage.flag.Within s ↔ s.holds stage = true := by
  have hne : stage.bit ≠ 0 := by cases stage <;> decide
  rw [Within, Stage.flag, UInt32.and_comm, and_bit, holds_eq_getLsbD]
  cases s.bits.toBitVec.getLsbD stage.rank <;> simp [hne.symm]

/-! ### Ranges and fields that meet -/

/-- A range and a field have a byte in common. -/
def PushRange.Meets (range : PushRange) (field : PushField) : Prop :=
  ∃ byte, range.offset.toNat ≤ byte ∧ byte < range.offset.toNat + range.size.toNat ∧
    field.offset.toNat ≤ byte ∧ byte < field.offset.toNat + field.size.toNat

/-- A range from byte 0 on meets the fields that are not empty and start before its end. -/
theorem PushRange.meets_iff {range : PushRange} {field : PushField} (hzero : range.offset = 0) :
    range.Meets field ↔
      0 < field.size.toNat ∧ field.offset.toNat < range.size.toNat := by
  rw [Meets, hzero, UInt32.toNat_zero]
  constructor
  · rintro ⟨byte, -, hend, hstart, hstop⟩
    omega
  · intro ⟨hsize, hend⟩
    exact ⟨field.offset.toNat, by omega⟩

namespace Pipeline

variable {instanced : UInt32 → Bool} {shaders : List Interface} {i : Interface} {p : Pipeline}
  {stage : Stage}

/-- Every field has the stages of all ranges that it has a byte in common with. -/
def CarriesStages (p : Pipeline) : Prop :=
  ∀ field ∈ p.pushFields, ∀ range ∈ p.pushRanges,
    range.Meets field → range.stages.Within field.stages

/-! ### The ranges and fields of shaders -/

/-- The push constants of a shader have a field each. -/
theorem exists_field (hmerged : MergedFrom shaders p) (hi : i ∈ shaders) {m : Member}
    (hm : m ∈ i.pushConstants) :
    ∃ field ∈ p.pushFields, field.name = m.name ∧ field.Agrees m := by
  have hpushed : (i.stage, m) ∈ pushed shaders := mem_pushed_iff.mpr ⟨i, hi, rfl, hm⟩
  have hname : m.name ∈ p.pushFields.map PushField.name := by
    rw [hmerged.fieldNames, List.mem_eraseDups]
    exact List.mem_map_of_mem (f := fun x : Pushed => x.2.name) hpushed
  obtain ⟨field, hfield, hfieldName⟩ := List.mem_map.mp hname
  exact ⟨field, hfield, hfieldName, agrees_of_mem hmerged hfield hpushed hfieldName.symm⟩

/-- A field is that of a push constant. -/
theorem exists_member (hmerged : MergedFrom shaders p) {field : PushField}
    (hfield : field ∈ p.pushFields) :
    ∃ i ∈ shaders, ∃ m ∈ i.pushConstants, field.name = m.name ∧ field.Agrees m := by
  obtain ⟨x, hx, hname⟩ := exists_pushed_of_mem hmerged hfield
  obtain ⟨i, hi, -, hm⟩ := mem_pushed_iff.mp hx
  exact ⟨i, hi, x.2, hm, hname.symm, agrees_of_mem hmerged hfield hx hname⟩

/-- A stage that takes push constant bytes has a range. -/
theorem exists_range (hmerged : MergedFrom shaders p)
    (hsize : 0 < Pushed.sizeOf stage (pushed shaders)) :
    ∃ range ∈ p.pushRanges, range.stages = stage.flag := by
  have hne : Pushed.ofStage stage (pushed shaders) ≠ [] := by
    intro hnil
    rw [Pushed.sizeOf, hnil] at hsize
    cases hsize
  obtain ⟨x, hx⟩ := List.exists_mem_of_ne_nil _ hne
  rw [← PushRange.flag_of_mem_ofStage hx]
  exact exists_range_of_mem hmerged (List.mem_of_mem_filter hx)

/-- The range of a stage has the bytes from 0 on that the stage takes. -/
theorem range_spec (hread : ∀ i ∈ shaders, i.IsRead) (hmerged : MergedFrom shaders p)
    {range : PushRange} (hrange : range ∈ p.pushRanges) :
    ∃ stage : Stage, range.stages = stage.flag ∧ range.offset = 0 ∧
      range.size.toNat = Pushed.sizeOf stage (pushed shaders) := by
  obtain ⟨stage, hstages, hoffset, hsize⟩ := hmerged.ranges range hrange
  refine ⟨stage, hstages, ?_, hsize.symm⟩
  -- Some shader of the stage has push constants, and the first of them is at byte 0.
  obtain ⟨x, hx, -⟩ := List.mem_map.mp (List.min?_eq_some_iff.mp hoffset).1
  obtain ⟨hpushed, hstage⟩ := List.mem_filter.mp hx
  obtain ⟨i, hi, histage, hm⟩ := mem_pushed_iff.mp hpushed
  have hpacked : Member.Packed (0 : UInt32).toNat i.pushConstants := (hread i hi).packed
  have hfirst := hpacked.min?_offset (List.ne_nil_of_mem hm)
  obtain ⟨m, hm, hzero⟩ := List.mem_map.mp (List.min?_eq_some_iff.mp hfirst).1
  have hmem : (i.stage, m) ∈ Pushed.ofStage stage (pushed shaders) :=
    List.mem_filter.mpr ⟨mem_pushed_iff.mpr ⟨i, hi, rfl, hm⟩, histage ▸ hstage⟩
  have hle : range.offset ≤ m.offset := (List.min?_eq_some_iff.mp hoffset).2 _
    (List.mem_map_of_mem (f := fun x : Pushed => x.2.offset) hmem)
  rw [hzero] at hle
  exact UInt32.le_antisymm hle UInt32.zero_le

/-! ### When fields have all stages -/

/-- Some shader of a stage declares a push constant of a name. -/
def Declares (shaders : List Interface) (stage : Stage) (name : String) : Prop :=
  ∃ i ∈ shaders, i.stage = stage ∧ ∃ m ∈ i.pushConstants, m.name = name

/-- The stages of the range of a stage are stages of a field exactly if the stage declares the
name of the field. -/
theorem flag_within_field_iff (hmerged : MergedFrom shaders p) {field : PushField}
    (hfield : field ∈ p.pushFields) :
    stage.flag.Within field.stages ↔ Declares shaders stage field.name := by
  rw [StageSet.flag_within_iff, holds_field_iff hmerged hfield, Declares]

/-- The fields of a pipeline of shaders have all the stages that a push of them has to name
exactly if every stage whose push constants reach into a push constant declares its name. -/
theorem carriesStages_iff (hread : ∀ i ∈ shaders, i.IsRead)
    (h : ofInterfaces instanced shaders = .ok p) :
    CarriesStages p ↔
      ∀ i ∈ shaders, ∀ m ∈ i.pushConstants, 0 < m.size → ∀ stage,
        m.offset.toNat < Pushed.sizeOf stage (pushed shaders) →
          Declares shaders stage m.name := by
  have hmerged := mergedFrom_of_ofInterfaces h
  constructor
  · intro hcarries i hi m hm hpos stage hreach
    obtain ⟨field, hfield, hname, -, hoffset, hsize⟩ := exists_field hmerged hi hm
    -- A stage that reaches into the field has bytes, so it has a range, which begins at byte 0.
    obtain ⟨range, hrange, hstages⟩ := exists_range hmerged (Nat.zero_lt_of_lt hreach)
    obtain ⟨stage', hstages', hzero, hlength⟩ := range_spec hread hmerged hrange
    obtain rfl : stage = stage' := Stage.flag_injective (hstages.symm.trans hstages')
    have hmeets : range.Meets field := by
      rw [PushRange.meets_iff hzero, hsize, hoffset, hlength]
      exact ⟨hpos, hreach⟩
    have hwithin := hcarries field hfield range hrange hmeets
    rwa [hstages, flag_within_field_iff hmerged hfield, hname] at hwithin
  · intro hdeclares field hfield range hrange hmeets
    obtain ⟨i, hi, m, hm, hname, -, hoffset, hsize⟩ := exists_member hmerged hfield
    obtain ⟨stage, hstages, hzero, hlength⟩ := range_spec hread hmerged hrange
    rw [PushRange.meets_iff hzero, hsize, hoffset, hlength] at hmeets
    rw [hstages, flag_within_field_iff hmerged hfield, hname]
    exact hdeclares i hi m hm hmeets.1 stage hmeets.2

/-- Two stages that push the same constants under the same names have all the stages. -/
theorem carriesStages_iff_animated :
    ∃ p, ofInterfaces (fun _ => false) [animated .vertex, animated .fragment] = .ok p ∧
      (∀ i ∈ [animated .vertex, animated .fragment], i.IsRead) ∧ CarriesStages p := by
  have hread := isRead_of_mem_animated
  refine ⟨_, rfl, hread, (carriesStages_iff hread rfl).mpr ?_⟩
  intro i hi m hm _ stage hreach
  -- Both shaders have the same block, so a stage that takes bytes declares every name.
  have hblock : ∀ j ∈ [animated .vertex, animated .fragment],
      j.pushConstants = (animated .vertex).pushConstants := by
    intro j hj
    rcases List.mem_pair.mp hj with rfl | rfl <;> rfl
  have hstage : stage = .vertex ∨ stage = .fragment := by
    revert hreach
    cases stage <;> simp [animated, pushed, Pushed.sizeOf, Pushed.ofStage]
  rw [hblock i hi] at hm
  rcases hstage with rfl | rfl
  · exact ⟨animated .vertex, by simp, rfl, m, hm, rfl⟩
  · exact ⟨animated .fragment, by simp, rfl, m, hm, rfl⟩

/-- A shader that pushes one constant. -/
def pushing (stage : Stage) (m : Member) : Interface where
  sourceName := "lit"
  stage := stage
  vertexInputs := []
  descriptorSets := []
  pushConstants := [m]
  specConstants := []
  outputs := []
  inputBlocks := []

/-- The matrix of a vertex shader and the color of a fragment shader, both at byte 0. -/
def lit : List Interface :=
  [pushing .vertex ⟨"model", "mat4", 64, 0, none⟩, pushing .fragment ⟨"tint", "vec4", 16, 0, none⟩]

theorem isRead_lit : ∀ i ∈ lit, i.IsRead := by
  intro i hi
  rcases List.mem_pair.mp hi with rfl | rfl
  · refine ⟨.glsl, ⟨"lit", .vertex, ?_⟩, ?_⟩
    · exact "layout(push_constant) uniform Push \x7b mat4 model; \x7d push;"
    · decide +kernel
  · refine ⟨.glsl, ⟨"lit", .fragment, ?_⟩, ?_⟩
    · exact "layout(push_constant) uniform Push \x7b vec4 tint; \x7d push;"
    · decide +kernel

/-- Two stages that take the same bytes under different names: a push of the matrix has to name
the fragment stage, which its field does not have. -/
theorem not_carriesStages_lit :
    ∃ p, ofInterfaces (fun _ => false) lit = .ok p ∧ (∀ i ∈ lit, i.IsRead) ∧
      ¬ CarriesStages p := by
  refine ⟨_, rfl, isRead_lit, ?_⟩
  intro hcarries
  have hmeets : PushRange.Meets ⟨Stage.fragment.flag, 0, 16⟩
      ⟨"model", "mat4", 0, 64, Stage.vertex.flag⟩ := ⟨0, by decide⟩
  have hwithin := hcarries _ (List.mem_cons_self ..) _
    (List.mem_cons_of_mem _ (List.mem_cons_self ..)) hmeets
  exact absurd hwithin (by rw [StageSet.Within]; decide)

end Pipeline

end Glint

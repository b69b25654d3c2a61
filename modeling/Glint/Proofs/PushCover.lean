import Glint.Proofs.Collection
import Glint.Proofs.PackedMembers
import Glint.Proofs.PipelineMerge
import Mathlib.Order.Bounds.Defs

/-!
# Push constant ranges cover what is pushed

The range of a stage is made from the lowest offset and the sum of the sizes, while fields
are collected by name. Nothing in the merge says that a field lies within the range of a
stage that reads it: that holds because the push constants of every shader that has been
read are packed from byte 0 on, so the end of a member is at most the sum of the sizes.

## Main definitions

* `Interface.IsRead` — the interface of some shader text
* `PushRange.Contains` — a range contains all bytes of a field
* `Pipeline.Covers` — the ranges of a pipeline cover its fields

## Main results

* `Interface.IsRead.packed` — the push constants of a shader are packed
* `Pipeline.covers_of_isRead` — the ranges of a pipeline of shaders cover its fields
-/

namespace Glint

/-! ### The push constants of one shader -/

namespace Item

theorem exists_ofDeclaration_of_mem {env : TypeEnv} {ds : List Declaration} {items : List Item}
    (h : ds.mapM (ofDeclaration env) = .ok items) {item : Item} (hitem : item ∈ items) :
    ∃ d ∈ ds, ofDeclaration env d = .ok item := by
  induction ds using List.reverseRecOn generalizing items with
  | nil =>
    cases h
    cases hitem
  | append_singleton ds d ih =>
    obtain ⟨before, last, hbefore, hlast, rfl⟩ := mapM_ofDeclaration_concat.mp h
    rcases List.mem_append.mp hitem with hitem | hitem
    · obtain ⟨d', hd', hdeclared⟩ := ih hbefore hitem
      exact ⟨d', List.mem_append_left _ hd', hdeclared⟩
    · obtain rfl := List.mem_singleton.mp hitem
      exact ⟨d, by simp, hlast⟩

theorem eq_pushConstants_of_pushBlock? {item : Item} {members : List Member}
    (h : item.pushBlock? = some members) : item = .pushConstants members := by
  cases item <;> cases h
  rfl

end Item

namespace Interface

/-- The interface is that of a shader text, read with some types. -/
def IsRead (i : Interface) : Prop :=
  ∃ env source, ofText env source = .ok i

/-- The push constants of a shader that has been read are packed from the tokens of a block. -/
theorem IsRead.exists_pack {i : Interface} (h : i.IsRead) :
    ∃ env ts, Member.pack env ts = .ok i.pushConstants := by
  obtain ⟨env, source, htext⟩ := h
  obtain ⟨ds, c, -, hc, rfl⟩ := ofText_eq_ok_iff.mp htext
  obtain ⟨items, hitems, hcollecting⟩ := collecting_of_foldlM hc
  rw [ofCollected]
  cases hpush : c.pushConstants? with
  | none => exact ⟨env, [], rfl⟩
  | some members =>
    -- The block is that of one of the items, hence of one of the declarations.
    have hblock : members ∈ (Inventory.ofItems source.stage items).pushBlocks := by
      simp [← hcollecting.pushBlocks, hpush]
    obtain ⟨item, hitem, hmembers⟩ := List.mem_filterMap.mp hblock
    obtain rfl := Item.eq_pushConstants_of_pushBlock? hmembers
    obtain ⟨d, -, hd⟩ := Item.exists_ofDeclaration_of_mem hitems hitem
    exact ⟨env, Item.exists_pack_of_pushConstants hd⟩

/-- The push constants of a shader that has been read are packed from byte 0 on. -/
theorem IsRead.packed {i : Interface} (h : i.IsRead) : Member.Packed 0 i.pushConstants := by
  obtain ⟨env, ts, hpack⟩ := h.exists_pack
  exact Member.packed_of_pack hpack

theorem pushRange?_eq_some_iff {i : Interface} {range : PushRange} :
    i.pushRange? = some range ↔
      range.stages = i.stage.flag ∧
      (i.pushConstants.map Member.offset).min? = some range.offset ∧
      Word.sum (i.pushConstants.map Member.size) = range.size.toNat := by
  obtain ⟨stages, offset, size⟩ := range
  rw [pushRange?, ← Word.total?_eq_some_iff]
  cases (i.pushConstants.map Member.offset).min? <;>
    cases Word.total? (i.pushConstants.map Member.size) <;> simp [eq_comm]

/-- The range of a shader is that of its push constants, each with the stage of the shader. -/
theorem pushRange?_eq (i : Interface) :
    i.pushRange? = PushRange.mergeRule.joinAll? (i.pushConstants.map (i.stage, ·)) := by
  have hstages : ∀ p ∈ i.pushConstants.map (i.stage, ·), p.1.flag = i.stage.flag := by simp
  ext range
  rw [pushRange?_eq_some_iff, PushRange.joinAll?_eq_some_iff hstages, List.map_map, List.map_map,
    Word.total?_eq_some_iff]
  rfl

/-- The range of a shader starts at byte 0 and ends with the last of its push constants. -/
theorem IsRead.of_pushRange? {i : Interface} (h : i.IsRead) {range : PushRange}
    (hrange : i.pushRange? = some range) :
    range.offset = 0 ∧
      IsGreatest {stop | ∃ m ∈ i.pushConstants, m.stop = stop}
        (range.offset.toNat + range.size.toNat) := by
  obtain ⟨-, hoffset, hsize⟩ := pushRange?_eq_some_iff.mp hrange
  have hne : i.pushConstants ≠ [] := by
    intro hnil
    rw [hnil] at hoffset
    cases hoffset
  have hpacked : Member.Packed (0 : UInt32).toNat i.pushConstants := h.packed
  have hzero : range.offset = 0 := Option.some.inj (hoffset.symm.trans (hpacked.min?_offset hne))
  rw [← hsize, hzero]
  refine ⟨rfl, hpacked.exists_stop_eq hne, ?_⟩
  rintro stop ⟨m, hm, rfl⟩
  exact hpacked.stop_le hm

end Interface

/-! ### Push constants by stage -/

/-- The range contains all bytes of a field. -/
def PushRange.Contains (range : PushRange) (field : PushField) : Prop :=
  range.offset ≤ field.offset ∧
    field.offset.toNat + field.size.toNat ≤ range.offset.toNat + range.size.toNat

theorem eraseDups_of_nodup {α : Type} [DecidableEq α] {as : List α} (h : as.Nodup) :
    as.eraseDups = as := by
  induction as using List.reverseRecOn with
  | nil => rfl
  | append_singleton as a ih =>
    rw [← List.concat_eq_append, List.nodup_concat] at h
    rw [MergeRule.eraseDups_concat, if_neg h.1, ih h.2]

/-- Equal elements at the end of a list count as one when repetitions are erased. -/
theorem eraseDups_append_of_forall_eq {α : Type} [DecidableEq α] {bs : List α} {a : α}
    (hne : bs ≠ []) (h : ∀ b ∈ bs, b = a) (as : List α) :
    (as ++ bs).eraseDups = (as ++ [a]).eraseDups := by
  induction bs using List.reverseRecOn with
  | nil => exact absurd rfl hne
  | append_singleton bs b ih =>
    obtain rfl : b = a := h b (by simp)
    by_cases hbs : bs = []
    · rw [hbs, List.nil_append]
    · have hmem : b ∈ as ++ bs := by
        obtain ⟨b', hb'⟩ := List.exists_mem_of_ne_nil bs hbs
        obtain rfl : b' = b := h b' (List.mem_append_left _ hb')
        exact List.mem_append_right _ hb'
      rw [← List.append_assoc, MergeRule.eraseDups_concat, if_pos hmem,
        ih hbs fun b' hb' => h b' (List.mem_append_left _ hb')]

namespace Pipeline

variable {shaders : List Interface} {i : Interface} {stage : Stage} {p : Pipeline}

theorem pushed_append (shaders shaders' : List Interface) :
    pushed (shaders ++ shaders') = pushed shaders ++ pushed shaders' :=
  List.flatMap_append

theorem pushed_singleton (i : Interface) : pushed [i] = i.pushConstants.map (i.stage, ·) :=
  List.flatMap_singleton ..

theorem mem_pushed_iff {x : Pushed} :
    x ∈ pushed shaders ↔ ∃ i ∈ shaders, i.stage = x.1 ∧ x.2 ∈ i.pushConstants := by
  obtain ⟨stage, m⟩ := x
  simp only [pushed, List.mem_flatMap, List.mem_map, Prod.mk.injEq]
  constructor
  · rintro ⟨i, hi, m', hm, hstage, rfl⟩
    exact ⟨i, hi, hstage, hm⟩
  · rintro ⟨i, hi, hstage, hm⟩
    exact ⟨i, hi, m, hm, hstage, rfl⟩

/-- The stages with push constants are first seen in the order of the shaders that have some. -/
theorem eraseDups_flag_pushed (shaders : List Interface) :
    ((pushed shaders).map fun x => x.1.flag).eraseDups =
      ((shaders.filter fun i => i.pushConstants ≠ []).map fun i => i.stage.flag).eraseDups := by
  induction shaders using List.reverseRecOn with
  | nil => rfl
  | append_singleton shaders i ih =>
    rw [pushed_append, pushed_singleton, List.map_append, List.filter_append, List.map_append]
    by_cases hnone : i.pushConstants = []
    · simpa [hnone] using ih
    · have hflags : ∀ flag ∈ (i.pushConstants.map (i.stage, ·)).map fun x => x.1.flag,
          flag = i.stage.flag := by simp
      have hkept : [i].filter (fun i => i.pushConstants ≠ []) = [i] :=
        List.filter_cons_of_pos (decide_eq_true hnone)
      rw [eraseDups_append_of_forall_eq (by simpa using hnone) hflags, hkept, List.map_singleton]
      -- Whether the stage is new is told by the stages seen before.
      have hseen := congrArg (i.stage.flag ∈ ·) ih
      simp only [List.mem_eraseDups] at hseen
      simp only [MergeRule.eraseDups_concat, hseen, ih]

/-- The push constants of a stage are those of the shaders of that stage. -/
theorem ofStage_pushed (stage : Stage) (shaders : List Interface) :
    Pushed.ofStage stage (pushed shaders) = pushed (shaders.filter fun i => i.stage = stage) := by
  induction shaders with
  | nil => rfl
  | cons i shaders ih =>
    have hcons (shaders : List Interface) :
        pushed (i :: shaders) = i.pushConstants.map (i.stage, ·) ++ pushed shaders := rfl
    have happend (ps ps' : List Pushed) : Pushed.ofStage stage (ps ++ ps') =
        Pushed.ofStage stage ps ++ Pushed.ofStage stage ps' := List.filter_append ..
    rw [hcons, happend, ih]
    by_cases h : i.stage = stage
    · rw [List.filter_cons_of_pos (by simpa using h), hcons]
      congr 1
      rw [Pushed.ofStage, List.filter_eq_self]
      simp [h]
    · rw [List.filter_cons_of_neg (by simpa using h)]
      have hnone : Pushed.ofStage stage (i.pushConstants.map (i.stage, ·)) = [] := by
        simp [Pushed.ofStage, h]
      rw [hnone, List.nil_append]

/-- The push constants of one shader are no longer than those of its stage. -/
theorem sum_le_sizeOf (hi : i ∈ shaders) :
    Word.sum (i.pushConstants.map Member.size) ≤ Pushed.sizeOf i.stage (pushed shaders) := by
  have hmem : i ∈ shaders.filter fun j => j.stage = i.stage :=
    List.mem_filter.mpr ⟨hi, decide_eq_true rfl⟩
  obtain ⟨before, after, hsplit⟩ := List.append_of_mem hmem
  have hown : (pushed [i]).map (fun x => x.2.size) = i.pushConstants.map Member.size := by
    rw [pushed_singleton, List.map_map]
    rfl
  rw [Pushed.sizeOf, ofStage_pushed, hsplit, pushed_append, ← List.singleton_append, pushed_append,
    List.map_append, List.map_append, hown, Word.sum_append, Word.sum_append]
  omega

theorem filter_eq_singleton_of_nodup {α β : Type} [DecidableEq β] {f : α → β} {as : List α}
    {a : α} (hnodup : (as.map f).Nodup) (ha : a ∈ as) : (as.filter fun b => f b = f a) = [a] := by
  induction as with
  | nil => cases ha
  | cons b as ih =>
    rw [List.map_cons, List.nodup_cons] at hnodup
    rcases List.mem_cons.mp ha with rfl | ha
    · rw [List.filter_cons_of_pos (by simp), List.filter_eq_nil_iff.mpr]
      intro c hc hfc
      exact hnodup.1 (of_decide_eq_true hfc ▸ List.mem_map_of_mem hc)
    · have hne : f b ≠ f a := fun heq => hnodup.1 (heq ▸ List.mem_map_of_mem ha)
      rw [List.filter_cons_of_neg (by simpa using hne), ih hnodup.2 ha]

/-- If no two shaders have the same stage, the push constants of a stage are those of its
shader. -/
theorem ofStage_pushed_of_nodup (hnodup : (shaders.map Interface.stage).Nodup)
    (hi : i ∈ shaders) :
    Pushed.ofStage i.stage (pushed shaders) = i.pushConstants.map (i.stage, ·) := by
  rw [ofStage_pushed, filter_eq_singleton_of_nodup hnodup hi, pushed_singleton]

/-! ### The ranges of a pipeline -/

/-- The push constant ranges of a pipeline cover its fields. There is one range for each stage
of a shader with push constants, in the order in which the stages were first seen, and no
two ranges share a stage. A field has the stages of the shaders that declare its name, and
lies within the range of each. If no two shaders have the same stage, the ranges are those of
the shaders, from byte 0 to the end of the last member. -/
structure Covers (shaders : List Interface) (p : Pipeline) : Prop where
  stages : p.pushRanges.map PushRange.stages =
    ((shaders.filter fun i => i.pushConstants ≠ []).map fun i => i.stage.flag).eraseDups
  apart : p.pushRanges.Pairwise fun r s => r.stages.bits &&& s.stages.bits = 0
  contains : ∀ field ∈ p.pushFields, ∀ stage, field.stages.holds stage = true →
    ∃ range ∈ p.pushRanges, range.stages = stage.flag ∧ range.Contains field
  holds_iff : ∀ field ∈ p.pushFields, ∀ stage, field.stages.holds stage = true ↔
    ∃ i ∈ shaders, i.stage = stage ∧ ∃ m ∈ i.pushConstants, m.name = field.name
  unnamed : ∀ field ∈ p.pushFields, field.stages.unnamed = 0
  own : (shaders.map Interface.stage).Nodup →
    p.pushRanges = shaders.filterMap Interface.pushRange? ∧
    ∀ i ∈ shaders, ∀ range, i.pushRange? = some range → range.offset = 0 ∧
      IsGreatest {stop | ∃ m ∈ i.pushConstants, m.stop = stop}
        (range.offset.toNat + range.size.toNat)

variable {instanced : UInt32 → Bool}

theorem pairwise_apart {ranges : List PushRange}
    (hflags : ∀ r ∈ ranges, ∃ stage : Stage, r.stages = stage.flag)
    (hnodup : (ranges.map PushRange.stages).Nodup) :
    ranges.Pairwise fun r s => r.stages.bits &&& s.stages.bits = 0 := by
  have hne : ranges.Pairwise fun r s => r.stages ≠ s.stages := List.pairwise_map.mp hnodup
  refine hne.imp_of_mem ?_
  intro r s hr hs hrs
  obtain ⟨a, ha⟩ := hflags r hr
  obtain ⟨b, hb⟩ := hflags s hs
  rw [ha, hb] at hrs ⊢
  exact Stage.bit_and_bit fun hab => hrs (congrArg Stage.flag hab)

theorem stages_field (hmerged : MergedFrom shaders p) {field : PushField}
    (hfield : field ∈ p.pushFields) :
    field.stages = .unionAll
      (((Pushed.ofName field.name (pushed shaders)).map Prod.fst).map Stage.flag) := by
  rw [(hmerged.fields field hfield).2, List.map_map]
  rfl

theorem unnamed_field (hmerged : MergedFrom shaders p) {field : PushField}
    (hfield : field ∈ p.pushFields) : field.stages.unnamed = 0 := by
  rw [stages_field hmerged hfield, StageSet.unnamed_unionAll_flag]

/-- A field has the stages of the shaders that declare its name. -/
theorem holds_field_iff (hmerged : MergedFrom shaders p) {field : PushField}
    (hfield : field ∈ p.pushFields) :
    field.stages.holds stage = true ↔
      ∃ i ∈ shaders, i.stage = stage ∧ ∃ m ∈ i.pushConstants, m.name = field.name := by
  rw [stages_field hmerged hfield, StageSet.holds_unionAll_flag, List.mem_map]
  simp only [Pushed.ofName, List.mem_filter, decide_eq_true_eq, mem_pushed_iff]
  constructor
  · rintro ⟨⟨s, m⟩, ⟨⟨i, hi, hstage, hm⟩, hname⟩, rfl⟩
    exact ⟨i, hi, hstage, m, hm, hname⟩
  · rintro ⟨i, hi, hstage, m, hm, hname⟩
    exact ⟨(stage, m), ⟨⟨i, hi, hstage, hm⟩, hname⟩, rfl⟩

/-- A stage that declares a push constant has a range. -/
theorem exists_range_of_mem (hmerged : MergedFrom shaders p) {x : Pushed}
    (hx : x ∈ pushed shaders) : ∃ range ∈ p.pushRanges, range.stages = x.1.flag := by
  have hflag : x.1.flag ∈ p.pushRanges.map PushRange.stages := by
    rw [hmerged.rangeStages, List.mem_eraseDups]
    exact List.mem_map_of_mem (f := fun x : Pushed => x.1.flag) hx
  exact List.mem_map.mp hflag

/-- A field has the name of a push constant. -/
theorem exists_pushed_of_mem (hmerged : MergedFrom shaders p) {field : PushField}
    (hfield : field ∈ p.pushFields) : ∃ x ∈ pushed shaders, x.2.name = field.name := by
  have hname : field.name ∈ (pushed shaders).map fun x => x.2.name := by
    rw [← List.mem_eraseDups, ← hmerged.fieldNames]
    exact List.mem_map_of_mem hfield
  exact List.mem_map.mp hname

/-- A field agrees with the push constants of its name. -/
theorem agrees_of_mem (hmerged : MergedFrom shaders p) {field : PushField}
    (hfield : field ∈ p.pushFields) {x : Pushed} (hx : x ∈ pushed shaders)
    (hname : x.2.name = field.name) : field.Agrees x.2 :=
  (hmerged.fields field hfield).1 x (List.mem_filter.mpr ⟨hx, decide_eq_true hname⟩)

/-- A field lies within the range of every stage that it has. -/
theorem exists_contains (hread : ∀ i ∈ shaders, i.IsRead) (hmerged : MergedFrom shaders p)
    {field : PushField} (hfield : field ∈ p.pushFields)
    (hholds : field.stages.holds stage = true) :
    ∃ range ∈ p.pushRanges, range.stages = stage.flag ∧ range.Contains field := by
  obtain ⟨i, hi, rfl, m, hm, hname⟩ := (holds_field_iff hmerged hfield).mp hholds
  have hpushed : (i.stage, m) ∈ pushed shaders := mem_pushed_iff.mpr ⟨i, hi, rfl, hm⟩
  obtain ⟨range, hrange, hstages⟩ := exists_range_of_mem hmerged hpushed
  refine ⟨range, hrange, hstages, ?_⟩
  obtain ⟨stage, hstage, hoffset, hsize⟩ := hmerged.ranges range hrange
  obtain rfl : i.stage = stage := Stage.flag_injective (hstages.symm.trans hstage)
  obtain ⟨-, hoffset', hsize'⟩ := agrees_of_mem hmerged hfield hpushed hname
  rw [PushRange.Contains, hoffset', hsize', ← hsize]
  constructor
  · apply (List.min?_eq_some_iff.mp hoffset).2
    exact List.mem_map_of_mem (f := fun x : Pushed => x.2.offset)
      (PushRange.mem_ofStage_self hpushed)
  · have hstop := (hread i hi).packed.stop_le hm
    have hsum := sum_le_sizeOf hi
    exact (hstop.trans (Nat.zero_add _ ▸ hsum)).trans (Nat.le_add_left _ _)

/-- If no two shaders have the same stage, every range is that of a shader. -/
theorem pushRanges_eq_of_nodup (h : ofInterfaces instanced shaders = .ok p)
    (hnodup : (shaders.map Interface.stage).Nodup) :
    p.pushRanges = shaders.filterMap Interface.pushRange? := by
  obtain ⟨m, hm, rfl⟩ := ofInterfaces_eq_ok_iff.mp h
  have hmerged := MergeRule.merged_of_insertAll (foldlM_addInterface_eq_ok_iff.mp hm).2.1
  have hflags :
      ((shaders.filter fun i => i.pushConstants ≠ []).map fun i => i.stage.flag).Nodup := by
    have hall := hnodup.map fun _ _ => Stage.flag_injective
    rw [List.map_map] at hall
    exact hall.sublist (List.filter_sublist.map _)
  have hown : ∀ i ∈ shaders, PushRange.mergeRule.joinAll?
      (PushRange.mergeRule.group i.stage.flag (pushed shaders)) = i.pushRange? := by
    intro i hi
    rw [PushRange.group_flag, ofStage_pushed_of_nodup hnodup hi, Interface.pushRange?_eq]
  calc m.push.ranges
      = ((pushed shaders).map fun x => x.1.flag).eraseDups.filterMap fun k =>
          PushRange.mergeRule.joinAll? (PushRange.mergeRule.group k (pushed shaders)) :=
        hmerged.eq_filterMap
    _ = (shaders.filter fun i => i.pushConstants ≠ []).filterMap Interface.pushRange? := by
        rw [eraseDups_flag_pushed, eraseDups_of_nodup hflags, List.filterMap_map]
        exact List.filterMap_congr fun i hi => hown i (List.mem_of_mem_filter hi)
    _ = shaders.filterMap Interface.pushRange? := by
        rw [List.filterMap_filter]
        refine List.filterMap_congr fun i _ => ?_
        by_cases hnone : i.pushConstants = []
        · simp [hnone, Interface.pushRange?]
        · simp [hnone]

/-- The push constant ranges of a pipeline of shaders that have been read cover its fields. -/
theorem covers_of_isRead (hread : ∀ i ∈ shaders, i.IsRead)
    (h : ofInterfaces instanced shaders = .ok p) : Covers shaders p := by
  have hmerged := mergedFrom_of_ofInterfaces h
  have hstages := hmerged.rangeStages.trans (eraseDups_flag_pushed shaders)
  refine {
    stages := hstages
    apart := pairwise_apart ?_ ?_
    contains := fun field hfield stage => exists_contains hread hmerged hfield
    holds_iff := fun field hfield stage => holds_field_iff hmerged hfield
    unnamed := ?_
    own := ?_ }
  · intro range hrange
    obtain ⟨stage, hstage, -⟩ := hmerged.ranges range hrange
    exact ⟨stage, hstage⟩
  · rw [hstages]
    exact MergeRule.nodup_eraseDups _
  · exact fun field => unnamed_field hmerged
  · intro hnodup
    refine ⟨pushRanges_eq_of_nodup h hnodup, ?_⟩
    exact fun i hi range => (hread i hi).of_pushRange?

/-- A shader that pushes a matrix and a number. -/
def animated (stage : Stage) : Interface where
  sourceName := "animated"
  stage := stage
  vertexInputs := []
  descriptorSets := []
  pushConstants := [⟨"model", "mat4", 64, 0, none⟩, ⟨"time", "float", 4, 64, none⟩]
  specConstants := []
  outputs := []
  inputBlocks := []

theorem isRead_animated {stage : Stage} (h : stage = .vertex ∨ stage = .fragment) :
    (animated stage).IsRead := by
  refine ⟨.glsl, ⟨"animated", stage, ?_⟩, ?_⟩
  · exact "layout(push_constant) uniform P\x7bmat4 model;float time;\x7d;"
  · rcases h with rfl | rfl <;> decide +kernel

theorem isRead_of_mem_animated : ∀ i ∈ [animated .vertex, animated .fragment], i.IsRead := by
  intro i hi
  rcases List.mem_pair.mp hi with rfl | rfl
  · exact isRead_animated (.inl rfl)
  · exact isRead_animated (.inr rfl)

/-- Two stages that push the same constants have a range each. -/
theorem covers_of_isRead_animated :
    ∃ p, ofInterfaces (fun _ => false) [animated .vertex, animated .fragment] = .ok p ∧
      (∀ i ∈ [animated .vertex, animated .fragment], i.IsRead) ∧
      Covers [animated .vertex, animated .fragment] p := by
  exact ⟨_, rfl, isRead_of_mem_animated, covers_of_isRead isRead_of_mem_animated rfl⟩

end Pipeline

end Glint

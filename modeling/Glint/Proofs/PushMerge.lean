import Glint.Proofs.MergeRule
import Glint.Proofs.StageUnion
import Glint.PushConstant

/-!
# What merging makes of push constants

Every push constant is taken up twice: by the range of its stage, which starts at the
lowest offset and is as long as all members of the stage together, and by the field
of its name, which collects the stages. A range stops the merge when its length is
not a word, and a field when a member of its name disagrees with it.

## Main definitions

* `Pushed` — a push constant with the stage that declares it
* `PushRange.mergeRule`, `PushField.mergeRule` — ranges kept by stage, fields kept by name

## Main results

* `PushRange.joinAll?_eq_some_iff` — the range of the push constants of one stage
* `PushField.joinAll?_eq_some_iff` — the field of the push constants of one name
* `PushLayout.foldlM_addPushed_eq_ok_iff`, `PushLayout.foldlM_addPushed_eq_error` — a layout
  is its ranges and its fields
-/

namespace Glint

/-- A push constant with the stage that declares it. -/
abbrev Pushed := Stage × Member

namespace Pushed

/-- The push constants that a stage declares, in order. -/
def ofStage (stage : Stage) (ps : List Pushed) : List Pushed :=
  ps.filter fun p => p.1 = stage

/-- The push constants of a name, in order. -/
def ofName (name : String) (ps : List Pushed) : List Pushed :=
  ps.filter fun p => p.2.name = name

/-- The bytes that the push constants of a stage take together. -/
def sizeOf (stage : Stage) (ps : List Pushed) : Nat :=
  Word.sum ((ofStage stage ps).map fun p => p.2.size)

/-- Two push constants have the same type and take the same bytes. -/
def Alike (p q : Pushed) : Prop :=
  p.2.glslType = q.2.glslType ∧ p.2.offset = q.2.offset ∧ p.2.size = q.2.size

/-- The push constants of a name are all declared alike. -/
def AllAlike (name : String) (ps : List Pushed) : Prop :=
  ∀ p ∈ ofName name ps, ∀ q ∈ ofName name ps, p.Alike q

end Pushed

theorem Stage.flag_injective {s t : Stage} (h : s.flag = t.flag) : s = t := by
  cases s <;> cases t <;> first | rfl | cases h

variable {p first : Pushed} {ps : List Pushed}

/-- The sum of words does not depend on their order. -/
theorem Word.sum_perm {words words' : List UInt32} (h : words.Perm words') :
    sum words = sum words' := by
  induction h with
  | nil => rfl
  | cons word _ ih => rw [sum_cons, sum_cons, ih]
  | swap word word' words =>
    simp only [sum_cons]
    omega
  | trans _ _ ih ih' => exact ih.trans ih'

/-! ### Ranges -/

namespace PushRange

/-- Push constants taken up by the range of their stage. -/
def mergeRule : MergeRule PushRange Pushed StageSet ReflectError where
  keyOf := stages
  key p := p.1.flag
  start p := ⟨p.1.flag, p.2.offset, p.2.size⟩
  join? range p := (Word.add? range.size p.2.size).map fun size =>
    ⟨range.stages, min range.offset p.2.offset, size⟩
  conflict p := .malformed 0 (.pushConstantsTooLarge p.1)
  keyOf_start _ := rfl
  keyOf_join? h := by
    obtain ⟨_, -, rfl⟩ := Option.map_eq_some_iff.mp h
    rfl

theorem addRange_eq_insert (stage : Stage) (m : Member) (ranges : List PushRange) :
    PushLayout.addRange stage m ranges = mergeRule.insert (stage, m) ranges := by
  induction ranges with
  | nil => rfl
  | cons range ranges ih =>
    rw [PushLayout.addRange, MergeRule.insert, ih]
    by_cases hkey : range.stages = stage.flag
    · cases hsize : Word.add? range.size m.size <;> simp [mergeRule, hkey, hsize]
    · simp [mergeRule, hkey]

variable {range joined : PushRange}

/-- A range that takes up push constants starts at the lowest offset and is as long as all
together. -/
theorem foldlM_join?_eq_some_iff :
    ps.foldlM mergeRule.join? range = some joined ↔
      joined.stages = range.stages ∧
      joined.offset = (ps.map fun p => p.2.offset).foldl min range.offset ∧
      range.size.toNat + Word.sum (ps.map fun p => p.2.size) = joined.size.toNat := by
  induction ps generalizing range with
  | nil =>
    obtain ⟨stages, offset, size⟩ := range
    obtain ⟨stages', offset', size'⟩ := joined
    simp [eq_comm, UInt32.toNat_inj]
  | cons p ps ih =>
    rw [List.foldlM_cons]
    cases hsize : Word.add? range.size p.2.size with
    | none =>
      have hjoin : mergeRule.join? range p = none := by simp [mergeRule, hsize]
      rw [hjoin]
      constructor
      · intro h
        cases h
      · intro ⟨_, _, hsum⟩
        -- What does not fit here is longer than a word for good.
        have hlt := joined.size.toNat_lt
        have hbig : ¬ range.size.toNat + p.2.size.toNat < UInt32.size := by
          intro hfits
          simp [Word.add?, hfits] at hsize
        simp only [List.map_cons, Word.sum_cons] at hsum
        simp only [UInt32.size] at hbig
        omega
    | some size =>
      have hjoin : mergeRule.join? range p =
          some ⟨range.stages, min range.offset p.2.offset, size⟩ := by simp [mergeRule, hsize]
      have hnat := Word.add?_eq_some_iff.mp hsize
      rw [hjoin]
      simp only [Option.bind_eq_bind, Option.bind_some, ih, List.map_cons, List.foldl_cons,
        Word.sum_cons, ← hnat, Nat.add_assoc]

/-- The push constants of one stage have a range exactly if their sizes together are a word.
It starts at the lowest offset and is as long as all of them. -/
theorem joinAll?_eq_some_iff {stages : StageSet} (hstages : ∀ p ∈ ps, p.1.flag = stages) :
    mergeRule.joinAll? ps = some joined ↔
      joined.stages = stages ∧
      (ps.map fun p => p.2.offset).min? = some joined.offset ∧
      Word.total? (ps.map fun p => p.2.size) = some joined.size := by
  cases ps with
  | nil => simp [MergeRule.joinAll?]
  | cons first ps =>
    have hfold : mergeRule.joinAll? (first :: ps) =
        ps.foldlM mergeRule.join? ⟨first.1.flag, first.2.offset, first.2.size⟩ := rfl
    rw [hfold, foldlM_join?_eq_some_iff, hstages first List.mem_cons_self,
      Word.total?_eq_some_iff, List.map_cons, List.map_cons, List.min?_cons', Option.some.injEq,
      Word.sum_cons, eq_comm (a := joined.offset)]

/-- The range of a stage does not depend on the order of its push constants. -/
theorem joinAll?_perm {ps' : List Pushed} {stages : StageSet} (hperm : ps.Perm ps')
    (hstages : ∀ p ∈ ps, p.1.flag = stages) :
    mergeRule.joinAll? ps = mergeRule.joinAll? ps' := by
  have hstages' : ∀ p ∈ ps', p.1.flag = stages := fun p hp => hstages p (hperm.mem_iff.mpr hp)
  -- The minimum and the sum do not depend on the order.
  have hoffset : (ps.map fun p => p.2.offset).min? = (ps'.map fun p => p.2.offset).min? := by
    ext offset
    rw [List.min?_eq_some_iff, List.min?_eq_some_iff]
    simp only [(hperm.map fun p : Pushed => p.2.offset).mem_iff]
  have hsize :
      Word.total? (ps.map fun p => p.2.size) = Word.total? (ps'.map fun p => p.2.size) := by
    rw [Word.total?, Word.total?, Word.sum_perm (hperm.map fun p : Pushed => p.2.size)]
  ext range
  rw [joinAll?_eq_some_iff hstages, joinAll?_eq_some_iff hstages', hoffset, hsize]

theorem group_flag (stage : Stage) (ps : List Pushed) :
    mergeRule.group stage.flag ps = Pushed.ofStage stage ps := by
  refine List.filter_congr fun p _ => decide_eq_decide.mpr ⟨Stage.flag_injective, ?_⟩
  rintro rfl
  rfl

theorem flag_of_mem_ofStage {stage : Stage} (hp : p ∈ Pushed.ofStage stage ps) :
    p.1.flag = stage.flag := by
  rw [of_decide_eq_true (List.mem_filter.mp hp).2]

theorem exists_joinAll?_iff {stages : StageSet} (hstages : ∀ p ∈ ps, p.1.flag = stages) :
    (∃ range, mergeRule.joinAll? ps = some range) ↔
      ps ≠ [] ∧ Word.sum (ps.map fun p => p.2.size) < UInt32.size := by
  simp only [joinAll?_eq_some_iff hstages]
  constructor
  · intro ⟨range, _, hoffset, hsize⟩
    refine ⟨?_, ?_⟩
    · rintro rfl
      cases hoffset
    · rw [Word.total?_eq_some_iff.mp hsize]
      exact range.size.toNat_lt
  · intro ⟨hne, hfits⟩
    have hoffset := List.min?_eq_some_min (l := ps.map fun p => p.2.offset) (by simpa using hne)
    exact ⟨⟨stages, _, _⟩, rfl, hoffset, if_pos hfits⟩

/-- The push constants of a stage have a range exactly if they do not outgrow a word. -/
theorem exists_range_iff {stage : Stage} (hp : p ∈ Pushed.ofStage stage ps) :
    (∃ range, mergeRule.joinAll? (mergeRule.group stage.flag ps) = some range) ↔
      Pushed.sizeOf stage ps < UInt32.size := by
  rw [group_flag, exists_joinAll?_iff fun q => flag_of_mem_ofStage]
  exact and_iff_right (List.ne_nil_of_mem hp)

theorem mem_ofStage_self (hp : p ∈ ps) : p ∈ Pushed.ofStage p.1 ps :=
  List.mem_filter.mpr ⟨hp, decide_eq_true rfl⟩

/-- Ranges stop the merge only at a stage whose push constants outgrow a word. -/
theorem exists_of_insertAll_eq_error {e : ReflectError}
    (h : mergeRule.insertAll [] ps = .error e) :
    ∃ stage, e = .malformed 0 (.pushConstantsTooLarge stage) ∧
      UInt32.size ≤ Pushed.sizeOf stage ps := by
  obtain ⟨p, hp, rfl, hnone⟩ := MergeRule.exists_of_insertAll_eq_error h
  refine ⟨p.1, rfl, ?_⟩
  by_contra hfits
  exact hnone ((exists_range_iff (mem_ofStage_self hp)).mpr (Nat.not_le.mp hfits))

theorem exists_insertAll_iff :
    (∃ ranges, mergeRule.insertAll [] ps = .ok ranges) ↔
      ∀ stage, Pushed.sizeOf stage ps < UInt32.size := by
  rw [MergeRule.exists_insertAll_iff]
  constructor
  · intro h stage
    cases hps : Pushed.ofStage stage ps with
    | nil => simp [Pushed.sizeOf, hps, UInt32.size]
    | cons p _ =>
      have hp : p ∈ Pushed.ofStage stage ps := by simp [hps]
      have hjoin := h p (List.mem_filter.mp hp).1
      rw [← exists_range_iff hp, ← flag_of_mem_ofStage hp]
      exact hjoin
  · intro h p hp
    exact (exists_range_iff (mem_ofStage_self hp)).mpr (h p.1)

/-- A range of a layout is that of the push constants of its stage. -/
theorem exists_stage_of_mem {ranges : List PushRange} (h : mergeRule.insertAll [] ps = .ok ranges)
    (hmem : range ∈ ranges) :
    ∃ stage, range.stages = stage.flag ∧
      ((Pushed.ofStage stage ps).map fun p => p.2.offset).min? = some range.offset ∧
      Pushed.sizeOf stage ps = range.size.toNat := by
  have hmerged := MergeRule.merged_of_insertAll h
  obtain ⟨p, -, hp⟩ := List.mem_map.mp (hmerged.mem_keys_iff.mp (List.mem_map_of_mem hmem))
  have hjoin := hmerged.joinAll?_keyOf hmem
  rw [← hp] at hjoin
  rw [show mergeRule.key p = p.1.flag from rfl, group_flag,
    joinAll?_eq_some_iff fun q => flag_of_mem_ofStage, Word.total?_eq_some_iff] at hjoin
  exact ⟨p.1, hjoin⟩

end PushRange

/-! ### Fields -/

namespace PushField

/-- A push constant is declared as the field has it. -/
def Agrees (field : PushField) (m : Member) : Prop :=
  field.glslType = m.glslType ∧ field.offset = m.offset ∧ field.size = m.size

/-- Push constants taken up by the field of their name. -/
def mergeRule : MergeRule PushField Pushed String ReflectError where
  keyOf := name
  key p := p.2.name
  start p := ⟨p.2.name, p.2.glslType, p.2.offset, p.2.size, p.1.flag⟩
  join? field p :=
    if field.glslType = p.2.glslType ∧ field.offset = p.2.offset ∧ field.size = p.2.size then
      some { field with stages := field.stages.union p.1.flag }
    else none
  conflict p := .conflictingPushConstant p.2.name
  keyOf_start _ := rfl
  keyOf_join? h := by
    split at h
    · cases h
      rfl
    · cases h

theorem addField_eq_insert (stage : Stage) (m : Member) (fields : List PushField) :
    PushLayout.addField stage m fields = mergeRule.insert (stage, m) fields := by
  induction fields with
  | nil => rfl
  | cons field fields ih =>
    rw [PushLayout.addField, MergeRule.insert, ih]
    by_cases hkey : field.name = m.name
    · by_cases hagree : field.glslType = m.glslType ∧ field.offset = m.offset ∧
          field.size = m.size <;> simp [mergeRule, hkey, hagree]
    · simp [mergeRule, hkey]

variable {field joined : PushField}

theorem foldlM_join?_eq_some_iff :
    ps.foldlM mergeRule.join? field = some joined ↔
      (∀ p ∈ ps, field.Agrees p.2) ∧
        joined = { field with stages := (ps.map fun p => p.1.flag).foldl .union field.stages } := by
  induction ps generalizing field with
  | nil => simp [eq_comm]
  | cons p ps ih =>
    rw [List.foldlM_cons, List.forall_mem_cons]
    by_cases h : field.Agrees p.2
    · have hjoin : mergeRule.join? field p =
          some { field with stages := field.stages.union p.1.flag } := if_pos h
      rw [hjoin]
      simp only [h, true_and]
      exact ih
    · have hjoin : mergeRule.join? field p = none := if_neg h
      simp [hjoin, h]

/-- The push constants of one name have a field exactly if all are declared alike. It is
declared like them and has the stages of all. -/
theorem joinAll?_eq_some_iff {name : String} (hname : ∀ p ∈ ps, p.2.name = name) :
    mergeRule.joinAll? ps = some joined ↔
      ps ≠ [] ∧ joined.name = name ∧ (∀ p ∈ ps, joined.Agrees p.2) ∧
        joined.stages = .unionAll (ps.map fun p => p.1.flag) := by
  cases ps with
  | nil => simp [MergeRule.joinAll?]
  | cons first ps =>
    have hfold : mergeRule.joinAll? (first :: ps) = ps.foldlM mergeRule.join?
        ⟨first.2.name, first.2.glslType, first.2.offset, first.2.size, first.1.flag⟩ := rfl
    rw [hfold, foldlM_join?_eq_some_iff, List.map_cons, StageSet.unionAll_cons,
      List.forall_mem_cons]
    have hfirst := hname first List.mem_cons_self
    constructor
    · rintro ⟨hagree, rfl⟩
      exact ⟨List.cons_ne_nil _ _, hfirst, ⟨⟨rfl, rfl, rfl⟩, hagree⟩, rfl⟩
    · intro ⟨_, hname, ⟨⟨htype, hoffset, hsize⟩, hagree⟩, hstages⟩
      obtain ⟨name', glslType, offset, size, stages⟩ := joined
      subst hname htype hoffset hsize hstages
      exact ⟨hagree, by rw [hfirst]⟩

/-- The field of a name does not depend on the order of its push constants. -/
theorem joinAll?_perm {ps' : List Pushed} {name : String} (hperm : ps.Perm ps')
    (hname : ∀ p ∈ ps, p.2.name = name) : mergeRule.joinAll? ps = mergeRule.joinAll? ps' := by
  have hname' : ∀ p ∈ ps', p.2.name = name := fun p hp => hname p (hperm.mem_iff.mpr hp)
  have hne : ps ≠ [] ↔ ps' ≠ [] := by
    rw [← List.length_pos_iff, ← List.length_pos_iff, hperm.length_eq]
  have hstages := StageSet.unionAll_perm (hperm.map fun p : Pushed => p.1.flag)
  ext field
  rw [joinAll?_eq_some_iff hname, joinAll?_eq_some_iff hname', hne, hstages]
  simp only [hperm.mem_iff]

theorem group_name (name : String) (ps : List Pushed) :
    mergeRule.group name ps = Pushed.ofName name ps := rfl

theorem name_of_mem_ofName {name : String} (hp : p ∈ Pushed.ofName name ps) :
    p.2.name = name :=
  of_decide_eq_true (List.mem_filter.mp hp).2

theorem mem_ofName_self (hp : p ∈ ps) : p ∈ Pushed.ofName p.2.name ps :=
  List.mem_filter.mpr ⟨hp, decide_eq_true rfl⟩

/-- The push constants of a name have a field exactly if they are all declared alike. -/
theorem exists_field_iff {name : String} (hp : p ∈ Pushed.ofName name ps) :
    (∃ field, mergeRule.joinAll? (mergeRule.group name ps) = some field) ↔
      Pushed.AllAlike name ps := by
  rw [group_name]
  simp only [joinAll?_eq_some_iff fun q => name_of_mem_ofName]
  constructor
  · intro ⟨field, _, _, hagree, _⟩ q hq r hr
    obtain ⟨htype, hoffset, hsize⟩ := hagree q hq
    obtain ⟨htype', hoffset', hsize'⟩ := hagree r hr
    exact ⟨htype.symm.trans htype', hoffset.symm.trans hoffset', hsize.symm.trans hsize'⟩
  · intro h
    exact ⟨⟨name, p.2.glslType, p.2.offset, p.2.size, _⟩, List.ne_nil_of_mem hp, rfl,
      fun q hq => h p hp q hq, rfl⟩

/-- Fields stop the merge only at a name whose push constants are not declared alike. -/
theorem exists_of_insertAll_eq_error {e : ReflectError}
    (h : mergeRule.insertAll [] ps = .error e) :
    ∃ name, e = .conflictingPushConstant name ∧ ¬ Pushed.AllAlike name ps := by
  obtain ⟨p, hp, rfl, hnone⟩ := MergeRule.exists_of_insertAll_eq_error h
  refine ⟨p.2.name, rfl, ?_⟩
  intro hall
  exact hnone ((exists_field_iff (mem_ofName_self hp)).mpr hall)

theorem exists_insertAll_iff :
    (∃ fields, mergeRule.insertAll [] ps = .ok fields) ↔ ∀ name, Pushed.AllAlike name ps := by
  rw [MergeRule.exists_insertAll_iff]
  constructor
  · intro h name p hp
    obtain rfl := name_of_mem_ofName hp
    exact (exists_field_iff hp).mp (h p (List.mem_filter.mp hp).1) p hp
  · intro h p hp
    exact (exists_field_iff (mem_ofName_self hp)).mpr (h p.2.name)

/-- A field of a layout is declared like the push constants of its name. -/
theorem of_mem_insertAll {fields : List PushField} (h : mergeRule.insertAll [] ps = .ok fields)
    (hmem : field ∈ fields) :
    (∀ p ∈ Pushed.ofName field.name ps, field.Agrees p.2) ∧
      field.stages = .unionAll ((Pushed.ofName field.name ps).map fun p => p.1.flag) := by
  have hjoin := (MergeRule.merged_of_insertAll h).joinAll?_keyOf hmem
  rw [show mergeRule.keyOf field = field.name from rfl, group_name,
    joinAll?_eq_some_iff fun q => name_of_mem_ofName] at hjoin
  exact hjoin.2.2

end PushField

/-! ### Layouts -/

namespace PushLayout

/-- Add a push constant of some stage. -/
def addPushed (layout : PushLayout) (p : Pushed) : Except ReflectError PushLayout :=
  addMember p.1 layout p.2

theorem add_eq_foldlM (layout : PushLayout) (stage : Stage) (members : List Member) :
    layout.add stage members = (members.map (stage, ·)).foldlM addPushed layout := by
  rw [List.foldlM_map]
  rfl

theorem addPushed_mk (ranges : List PushRange) (fields : List PushField) (p : Pushed) :
    addPushed ⟨ranges, fields⟩ p = do
      return ⟨← PushRange.mergeRule.insert p ranges, ← PushField.mergeRule.insert p fields⟩ := by
  rw [← PushRange.addRange_eq_insert, ← PushField.addField_eq_insert]
  rfl

/-- A layout takes up push constants exactly if its ranges and its fields do. -/
theorem foldlM_addPushed_eq_ok_iff {layout : PushLayout} :
    ps.foldlM addPushed empty = .ok layout ↔
      PushRange.mergeRule.insertAll [] ps = .ok layout.ranges ∧
      PushField.mergeRule.insertAll [] ps = .ok layout.fields := by
  rw [empty, Outcome.foldlM_pair_eq_ok_iff addPushed_mk]
  constructor
  · rintro ⟨ranges, fields, hranges, hfields, rfl⟩
    exact ⟨hranges, hfields⟩
  · intro ⟨hranges, hfields⟩
    exact ⟨_, _, hranges, hfields, rfl⟩

/-- A layout refuses push constants with an error of its ranges or of its fields. -/
theorem foldlM_addPushed_eq_error {e : ReflectError} (h : ps.foldlM addPushed empty = .error e) :
    PushRange.mergeRule.insertAll [] ps = .error e ∨
      PushField.mergeRule.insertAll [] ps = .error e :=
  Outcome.foldlM_pair_eq_error addPushed_mk h

end PushLayout

end Glint

import Glint.Proofs.Collection

/-!
# Items that an interface does not show

An interface lists its items, but not every item leaves a trace of its own. An input matters in
the vertex stage only, a block of push constants may be empty, and a descriptor at a binding that
has been declared before only confirms what is there. Everything else changes the interface.

## Main definitions

* `Item.IsHidden` — an interface that has some items does not show one more

## Main results

* `Collecting.ofCollected_addItem` — a hidden item leaves the interface as it is
* `Interface.ofCollected_eq_iff` — more declarations leave the interface as it is exactly if their
  items are hidden
-/

namespace Glint

/-! ### Descriptors that are there already -/

namespace DescriptorSet

variable {n : UInt32} {new : Descriptor} {ds ds' : List Descriptor} {sets sets' : List DescriptorSet}

/-- A descriptor with the stages of those in the set and a binding of one of them leaves the set
as it is. -/
theorem mergeInto_eq_self (hstages : ∀ d ∈ ds, d.stages = new.stages)
    (hbinding : new.binding ∈ ds.map Descriptor.binding) (h : mergeInto n new ds = .ok ds') :
    ds' = ds := by
  induction ds generalizing ds' with
  | nil => cases hbinding
  | cons old others ih =>
    obtain ⟨hold, hothers⟩ := List.forall_mem_cons.mp hstages
    rw [mergeInto] at h
    split at h
    · split at h
      · cases h
        rw [← hold, StageSet.union_self]
      · cases h
    · rename_i hne
      obtain ⟨rest, hrest, rfl⟩ := Outcome.map_eq_ok.mp h
      have hmem := (List.mem_cons.mp hbinding).resolve_left (Ne.symm hne)
      rw [ih hothers hmem hrest]

/-- A change that leaves the set with a number as it is leaves all sets as they are. -/
theorem update_eq_self {change : DescriptorSet → Except ReflectError DescriptorSet}
    (hasc : Ascending sets) (hn : n ∈ sets.map set)
    (hsame : ∀ s ∈ sets, s.set = n → ∀ s', change s = .ok s' → s' = s)
    (h : update n change sets = .ok sets') : sets' = sets := by
  induction sets generalizing sets' with
  | nil => cases hn
  | cons s sets ih =>
    obtain ⟨hfirst, hothers⟩ := List.forall_mem_cons.mp hsame
    rw [update] at h
    split at h
    · rename_i heq
      obtain ⟨s', hs', rfl⟩ := Outcome.map_eq_ok.mp h
      rw [hfirst heq s' hs']
    · rename_i hne
      have hmem := (List.mem_cons.mp hn).resolve_left (Ne.symm hne)
      split at h
      · rename_i hlt
        -- The numbers of the sets behind are larger still.
        obtain ⟨other, hother, rfl⟩ := List.mem_map.mp hmem
        have hgt := List.rel_of_pairwise_cons hasc hother
        exact absurd (UInt32.lt_trans hlt hgt) (UInt32.lt_irrefl _)
      · obtain ⟨rest, hrest, rfl⟩ := Outcome.map_eq_ok.mp h
        rw [ih hasc.of_cons hmem hothers hrest]

end DescriptorSet

/-! ### Hidden items -/

namespace Item

/-- The set and the binding of a descriptor. -/
def place? : Item → Option (UInt32 × UInt32)
  | .descriptor set binding .. => some (set, binding)
  | _ => none

/-- An interface with some items does not show one more: an input without attributes, a
descriptor where there is one before, a block of push constants without members. -/
def IsHidden (env : TypeEnv) (stage : Stage) (before : List Item) : Item → Prop
  | .vertexInput location glslType name =>
    stage = .vertex → NamedInput.attributes env ⟨location, glslType, name⟩ = []
  | .descriptor set binding .. => (set, binding) ∈ before.filterMap place?
  | .pushConstants members => members = []
  | .inputBlock .. | .output .. | .specConstant .. => False

instance (env : TypeEnv) (stage : Stage) (before : List Item) (item : Item) :
    Decidable (item.IsHidden env stage before) :=
  match item with
  | .vertexInput location glslType name =>
    inferInstanceAs
      (Decidable (stage = .vertex → NamedInput.attributes env ⟨location, glslType, name⟩ = []))
  | .descriptor set binding .. =>
    inferInstanceAs (Decidable ((set, binding) ∈ before.filterMap place?))
  | .pushConstants members => inferInstanceAs (Decidable (members = []))
  | .inputBlock .. | .output .. | .specConstant .. => inferInstanceAs (Decidable False)

variable {env : TypeEnv} {stage : Stage} {before more : List Item} {item : Item}

/-- What is hidden stays hidden when there are more items. -/
theorem IsHidden.append (h : item.IsHidden env stage before) (more : List Item) :
    item.IsHidden env stage (before ++ more) := by
  cases item with
  | descriptor set binding name kind size members =>
    rw [IsHidden, List.filterMap_append]
    exact List.mem_append_left _ h
  | _ => exact h

/-- The places of items are the bindings that they declare. -/
theorem mem_filterMap_place?_iff {n binding : UInt32} :
    (n, binding) ∈ before.filterMap place? ↔
      binding ∈ (DescriptorSet.declaredIn n (Inventory.ofItems stage before).sets).map
        Descriptor.binding := by
  constructor
  · intro h
    obtain ⟨item, hitem, hplace⟩ := List.mem_filterMap.mp h
    cases item with
    | descriptor set binding name kind size members =>
      cases hplace
      refine List.mem_map.mpr ⟨⟨name, binding, kind, stage.flag, size, members⟩, ?_, rfl⟩
      refine List.mem_flatMap.mpr ⟨⟨n, [_]⟩, ?_, List.mem_singleton_self _⟩
      exact List.mem_filter.mpr ⟨List.mem_filterMap.mpr ⟨_, hitem, rfl⟩, decide_eq_true rfl⟩
    | _ => cases hplace
  · intro h
    obtain ⟨d, hd, rfl⟩ := List.mem_map.mp h
    obtain ⟨s, hs, hmem⟩ := List.mem_flatMap.mp hd
    obtain ⟨hs, hn⟩ := List.mem_filter.mp hs
    obtain ⟨item, hitem, hset⟩ := List.mem_filterMap.mp hs
    cases item with
    | descriptor set binding name kind size members =>
      cases hset
      obtain rfl : set = n := of_decide_eq_true hn
      rw [List.mem_singleton.mp hmem]
      exact List.mem_filterMap.mpr ⟨_, hitem, rfl⟩
    | _ => cases hset

end Item

/-- The bindings of gathered sets are those that were declared. -/
theorem DescriptorSet.Gathered.mem_binding_iff {declared sets : List DescriptorSet}
    {n binding : UInt32} (h : Gathered declared sets) :
    (∃ s ∈ sets, s.set = n ∧ binding ∈ s.descriptors.map Descriptor.binding) ↔
      binding ∈ (declaredIn n declared).map Descriptor.binding := by
  constructor
  · rintro ⟨s, hs, rfl, hbinding⟩
    rwa [h.bindings s hs, List.mem_eraseDups] at hbinding
  · intro hbinding
    obtain ⟨d, hd, -⟩ := List.mem_map.mp hbinding
    obtain ⟨t, ht, -⟩ := List.mem_flatMap.mp hd
    obtain ⟨ht, hn⟩ := List.mem_filter.mp ht
    have hnumber : n ∈ declared.map set := of_decide_eq_true hn ▸ List.mem_map_of_mem ht
    obtain ⟨s, hs, hset⟩ := List.mem_map.mp ((h.numbers n).mpr hnumber)
    refine ⟨s, hs, hset, ?_⟩
    rwa [h.bindings s hs, hset, List.mem_eraseDups]

/-! ### Interfaces with hidden items -/

variable {env : TypeEnv} {stage : Stage} {items more : List Item} {item : Item}
  {c c' : Collected} {at_ : Nat}

namespace Collecting

/-- A descriptor where there is one before leaves the sets as they are. -/
theorem addDescriptor_eq_self {n : UInt32} {new : Descriptor}
    (h : Collecting env stage (.ofItems stage items) c)
    (hadd : c.addDescriptor n new = .ok c')
    (hplace : (n, new.binding) ∈ items.filterMap Item.place?) (hstages : new.stages = stage.flag) :
    c' = c := by
  have hgathered := DescriptorSet.gathered_of_foldlM h.sets
  obtain ⟨s, hs, rfl, hbinding⟩ :=
    hgathered.mem_binding_iff.mpr (Item.mem_filterMap_place?_iff.mp hplace)
  obtain ⟨sets, hsets, rfl⟩ := Outcome.map_eq_ok.mp hadd
  have hsame : sets = c.descriptorSets := by
    apply DescriptorSet.update_eq_self hgathered.ascending (List.mem_map_of_mem hs) _ hsets
    intro t ht hset t' ht'
    obtain rfl : t = s := by
      rw [← hgathered.ascending.at_eq ht, hset, hgathered.ascending.at_eq hs]
    obtain ⟨ds, hds, rfl⟩ := Outcome.map_eq_ok.mp ht'
    have hflags : ∀ d ∈ t.descriptors, d.stages = new.stages := by
      intro d hd
      rw [hstages]
      exact Interface.stages_eq_flag hgathered hs hd
    rw [DescriptorSet.mergeInto_eq_self hflags hbinding hds]
  rw [hsame]

/-- A hidden item leaves the interface as it is. -/
theorem ofCollected_addItem (h : Collecting env stage (.ofItems stage items) c)
    (hhidden : item.IsHidden env stage items) (hadd : c.addItem env stage at_ item = .ok c')
    (name : String) :
    Interface.ofCollected name stage c' = Interface.ofCollected name stage c := by
  cases item with
  | vertexInput location glslType input =>
    rw [Collected.addItem, Collected.addInput] at hadd
    split at hadd
    · rename_i hvertex
      obtain ⟨type, htype, hadd⟩ := Outcome.bind_eq_ok.mp hadd
      split at hadd
      · rename_i slots hslots
        cases hadd
        have hattributes := hhidden hvertex
        rw [NamedInput.attributes_eq_ofSlot _ (TypeEnv.valueType_eq_ok_iff.mp htype)] at hattributes
        obtain ⟨-, rfl⟩ := VertexAttribute.ofInput?_eq_some_iff.mp hslots
        rw [hattributes, List.append_nil]
      · cases hadd
    · cases hadd
      rfl
  | descriptor set binding block kind size members =>
    rw [h.addDescriptor_eq_self hadd hhidden rfl]
  | pushConstants members =>
    rw [Collected.addItem, Collected.addPushConstants] at hadd
    split at hadd
    · cases hadd
    · rename_i hnone
      cases hadd
      obtain rfl : members = [] := hhidden
      rw [Interface.ofCollected, Interface.ofCollected, Option.not_isSome_iff_eq_none.mp hnone]
      rfl
  | _ => exact hhidden.elim

end Collecting

variable {ds later : List Declaration}

theorem Item.mapM_ofDeclaration_append :
    (ds ++ later).mapM (ofDeclaration env) = .ok items ↔
      ∃ before after, ds.mapM (ofDeclaration env) = .ok before ∧
        later.mapM (ofDeclaration env) = .ok after ∧ items = before ++ after := by
  simp only [List.mapM_append, Outcome.bind_eq_ok, Outcome.pure_eq_ok]
  constructor
  · rintro ⟨before, hbefore, after, hafter, rfl⟩
    exact ⟨before, after, hbefore, hafter, rfl⟩
  · rintro ⟨before, after, hbefore, hafter, rfl⟩
    exact ⟨before, hbefore, after, hafter, rfl⟩

/-- What has been collected of declarations holds what their items list. -/
theorem collecting_of_mapM (hc : ds.foldlM (Collected.addDeclaration env stage) .empty = .ok c)
    (hitems : ds.mapM (Item.ofDeclaration env) = .ok items) :
    Collecting env stage (.ofItems stage items) c := by
  obtain ⟨items', hitems', h⟩ := collecting_of_foldlM hc
  obtain rfl : items = items' := Except.ok.inj (hitems.symm.trans hitems')
  exact h

/-- No item is of a kind of which a longer list has no more. -/
theorem Item.eq_none_of_filterMap {β : Type} {f : Item → Option β}
    (h : (items ++ more).filterMap f = items.filterMap f) (hitem : item ∈ more) :
    f item = none := by
  rw [List.filterMap_append, List.append_right_eq_self, List.filterMap_eq_nil_iff] at h
  exact h item hitem

namespace Interface

variable {name : String}

/-- Items that are collected without a change of the interface are hidden. -/
theorem isHidden_of_ofCollected_eq (h : Collecting env stage (.ofItems stage items) c)
    (h' : Collecting env stage (.ofItems stage (items ++ more)) c')
    (hsame : ofCollected name stage c' = ofCollected name stage c) (hitem : item ∈ more) :
    item.IsHidden env stage items := by
  cases item with
  | vertexInput location glslType input =>
    intro hvertex
    have hinputs : c'.vertexInputs = c.vertexInputs := congrArg vertexInputs hsame
    rw [h'.vertexInputs, h.vertexInputs, if_pos hvertex, if_pos hvertex, Inventory.ofItems,
      Inventory.ofItems, List.filterMap_append, List.flatMap_append, List.append_right_eq_self,
      List.flatMap_eq_nil_iff] at hinputs
    exact hinputs _ (List.mem_filterMap.mpr ⟨_, hitem, rfl⟩)
  | inputBlock location? declaration =>
    have hblocks : c'.inputBlocks = c.inputBlocks := congrArg inputBlocks hsame
    rw [h'.inputBlocks, h.inputBlocks] at hblocks
    cases Item.eq_none_of_filterMap hblocks hitem
  | output location? declaration =>
    have houtputs : c'.outputs = c.outputs := congrArg outputs hsame
    rw [h'.outputs, h.outputs] at houtputs
    cases Item.eq_none_of_filterMap houtputs hitem
  | descriptor set binding block kind size members =>
    have hsets : c'.descriptorSets = c.descriptorSets := congrArg descriptorSets hsame
    have hgathered := DescriptorSet.gathered_of_foldlM h.sets
    have hgathered' := DescriptorSet.gathered_of_foldlM h'.sets
    -- The same sets hold what was declared before, and what was declared with the later items.
    rw [hsets] at hgathered'
    have hplace : (set, binding) ∈ (items ++ more).filterMap Item.place? :=
      List.mem_filterMap.mpr ⟨_, List.mem_append_right _ hitem, rfl⟩
    rw [Item.mem_filterMap_place?_iff, ← hgathered'.mem_binding_iff,
      hgathered.mem_binding_iff, ← Item.mem_filterMap_place?_iff] at hplace
    exact hplace
  | pushConstants members =>
    have hmembers : c'.pushConstants?.getD [] = c.pushConstants?.getD [] :=
      congrArg pushConstants hsame
    have hflatten (block? : Option (List Member)) : block?.getD [] = block?.toList.flatten := by
      cases block? <;> simp
    have hblocks (items : List Item) :
        (Inventory.ofItems stage items).pushBlocks = items.filterMap Item.pushBlock? := rfl
    rw [hflatten, hflatten, h'.pushBlocks, h.pushBlocks, hblocks, hblocks, List.filterMap_append,
      List.flatten_append, List.append_right_eq_self, List.flatten_eq_nil_iff] at hmembers
    exact hmembers members (List.mem_filterMap.mpr ⟨_, hitem, rfl⟩)
  | specConstant id glslType constant =>
    have hconstants : c'.specConstants = c.specConstants := congrArg specConstants hsame
    have hdeclared := congrArg (List.map SpecConstant.declared) hconstants
    rw [h'.constants, h.constants] at hdeclared
    cases Item.eq_none_of_filterMap hdeclared hitem

/-- More declarations leave the interface as it is exactly if their items are hidden. -/
theorem ofCollected_eq_iff
    (hc : ds.foldlM (Collected.addDeclaration env stage) .empty = .ok c)
    (hc' : later.foldlM (Collected.addDeclaration env stage) c = .ok c')
    (hitems : ds.mapM (Item.ofDeclaration env) = .ok items)
    (hmore : later.mapM (Item.ofDeclaration env) = .ok more) :
    ofCollected name stage c' = ofCollected name stage c ↔
      ∀ item ∈ more, item.IsHidden env stage items := by
  have hcollecting {later : List Declaration} {more : List Item} {c' : Collected}
      (hc' : later.foldlM (Collected.addDeclaration env stage) c = .ok c')
      (hmore : later.mapM (Item.ofDeclaration env) = .ok more) :
      Collecting env stage (.ofItems stage (items ++ more)) c' := by
    have hrun : (ds ++ later).foldlM (Collected.addDeclaration env stage) .empty = .ok c' := by
      rw [List.foldlM_append, hc]
      exact hc'
    exact collecting_of_mapM hrun
      (Item.mapM_ofDeclaration_append.mpr ⟨items, more, hitems, hmore, rfl⟩)
  constructor
  · intro hsame item hitem
    exact isHidden_of_ofCollected_eq (collecting_of_mapM hc hitems) (hcollecting hc' hmore) hsame
      hitem
  · intro hhidden
    -- From the end, since the items before a hidden one only become more.
    induction later using List.reverseRecOn generalizing c' more with
    | nil =>
      cases hc'
      rfl
    | append_singleton later d ih =>
      obtain ⟨m, hm, hadd⟩ := Outcome.foldlM_concat_eq_ok.mp hc'
      obtain ⟨before, item, hbefore, hitem, rfl⟩ := Item.mapM_ofDeclaration_concat.mp hmore
      obtain ⟨item', hitem', hadd⟩ := Outcome.bind_eq_ok.mp hadd
      obtain rfl : item = item' := Except.ok.inj (hitem.symm.trans hitem')
      have hlast : item.IsHidden env stage items :=
        hhidden item (List.mem_append_right _ (List.mem_singleton_self _))
      rw [(hcollecting hm hbefore).ofCollected_addItem (hlast.append before) hadd]
      exact ih hm hbefore fun item hitem => hhidden item (List.mem_append_left _ hitem)

end Interface

end Glint

import Glint.Proofs.Inventory

/-!
# The interface of a shader holds exactly its items

A shader has an interface exactly if its declarations can be read, each says what it
declares, and all of them together are admissible. The interface then lists what they
declare: nothing is lost and nothing is invented.

## Main definitions

* `Interface.Lists` — an interface lists an inventory

## Main results

* `Interface.Lists.unique` — what an interface lists says what it is
* `Interface.ofText_exact` — when a shader has an interface, and what it lists
-/

namespace Glint

variable {env : TypeEnv} {stage : Stage} {ds : List Declaration} {items : List Item}
  {c : Collected}

/-! ### The run over the declarations -/

namespace Item

theorem mapM_ofDeclaration_concat {d : Declaration} :
    (ds ++ [d]).mapM (ofDeclaration env) = .ok items ↔
      ∃ before item, ds.mapM (ofDeclaration env) = .ok before ∧ ofDeclaration env d = .ok item ∧
        items = before ++ [item] := by
  simp only [List.mapM_append, List.mapM_cons, List.mapM_nil, Outcome.bind_eq_ok,
    Outcome.pure_eq_ok]
  constructor
  · rintro ⟨before, hbefore, _, ⟨item, hitem, _, rfl, rfl⟩, rfl⟩
    exact ⟨before, item, hbefore, hitem, rfl⟩
  · rintro ⟨before, item, hbefore, hitem, rfl⟩
    exact ⟨before, hbefore, [item], ⟨item, hitem, [], rfl, rfl⟩, rfl⟩

end Item

/-- A run over declarations collects the items that they declare. -/
theorem collecting_of_foldlM (h : ds.foldlM (Collected.addDeclaration env stage) .empty = .ok c) :
    ∃ items, ds.mapM (Item.ofDeclaration env) = .ok items ∧
      Collecting env stage (.ofItems stage items) c := by
  induction ds using List.reverseRecOn generalizing c with
  | nil =>
    cases h
    exact ⟨[], rfl, .empty⟩
  | append_singleton ds d ih =>
    obtain ⟨before, hbefore, hadd⟩ := Outcome.foldlM_concat_eq_ok.mp h
    obtain ⟨items, hitems, hcollecting⟩ := ih hbefore
    obtain ⟨item, hitem, hadd⟩ := Outcome.bind_eq_ok.mp hadd
    refine ⟨items ++ [item], ?_, ?_⟩
    · exact Item.mapM_ofDeclaration_concat.mpr ⟨items, item, hitems, hitem, rfl⟩
    · rw [Inventory.ofItems_concat]
      exact hcollecting.addItem hadd

/-- A run over declarations with admissible items comes to its end. -/
theorem exists_collected (hitems : ds.mapM (Item.ofDeclaration env) = .ok items)
    (hadm : (Inventory.ofItems stage items).Admissible env stage) :
    ∃ c, ds.foldlM (Collected.addDeclaration env stage) .empty = .ok c := by
  induction ds using List.reverseRecOn generalizing items with
  | nil => exact ⟨_, rfl⟩
  | append_singleton ds d ih =>
    obtain ⟨before, item, hbefore, hitem, rfl⟩ := Item.mapM_ofDeclaration_concat.mp hitems
    rw [Inventory.ofItems_concat] at hadm
    obtain ⟨c, hc⟩ := ih hbefore hadm.of_add
    obtain ⟨before', hbefore', hcollecting⟩ := collecting_of_foldlM hc
    obtain rfl : before = before' := Except.ok.inj (hbefore.symm.trans hbefore')
    obtain ⟨c', hadd⟩ := hcollecting.exists_addItem hadm
    exact ⟨c', Outcome.foldlM_concat_eq_ok.mpr
      ⟨c, hc, Outcome.bind_eq_ok.mpr ⟨item, hitem, hadd⟩⟩⟩

/-! ### Interfaces -/

namespace Interface

/-- An interface lists an inventory, of which no descriptor shares its binding with one of
another kind or size, and no two blocks are of push constants. The attributes are those of the
vertex inputs, slot by slot, in the vertex stage alone. The push constants are the members
of the block. Specialization constants have the scalar type and the size of their type
and stand one after the other from the first byte on. Every set has a descriptor, and
all descriptors have the stage of the shader. -/
structure Lists (env : TypeEnv) (source : ShaderText) (inv : Inventory) (i : Interface) :
    Prop where
  sourceName : i.sourceName = source.name
  stage : i.stage = source.stage
  outputs : i.outputs = inv.outputs
  inputBlocks : i.inputBlocks = inv.inputBlocks
  vertexInputs : i.vertexInputs =
    if source.stage = .vertex then inv.inputs.flatMap (·.attributes env) else []
  onePushBlock : inv.pushBlocks.length ≤ 1
  pushConstants : i.pushConstants = inv.pushBlocks.flatten
  constants : i.specConstants.map SpecConstant.declared = inv.constants
  typed : ∀ c ∈ i.specConstants, c.IsTyped env
  consecutive : SpecConstant.Consecutive 0 i.specConstants
  agree : ∀ set binding, Descriptor.AllAgree (DescriptorSet.declaredAt set binding inv.sets)
  sets : DescriptorSet.Gathered inv.sets i.descriptorSets
  nonempty : ∀ s ∈ i.descriptorSets, s.descriptors ≠ []
  stages : ∀ s ∈ i.descriptorSets, ∀ d ∈ s.descriptors, d.stages = source.stage.flag

variable {source : ShaderText} {i : Interface}

/-- An inventory is listed by one interface only. -/
theorem Lists.unique {inv : Inventory} {i' : Interface} (h : Lists env source inv i)
    (h' : Lists env source inv i') : i = i' := by
  have hconstants : i.specConstants = i'.specConstants :=
    SpecConstant.eq_of_declared_eq (h.constants.trans h'.constants.symm) h.typed h'.typed
      h.consecutive h'.consecutive
  have hsets : i.descriptorSets = i'.descriptorSets := h.sets.unique h'.sets
  obtain ⟨sourceName, stage, vertexInputs, descriptorSets, pushConstants, specConstants, outputs,
    inputBlocks⟩ := i
  rw [Interface.mk.injEq]
  exact ⟨h.sourceName.trans h'.sourceName.symm, h.stage.trans h'.stage.symm,
    h.vertexInputs.trans h'.vertexInputs.symm, hsets, h.pushConstants.trans h'.pushConstants.symm,
    hconstants, h.outputs.trans h'.outputs.symm, h.inputBlocks.trans h'.inputBlocks.symm⟩

theorem ofText_eq_ok_iff :
    ofText env source = .ok i ↔
      ∃ ds c, Declaration.readAll (Comment.strip source.text) = .ok ds ∧
        ds.foldlM (Collected.addDeclaration env source.stage) .empty = .ok c ∧
        i = ofCollected source.name source.stage c := by
  simp only [ofText, Outcome.bind_eq_ok, Outcome.pure_eq_ok, eq_comm (a := i)]
  constructor
  · rintro ⟨ds, hds, c, hc, rfl⟩
    exact ⟨ds, c, hds, hc, rfl⟩
  · rintro ⟨ds, c, hds, hc, rfl⟩
    exact ⟨ds, hds, c, hc, rfl⟩

/-- Every set of an inventory of items holds one descriptor, with the stage of the shader. -/
theorem exists_descriptor_of_mem {s : DescriptorSet}
    (hs : s ∈ (Inventory.ofItems stage items).sets) :
    ∃ d, s.descriptors = [d] ∧ d.stages = stage.flag := by
  obtain ⟨item, -, hitem⟩ := List.mem_filterMap.mp hs
  cases item with
  | descriptor set binding name kind size members =>
    cases hitem
    exact ⟨_, rfl, rfl⟩
  | _ => cases hitem

/-- A set is gathered only where a descriptor is declared. -/
theorem descriptors_ne_nil {sets : List DescriptorSet} {s : DescriptorSet}
    (h : DescriptorSet.Gathered (Inventory.ofItems stage items).sets sets) (hs : s ∈ sets) :
    s.descriptors ≠ [] := by
  obtain ⟨t, ht, hset⟩ := List.mem_map.mp ((h.numbers s.set).mp (List.mem_map_of_mem hs))
  obtain ⟨d, hd, -⟩ := exists_descriptor_of_mem ht
  -- The number of the set was declared, with a descriptor whose binding is kept.
  have hin : d ∈ DescriptorSet.declaredIn s.set (Inventory.ofItems stage items).sets :=
    List.mem_flatMap.mpr ⟨t, List.mem_filter.mpr ⟨ht, by simp [hset]⟩, by simp [hd]⟩
  have hbinding : d.binding ∈ s.descriptors.map Descriptor.binding := by
    rw [h.bindings s hs, List.mem_eraseDups]
    exact List.mem_map_of_mem hin
  intro hnil
  rw [hnil] at hbinding
  cases hbinding

/-- A gathered descriptor has the stage of the shader alone. -/
theorem stages_eq_flag {sets : List DescriptorSet} {s : DescriptorSet} {d : Descriptor}
    (h : DescriptorSet.Gathered (Inventory.ofItems stage items).sets sets) (hs : s ∈ sets)
    (hd : d ∈ s.descriptors) : d.stages = stage.flag := by
  obtain ⟨first, rest, hat, heq⟩ := h.first s hs d hd
  rw [heq]
  apply StageSet.unionAll_eq (by simp [hat])
  intro stages hstages
  obtain ⟨d', hd', rfl⟩ := List.mem_map.mp hstages
  obtain ⟨⟨t, ht, -, hmem⟩, -⟩ := DescriptorSet.mem_declaredAt_iff.mp hd'
  obtain ⟨single, hsingle, hflag⟩ := exists_descriptor_of_mem ht
  rw [hsingle, List.mem_singleton] at hmem
  rw [hmem]
  exact hflag

/-- What has been collected of all items is listed by the interface. -/
theorem lists_of_collecting
    (h : Collecting env source.stage (.ofItems source.stage items) c) :
    Lists env source (.ofItems source.stage items) (ofCollected source.name source.stage c) := by
  have hadm := h.admissible
  have hgathered := DescriptorSet.gathered_of_foldlM h.sets
  refine {
    sourceName := rfl
    stage := rfl
    outputs := h.outputs
    inputBlocks := h.inputBlocks
    vertexInputs := h.vertexInputs
    onePushBlock := hadm.pushBlocks
    pushConstants := ?_
    constants := h.constants
    typed := h.typed
    consecutive := h.consecutive
    agree := hadm.bindings
    sets := hgathered
    nonempty := fun s => descriptors_ne_nil hgathered
    stages := fun s hs d => stages_eq_flag hgathered hs }
  rw [← h.pushBlocks, ofCollected]
  cases c.pushConstants? <;> simp

/-- The interface of a shader lists what its declarations declare. -/
theorem exists_lists_of_ofText (h : ofText env source = .ok i) :
    ∃ ds items, Declaration.readAll (Comment.strip source.text) = .ok ds ∧
      ds.mapM (Item.ofDeclaration env) = .ok items ∧
      Lists env source (.ofItems source.stage items) i := by
  obtain ⟨ds, c, hds, hc, rfl⟩ := ofText_eq_ok_iff.mp h
  obtain ⟨items, hitems, hcollecting⟩ := collecting_of_foldlM hc
  exact ⟨ds, items, hds, hitems, lists_of_collecting hcollecting⟩

/-- Items make an interface exactly if they are admissible. -/
theorem exists_ofText_iff (hds : Declaration.readAll (Comment.strip source.text) = .ok ds)
    (hitems : ds.mapM (Item.ofDeclaration env) = .ok items) :
    (∃ i, ofText env source = .ok i) ↔
      (Inventory.ofItems source.stage items).Admissible env source.stage := by
  constructor
  · intro ⟨i, h⟩
    -- The declarations and items of the run are the given ones.
    obtain ⟨ds', c, hds', hc, rfl⟩ := ofText_eq_ok_iff.mp h
    obtain rfl : ds = ds' := Except.ok.inj (hds.symm.trans hds')
    obtain ⟨items', hitems', hcollecting⟩ := collecting_of_foldlM hc
    obtain rfl : items = items' := Except.ok.inj (hitems.symm.trans hitems')
    exact hcollecting.admissible
  · intro hadm
    obtain ⟨c, hc⟩ := exists_collected hitems hadm
    exact ⟨_, ofText_eq_ok_iff.mpr ⟨ds, c, hds, hc, rfl⟩⟩

/-- A shader has an interface exactly if its declarations are read and say what they declare,
and their items are admissible. The interface lists what the items declare. -/
theorem ofText_exact (env : TypeEnv) (source : ShaderText) :
    (∀ i, ofText env source = .ok i →
      ∃ ds items, Declaration.readAll (Comment.strip source.text) = .ok ds ∧
        ds.mapM (Item.ofDeclaration env) = .ok items ∧
        Lists env source (.ofItems source.stage items) i) ∧
    ∀ ds items, Declaration.readAll (Comment.strip source.text) = .ok ds →
      ds.mapM (Item.ofDeclaration env) = .ok items →
      ((∃ i, ofText env source = .ok i) ↔
        (Inventory.ofItems source.stage items).Admissible env source.stage) := by
  constructor
  · intro i h
    exact exists_lists_of_ofText h
  · intro ds items hds hitems
    exact exists_ofText_iff hds hitems

end Interface

end Glint

import Glint.Interface
import Glint.Proofs.DescriptorMerge

/-!
# What a shader collects from its items

The items of a shader are taken up one after the other, each by the part of the interface
that it belongs to. This file sorts items by what they declare and says, for the items
taken up so far, what every part holds and when the next item is refused. The
conditions do not depend on the order in which the parts of the interface are filled.

## Main definitions

* `Inventory` — items sorted by what they declare
* `Inventory.Admissible` — the condition under which items make an interface
* `Collecting` — what has been collected of an inventory

## Main results

* `Collecting.addItem` — one more item keeps the parts of the interface true to the items
* `Collecting.exists_addItem` — an admissible item is taken up
-/

namespace Glint

/-- A stage input as it is declared. -/
structure NamedInput where
  location : UInt32
  glslType : String
  name : String
  deriving DecidableEq, Repr

/-- A specialization constant as it is declared. -/
structure NamedConstant where
  id : UInt32
  glslType : String
  name : String
  deriving DecidableEq, Repr

/-- The items of a shader sorted by what they declare, each kind in the order of the text.
Every descriptor is a set of its own. -/
structure Inventory where
  inputs : List NamedInput
  sets : List DescriptorSet
  pushBlocks : List (List Member)
  constants : List NamedConstant
  outputs : List StageLink
  inputBlocks : List StageLink

/-! ### What the parts of a step do -/

theorem TypeEnv.valueType_eq_ok_iff {env : TypeEnv} {name : String} {type : ValueType} :
    env.valueType name = .ok type ↔ env.value? name = some type := by
  rw [valueType]
  cases env.value? name <;> simp

theorem VertexAttribute.ofInput?_eq_some_iff {location : UInt32} {glslType name : String}
    {type : ValueType} {slots : List VertexAttribute} :
    ofInput? location glslType name type = some slots ↔
      location.toNat + type.slots.toNat ≤ UInt32.size ∧
      slots = (List.range type.slots.toNat).map fun slot =>
        ofSlot location glslType name type (UInt32.ofNat slot) := by
  rw [ofInput?, Option.ite_none_right_eq_some, Option.some.injEq, eq_comm (b := slots)]

/-- A descriptor is added to its set as a set with nothing else in it. -/
theorem Collected.addDescriptor_eq (set : UInt32) (new : Descriptor) (c : Collected) :
    c.addDescriptor set new =
      (Pipeline.addSet c.descriptorSets ⟨set, [new]⟩).map fun sets =>
        { c with descriptorSets := sets } := by
  have hmerge : (fun s : DescriptorSet => s.merge new) = fun s => s.mergeAll [new] := by
    funext s
    rw [DescriptorSet.mergeAll, List.foldlM_cons]
    cases s.merge new <;> rfl
  rw [addDescriptor, Pipeline.addSet, hmerge]

/-! ### Items by kind -/

namespace Item

/-- The stage input that an item is. -/
def namedInput? : Item → Option NamedInput
  | .vertexInput location glslType name => some ⟨location, glslType, name⟩
  | _ => none

/-- The set with the one descriptor that an item is. -/
def declaredSet? (stage : Stage) : Item → Option DescriptorSet
  | .descriptor set binding name kind size members =>
    some ⟨set, [⟨name, binding, kind, stage.flag, size, members⟩]⟩
  | _ => none

/-- The members of the push constant block that an item is. -/
def pushBlock? : Item → Option (List Member)
  | .pushConstants members => some members
  | _ => none

/-- The specialization constant that an item is. -/
def namedConstant? : Item → Option NamedConstant
  | .specConstant id glslType name => some ⟨id, glslType, name⟩
  | _ => none

/-- The output that an item is. -/
def output? : Item → Option StageLink
  | .output location? declaration => some ⟨location?, declaration⟩
  | _ => none

/-- The input block that an item is. -/
def inputBlock? : Item → Option StageLink
  | .inputBlock location? declaration => some ⟨location?, declaration⟩
  | _ => none

end Item

/-- The attributes of a stage input, one for each slot of its type. They all read from the binding
at the location of the input, which has the size of the type for its stride. From slot to slot the
location goes up by one and the offset by the stride of a slot. -/
def NamedInput.attributes (env : TypeEnv) (input : NamedInput) : List VertexAttribute :=
  match env.value? input.glslType with
  | some type => (List.range type.slots.toNat).map fun slot =>
    { name := input.name
      glslType := input.glslType
      binding := input.location
      location := .ofNat (input.location.toNat + slot)
      rate := .perVertex
      stride := type.size
      format := type.format
      offset := .ofNat (slot * type.slotStride.toNat) }
  | none => []

/-- The slots that an input is read into are its attributes. -/
theorem NamedInput.attributes_eq_ofSlot {env : TypeEnv} (input : NamedInput) {type : ValueType}
    (htype : env.value? input.glslType = some type) :
    input.attributes env = (List.range type.slots.toNat).map fun slot =>
      .ofSlot input.location input.glslType input.name type (.ofNat slot) := by
  rw [attributes, htype]
  refine List.map_congr_left fun slot _ => ?_
  -- Words are added and multiplied as numbers are, and both wrap around alike.
  rw [VertexAttribute.ofSlot, UInt32.ofNat_add, UInt32.ofNat_mul, UInt32.ofNat_toNat,
    UInt32.ofNat_toNat]

/-- The type of a stage input is known, and its last slot is at a location that is a word. -/
def NamedInput.Fits (env : TypeEnv) (input : NamedInput) : Prop :=
  ∃ type, env.value? input.glslType = some type ∧
    input.location.toNat + type.slots.toNat ≤ UInt32.size

instance (env : TypeEnv) (input : NamedInput) : Decidable (input.Fits env) :=
  decidable_of_iff
    ((env.value? input.glslType).any fun type =>
      input.location.toNat + type.slots.toNat ≤ UInt32.size)
    (by simp [NamedInput.Fits, Option.any_eq_true])

/-- The bytes of the value of a specialization constant. -/
def NamedConstant.size (env : TypeEnv) (constant : NamedConstant) : UInt32 :=
  match env.value? constant.glslType with
  | some type => type.size
  | none => 0

/-- The type of a specialization constant is known and is a scalar. -/
def NamedConstant.IsScalar (env : TypeEnv) (constant : NamedConstant) : Prop :=
  ∃ type, env.value? constant.glslType = some type ∧ type.isScalar = true

instance (env : TypeEnv) (constant : NamedConstant) : Decidable (constant.IsScalar env) :=
  decidable_of_iff ((env.value? constant.glslType).any ValueType.isScalar)
    (by simp [NamedConstant.IsScalar, Option.any_eq_true])

namespace SpecConstant

/-- A specialization constant without its place in the data. -/
def declared (c : SpecConstant) : NamedConstant :=
  ⟨c.id, c.glslType, c.name⟩

/-- The scalar type and the size of a specialization constant are those of its type. -/
def IsTyped (env : TypeEnv) (c : SpecConstant) : Prop :=
  ∃ type, env.value? c.glslType = some type ∧ type.isScalar = true ∧
    c.scalar = type.scalar ∧ c.size = type.size

/-- Constants stand one after the other in the data, from a byte offset on. -/
def Consecutive (offset : Nat) : List SpecConstant → Prop
  | [] => True
  | c :: cs => c.offset.toNat = offset ∧ Consecutive (offset + c.size.toNat) cs

theorem consecutive_concat {offset : Nat} {cs : List SpecConstant} {c : SpecConstant}
    (h : Consecutive offset cs) (hc : c.offset.toNat = offset + Word.sum (cs.map size)) :
    Consecutive offset (cs ++ [c]) := by
  induction cs generalizing offset with
  | nil => exact ⟨by simpa using hc, trivial⟩
  | cons first cs ih =>
    obtain ⟨hfirst, hrest⟩ := h
    refine ⟨hfirst, ih hrest ?_⟩
    rw [hc, List.map_cons, Word.sum_cons, Nat.add_assoc]

/-- Constants that stand one after the other are known by their declarations. -/
theorem eq_of_declared_eq {env : TypeEnv} {offset : Nat} {cs cs' : List SpecConstant}
    (hdeclared : cs.map declared = cs'.map declared)
    (htyped : ∀ c ∈ cs, c.IsTyped env) (htyped' : ∀ c ∈ cs', c.IsTyped env)
    (hplaces : Consecutive offset cs) (hplaces' : Consecutive offset cs') : cs = cs' := by
  induction cs generalizing cs' offset with
  | nil =>
    cases cs' with
    | nil => rfl
    | cons c' cs' => cases hdeclared
  | cons c cs ih =>
    cases cs' with
    | nil => cases hdeclared
    | cons c' cs' =>
      obtain ⟨hhead, htail⟩ := List.cons.inj hdeclared
      obtain ⟨type, htype, -, hscalar, hsize⟩ := htyped c List.mem_cons_self
      obtain ⟨type', htype', -, hscalar', hsize'⟩ := htyped' c' List.mem_cons_self
      obtain ⟨id, name, glslType, scalar, size, place⟩ := c
      obtain ⟨id', name', glslType', scalar', size', place'⟩ := c'
      obtain ⟨rfl, rfl, rfl⟩ := NamedConstant.mk.inj hhead
      obtain rfl : type = type' := Option.some.inj (htype.symm.trans htype')
      obtain ⟨hplace, hrest⟩ := hplaces
      obtain ⟨hplace', hrest'⟩ := hplaces'
      obtain rfl : place = place' := UInt32.toNat_inj.mp (hplace.trans hplace'.symm)
      obtain rfl : size = size' := hsize.trans hsize'.symm
      obtain rfl : scalar = scalar' := hscalar.trans hscalar'.symm
      rw [ih htail (fun c hc => htyped c (List.mem_cons_of_mem _ hc))
        (fun c hc => htyped' c (List.mem_cons_of_mem _ hc)) hrest hrest']

end SpecConstant

namespace Inventory

/-- The inventory of a list of items. -/
def ofItems (stage : Stage) (items : List Item) : Inventory where
  inputs := items.filterMap Item.namedInput?
  sets := items.filterMap (Item.declaredSet? stage)
  pushBlocks := items.filterMap Item.pushBlock?
  constants := items.filterMap Item.namedConstant?
  outputs := items.filterMap Item.output?
  inputBlocks := items.filterMap Item.inputBlock?

/-- An inventory with one more item at the end of its kind. -/
def add (stage : Stage) (inv : Inventory) : Item → Inventory
  | .vertexInput location glslType name =>
    { inv with inputs := inv.inputs ++ [⟨location, glslType, name⟩] }
  | .descriptor set binding name kind size members =>
    { inv with sets := inv.sets ++ [⟨set, [⟨name, binding, kind, stage.flag, size, members⟩]⟩] }
  | .pushConstants members => { inv with pushBlocks := inv.pushBlocks ++ [members] }
  | .specConstant id glslType name =>
    { inv with constants := inv.constants ++ [⟨id, glslType, name⟩] }
  | .output location? declaration =>
    { inv with outputs := inv.outputs ++ [⟨location?, declaration⟩] }
  | .inputBlock location? declaration =>
    { inv with inputBlocks := inv.inputBlocks ++ [⟨location?, declaration⟩] }

theorem ofItems_concat (stage : Stage) (items : List Item) (item : Item) :
    ofItems stage (items ++ [item]) = (ofItems stage items).add stage item := by
  rw [ofItems]
  simp only [List.filterMap_append]
  -- The item is of one kind, and adds nothing to the others.
  cases item <;>
    simp only [List.filterMap_cons, List.filterMap_nil, List.append_nil, Item.namedInput?,
      Item.declaredSet?, Item.pushBlock?, Item.namedConstant?, Item.output?, Item.inputBlock?] <;>
    rfl

/-- The bytes of the values of all specialization constants. -/
def specSize (env : TypeEnv) (inv : Inventory) : Nat :=
  Word.sum (inv.constants.map (·.size env))

/-- The items of a shader make an interface: in the vertex stage every input has a known
type and locations that are words; descriptors at one binding agree; there is one block
of push constants at most; specialization constants are scalars of known types, and
their values together are no longer than a word can say. -/
structure Admissible (env : TypeEnv) (stage : Stage) (inv : Inventory) : Prop where
  inputs : stage = .vertex → ∀ input ∈ inv.inputs, input.Fits env
  bindings : ∀ set binding,
    Descriptor.AllAgree (DescriptorSet.declaredAt set binding inv.sets)
  pushBlocks : inv.pushBlocks.length ≤ 1
  constants : ∀ constant ∈ inv.constants, constant.IsScalar env
  specSize : inv.specSize env < UInt32.size

instance (env : TypeEnv) (stage : Stage) (inv : Inventory) :
    Decidable (inv.Admissible env stage) :=
  -- That descriptors agree at every binding is decided by gathering them.
  decidable_of_iff
    ((stage = .vertex → ∀ input ∈ inv.inputs, input.Fits env) ∧
      (inv.sets.foldlM Pipeline.addSet []).isOk = true ∧ inv.pushBlocks.length ≤ 1 ∧
      (∀ constant ∈ inv.constants, constant.IsScalar env) ∧ inv.specSize env < UInt32.size)
    (by
      have hagree : (inv.sets.foldlM Pipeline.addSet []).isOk = true ↔ ∀ set binding,
          Descriptor.AllAgree (DescriptorSet.declaredAt set binding inv.sets) := by
        rw [← DescriptorSet.exists_foldlM_iff]
        cases inv.sets.foldlM Pipeline.addSet [] <;> simp [Except.isOk, Except.toBool]
      rw [hagree]
      exact ⟨fun ⟨hinputs, hbindings, hblocks, hconstants, hsize⟩ =>
        ⟨hinputs, hbindings, hblocks, hconstants, hsize⟩, fun h =>
        ⟨h.inputs, h.bindings, h.pushBlocks, h.constants, h.specSize⟩⟩)

/-- An inventory that can take one more item is admissible without it. -/
theorem Admissible.of_add {env : TypeEnv} {stage : Stage} {inv : Inventory} {item : Item}
    (h : (inv.add stage item).Admissible env stage) : inv.Admissible env stage := by
  cases item with
  | vertexInput location glslType name =>
    refine { h with inputs := ?_ }
    intro hvertex input hinput
    exact h.inputs hvertex input (List.mem_append_left _ hinput)
  | inputBlock location? declaration => exact { h with }
  | output location? declaration => exact { h with }
  | descriptor set binding name kind size members =>
    refine { h with bindings := ?_ }
    intro n b
    -- What was declared at a binding before is declared there still.
    have hmore : ∀ d ∈ DescriptorSet.declaredAt n b inv.sets, d ∈ DescriptorSet.declaredAt n b
        (inv.add stage (.descriptor set binding name kind size members)).sets := by
      intro d hd
      obtain ⟨⟨s, hs, hset, hmem⟩, hbinding⟩ := DescriptorSet.mem_declaredAt_iff.mp hd
      exact DescriptorSet.mem_declaredAt_iff.mpr
        ⟨⟨s, List.mem_append_left _ hs, hset, hmem⟩, hbinding⟩
    intro a ha a' ha'
    exact h.bindings n b a (hmore a ha) a' (hmore a' ha')
  | pushConstants members =>
    have hone := h.pushBlocks
    rw [add, List.length_append] at hone
    exact { h with pushBlocks := by omega }
  | specConstant id glslType name =>
    have hfits := h.specSize
    simp only [Inventory.specSize, add, List.map_append, Word.sum_append] at hfits
    exact { h with
      constants := fun constant hconstant => h.constants constant (List.mem_append_left _ hconstant)
      specSize := Nat.lt_of_le_of_lt (Nat.le_add_right _ _) hfits }

end Inventory

/-- What has been collected holds exactly what an inventory lists. -/
structure Collecting (env : TypeEnv) (stage : Stage) (inv : Inventory) (c : Collected) :
    Prop where
  inputs : stage = .vertex → ∀ input ∈ inv.inputs, input.Fits env
  vertexInputs : c.vertexInputs =
    if stage = .vertex then inv.inputs.flatMap (·.attributes env) else []
  sets : inv.sets.foldlM Pipeline.addSet [] = .ok c.descriptorSets
  pushBlocks : c.pushConstants?.toList = inv.pushBlocks
  constants : c.specConstants.map SpecConstant.declared = inv.constants
  typed : ∀ constant ∈ c.specConstants, constant.IsTyped env
  consecutive : SpecConstant.Consecutive 0 c.specConstants
  specSize : Word.sum (c.specConstants.map SpecConstant.size) = c.specSize.toNat
  outputs : c.outputs = inv.outputs
  inputBlocks : c.inputBlocks = inv.inputBlocks

variable {env : TypeEnv} {stage : Stage} {inv : Inventory} {c c' : Collected} {at_ : Nat}

namespace Collecting

theorem empty : Collecting env stage (.ofItems stage []) .empty where
  inputs := fun _ _ h => by cases h
  vertexInputs := by split <;> rfl
  sets := rfl
  pushBlocks := rfl
  constants := rfl
  typed := fun _ h => by cases h
  consecutive := trivial
  specSize := rfl
  outputs := rfl
  inputBlocks := rfl

/-! ### One item -/

theorem addInput {location : UInt32} {glslType name : String} (h : Collecting env stage inv c)
    (hadd : c.addInput env stage at_ location glslType name = .ok c') :
    Collecting env stage { inv with inputs := inv.inputs ++ [⟨location, glslType, name⟩] } c' := by
  rw [Collected.addInput] at hadd
  split at hadd
  · rename_i hvertex
    obtain ⟨type, htype, hadd⟩ := Outcome.bind_eq_ok.mp hadd
    have hfound := TypeEnv.valueType_eq_ok_iff.mp htype
    split at hadd
    · rename_i slots hslots
      cases hadd
      obtain ⟨hfits, hslots⟩ := VertexAttribute.ofInput?_eq_some_iff.mp hslots
      have hattributes := NamedInput.attributes_eq_ofSlot ⟨location, glslType, name⟩ hfound
      rw [← hslots] at hattributes
      have hinputs := h.vertexInputs
      rw [if_pos hvertex] at hinputs
      refine { h with inputs := fun _ input hinput => ?_, vertexInputs := ?_ }
      · rcases List.mem_append.mp hinput with hold | hnew
        · exact h.inputs hvertex input hold
        · rw [List.mem_singleton.mp hnew]
          exact ⟨type, hfound, hfits⟩
      · simp [hvertex, hinputs, hattributes]
    · cases hadd
  · rename_i hother
    cases hadd
    have hinputs := h.vertexInputs
    rw [if_neg hother] at hinputs
    exact { h with
      inputs := fun hvertex => absurd hvertex hother
      vertexInputs := by rw [hinputs, if_neg hother] }

theorem addDescriptor {set : UInt32} {new : Descriptor} (h : Collecting env stage inv c)
    (hadd : c.addDescriptor set new = .ok c') :
    Collecting env stage { inv with sets := inv.sets ++ [⟨set, [new]⟩] } c' := by
  rw [Collected.addDescriptor_eq] at hadd
  obtain ⟨sets, hsets, rfl⟩ := Outcome.map_eq_ok.mp hadd
  exact { h with sets := Outcome.foldlM_concat_eq_ok.mpr ⟨_, h.sets, hsets⟩ }

theorem addPushConstants {members : List Member} (h : Collecting env stage inv c)
    (hadd : c.addPushConstants at_ members = .ok c') :
    Collecting env stage { inv with pushBlocks := inv.pushBlocks ++ [members] } c' := by
  rw [Collected.addPushConstants] at hadd
  split at hadd
  · cases hadd
  · rename_i hnone
    cases hadd
    have hblocks := h.pushBlocks
    rw [Option.not_isSome_iff_eq_none.mp hnone] at hblocks
    exact { h with pushBlocks := by rw [← hblocks]; rfl }

theorem addSpecConstant {id : UInt32} {glslType name : String} (h : Collecting env stage inv c)
    (hadd : c.addSpecConstant env at_ id glslType name = .ok c') :
    Collecting env stage { inv with constants := inv.constants ++ [⟨id, glslType, name⟩] } c' := by
  rw [Collected.addSpecConstant] at hadd
  obtain ⟨type, htype, hadd⟩ := Outcome.bind_eq_ok.mp hadd
  split at hadd
  · rename_i hscalar
    split at hadd
    · rename_i next hnext
      cases hadd
      have hfound := TypeEnv.valueType_eq_ok_iff.mp htype
      have hsum := Word.add?_eq_some_iff.mp hnext
      refine { h with constants := ?_, typed := ?_, consecutive := ?_, specSize := ?_ }
      · simp [h.constants, SpecConstant.declared]
      · intro constant hconstant
        rcases List.mem_append.mp hconstant with hold | hnew
        · exact h.typed constant hold
        · rw [List.mem_singleton.mp hnew]
          exact ⟨type, hfound, hscalar, rfl, rfl⟩
      · exact SpecConstant.consecutive_concat h.consecutive (by rw [h.specSize, Nat.zero_add])
      · rw [List.map_append, Word.sum_append, h.specSize, ← hsum]
        rfl
    · cases hadd
  · cases hadd

/-- One more item keeps the parts of the interface true to the items. -/
theorem addItem {item : Item} (h : Collecting env stage inv c)
    (hadd : c.addItem env stage at_ item = .ok c') :
    Collecting env stage (inv.add stage item) c' := by
  cases item with
  | vertexInput location glslType name => exact h.addInput hadd
  | inputBlock location? declaration =>
    cases hadd
    exact { h with inputBlocks := by rw [h.inputBlocks]; rfl }
  | output location? declaration =>
    cases hadd
    exact { h with outputs := by rw [h.outputs]; rfl }
  | descriptor set binding name kind size members => exact h.addDescriptor hadd
  | pushConstants members => exact h.addPushConstants hadd
  | specConstant id glslType name => exact h.addSpecConstant hadd

theorem specSize_eq (h : Collecting env stage inv c) : inv.specSize env = c.specSize.toNat := by
  rw [← h.specSize, Inventory.specSize, ← h.constants, List.map_map]
  apply congrArg Word.sum
  apply List.map_congr_left
  intro constant hconstant
  obtain ⟨type, htype, -, -, hsize⟩ := h.typed constant hconstant
  simp only [Function.comp_apply, NamedConstant.size, SpecConstant.declared, htype, hsize]

/-- Items that have been taken up make an interface. -/
theorem admissible (h : Collecting env stage inv c) : inv.Admissible env stage where
  inputs := h.inputs
  bindings := DescriptorSet.exists_foldlM_iff.mp ⟨_, h.sets⟩
  pushBlocks := by
    rw [← h.pushBlocks]
    exact Option.length_toList_le
  constants := by
    intro constant hconstant
    rw [← h.constants] at hconstant
    obtain ⟨c', hc', rfl⟩ := List.mem_map.mp hconstant
    obtain ⟨type, htype, hscalar, -, -⟩ := h.typed c' hc'
    exact ⟨type, htype, hscalar⟩
  specSize := h.specSize_eq ▸ c.specSize.toNat_lt

/-! ### Items that are not refused -/

theorem exists_addInput {location : UInt32} {glslType name : String}
    (hadm : (inv.add stage (.vertexInput location glslType name)).Admissible env stage)
    (c : Collected) : ∃ c', c.addInput env stage at_ location glslType name = .ok c' := by
  rw [Collected.addInput]
  split
  · rename_i hvertex
    have hmem : ⟨location, glslType, name⟩ ∈
        (inv.add stage (.vertexInput location glslType name)).inputs :=
      List.mem_append_right _ List.mem_cons_self
    obtain ⟨type, htype, hfits⟩ := hadm.inputs hvertex _ hmem
    have hslots : VertexAttribute.ofInput? location glslType name type = some _ := if_pos hfits
    rw [TypeEnv.valueType_eq_ok_iff.mpr htype]
    simp only [bind, Except.bind, hslots]
    exact ⟨_, rfl⟩
  · exact ⟨c, rfl⟩

theorem exists_addDescriptor {set binding : UInt32} {name : String} {kind : DescriptorKind}
    {size : UInt32} {members : List Member} (h : Collecting env stage inv c)
    (hadm : (inv.add stage (.descriptor set binding name kind size members)).Admissible env stage) :
    ∃ c', c.addDescriptor set ⟨name, binding, kind, stage.flag, size, members⟩ = .ok c' := by
  obtain ⟨sets, hrun⟩ := DescriptorSet.exists_foldlM_iff.mpr hadm.bindings
  obtain ⟨before, hbefore, hadd⟩ := Outcome.foldlM_concat_eq_ok.mp hrun
  obtain rfl : before = c.descriptorSets := Except.ok.inj (hbefore.symm.trans h.sets)
  rw [Collected.addDescriptor_eq, hadd]
  exact ⟨_, rfl⟩

theorem exists_addPushConstants {members : List Member} (h : Collecting env stage inv c)
    (hadm : (inv.add stage (.pushConstants members)).Admissible env stage) :
    ∃ c', c.addPushConstants at_ members = .ok c' := by
  have hone := hadm.pushBlocks
  rw [Inventory.add, List.length_append, ← h.pushBlocks] at hone
  have hnone : c.pushConstants? = none := by
    cases hblock : c.pushConstants? with
    | none => rfl
    | some block => simp [hblock] at hone
  rw [Collected.addPushConstants, hnone]
  exact ⟨_, rfl⟩

theorem exists_addSpecConstant {id : UInt32} {glslType name : String}
    (h : Collecting env stage inv c)
    (hadm : (inv.add stage (.specConstant id glslType name)).Admissible env stage) :
    ∃ c', c.addSpecConstant env at_ id glslType name = .ok c' := by
  have hmem : ⟨id, glslType, name⟩ ∈ (inv.add stage (.specConstant id glslType name)).constants :=
    List.mem_append_right _ List.mem_cons_self
  obtain ⟨type, htype, hscalar⟩ := hadm.constants _ hmem
  have hfits := hadm.specSize
  simp only [Inventory.specSize, Inventory.add, List.map_append, Word.sum_append] at hfits
  have hsize := h.specSize_eq
  rw [Inventory.specSize] at hsize
  rw [hsize] at hfits
  have hadd : Word.add? c.specSize type.size = some (c.specSize + type.size) := by
    refine if_pos ?_
    simpa [NamedConstant.size, htype] using hfits
  rw [Collected.addSpecConstant, TypeEnv.valueType_eq_ok_iff.mpr htype]
  simp only [bind, Except.bind, hscalar, hadd]
  exact ⟨_, rfl⟩

/-- An item that keeps the inventory admissible is taken up. -/
theorem exists_addItem {item : Item} (h : Collecting env stage inv c)
    (hadm : (inv.add stage item).Admissible env stage) :
    ∃ c', c.addItem env stage at_ item = .ok c' := by
  cases item with
  | vertexInput location glslType name => exact exists_addInput hadm c
  | inputBlock location? declaration => exact ⟨_, rfl⟩
  | output location? declaration => exact ⟨_, rfl⟩
  | descriptor set binding name kind size members => exact h.exists_addDescriptor hadm
  | pushConstants members => exact h.exists_addPushConstants hadm
  | specConstant id glslType name => exact h.exists_addSpecConstant hadm

end Collecting

end Glint

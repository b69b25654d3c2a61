import Glint.Proofs.Collection
import Glint.Proofs.InterfaceAccess

/-!
# Vertex inputs slot by slot

Every vertex input of a shader gives one attribute for each slot of its type, at locations and
offsets that go up from slot to slot. The first of them is the only one at the location that the
input is bound to, so each input is described as one binding, which all its attributes read from,
at the same rate.

## Main definitions

* `VertexAttribute.IsSlot` — an attribute is the one in a slot of an input
* `NamedInput.Occupies`, `NamedInput.Apart` — the locations of an input, and inputs that share none
* `Interface.Slotwise` — the attributes and the bindings of an interface are those of its inputs

## Main results

* `NamedInput.expands_attributes` — no location and no offset of a slot wraps around
* `VertexBinding.ofAttributes_expansion` — an input is described as one binding
* `Interface.ofText_slotwise` — what the inputs of a vertex shader become
-/

namespace Glint

/-- Every element of a list is related to one of the list that it stands for. -/
theorem exists_related_of_mem {α β : Type} {related : α → β → Prop} {as : List α} {bs : List β}
    (h : List.Forall₂ related as bs) {b : β} (hb : b ∈ bs) : ∃ a ∈ as, related a b := by
  induction h with
  | nil => cases hb
  | @cons a _ as _ hfirst _ ih =>
    rcases List.mem_cons.mp hb with rfl | hb
    · exact ⟨a, List.mem_cons_self, hfirst⟩
    · obtain ⟨a', ha', hrelated⟩ := ih hb
      exact ⟨a', List.mem_cons_of_mem _ ha', hrelated⟩

/-- Every value type has a slot. -/
def TypeEnv.HasSlots (env : TypeEnv) : Prop :=
  ∀ name type, env.value? name = some type → 0 < type.slots.toNat

/-! ### The slots of an input -/

/-- The attribute is the one in a slot of an input of a given type. -/
structure VertexAttribute.IsSlot (input : NamedInput) (type : ValueType) (slot : Nat)
    (a : VertexAttribute) : Prop where
  name : a.name = input.name
  glslType : a.glslType = input.glslType
  binding : a.binding = input.location
  location : a.location.toNat = input.location.toNat + slot
  offset : a.offset.toNat = slot * type.slotStride.toNat
  stride : a.stride = type.size
  format : a.format = type.format
  rate : a.rate = .perVertex

namespace NamedInput

/-- The attributes are those of an input, one for each slot of its type in ascending order. -/
def Expands (env : TypeEnv) (input : NamedInput) (slots : List VertexAttribute) : Prop :=
  ∃ type, env.value? input.glslType = some type ∧
    List.Forall₂ (VertexAttribute.IsSlot input type) (List.range type.slots.toNat) slots

/-- A location is that of a slot of the input. -/
def Occupies (env : TypeEnv) (input : NamedInput) (location : Nat) : Prop :=
  ∃ type, env.value? input.glslType = some type ∧ input.location.toNat ≤ location ∧
    location < input.location.toNat + type.slots.toNat

/-- No location is one of both inputs. -/
def Apart (env : TypeEnv) (input input' : NamedInput) : Prop :=
  ∀ location, input.Occupies env location → ¬ input'.Occupies env location

/-- The binding is the one that an input reads from, once for each instance if it is one of
those. -/
def Reads (env : TypeEnv) (instanced : UInt32 → Bool) (input : NamedInput)
    (b : VertexBinding) : Prop :=
  ∃ type, env.value? input.glslType = some type ∧
    b = ⟨input.location, type.size, if instanced input.location then .perInstance else .perVertex⟩

variable {env : TypeEnv} {input : NamedInput} {type : ValueType} {slots : List VertexAttribute}

/-- The attributes of an input that fits have exact locations and offsets. -/
theorem expands_attributes (hfit : env.SlotsFit) (h : input.Fits env) :
    input.Expands env (input.attributes env) := by
  obtain ⟨type, htype, hlast⟩ := h
  refine ⟨type, htype, ?_⟩
  rw [attributes, htype, List.forall₂_map_right_iff, List.forall₂_same]
  intro slot hslot
  rw [List.mem_range] at hslot
  have hlocation : input.location.toNat + slot < UInt32.size := by omega
  have hoffset : slot * type.slotStride.toNat < UInt32.size :=
    Nat.lt_of_le_of_lt (Nat.mul_le_mul_right _ hslot.le) (hfit _ _ htype)
  exact {
    name := rfl
    glslType := rfl
    binding := rfl
    location := UInt32.toNat_ofNat_of_lt' hlocation
    offset := UInt32.toNat_ofNat_of_lt' hoffset
    stride := rfl
    format := rfl
    rate := rfl }

end NamedInput

/-! ### The first slot -/

namespace VertexAttribute

variable {env : TypeEnv} {input : NamedInput} {type : ValueType} {slot : Nat} {a : VertexAttribute}
  {slots : List VertexAttribute} {instanced : UInt32 → Bool}

@[simp] theorem location_withInstances : (a.withInstances instanced).location = a.location := by
  rw [withInstances]
  split <;> rfl

@[simp] theorem binding_withInstances : (a.withInstances instanced).binding = a.binding := by
  rw [withInstances]
  split <;> rfl

theorem opensBinding_withInstances : (a.withInstances instanced).opensBinding = a.opensBinding := by
  rw [opensBinding, location_withInstances, binding_withInstances, opensBinding]

/-- Attributes are read once for each vertex at first. -/
theorem toBinding_withInstances (h : a.rate = .perVertex) : (a.withInstances instanced).toBinding =
    ⟨a.binding, a.stride, if instanced a.binding then .perInstance else .perVertex⟩ := by
  rw [withInstances, ← h]
  split <;> rfl

theorem rate_withInstances_iff (h : a.rate = .perVertex) :
    (a.withInstances instanced).rate = .perInstance ↔
      instanced (a.withInstances instanced).binding = true := by
  rw [binding_withInstances, withInstances]
  cases instanced a.binding <;> simp [h]

/-- Only the first slot of an input is at the location that the input is bound to. -/
theorem IsSlot.opensBinding_iff (h : IsSlot input type slot a) :
    a.opensBinding = true ↔ slot = 0 := by
  rw [opensBinding, beq_iff_eq, ← UInt32.toNat_inj, h.location, h.binding]
  omega

/-- All slots of an input read from its binding. -/
theorem IsSlot.reads (h : IsSlot input type slot a)
    (htype : env.value? input.glslType = some type) :
    input.Reads env instanced (a.withInstances instanced).toBinding := by
  refine ⟨type, htype, ?_⟩
  rw [toBinding_withInstances h.rate, h.binding, h.stride]

end VertexAttribute

open VertexAttribute (IsSlot)

namespace NamedInput

variable {env : TypeEnv} {input : NamedInput} {slots : List VertexAttribute} {a : VertexAttribute}
  {instanced : UInt32 → Bool}

theorem Reads.eq {b b' : VertexBinding} (h : input.Reads env instanced b)
    (h' : input.Reads env instanced b') : b = b' := by
  obtain ⟨type, htype, rfl⟩ := h
  obtain ⟨type', htype', rfl⟩ := h'
  obtain rfl : type = type' := Option.some.inj (htype.symm.trans htype')
  rfl

theorem Expands.exists_isSlot (h : input.Expands env slots) (ha : a ∈ slots) :
    ∃ type slot, env.value? input.glslType = some type ∧ slot < type.slots.toNat ∧
      IsSlot input type slot a := by
  obtain ⟨type, htype, hslots⟩ := h
  obtain ⟨slot, hslot, ha⟩ := exists_related_of_mem hslots ha
  exact ⟨type, slot, htype, List.mem_range.mp hslot, ha⟩

theorem Expands.occupies (h : input.Expands env slots) (ha : a ∈ slots) :
    input.Occupies env a.location.toNat := by
  obtain ⟨type, slot, htype, hlt, hslot⟩ := h.exists_isSlot ha
  exact ⟨type, htype, by rw [hslot.location]; omega, by rw [hslot.location]; omega⟩

theorem Expands.reads (h : input.Expands env slots) (ha : a ∈ slots) :
    input.Reads env instanced (a.withInstances instanced).toBinding := by
  obtain ⟨type, slot, htype, -, hslot⟩ := h.exists_isSlot ha
  exact hslot.reads htype

theorem Expands.nodup_location (h : input.Expands env slots) :
    (slots.map (·.location)).Nodup := by
  obtain ⟨type, -, hslots⟩ := h
  have hlocations : (slots.map (·.location)).map UInt32.toNat =
      (List.range type.slots.toNat).map (input.location.toNat + ·) := by
    rw [List.map_map, ← List.forall₂_eq_eq_eq, List.forall₂_map_left_iff,
      List.forall₂_map_right_iff]
    exact hslots.flip.imp fun _ _ hslot => hslot.location
  refine List.Nodup.of_map UInt32.toNat ?_
  rw [hlocations]
  exact List.nodup_range.map fun _ _ h => Nat.add_left_cancel h

end NamedInput

namespace VertexBinding

variable {env : TypeEnv} {input : NamedInput} {slots : List VertexAttribute}
  {instanced : UInt32 → Bool}

/-- An input is described as one binding, by its first slot. -/
theorem ofAttributes_expansion (henv : env.HasSlots) (h : input.Expands env slots) :
    ∃ b, ofAttributes (slots.map (·.withInstances instanced)) = [b] ∧
      input.Reads env instanced b := by
  obtain ⟨type, htype, hslots⟩ := h
  -- Every input has a first slot, which opens the binding, and the others do not.
  obtain ⟨more, hmore⟩ := Nat.exists_eq_add_of_lt (henv _ _ htype)
  rw [hmore, Nat.zero_add, List.range_succ_eq_map, List.forall₂_cons_left_iff] at hslots
  obtain ⟨first, rest, hfirst, hrest, rfl⟩ := hslots
  have hopens : (first.withInstances instanced).opensBinding = true := by
    rw [VertexAttribute.opensBinding_withInstances, hfirst.opensBinding_iff]
  have hothers : ∀ a ∈ rest.map (·.withInstances instanced), ¬ a.opensBinding = true := by
    rw [List.forall_mem_map]
    intro a ha
    rw [List.forall₂_map_left_iff] at hrest
    obtain ⟨slot, -, hslot⟩ := exists_related_of_mem hrest ha
    rw [VertexAttribute.opensBinding_withInstances, hslot.opensBinding_iff]
    exact Nat.succ_ne_zero slot
  refine ⟨_, ?_, hfirst.reads htype⟩
  rw [ofAttributes, List.map_cons, List.filter_cons_of_pos hopens,
    List.filter_eq_nil_iff.mpr hothers, List.map_singleton]

theorem mem_ofAttributes_iff {b : VertexBinding} {attributes : List VertexAttribute} :
    b ∈ ofAttributes attributes ↔ ∃ a ∈ attributes, a.opensBinding = true ∧ a.toBinding = b := by
  rw [ofAttributes, List.mem_map]
  simp only [List.mem_filter, and_assoc]

/-- Attributes at distinct locations describe distinct bindings. -/
theorem nodup_binding_ofAttributes {attributes : List VertexAttribute}
    (h : (attributes.map (·.location)).Nodup) :
    ((ofAttributes attributes).map (·.binding)).Nodup := by
  have hfirst : (ofAttributes attributes).map (·.binding) =
      (attributes.filter VertexAttribute.opensBinding).map (·.location) := by
    rw [ofAttributes, List.map_map]
    refine List.map_congr_left fun a ha => ?_
    -- The first slot of an input is at the location that the input is bound to.
    exact (beq_iff_eq.mp (List.mem_filter.mp ha).2).symm
  rw [hfirst]
  exact h.sublist (List.filter_sublist.map _)

end VertexBinding

/-! ### The inputs of a shader -/

namespace Interface

/-- The vertex inputs of an interface are the slots of the given inputs in order. With the
bindings in any set read for each instance, they describe one binding for each input in order,
every attribute reads from one that is described, at the rate of it, and if no two inputs share a
location, no two attributes do, and no binding is described twice. -/
structure Slotwise (env : TypeEnv) (inputs : List NamedInput) (i : Interface) : Prop where
  vertexInputs : i.vertexInputs = inputs.flatMap (·.attributes env)
  expands : ∀ input ∈ inputs, input.Expands env (input.attributes env)
  bindings : ∀ instanced, List.Forall₂ (NamedInput.Reads env instanced) inputs
    (VertexBinding.ofAttributes (i.attributes instanced))
  described : ∀ instanced, ∀ a ∈ i.attributes instanced,
    a.toBinding ∈ VertexBinding.ofAttributes (i.attributes instanced) ∧
      (a.rate = .perInstance ↔ instanced a.binding = true)
  distinct : inputs.Pairwise (NamedInput.Apart env) → ∀ instanced,
    ((i.attributes instanced).map (·.location)).Nodup ∧
      ((VertexBinding.ofAttributes (i.attributes instanced)).map (·.binding)).Nodup

variable {env : TypeEnv} {inputs : List NamedInput} {i : Interface} {instanced : UInt32 → Bool}

theorem attributes_eq (hinputs : i.vertexInputs = inputs.flatMap (·.attributes env)) :
    i.attributes instanced =
      inputs.flatMap fun input => (input.attributes env).map (·.withInstances instanced) := by
  rw [attributes, hinputs, List.map_flatMap]

theorem forall₂_reads (henv : env.HasSlots)
    (hexpands : ∀ input ∈ inputs, input.Expands env (input.attributes env)) :
    List.Forall₂ (NamedInput.Reads env instanced) inputs (VertexBinding.ofAttributes
      (inputs.flatMap fun input => (input.attributes env).map (·.withInstances instanced))) := by
  induction inputs with
  | nil => exact .nil
  | cons input inputs ih =>
    obtain ⟨hinput, hinputs⟩ := List.forall_mem_cons.mp hexpands
    obtain ⟨b, hb, hreads⟩ := VertexBinding.ofAttributes_expansion henv hinput
    rw [VertexBinding.ofAttributes] at hb ih
    rw [List.flatMap_cons, VertexBinding.ofAttributes, List.filter_append, List.map_append, hb]
    exact .cons hreads (ih hinputs)

theorem nodup_location (happart : inputs.Pairwise (NamedInput.Apart env))
    (hexpands : ∀ input ∈ inputs, input.Expands env (input.attributes env)) :
    ((inputs.flatMap (·.attributes env)).map (·.location)).Nodup := by
  rw [List.map_flatMap, List.nodup_flatMap]
  refine ⟨fun input hinput => (hexpands input hinput).nodup_location, ?_⟩
  refine happart.imp_of_mem fun {input input'} hinput hinput' h location hmem hmem' => ?_
  obtain ⟨a, ha, rfl⟩ := List.mem_map.mp hmem
  obtain ⟨a', ha', hlocation⟩ := List.mem_map.mp hmem'
  refine h _ ((hexpands input hinput).occupies ha) ?_
  rw [← hlocation]
  exact (hexpands input' hinput').occupies ha'

theorem slotwise_of_fits (henv : env.HasSlots) (hfit : env.SlotsFit)
    (hinputs : i.vertexInputs = inputs.flatMap (·.attributes env))
    (hfits : ∀ input ∈ inputs, input.Fits env) : Slotwise env inputs i := by
  have hexpands : ∀ input ∈ inputs, input.Expands env (input.attributes env) :=
    fun input hinput => NamedInput.expands_attributes hfit (hfits input hinput)
  refine {
    vertexInputs := hinputs
    expands := hexpands
    bindings := fun instanced => ?_
    described := fun instanced a ha => ?_
    distinct := fun happart instanced => ?_ }
  · rw [attributes_eq hinputs]
    exact forall₂_reads henv hexpands
  · rw [attributes_eq hinputs] at ha ⊢
    obtain ⟨input, hinput, ha⟩ := List.mem_flatMap.mp ha
    obtain ⟨slot, hslot, rfl⟩ := List.mem_map.mp ha
    obtain ⟨type, _, -, -, hisSlot⟩ := (hexpands input hinput).exists_isSlot hslot
    refine ⟨?_, VertexAttribute.rate_withInstances_iff hisSlot.rate⟩
    -- The binding is described by the first slot of the same input.
    obtain ⟨b, hb, hreads⟩ := VertexBinding.ofAttributes_expansion henv (hexpands input hinput)
    have hfirst : b ∈ VertexBinding.ofAttributes
        ((input.attributes env).map (·.withInstances instanced)) := hb ▸ List.mem_singleton_self b
    obtain ⟨first, hmem, hopens, rfl⟩ := VertexBinding.mem_ofAttributes_iff.mp hfirst
    rw [((hexpands input hinput).reads hslot).eq hreads]
    exact VertexBinding.mem_ofAttributes_iff.mpr
      ⟨first, List.mem_flatMap.mpr ⟨input, hinput, hmem⟩, hopens, rfl⟩
  · have hlocations : (i.attributes instanced).map (·.location) =
        (inputs.flatMap (·.attributes env)).map (·.location) := by
      rw [attributes, hinputs, List.map_map]
      exact List.map_congr_left fun a _ => VertexAttribute.location_withInstances
    have hnodup : ((i.attributes instanced).map (·.location)).Nodup := by
      rw [hlocations]
      exact nodup_location happart hexpands
    exact ⟨hnodup, VertexBinding.nodup_binding_ofAttributes hnodup⟩

/-- What a vertex shader declares as inputs is expanded slot by slot, for a table of types with
slots whose offsets are words. An input whose last slot would be past the last location is
refused. -/
theorem ofText_slotwise (henv : env.HasSlots) (hfit : env.SlotsFit) (source : ShaderText)
    (hvertex : source.stage = .vertex) :
    (∀ i, ofText env source = .ok i →
      ∃ ds items, Declaration.readAll (Comment.strip source.text) = .ok ds ∧
        ds.mapM (Item.ofDeclaration env) = .ok items ∧
        Slotwise env (items.filterMap Item.namedInput?) i) ∧
    ∀ ds d location glslType name type,
      Declaration.readAll (Comment.strip source.text) = .ok ds → d ∈ ds →
      Item.ofDeclaration env d = .ok (.vertexInput location glslType name) →
      env.value? glslType = some type →
      UInt32.size ≤ location.toNat + type.slots.toNat - 1 →
        ∃ e, ofText env source = .error e := by
  have hfits {i : Interface} {ds : List Declaration} {items : List Item}
      (h : ofText env source = .ok i)
      (hds : Declaration.readAll (Comment.strip source.text) = .ok ds)
      (hitems : ds.mapM (Item.ofDeclaration env) = .ok items) :
      ∀ input ∈ items.filterMap Item.namedInput?, input.Fits env :=
    ((exists_ofText_iff hds hitems).mp ⟨i, h⟩).inputs hvertex
  constructor
  · intro i h
    obtain ⟨ds, items, hds, hitems, hi⟩ := exists_lists_of_ofText h
    have hinputs := hi.vertexInputs
    rw [if_pos hvertex] at hinputs
    exact ⟨ds, items, hds, hitems, slotwise_of_fits henv hfit hinputs (hfits h hds hitems)⟩
  · intro ds d location glslType name type hds hd hitem htype hpast
    cases h : ofText env source with
    | error e => exact ⟨e, rfl⟩
    | ok i =>
      obtain ⟨ds', items, hds', hitems, -⟩ := exists_lists_of_ofText h
      obtain rfl : ds' = ds := Except.ok.inj (hds'.symm.trans hds)
      obtain ⟨item, hmem, hread⟩ := Outcome.exists_of_mapM_eq_ok hitems hd
      obtain rfl : item = .vertexInput location glslType name :=
        Except.ok.inj (hread.symm.trans hitem)
      -- An input that fits has its last slot at a location that is a word.
      obtain ⟨type', htype', hlast⟩ := hfits h hds hitems ⟨location, glslType, name⟩
        (List.mem_filterMap.mpr ⟨_, hmem, rfl⟩)
      obtain rfl : type' = type := Option.some.inj (htype'.symm.trans htype)
      have hlast : location.toNat + type'.slots.toNat ≤ UInt32.size := hlast
      have hslots := henv _ _ htype
      omega

/-- The types of the shading language have slots. -/
theorem hasSlots_glsl : TypeEnv.glsl.HasSlots := by
  have hall : ∀ entry ∈ TypeEnv.glslValues, 0 < entry.2.slots.toNat := by decide
  exact fun _ _ => TypeEnv.of_lookup_glslValues (P := fun type => 0 < type.slots.toNat) hall

/-- A shader with a position for each vertex and a matrix for each instance. -/
def instances : ShaderText :=
  ⟨"scene.vert", .vertex, "layout(location=0) in vec3 at;layout(location=4) in mat4 model;"⟩

/-- A shader with a matrix of which the last column is past the last location. -/
def pastLast : ShaderText :=
  ⟨"last.vert", .vertex, "layout(location=4294967293) in mat4 model;"⟩

/-- The declaration of the matrix. -/
def matrixPastLast : Declaration :=
  ⟨0, "layout(location=4294967293) in mat4 model", [⟨"location", some "4294967293"⟩],
    [⟨.ident, "in", 28⟩, ⟨.ident, "mat4", 31⟩, ⟨.ident, "model", 36⟩]⟩

theorem ofText_slotwise_instances :
    TypeEnv.glsl.HasSlots ∧ TypeEnv.glsl.SlotsFit ∧
    (∃ i inputs, ofText .glsl instances = .ok i ∧ Slotwise .glsl inputs i ∧
      i.vertexInputs.map (·.location.toNat) = [0, 4, 5, 6, 7]) ∧
    ∃ e, ofText .glsl pastLast = .error e := by
  have hfit : TypeEnv.glsl.SlotsFit := TypeEnv.slotsFit_glsl _
  refine ⟨hasSlots_glsl, hfit, ?_, ?_⟩
  · have hlocations : (ofText .glsl instances).map (·.vertexInputs.map (·.location.toNat)) =
        .ok [0, 4, 5, 6, 7] := by
      decide +kernel
    obtain ⟨i, hi, hvalues⟩ := Outcome.map_eq_ok.mp hlocations
    obtain ⟨ds, items, -, -, hslotwise⟩ :=
      (ofText_slotwise hasSlots_glsl hfit instances rfl).1 i hi
    exact ⟨i, _, hi, hslotwise, hvalues⟩
  · have hread : Declaration.readAll (Comment.strip pastLast.text) = .ok [matrixPastLast] := by
      decide +kernel
    exact (ofText_slotwise hasSlots_glsl hfit pastLast rfl).2 _ _ 4294967293 "mat4"
      "model" _ hread List.mem_cons_self (by decide +kernel) rfl (by decide)

end Interface

end Glint

import Glint.Proofs.Collection
import Glint.Proofs.ItemAccess

/-!
# Interfaces by position

A vertex input is taken slot by slot, and the offset of a slot is a product that no one checks.
The data of specialization constants is as long as an unchecked sum, and every value is copied
into a range of it. The types of the shading language have few and short slots, and constants
that were collected end within a word, so nothing overflows and every range is there. With the
accesses on the way to an item, every text of a shader is reflected with sound accesses only.

## Main definitions

* `VertexAttribute.slotsAt` — the slots of an input with checks
* `SpecData.ofValuesAt` — the data of specialization constants with checks
* `Interface.ofTextAt` — the interface of a shader with checks

## Main results

* `VertexAttribute.slotsAt_eq` — no offset of a slot overflows
* `SpecData.ofValuesAt_eq` — the data has room for every constant
* `Interface.accesses_sound` — reflection with checks has the outcome of reflection without
  them, for every text
-/

namespace Glint

open Checked (outcome access fault)
open Text

/-! ### Vertex inputs -/

/-- The offsets of the slots of a type are words. -/
def ValueType.SlotsFit (type : ValueType) : Prop :=
  type.slots.toNat * type.slotStride.toNat < UInt32.size

namespace VertexAttribute

/-- The attributes in as many slots of an input as are left, from a slot on. That the offset of
a slot is no word must not happen. -/
def slotsAt (at_ : Nat) (location : UInt32) (glslType name : String) (type : ValueType)
    (slot : Nat) : Nat → Checked (List VertexAttribute)
  | 0 => return []
  | left + 1 =>
    match Word.add? location (UInt32.ofNat slot) with
    | none => outcome (.error (.malformed at_ (.inputTooLong name)))
    | some slotLocation => do
      let offset ← access (Word.mul? (UInt32.ofNat slot) type.slotStride)
      let more ← slotsAt at_ location glslType name type (slot + 1) left
      return ⟨name, glslType, location, slotLocation, .perVertex, type.size, type.format, offset⟩
        :: more

variable {at_ : Nat} {location : UInt32} {glslType name : String} {type : ValueType}

/-- The slots that are left are all taken, or the location of one of them is no word. -/
theorem slotsAt_eq (htype : type.SlotsFit) {slot left : Nat}
    (hstart : location.toNat + slot ≤ UInt32.size) (hslots : slot + left = type.slots.toNat) :
    slotsAt at_ location glslType name type slot left =
      outcome (if location.toNat + slot + left ≤ UInt32.size then
        .ok ((List.range' slot left).map fun slot =>
          ofSlot location glslType name type (UInt32.ofNat slot))
      else .error (.malformed at_ (.inputTooLong name))) := by
  -- By induction on the slots that are left, up to which all locations have been words.
  induction left generalizing slot with
  | zero =>
    rw [Nat.add_zero, if_pos hstart]
    rfl
  | succ left ih =>
    have hcount : type.slots.toNat < UInt32.size := type.slots.toNat_lt
    have hslot : (UInt32.ofNat slot).toNat = slot := UInt32.toNat_ofNat_of_lt' (by omega)
    -- A slot that is left comes before the end of the last one, whose offset is a word.
    have hoffset : Word.mul? (UInt32.ofNat slot) type.slotStride =
        some (UInt32.ofNat slot * type.slotStride) := by
      apply if_pos
      rw [hslot]
      exact (Nat.mul_le_mul_right _ (by omega)).trans_lt htype
    rw [slotsAt, hoffset, Word.add?, hslot]
    by_cases hlocation : location.toNat + slot < UInt32.size
    · rw [if_pos hlocation]
      dsimp only
      rw [ih (by omega) (by omega), ← Nat.add_assoc _ slot 1, Nat.add_right_comm _ 1 left,
        ← Nat.add_assoc _ left 1, Checked.access_some, Checked.outcome_ok_bind]
      split
      · rfl
      · rfl
    · rw [if_neg hlocation, if_neg (by omega)]

end VertexAttribute

/-! ### Declarations -/

/-- The offsets of the slots of every value type are words. -/
def TypeEnv.SlotsFit (env : TypeEnv) : Prop :=
  ∀ name type, env.value? name = some type → type.SlotsFit

/-- What is true of every entry of the table is true of every type of the shading language. -/
theorem TypeEnv.of_lookup_glslValues {P : ValueType → Prop} (hall : ∀ entry ∈ glslValues, P entry.2)
    {name : String} {type : ValueType} (htype : glslValues.lookup name = some type) : P type := by
  obtain ⟨before, after, hentries, -⟩ := List.lookup_eq_some_iff.mp htype
  exact hall (name, type) (hentries ▸ List.mem_append_right _ List.mem_cons_self)

/-- No type of the shading language has slots with offsets that are no words. -/
theorem TypeEnv.slotsFit_glsl (structs : String → Option StructType) :
    { glsl with struct? := structs }.SlotsFit := by
  have hall : ∀ entry ∈ glslValues, entry.2.SlotsFit := by
    unfold ValueType.SlotsFit
    decide
  exact fun name type => of_lookup_glslValues hall

namespace Collected

/-- Add a stage input slot by slot. -/
def addInputAt (env : TypeEnv) (stage : Stage) (at_ : Nat) (location : UInt32)
    (glslType name : String) (c : Collected) : Checked Collected :=
  if stage = .vertex then do
    let type ← outcome (env.valueType glslType)
    let slots ← VertexAttribute.slotsAt at_ location glslType name type 0 type.slots.toNat
    return { c with vertexInputs := c.vertexInputs ++ slots }
  else outcome (.ok c)

/-- Add what a declaration declares. Only an input asks for more than is checked anyway. -/
def addDeclarationAt (env : TypeEnv) (stage : Stage) (c : Collected) (d : Declaration) :
    Checked Collected := do
  let item ← Item.ofDeclarationAt env d
  match item with
  | .vertexInput location glslType name => c.addInputAt env stage d.offset location glslType name
  | item => outcome (c.addItem env stage d.offset item)

variable {env : TypeEnv} {stage : Stage}

theorem addInputAt_eq (henv : env.SlotsFit) (at_ : Nat) (location : UInt32)
    (glslType name : String) (c : Collected) :
    c.addInputAt env stage at_ location glslType name =
      outcome (c.addInput env stage at_ location glslType name) := by
  rw [addInputAt, addInput]
  split
  · refine Checked.outcome_bind _ fun type htype => ?_
    have hfit := henv glslType type (TypeEnv.valueType_eq_ok_iff.mp htype)
    rw [VertexAttribute.slotsAt_eq hfit location.toNat_lt.le (Nat.zero_add _),
      VertexAttribute.ofInput?, List.range_eq_range', Nat.add_zero]
    split
    · rfl
    · rfl
  · rfl

theorem addDeclarationAt_eq (henv : env.SlotsFit) {d : Declaration}
    (hd : Declaration.Extent 0 d.body) (c : Collected) :
    c.addDeclarationAt env stage d = outcome (c.addDeclaration env stage d) := by
  rw [addDeclarationAt, addDeclaration, Item.ofDeclarationAt_eq hd]
  refine Checked.outcome_bind _ fun item _ => ?_
  cases item with
  | vertexInput location glslType name => exact addInputAt_eq henv ..
  | _ => rfl

end Collected

/-! ### Specialization data -/

namespace SpecConstant

/-- The constant ends within a word. -/
def Fits (c : SpecConstant) : Prop :=
  c.offset.toNat + c.size.toNat < UInt32.size

variable {c : SpecConstant}

/-- Constants that stand one after the other end within the sum of their sizes. -/
theorem Consecutive.fits {offset : Nat} {cs : List SpecConstant} (h : Consecutive offset cs)
    (hsum : offset + Word.sum (cs.map size) < UInt32.size) : ∀ c ∈ cs, c.Fits := by
  induction cs generalizing offset with
  | nil => exact List.forall_mem_nil _
  | cons c cs ih =>
    obtain ⟨hoffset, hrest⟩ := h
    rw [List.map_cons, Word.sum_cons, ← Nat.add_assoc] at hsum
    refine List.forall_mem_cons.mpr ⟨?_, ih hrest hsum⟩
    rw [Fits, hoffset]
    omega

theorem Fits.toNat_stop (h : c.Fits) : c.stop.toNat = c.offset.toNat + c.size.toNat :=
  Word.toNat_add h

end SpecConstant

namespace SpecData

/-- The number of bytes that the constants need. That one of them ends at no word must not
happen. -/
def lengthAt (constants : List SpecConstant) : Checked Nat := do
  let stops ← access (constants.mapM fun c => Word.add? c.offset c.size)
  return (stops.map UInt32.toNat).foldl max 0

/-- Copy the bytes of a value into the data: a range of the bytes into a range of the data, which
have to be equally long. -/
def writeAt (data : List UInt8) (c : SpecConstant) (value : Int32) : Option (List UInt8) := do
  let bytes := wordBytes (c.word value)
  let start := c.offset.toNat
  let length := min bytes.length c.size.toNat
  let old ← range? start (start + length) data
  let new ← range? 0 length bytes
  if old.length = new.length then some (overwrite start new data) else none

/-- Write the values of constants one after the other. -/
def fillAt (values : String → Option Int32) (data : List UInt8) :
    List SpecConstant → Checked (List UInt8)
  | [] => return data
  | c :: cs => do
    let (_, value) ← outcome (valueOf values c)
    let data ← access (writeAt data c value)
    fillAt values data cs

/-- The data of the constants for given values. -/
def ofValuesAt (constants : List SpecConstant) (values : String → Option Int32) :
    Checked SpecData := do
  let length ← lengthAt constants
  let data ← fillAt values (List.replicate length 0) constants
  return ⟨constants, data⟩

variable {c : SpecConstant} {cs : List SpecConstant} {data : List UInt8}

theorem lengthAt_eq (h : ∀ c ∈ cs, c.Fits) : lengthAt cs = outcome (.ok (length cs)) := by
  have hstops : (cs.mapM fun c => Word.add? c.offset c.size) = some (cs.map (·.stop)) := by
    induction cs with
    | nil => rfl
    | cons c cs ih =>
      obtain ⟨hfirst, hrest⟩ := List.forall_mem_cons.mp h
      have hadd : Word.add? c.offset c.size = some c.stop := if_pos hfirst
      rw [List.mapM_cons, hadd, ih hrest]
      rfl
  rw [lengthAt, hstops, Checked.access_some, Checked.outcome_ok_bind, List.map_map]
  rfl

theorem length_write (value : Int32) (h : c.stop.toNat ≤ data.length) (hfits : c.Fits) :
    (write data (c, value)).length = data.length := by
  rw [hfits.toNat_stop] at h
  have hlength : (c.encode value).length ≤ c.size.toNat := List.length_take_le _ _
  simp only [write, overwrite, List.length_append, List.length_take, List.length_drop]
  omega

/-- A value is copied into the data if its constant ends there. -/
theorem writeAt_eq (value : Int32) (h : c.stop.toNat ≤ data.length) (hfits : c.Fits) :
    writeAt data c value = some (write data (c, value)) := by
  rw [hfits.toNat_stop] at h
  have hencode : c.encode value = (wordBytes (c.word value)).take c.size.toNat := rfl
  obtain ⟨bytes, hbytes⟩ : ∃ bytes, wordBytes (c.word value) = bytes := ⟨_, rfl⟩
  obtain ⟨length, hlength⟩ : ∃ length, min bytes.length c.size.toNat = length := ⟨_, rfl⟩
  have hold : range? c.offset.toNat (c.offset.toNat + length) data =
      some ((data.drop c.offset.toNat).take length) := by
    rw [range?_eq_some (Nat.le_add_right _ _) (by omega), Nat.add_sub_cancel_left]
  -- All bytes that there is room for are taken.
  have hnew : range? 0 length bytes = some (c.encode value) := by
    rw [range?_eq_some (Nat.zero_le _) (by omega), List.drop_zero, Nat.sub_zero, hencode, hbytes,
      ← hlength, Nat.min_comm, ← List.take_eq_take_min]
  have hequal : ((data.drop c.offset.toNat).take length).length = (c.encode value).length := by
    rw [hencode, hbytes, List.length_take, List.length_take, List.length_drop]
    omega
  simp only [writeAt, hbytes, hlength, hold, hnew, Option.bind_eq_bind, Option.bind_some,
    if_pos hequal]
  rfl

theorem fillAt_eq (values : String → Option Int32) (hfits : ∀ c ∈ cs, c.Fits)
    (h : ∀ c ∈ cs, c.stop.toNat ≤ data.length) :
    fillAt values data cs =
      outcome ((cs.mapM (valueOf values)).map fun given => given.foldl write data) := by
  induction cs generalizing data with
  | nil => rfl
  | cons c cs ih =>
    obtain ⟨hfirst, hrest⟩ := List.forall_mem_cons.mp h
    obtain ⟨hfit, hfits⟩ := List.forall_mem_cons.mp hfits
    rw [fillAt, List.mapM_cons, valueOf]
    cases values c.name with
    | none => rfl
    | some value =>
      -- A write keeps the length, so there is room for the later constants still.
      have hlater : ∀ c' ∈ cs, c'.stop.toNat ≤ (write data (c, value)).length := by
        rwa [length_write value hfirst hfit]
      dsimp only
      rw [Checked.outcome_ok_bind, writeAt_eq value hfirst hfit, Checked.access_some,
        Checked.outcome_ok_bind, ih hfits hlater]
      cases cs.mapM (valueOf values) <;> rfl

/-- The data is as long as the largest of the ends of the constants. -/
theorem stop_le_length {c : SpecConstant} (hc : c ∈ cs) : c.stop.toNat ≤ length cs := by
  have hmax : (0 :: cs.map fun c => c.stop.toNat).max? = some (length cs) := List.max?_cons'
  exact (List.max?_eq_some_iff.mp hmax).2 _ (List.mem_cons_of_mem _ (List.mem_map_of_mem hc))

/-- The accesses made for the data of constants are sound if they all end within a word. -/
theorem ofValuesAt_eq (values : String → Option Int32) (h : ∀ c ∈ cs, c.Fits) :
    ofValuesAt cs values = outcome (ofValues cs values) := by
  have hroom : ∀ c ∈ cs, c.stop.toNat ≤ (List.replicate (length cs) (0 : UInt8)).length := by
    intro c hc
    rw [List.length_replicate]
    exact stop_le_length hc
  rw [ofValuesAt, ofValues, lengthAt_eq h, Checked.outcome_ok_bind, fillAt_eq values h hroom]
  cases cs.mapM (valueOf values) <;> rfl

end SpecData

/-! ### Interfaces -/

namespace Interface

/-- The range of the push constants, whose sizes are summed up one after the other. -/
def pushRangeAt (i : Interface) : Option PushRange := do
  let offset ← (i.pushConstants.map Member.offset).min?
  let size ← (i.pushConstants.map Member.size).foldlM Word.add? 0
  return ⟨i.stage.flag, offset, size⟩

/-- The specialization data for given values. -/
def specDataAt (i : Interface) (values : String → Option Int32) : Checked SpecData :=
  SpecData.ofValuesAt i.specConstants values

/-- The interface of a shader. -/
def ofTextAt (env : TypeEnv) (source : ShaderText) : Checked Interface := do
  let text ← access (Comment.stripAt source.text)
  let tokens ← access (Token.scanAt text.toList 0 text.toList)
  let declarations ← Declaration.readTokensAt text.toList tokens 0
  let collected ← declarations.foldlM (Collected.addDeclarationAt env source.stage) .empty
  return ofCollected source.name source.stage collected

variable {env : TypeEnv} {source : ShaderText} {i : Interface}

theorem pushRangeAt_eq (i : Interface) : i.pushRangeAt = i.pushRange? := by
  rw [pushRangeAt, pushRange?, Word.foldlM_add?_zero]
  cases (i.pushConstants.map Member.offset).min? with
  | none => rfl
  | some offset => cases Word.total? (i.pushConstants.map Member.size) <;> rfl

/-- The specialization constants of a shader are typed and stand one after the other, and they
all end within a word. -/
theorem specConstants_of_ofText (h : ofText env source = .ok i) :
    (∀ c ∈ i.specConstants, c.IsTyped env) ∧ SpecConstant.Consecutive 0 i.specConstants ∧
      ∀ c ∈ i.specConstants, c.Fits := by
  obtain ⟨ds, c, -, hc, rfl⟩ := ofText_eq_ok_iff.mp h
  obtain ⟨items, -, hcollecting⟩ := collecting_of_foldlM hc
  have hsum : 0 + Word.sum (c.specConstants.map SpecConstant.size) < UInt32.size := by
    rw [Nat.zero_add, hcollecting.specSize]
    exact c.specSize.toNat_lt
  exact ⟨hcollecting.typed, hcollecting.consecutive, hcollecting.consecutive.fits hsum⟩

/-- The accesses made for the specialization data of a shader are sound. -/
theorem specDataAt_eq (h : ofText env source = .ok i) (values : String → Option Int32) :
    i.specDataAt values = outcome (i.specData values) :=
  SpecData.ofValuesAt_eq values (specConstants_of_ofText h).2.2

/-- The accesses made for the interface of a shader are sound. -/
theorem ofTextAt_eq (henv : env.SlotsFit) : ofTextAt env source = outcome (ofText env source) := by
  rw [ofTextAt, Comment.stripAt_eq, Checked.access_some, Checked.outcome_ok_bind,
    Token.scanAt_zero, Checked.access_some, Checked.outcome_ok_bind, Declaration.readTokensAt_scan,
    ofText]
  refine Checked.outcome_bind _ fun ds hds => ?_
  have hextent := Declaration.extent_body_of_readTokens hds
  rw [Checked.foldlM_eq fun d hd c => Collected.addDeclarationAt_eq henv (hextent d hd) c]
  exact Checked.outcome_bind _ fun c _ => rfl

/-- In the types of the shading language with any structures, every text of a shader is
reflected with sound accesses, to the result or the error of the reflection without checks.
What is asked of the result is found with sound accesses too. -/
theorem accesses_sound (structs : String → Option StructType) (source : ShaderText) :
    ofTextAt { TypeEnv.glsl with struct? := structs } source =
        outcome (ofText { TypeEnv.glsl with struct? := structs } source) ∧
      ∀ i, ofText { TypeEnv.glsl with struct? := structs } source = .ok i →
        i.pushRangeAt = i.pushRange? ∧
          ∀ values, i.specDataAt values = outcome (i.specData values) := by
  constructor
  · exact ofTextAt_eq (TypeEnv.slotsFit_glsl structs)
  · intro i h
    exact ⟨pushRangeAt_eq i, specDataAt_eq h⟩

end Interface

end Glint

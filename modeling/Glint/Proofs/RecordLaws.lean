import Glint.Proofs.StageText
import Glint.Record

/-!
# Records read back from what they are written as

Every record that a reflection reports is read back from its JSON value, field by field. A
field that is left out when it is empty is read as empty, and no value is written as null,
which stands for a value that is not there.

## Main definitions

* `LawfulRecord` — a type whose values are read back from what they are written as

## Main results

* `Record.read?_cons_self`, `Record.read?_cons_of_ne` — a field is read by its name
* `Record.toJson_injective` — what is written says what was written
* `Record.read_written` — the interfaces of shaders and pipelines, and the reports of both,
  are read back
-/

namespace Glint

open Record

/-- A type whose values are read back from what they are written as. Null is written for a value
that is not there, so it is not written for a value. -/
class LawfulRecord (α : Type) [Record α] : Prop where
  ofJson?_toJson : ∀ a : α, ofJson? (toJson a) = some a
  toJson_ne_null : ∀ a : α, toJson a ≠ .null

namespace Record

variable {key other : String} {value : Json} {fields : List (String × Json)}

/-! ### Fields -/

@[simp] theorem record?_object (keys : List String) :
    (Json.object fields).record? keys = some (.object fields) := rfl

theorem field?_cons_self : (Json.object ((key, value) :: fields)).field? key = some value := by
  rw [Json.field?, List.lookup_cons_self]

theorem field?_cons_of_ne (h : key ≠ other) :
    (Json.object ((other, value) :: fields)).field? key = (Json.object fields).field? key := by
  rw [Json.field?, Json.field?, List.lookup_cons, beq_eq_false_iff_ne.mpr h]

section

variable {α : Type} [Record α]

/-- A field is looked for behind the fields with other names. -/
@[simp] theorem read?_cons_of_ne (h : key ≠ other) :
    read? (α := α) (.object ((other, value) :: fields)) key = read? (.object fields) key := by
  rw [read?, read?, field?_cons_of_ne h]

@[simp] theorem readOptional?_cons_of_ne (h : key ≠ other) :
    readOptional? (α := α) (.object ((other, value) :: fields)) key =
      readOptional? (.object fields) key := by
  rw [readOptional?, readOptional?, field?_cons_of_ne h]

@[simp] theorem readOptional?_nil : readOptional? (α := α) (.object []) key = some none := rfl

@[simp] theorem readList?_cons_of_ne (h : key ≠ other) :
    readList? (α := α) (.object ((other, value) :: fields)) key =
      readList? (.object fields) key := by
  rw [readList?, readList?, field?_cons_of_ne h]

@[simp] theorem readList?_nil : readList? (α := α) (.object []) key = some [] := rfl

end

variable {α : Type} [Record α] [LawfulRecord α]

theorem ofJson?_toJson (a : α) : ofJson? (toJson a) = some a :=
  LawfulRecord.ofJson?_toJson a

/-- What is written says what was written. -/
theorem toJson_injective : Function.Injective (toJson : α → Json) := by
  intro a b h
  have hread := congrArg (ofJson? (α := α)) h
  rw [ofJson?_toJson, ofJson?_toJson] at hread
  exact Option.some.inj hread

@[simp] theorem read?_cons_self (a : α) :
    read? (.object ((key, toJson a) :: fields)) key = some a := by
  rw [read?, field?_cons_self, Option.bind_some, ofJson?_toJson]

@[simp] theorem readOptional?_cons_self (a : α) :
    readOptional? (.object ((key, toJson a) :: fields)) key = some (some a) := by
  rw [readOptional?, field?_cons_self]
  split
  · rename_i hnone
    cases hnone
  · rename_i hnull
    exact absurd (Option.some.inj hnull) (LawfulRecord.toJson_ne_null a)
  · rename_i value _ hvalue
    obtain rfl : toJson a = value := Option.some.inj hvalue
    rw [ofJson?_toJson, Option.map_some]

/-- A value that may be missing is read back from null when it is. -/
@[simp] theorem readOptional?_cons_orNull (a? : Option α) :
    readOptional? (.object ((key, orNull a?) :: fields)) key = some a? := by
  cases a? with
  | none =>
    rw [readOptional?, field?_cons_self]
    rfl
  | some a => exact readOptional?_cons_self a

end Record

/-! ### Words, strings and lists -/

instance : LawfulRecord UInt32 where
  ofJson?_toJson := Text.word?_toNat
  toJson_ne_null := nofun

instance : LawfulRecord UInt8 where
  ofJson?_toJson b := by
    have hlt : b.toNat < UInt8.size := b.toNat_lt
    exact (if_pos hlt).trans (congrArg some UInt8.ofNat_toNat)
  toJson_ne_null := nofun

instance : LawfulRecord String where
  ofJson?_toJson _ := rfl
  toJson_ne_null := nofun

theorem Json.readItems?_map {α : Type} [Record α] [LawfulRecord α] (as : List α) :
    readItems? (as.map toJson) = some as := by
  induction as with
  | nil => rfl
  | cons a as ih => simp [readItems?, ofJson?_toJson, ih]

instance {α : Type} [Record α] [LawfulRecord α] : LawfulRecord (List α) where
  ofJson?_toJson := Json.readItems?_map
  toJson_ne_null := nofun

namespace Record

variable {α : Type} [Record α] [LawfulRecord α] {key : String} {fields : List (String × Json)}

@[simp] theorem readList?_cons_self (as : List α) :
    readList? (.object ((key, toJson as) :: fields)) key = some as := by
  rw [readList?, field?_cons_self]
  exact ofJson?_toJson as

end Record

/-! ### Names of stages, formats and kinds -/

instance : LawfulRecord Stage where
  ofJson?_toJson := Stage.ofName?_name
  toJson_ne_null := nofun

instance : LawfulRecord ScalarType where
  ofJson?_toJson := ScalarType.ofName?_name
  toJson_ne_null := nofun

instance : LawfulRecord InputRate where
  ofJson?_toJson := InputRate.ofName?_name
  toJson_ne_null := nofun

instance : LawfulRecord VertexFormat where
  ofJson?_toJson := VertexFormat.ofName?_name
  toJson_ne_null := nofun

instance : LawfulRecord DescriptorKind where
  ofJson?_toJson := DescriptorKind.ofName?_name
  toJson_ne_null := nofun

instance : LawfulRecord StageSet where
  ofJson?_toJson := StageSet.ofText?_text
  toJson_ne_null := nofun

/-! ### Blocks and descriptors -/

instance : LawfulRecord ArrayLength where
  ofJson?_toJson length := by
    cases length with
    | fixed count => exact congrArg (Option.map ArrayLength.fixed) (ofJson?_toJson count)
    | runtime => rfl
  toJson_ne_null length := by cases length <;> exact nofun

instance : LawfulRecord Member where
  ofJson?_toJson m := by
    obtain ⟨name, glslType, size, offset, array?⟩ := m
    unfold instRecordMember
    cases array? <;> simp
  toJson_ne_null := nofun

instance : LawfulRecord StructType where
  ofJson?_toJson s := by
    unfold instRecordStructType
    simp
  toJson_ne_null := nofun

instance : LawfulRecord Descriptor where
  ofJson?_toJson d := by
    obtain ⟨name, binding, kind, stages, size, members⟩ := d
    unfold instRecordDescriptor
    cases members <;> simp
  toJson_ne_null := nofun

instance : LawfulRecord DescriptorSet where
  ofJson?_toJson s := by
    unfold instRecordDescriptorSet
    simp
  toJson_ne_null := nofun

/-! ### Vertex inputs -/

instance : LawfulRecord VertexAttribute where
  ofJson?_toJson a := by
    unfold instRecordVertexAttribute
    simp
  toJson_ne_null := nofun

instance : LawfulRecord VertexBinding where
  ofJson?_toJson b := by
    unfold instRecordVertexBinding
    simp
  toJson_ne_null := nofun

/-! ### Push constants and specialization -/

instance : LawfulRecord PushRange where
  ofJson?_toJson r := by
    unfold instRecordPushRange
    simp
  toJson_ne_null := nofun

instance : LawfulRecord PushField where
  ofJson?_toJson f := by
    unfold instRecordPushField
    simp
  toJson_ne_null := nofun

instance : LawfulRecord SpecConstant where
  ofJson?_toJson c := by
    unfold instRecordSpecConstant
    simp
  toJson_ne_null := nofun

instance : LawfulRecord SpecData where
  ofJson?_toJson s := by
    unfold instRecordSpecData
    simp
  toJson_ne_null := nofun

/-! ### Interfaces -/

instance : LawfulRecord StageLink where
  ofJson?_toJson l := by
    unfold instRecordStageLink
    simp
  toJson_ne_null := nofun

instance : LawfulRecord Interface where
  ofJson?_toJson i := by
    unfold instRecordInterface
    simp
  toJson_ne_null := nofun

instance : LawfulRecord StageConstants where
  ofJson?_toJson s := by
    unfold instRecordStageConstants
    simp
  toJson_ne_null := nofun

instance : LawfulRecord Pipeline where
  ofJson?_toJson p := by
    unfold instRecordPipeline
    simp
  toJson_ne_null := nofun

instance : LawfulRecord Report where
  ofJson?_toJson r := by
    unfold instRecordReport
    simp
  toJson_ne_null := nofun

/-! ### Fields that are left out -/

theorem Member.field?_array_length (m : Member) :
    (toJson m).field? "array_length" = m.array?.map toJson := by
  obtain ⟨name, glslType, size, offset, array?⟩ := m
  cases array? <;> rfl

theorem Descriptor.field?_fields (d : Descriptor) :
    (toJson d).field? "fields" = if d.members = [] then none else some (toJson d.members) := by
  obtain ⟨name, binding, kind, stages, size, members⟩ := d
  cases members <;> rfl

/-- The interfaces of shaders, those of pipelines and the reports of both are read back from
what they are written as, although the length of what is no array and the members of a
descriptor without any are left out. So what is written says what was written. -/
theorem Record.read_written :
    ((∀ i : Interface, ofJson? (toJson i) = some i) ∧
      (∀ p : Pipeline, ofJson? (toJson p) = some p) ∧
      ∀ r : Report, ofJson? (toJson r) = some r) ∧
    ((∀ m : Member, (toJson m).field? "array_length" = m.array?.map toJson) ∧
      ∀ d : Descriptor, (toJson d).field? "fields" =
        if d.members = [] then none else some (toJson d.members)) ∧
    Function.Injective (toJson : Interface → Json) ∧
      Function.Injective (toJson : Pipeline → Json) ∧
      Function.Injective (toJson : Report → Json) :=
  ⟨⟨ofJson?_toJson, ofJson?_toJson, ofJson?_toJson⟩,
    ⟨Member.field?_array_length, Descriptor.field?_fields⟩,
    toJson_injective, toJson_injective, toJson_injective⟩

end Glint

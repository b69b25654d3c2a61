import Glint.Json
import Glint.Pipeline

/-!
# Records as JSON values

Everything that a reflection reports is written as a JSON value and can be read
back. A record is written as an object with a fixed list of fields, and a name as a
string. Reading also takes a record whose values stand in an array, in the order of
the fields, and a name that is the only field of an object, with the value null.

Reading ignores fields that it does not know, and fails on a missing field or one
of the wrong type. An array length and a location may be missing, or be null, when
there is none, and the members of a descriptor may be missing when there are none.

## Main definitions

* `Record` — types whose values are written as JSON values and read back
* `Json.record?` — a record as an object, from either form
* `Report` — what is written for a pipeline
-/

namespace Glint

/-- A type whose values are written as JSON values and read back. -/
class Record (α : Type) where
  /-- The JSON value of a record. -/
  toJson : α → Json
  /-- The record that a JSON value denotes. -/
  ofJson? : Json → Option α

/-- What is written for a pipeline: its name, the interfaces of its shaders and their merged
interface. -/
structure Report where
  pipelineName : String
  shaders : List Interface
  pipeline : Pipeline
  deriving DecidableEq, Repr

/-- A record with the given fields, as an object. In an array the values stand in the order of
the fields, and none may follow them. -/
def Json.record? (keys : List String) : Json → Option Json
  | .object fields => some (.object fields)
  | .array values =>
    if values.length ≤ keys.length then some (.object (keys.zip values)) else none
  | _ => none

/-- A name: a string, or the only field of an object, whose value is null. -/
def Json.name? : Json → Option String
  | .string text | .object [(text, .null)] => some text
  | _ => none

namespace Record

variable {α : Type} [Record α]

/-! ### Fields -/

/-- The field of an object that has to be there. -/
def read? (j : Json) (key : String) : Option α :=
  (j.field? key).bind ofJson?

/-- The field of an object that may be missing or null. -/
def readOptional? (j : Json) (key : String) : Option (Option α) :=
  match j.field? key with
  | none | some .null => some none
  | some value => (ofJson? value).map some

/-- The field of an object that is an empty list when it is missing. -/
def readList? [Record (List α)] (j : Json) (key : String) : Option (List α) :=
  match j.field? key with
  | none => some []
  | some value => ofJson? value

/-- The value of a field that is null when there is none. -/
def orNull : Option α → Json
  | none => .null
  | some a => toJson a

end Record

open Record

/-! ### Words, strings and lists -/

/-- The items of a list of values, each of which has to denote a record. -/
def Json.readItems? {α : Type} [Record α] : List Json → Option (List α)
  | [] => some []
  | item :: items => do
    let a ← Record.ofJson? item
    let as ← readItems? items
    return a :: as

instance : Record UInt32 where
  toJson w := .ofNat w.toNat
  ofJson?
    | .number (.ofNat n) 0 => Text.word? n
    | _ => none

instance : Record UInt8 where
  toJson b := .ofNat b.toNat
  ofJson?
    | .number (.ofNat n) 0 => if n < UInt8.size then some (UInt8.ofNat n) else none
    | _ => none

instance : Record String where
  toJson s := .string s
  ofJson?
    | .string s => some s
    | _ => none

instance {α : Type} [Record α] : Record (List α) where
  toJson as := .array (as.map toJson)
  ofJson?
    | .array items => Json.readItems? items
    | _ => none

/-! ### Names of stages, formats and kinds -/

/-- The name of a stage in a record. -/
def Stage.name : Stage → String
  | .vertex => "vertex"
  | .tessellationControl => "tessellationControl"
  | .tessellationEvaluation => "tessellationEvaluation"
  | .geometry => "geometry"
  | .fragment => "fragment"
  | .compute => "compute"

/-- The stage with a given name. -/
def Stage.ofName? (text : String) : Option Stage :=
  all.find? (·.name == text)

theorem Stage.ofName?_name (stage : Stage) : ofName? stage.name = some stage := by
  cases stage <;> decide

instance : Record Stage where
  toJson stage := .string stage.name
  ofJson? j := j.name?.bind Stage.ofName?

instance : Record ScalarType where
  toJson scalar := .string scalar.name
  ofJson? j := j.name?.bind ScalarType.ofName?

instance : Record InputRate where
  toJson rate := .string rate.name
  ofJson? j := j.name?.bind InputRate.ofName?

instance : Record VertexFormat where
  toJson format := .string format.name
  ofJson? j := j.name?.bind VertexFormat.ofName?

instance : Record DescriptorKind where
  toJson kind := .string kind.name
  ofJson? j := j.name?.bind DescriptorKind.ofName?

instance : Record StageSet where
  toJson stages := .string stages.text
  ofJson?
    | .string text => StageSet.ofText? text
    | _ => none

/-! ### Blocks and descriptors -/

/-- The length of an array from its kind and its count. A runtime length carries no count, so
one that is given must be null. -/
def ArrayLength.ofParts? (kind : String) (count? : Option Json) : Option ArrayLength :=
  match kind, count? with
  | "fixed", some count => (ofJson? count).map .fixed
  | "runtime", none | "runtime", some .null => some .runtime
  | _, _ => none

/-- In an array the kind is a string, and the count has to be there, also when it is null. -/
instance : Record ArrayLength where
  toJson
    | .fixed count => .object [("kind", .string "fixed"), ("count", toJson count)]
    | .runtime => .object [("kind", .string "runtime")]
  ofJson?
    | .array [.string kind, count] => ArrayLength.ofParts? kind (some count)
    | .object fields => do
      let kind ← (← fields.lookup "kind").name?
      ArrayLength.ofParts? kind (fields.lookup "count")
    | _ => none

instance : Record Member where
  toJson m := .object <|
    [("name", toJson m.name), ("glsl_type", toJson m.glslType), ("size", toJson m.size),
      ("offset", toJson m.offset)] ++
    match m.array? with
    | none => []
    | some length => [("array_length", toJson length)]
  ofJson? j := do
    let j ← j.record? ["name", "glsl_type", "size", "offset", "array_length"]
    return {
      name := ← read? j "name"
      glslType := ← read? j "glsl_type"
      size := ← read? j "size"
      offset := ← read? j "offset"
      array? := ← readOptional? j "array_length" }

instance : Record StructType where
  toJson s := .object [("size", toJson s.size), ("fields", toJson s.members)]
  ofJson? j := do
    let j ← j.record? ["size", "fields"]
    return {
      size := ← read? j "size"
      members := ← read? j "fields" }

instance : Record Descriptor where
  toJson d := .object <|
    [("name", toJson d.name), ("binding", toJson d.binding), ("descriptor_type", toJson d.kind),
      ("stage_flags", toJson d.stages), ("size", toJson d.size)] ++
    match d.members with
    | [] => []
    | members => [("fields", toJson members)]
  ofJson? j := do
    let j ← j.record? ["name", "binding", "descriptor_type", "stage_flags", "size", "fields"]
    return {
      name := ← read? j "name"
      binding := ← read? j "binding"
      kind := ← read? j "descriptor_type"
      stages := ← read? j "stage_flags"
      size := ← read? j "size"
      members := ← readList? j "fields" }

instance : Record DescriptorSet where
  toJson s := .object [("set", toJson s.set), ("uniforms", toJson s.descriptors)]
  ofJson? j := do
    let j ← j.record? ["set", "uniforms"]
    return {
      set := ← read? j "set"
      descriptors := ← read? j "uniforms" }

/-! ### Vertex inputs -/

instance : Record VertexAttribute where
  toJson a := .object
    [("name", toJson a.name), ("glsl_type", toJson a.glslType), ("binding", toJson a.binding),
      ("location", toJson a.location), ("input_rate", toJson a.rate),
      ("stride", toJson a.stride), ("format", toJson a.format), ("offset", toJson a.offset)]
  ofJson? j := do
    let j ← j.record?
      ["name", "glsl_type", "binding", "location", "input_rate", "stride", "format", "offset"]
    return {
      name := ← read? j "name"
      glslType := ← read? j "glsl_type"
      binding := ← read? j "binding"
      location := ← read? j "location"
      rate := ← read? j "input_rate"
      stride := ← read? j "stride"
      format := ← read? j "format"
      offset := ← read? j "offset" }

instance : Record VertexBinding where
  toJson b := .object
    [("binding", toJson b.binding), ("stride", toJson b.stride), ("input_rate", toJson b.rate)]
  ofJson? j := do
    let j ← j.record? ["binding", "stride", "input_rate"]
    return {
      binding := ← read? j "binding"
      stride := ← read? j "stride"
      rate := ← read? j "input_rate" }

/-! ### Push constants and specialization -/

instance : Record PushRange where
  toJson r := .object
    [("stage_flags", toJson r.stages), ("offset", toJson r.offset), ("size", toJson r.size)]
  ofJson? j := do
    let j ← j.record? ["stage_flags", "offset", "size"]
    return {
      stages := ← read? j "stage_flags"
      offset := ← read? j "offset"
      size := ← read? j "size" }

instance : Record PushField where
  toJson f := .object
    [("name", toJson f.name), ("glsl_type", toJson f.glslType), ("offset", toJson f.offset),
      ("size", toJson f.size), ("stage_flags", toJson f.stages)]
  ofJson? j := do
    let j ← j.record? ["name", "glsl_type", "offset", "size", "stage_flags"]
    return {
      name := ← read? j "name"
      glslType := ← read? j "glsl_type"
      offset := ← read? j "offset"
      size := ← read? j "size"
      stages := ← read? j "stage_flags" }

instance : Record SpecConstant where
  toJson c := .object
    [("constant_id", toJson c.id), ("name", toJson c.name), ("glsl_type", toJson c.glslType),
      ("scalar_type", toJson c.scalar), ("size", toJson c.size), ("offset", toJson c.offset)]
  ofJson? j := do
    let j ← j.record? ["constant_id", "name", "glsl_type", "scalar_type", "size", "offset"]
    return {
      id := ← read? j "constant_id"
      name := ← read? j "name"
      glslType := ← read? j "glsl_type"
      scalar := ← read? j "scalar_type"
      size := ← read? j "size"
      offset := ← read? j "offset" }

instance : Record SpecData where
  toJson s := .object [("map_entries", toJson s.constants), ("data", toJson s.data)]
  ofJson? j := do
    let j ← j.record? ["map_entries", "data"]
    return {
      constants := ← read? j "map_entries"
      data := ← read? j "data" }

/-! ### Interfaces -/

instance : Record StageLink where
  toJson l := .object [("location", orNull l.location?), ("declaration", toJson l.declaration)]
  ofJson? j := do
    let j ← j.record? ["location", "declaration"]
    return {
      location? := ← readOptional? j "location"
      declaration := ← read? j "declaration" }

instance : Record Interface where
  toJson i := .object
    [("source_file_name", toJson i.sourceName), ("stage", toJson i.stage),
      ("vertex_inputs", toJson i.vertexInputs), ("descriptor_sets", toJson i.descriptorSets),
      ("push_constants", toJson i.pushConstants),
      ("specialization_constants", toJson i.specConstants), ("outputs", toJson i.outputs),
      ("input_blocks", toJson i.inputBlocks)]
  ofJson? j := do
    let j ← j.record?
      ["source_file_name", "stage", "vertex_inputs", "descriptor_sets", "push_constants",
        "specialization_constants", "outputs", "input_blocks"]
    return {
      sourceName := ← read? j "source_file_name"
      stage := ← read? j "stage"
      vertexInputs := ← read? j "vertex_inputs"
      descriptorSets := ← read? j "descriptor_sets"
      pushConstants := ← read? j "push_constants"
      specConstants := ← read? j "specialization_constants"
      outputs := ← read? j "outputs"
      inputBlocks := ← read? j "input_blocks" }

instance : Record StageConstants where
  toJson s := .object
    [("source_file_name", toJson s.sourceName), ("stage", toJson s.stage),
      ("constants", toJson s.constants)]
  ofJson? j := do
    let j ← j.record? ["source_file_name", "stage", "constants"]
    return {
      sourceName := ← read? j "source_file_name"
      stage := ← read? j "stage"
      constants := ← read? j "constants" }

instance : Record Pipeline where
  toJson p := .object
    [("source_file_names", toJson p.sourceNames), ("vertex_inputs", toJson p.vertexInputs),
      ("vertex_bindings", toJson p.vertexBindings), ("uniform_sets", toJson p.sets),
      ("push_constant_ranges", toJson p.pushRanges), ("push_constants", toJson p.pushFields),
      ("specialization_constants", toJson p.specializations)]
  ofJson? j := do
    let j ← j.record?
      ["source_file_names", "vertex_inputs", "vertex_bindings", "uniform_sets",
        "push_constant_ranges", "push_constants", "specialization_constants"]
    return {
      sourceNames := ← read? j "source_file_names"
      vertexInputs := ← read? j "vertex_inputs"
      vertexBindings := ← read? j "vertex_bindings"
      sets := ← read? j "uniform_sets"
      pushRanges := ← read? j "push_constant_ranges"
      pushFields := ← read? j "push_constants"
      specializations := ← read? j "specialization_constants" }

instance : Record Report where
  toJson r := .object
    [("pipeline_name", toJson r.pipelineName), ("shaders", toJson r.shaders),
      ("pipeline", toJson r.pipeline)]
  ofJson? j := do
    let j ← j.record? ["pipeline_name", "shaders", "pipeline"]
    return {
      pipelineName := ← read? j "pipeline_name"
      shaders := ← read? j "shaders"
      pipeline := ← read? j "pipeline" }

end Glint

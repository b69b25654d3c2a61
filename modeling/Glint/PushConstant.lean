import Glint.Member

/-!
# Push constants

Push constants are written straight into the command stream. A pipeline gives
every stage that reads some of them one range of bytes, and lists them by name
with all the stages that declare the name.

## Main definitions

* `PushRange` — the bytes that a set of stages reads
* `PushField` — a named push constant
* `PushLayout` — the ranges and fields of a pipeline
* `PushLayout.add` — add the push constants of one stage
-/

namespace Glint

/-- The push constant bytes that a set of stages reads. -/
structure PushRange where
  stages : StageSet
  offset : UInt32
  size : UInt32
  deriving DecidableEq, Repr, Inhabited

/-- A named push constant with the stages that declare it. -/
structure PushField where
  name : String
  glslType : String
  offset : UInt32
  size : UInt32
  stages : StageSet
  deriving DecidableEq, Repr, Inhabited

/-- The push constant ranges and fields of a pipeline, each in first-seen order. -/
structure PushLayout where
  ranges : List PushRange
  fields : List PushField
  deriving DecidableEq, Repr, Inhabited

namespace PushLayout

/-- The layout without push constants. -/
def empty : PushLayout :=
  ⟨[], []⟩

/-- Widen the range of a stage by a member, or begin one with it. -/
def addRange (stage : Stage) (m : Member) : List PushRange → Except ReflectError (List PushRange)
  | [] => .ok [⟨stage.flag, m.offset, m.size⟩]
  | range :: ranges =>
    if range.stages = stage.flag then
      match Word.add? range.size m.size with
      | some size => .ok (⟨range.stages, min range.offset m.offset, size⟩ :: ranges)
      | none => .error (.malformed 0 (.pushConstantsTooLarge stage))
    else (addRange stage m ranges).map (range :: ·)

/-- Add a stage to the field with the name of a member, or begin one with it. A field that
is there already must agree with the member in type, offset and size. -/
def addField (stage : Stage) (m : Member) : List PushField → Except ReflectError (List PushField)
  | [] => .ok [⟨m.name, m.glslType, m.offset, m.size, stage.flag⟩]
  | field :: fields =>
    if field.name = m.name then
      if field.glslType = m.glslType ∧ field.offset = m.offset ∧ field.size = m.size then
        .ok ({ field with stages := field.stages.union stage.flag } :: fields)
      else .error (.conflictingPushConstant m.name)
    else (addField stage m fields).map (field :: ·)

/-- Add one push constant of a stage. -/
def addMember (stage : Stage) (layout : PushLayout) (m : Member) :
    Except ReflectError PushLayout := do
  -- A range that grows too long is found before a field that disagrees.
  let ranges ← addRange stage m layout.ranges
  let fields ← addField stage m layout.fields
  return ⟨ranges, fields⟩

/-- Add the push constants of a stage, in order. -/
def add (layout : PushLayout) (stage : Stage) (members : List Member) :
    Except ReflectError PushLayout :=
  members.foldlM (addMember stage) layout

end PushLayout

end Glint

import Glint.Text.Blank
import Glint.Text.Numeral
import Glint.Text.Split

/-!
# Shader stages

A shader file belongs to one stage of the pipeline, told by the extension of its
name. A resource that several stages read carries a set of stages, one bit for
each. A set may hold bits that belong to no stage here; they are kept, and
written in hexadecimal.

## Main definitions

* `Stage` — the stages, in pipeline order
* `Stage.ofExtension?` — the stage that a file extension names
* `StageSet` — a set of stages as bits of a word
* `StageSet.text`, `StageSet.ofText?` — a set as text and back
-/

namespace Glint

/-- The stages of a pipeline, in the order in which it runs them. -/
inductive Stage
  | vertex
  | tessellationControl
  | tessellationEvaluation
  | geometry
  | fragment
  | compute
  deriving DecidableEq, Repr, Inhabited

/-- A set of stages, one bit for each. -/
structure StageSet where
  bits : UInt32
  deriving DecidableEq, Repr, Inhabited

namespace Stage

/-- Every stage, in pipeline order. -/
def all : List Stage :=
  [.vertex, .tessellationControl, .tessellationEvaluation, .geometry, .fragment, .compute]

theorem mem_all (stage : Stage) : stage ∈ all := by
  cases stage <;> simp [all]

/-- The place of a stage in pipeline order. -/
def rank : Stage → Nat
  | .vertex => 0
  | .tessellationControl => 1
  | .tessellationEvaluation => 2
  | .geometry => 3
  | .fragment => 4
  | .compute => 5

theorem rank_injective {a b : Stage} (h : a.rank = b.rank) : a = b := by
  cases a <;> cases b <;> first | rfl | simp [rank] at h

/-- The extension of the files of a stage. -/
def extension : Stage → String
  | .vertex => "vert"
  | .tessellationControl => "tc"
  | .tessellationEvaluation => "te"
  | .geometry => "geo"
  | .fragment => "frag"
  | .compute => "comp"

/-- The stage that a file extension names, with or without points before it. -/
def ofExtension? (text : String) : Option Stage :=
  all.find? fun stage => stage.extension.toList == text.toList.dropWhile (· == '.')

/-- The bit of a stage. -/
def bit : Stage → UInt32
  | .vertex => 0x01
  | .tessellationControl => 0x02
  | .tessellationEvaluation => 0x04
  | .geometry => 0x08
  | .fragment => 0x10
  | .compute => 0x20

/-- The set that holds one stage. -/
def flag (stage : Stage) : StageSet :=
  ⟨stage.bit⟩

/-- The name of a stage in the text of a set. -/
def flagName : Stage → String
  | .vertex => "VERTEX"
  | .tessellationControl => "TESSELLATION_CONTROL"
  | .tessellationEvaluation => "TESSELLATION_EVALUATION"
  | .geometry => "GEOMETRY"
  | .fragment => "FRAGMENT"
  | .compute => "COMPUTE"

end Stage

namespace StageSet

open Text

/-- The set without stages. -/
def empty : StageSet :=
  ⟨0⟩

/-- The stages of two sets together. -/
def union (a b : StageSet) : StageSet :=
  ⟨a.bits ||| b.bits⟩

/-- The set holds a stage. -/
def holds (s : StageSet) (stage : Stage) : Bool :=
  s.bits &&& stage.bit != 0

/-- The bits of a set that belong to no stage. -/
def unnamed (s : StageSet) : UInt32 :=
  s.bits &&& ~~~0x3f

/-- The parts of the text of a set: the names of its stages, then the other bits. -/
def parts (s : StageSet) : List String :=
  (Stage.all.filter s.holds).map Stage.flagName ++
    if s.unnamed = 0 then [] else [String.ofList ('0' :: 'x' :: hexDigits s.unnamed.toNat)]

/-- A set as text: its parts in ascending order of their bits. -/
def text (s : StageSet) : String :=
  " | ".intercalate s.parts

/-- The set that one part of a text denotes: a stage by its exact name, or bits in hexadecimal. -/
def ofPart? : List Char → Option StageSet
  | '0' :: 'x' :: digits => (hexadecimal? digits).map StageSet.mk
  | name => (Stage.all.find? fun stage => stage.flagName.toList == name).map Stage.flag

/-- The set that a text denotes. White space around the parts has no meaning, and a
blank text denotes the empty set. -/
def ofText? (text : String) : Option StageSet :=
  -- A blank text is a set without parts, while a blank part is an error.
  if (trim text.toList).isEmpty then some empty
  else
    (splitWhere (· == '|') text.toList).foldlM
      (fun set part => (ofPart? (trim part)).map set.union) empty

end StageSet

end Glint

import Glint.Stage

/-!
# What stops a shader or a pipeline

An error names its cause; the wording stands in one place, `ReflectError.message`.
A malformed shader is reported at a byte position of the text without comments.

## Main definitions

* `Fault` — the ways in which a declaration can be malformed
* `ReflectError` — everything that stops the reflection of a shader or a pipeline
-/

namespace Glint

/-- What is wrong with a declaration at some position. -/
inductive Fault
  | unbalancedBrace
  | unterminated
  | missingQualifier
  | unclosedQualifier
  | missingQualifierName
  | missingQualifierValue
  | missingQualifierSeparator
  | qualifierNotInteger (key : String)
  | qualifierMissing (key : String)
  | missingBlockName
  | missingMembers
  | constantNotConst
  | missingTypeAndName
  | afterName (text : String)
  | afterMember (text name : String)
  | arrayLength (text : String)
  | memberTooLarge (name : String)
  | blockTooLarge
  | inputTooLong (name : String)
  | secondPushConstants
  | constantNotScalar (name : String)
  | constantsTooLarge
  | pushConstantsTooLarge (stage : Stage)
  deriving DecidableEq, Repr

/-- The wording of a fault. -/
def Fault.message : Fault → String
  | unbalancedBrace => "unbalanced '\x7d'"
  | unterminated => "layout declaration is never terminated by ';'"
  | missingQualifier => "expected '(' after 'layout'"
  | unclosedQualifier => "unclosed layout qualifier"
  | missingQualifierName => "expected a layout argument name"
  | missingQualifierValue => "expected a value after '='"
  | missingQualifierSeparator => "expected ',' or ')' in layout qualifier"
  | qualifierNotInteger key => "layout argument '" ++ key ++ "' needs an integer value"
  | qualifierMissing key => "missing layout argument '" ++ key ++ "'"
  | missingBlockName => "expected a block name before '\x7b'"
  | missingMembers => "block without a '\x7b ... \x7d' member list"
  | constantNotConst => "specialization constant without 'const'"
  | missingTypeAndName => "expected a type and a name"
  | afterName text => "unexpected '" ++ text ++ "' after declaration name"
  | afterMember text name => "unexpected '" ++ text ++ "' after field '" ++ name ++ "'"
  | arrayLength text => "array length must be an integer literal, got '" ++ text ++ "'"
  | memberTooLarge name => "field '" ++ name ++ "' does not fit in a block"
  | blockTooLarge => "block is larger than u32::MAX bytes"
  | inputTooLong name => "input '" ++ name ++ "' runs past the last location"
  | secondPushConstants => "only one push_constant block is allowed per shader"
  | constantNotScalar name => "specialization constant '" ++ name ++ "' must be a scalar"
  | constantsTooLarge => "specialization data too large"
  | pushConstantsTooLarge stage =>
    "StageFlags(" ++ stage.flagName ++ ") push constants overflow u32"

/-- Everything that stops the reflection of a shader or of a pipeline of shaders. -/
inductive ReflectError
  | malformed (offset : Nat) (fault : Fault)
  | unrecognized (declaration : String)
  | unknownType (name : String)
  | unsizedSet (set : UInt32)
  | missingValue (name : String)
  | conflictingBinding (set binding : UInt32)
  | conflictingPushConstant (name : String)
  deriving DecidableEq, Repr

/-- The wording of an error. -/
def ReflectError.message : ReflectError → String
  | malformed offset fault =>
    "malformed shader at byte " ++ toString offset ++ ": " ++ fault.message
  | unrecognized declaration => "unrecognized layout segment: " ++ declaration
  | unknownType name => "unknown glsl type: " ++ name
  | unsizedSet set =>
    "descriptor set " ++ toString set.toNat ++
      " contains opaque descriptors and has no byte size"
  | missingValue name => "no value supplied for specialization constant: " ++ name
  | conflictingBinding set binding =>
    "conflicting declarations for set " ++ toString set.toNat ++
      ", binding " ++ toString binding.toNat
  | conflictingPushConstant name =>
    "push constant '" ++ name ++ "' is declared differently in different stages"

end Glint

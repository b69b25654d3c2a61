import Glint.Declaration
import Glint.Packing

/-!
# What a layout declaration declares

The words before the type or the block name of a declaration decide what it
declares. They are storage keywords and qualifiers, and only their exact spelling
counts: a block named `In` or `Buffer` is a block like any other. Of several
storage keywords `in` comes first, then `out`, `buffer` and `uniform`.

## Main definitions

* `Item` — what a declaration declares
* `Item.ofDeclaration` — the item of a declaration
-/

namespace Glint

/-- What a layout declaration declares. -/
inductive Item
  /-- A stage input with its first location. -/
  | vertexInput (location : UInt32) (glslType name : String)
  /-- A block of stage inputs, with the text of its declaration. -/
  | inputBlock (location? : Option UInt32) (declaration : String)
  /-- A stage output or a block of them, with the text of its declaration. -/
  | output (location? : Option UInt32) (declaration : String)
  /-- A descriptor, with the size and the members of its block. -/
  | descriptor (set binding : UInt32) (name : String) (kind : DescriptorKind) (size : UInt32)
      (members : List Member)
  /-- The block of push constants. -/
  | pushConstants (members : List Member)
  /-- A specialization constant with its number. -/
  | specConstant (id : UInt32) (glslType name : String)
  deriving DecidableEq, Repr

namespace Item

/-! ### The words before a type -/

/-- The keywords that decide what a declaration declares. -/
def storageKeywords : List String :=
  ["in", "out", "uniform", "buffer", "const"]

/-- The memory, precision and interpolation qualifiers that may stand around a storage
keyword. -/
def qualifiers : List String :=
  ["readonly", "writeonly", "restrict", "coherent", "volatile", "highp", "mediump", "lowp",
    "flat", "smooth", "noperspective"]

/-- The token is a storage keyword or a qualifier. -/
def isLeading (t : Token) : Bool :=
  t.isOneOf storageKeywords || t.isOneOf qualifiers

/-- The tokens after the first occurrence of a keyword among the leading words. -/
def after? (keyword : String) : List Token → Option (List Token)
  | [] => none
  | t :: ts =>
    if t.spells keyword then some ts
    else if isLeading t then after? keyword ts
    else none

/-- The tokens of a declaration before its first brace. -/
def head (d : Declaration) : List Token :=
  d.body.takeWhile fun t => !t.isPunct '{'

/-- The type and the name that tokens consist of, apart from qualifiers before them. -/
def typedName (d : Declaration) (ts : List Token) : Except ReflectError (String × String) :=
  match ts.dropWhile (·.isOneOf qualifiers) with
  | [type, name] =>
    if type.isIdent && name.isIdent then .ok (type.text, name.text)
    else .error (.malformed d.offset .missingTypeAndName)
  | _ :: _ :: other :: _ => .error (.malformed other.offset (.afterName other.text))
  | _ => .error (.malformed d.offset .missingTypeAndName)

/-! ### Blocks -/

/-- The tokens between the first opening and the last closing brace of a body. -/
def memberTokens? (body : List Token) : Option (List Token) :=
  let inside := (body.dropWhile fun t => !t.isPunct '{').drop 1
  (Text.splitLast? (·.isPunct '}') inside).map Prod.fst

/-- The members of the block of a declaration. -/
def blockMembers (env : TypeEnv) (d : Declaration) : Except ReflectError (List Member) :=
  match memberTokens? d.body with
  | some ts => Member.pack env ts
  | none => .error (.malformed d.offset .missingMembers)

/-- The name of a block, the last token before its brace. -/
def blockName (d : Declaration) (rest : List Token) : Except ReflectError String :=
  match rest.getLast? with
  | some t => if t.isIdent then .ok t.text else .error (.malformed d.offset .missingBlockName)
  | none => .error (.malformed d.offset .missingBlockName)

/-! ### The alternatives -/

/-- The declaration has the single entry `push_constant`, without a value. -/
def marksPushConstants (d : Declaration) : Bool :=
  match d.entries with
  | [entry] => Token.sameWord entry.key "push_constant" && entry.value?.isNone
  | _ => false

/-- The first entry of the declaration is `constant_id`. -/
def marksSpecConstant (d : Declaration) : Bool :=
  d.entries.head?.any fun entry => Token.sameWord entry.key "constant_id"

/-- The item of a declaration with the keyword `in`, which `rest` follows. -/
def ofInput (d : Declaration) (rest : List Token) : Except ReflectError Item :=
  if d.hasBlock then do
    let location? ← d.word? "location"
    return .inputBlock location? d.text
  else do
    let location ← d.word "location"
    let (glslType, name) ← typedName d rest
    return .vertexInput location glslType name

/-- The item of a declaration with the keyword `out`. -/
def ofOutput (d : Declaration) : Except ReflectError Item := do
  let location? ← d.word? "location"
  return .output location? d.text

/-- The descriptor of a declaration with a storage keyword, which `rest` follows. -/
def ofDescriptor (env : TypeEnv) (storage : BlockStorage) (d : Declaration)
    (rest : List Token) : Except ReflectError Item := do
  let set? ← d.word? "set"
  -- A descriptor without a set belongs to the first one.
  let set := set?.getD 0
  let binding ← d.word "binding"
  if d.hasBlock then
    let name ← blockName d rest
    let members ← blockMembers env d
    let size ← Member.totalSize members d.offset
    return .descriptor set binding name storage.kind size members
  else
    let (glslType, name) ← typedName d rest
    let kind ← env.opaqueKind glslType
    return .descriptor set binding name kind 0 []

/-- The item of a declaration with the keyword `uniform`, which `rest` follows. -/
def ofUniform (env : TypeEnv) (d : Declaration) (rest : List Token) :
    Except ReflectError Item :=
  if marksPushConstants d then (blockMembers env d).map .pushConstants
  else ofDescriptor env .uniform d rest

/-- The item of a declaration marked as a specialization constant. -/
def ofSpecConstant (d : Declaration) : Except ReflectError Item := do
  let id ← d.word "constant_id"
  match after? "const" (head d) with
  | none => .error (.malformed d.offset .constantNotConst)
  | some rest =>
    let (glslType, name) ← typedName d (rest.takeWhile fun t => !t.isPunct '=')
    return .specConstant id glslType name

/-- What a declaration declares. -/
def ofDeclaration (env : TypeEnv) (d : Declaration) : Except ReflectError Item :=
  -- The order of the questions decides between keywords, not the order in the text.
  match after? "in" (head d) with
  | some rest => ofInput d rest
  | none =>
    if (after? "out" (head d)).isSome then ofOutput d
    else
      match after? "buffer" (head d) with
      | some rest => ofDescriptor env .buffer d rest
      | none =>
        match after? "uniform" (head d) with
        | some rest => ofUniform env d rest
        | none =>
          if marksSpecConstant d then ofSpecConstant d else .error (.unrecognized d.text)

end Item

end Glint

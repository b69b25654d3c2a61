import Glint.Interface
import Glint.Proofs.Lexeme

/-!
# Declarations as they are written

Every kind of declaration has one text. The names in it are identifiers that are neither
storage keywords nor qualifiers, and its numbers are words in decimal. What a written
declaration declares is said here without reading the text: sizes and offsets are exact
sums and products of natural numbers, and there is an item where they are words.

## Main definitions

* `Name`, `Literal` — names, and the default values of constants
* `WrittenMember`, `WrittenMember.layout?` — a member of a block, and the layout of a block
* `Written`, `Written.text` — a declaration and its text
* `Written.item?` — what a written declaration declares
-/

namespace Glint

open Lexeme

/-! ### Words and numbers -/

/-- An identifier that is no storage keyword and no qualifier. -/
structure Name extends Ident where
  notReserved : text ∉ Item.storageKeywords ++ Item.qualifiers := by decide

namespace Ident

/-- The words with a meaning in a declaration. -/
def layout : Ident := { text := "layout" }

@[inherit_doc layout]
def location : Ident := { text := "location" }

@[inherit_doc layout]
def set : Ident := { text := "set" }

@[inherit_doc layout]
def binding : Ident := { text := "binding" }

@[inherit_doc layout]
def pushConstant : Ident := { text := "push_constant" }

@[inherit_doc layout]
def constantId : Ident := { text := "constant_id" }

@[inherit_doc layout]
def in_ : Ident := { text := "in" }

@[inherit_doc layout]
def out : Ident := { text := "out" }

@[inherit_doc layout]
def const : Ident := { text := "const" }

/-- The storage keyword of a block. -/
def ofStorage : BlockStorage → Ident
  | .uniform => { text := "uniform" }
  | .buffer => { text := "buffer" }

end Ident

namespace Lexeme

/-- A number, or a sign that a number can be written with. -/
def isNumeric : Lexeme → Bool
  | number _ => true
  | sign s => s.isPolarity || s == .point
  | word _ => false

/-- A lexeme that neither ends a declaration nor opens or closes its block. -/
def isPlain : Lexeme → Bool
  | sign .leftBrace | sign .rightBrace | sign .semicolon => false
  | _ => true

theorem isPlain_of_isNumeric {l : Lexeme} (h : l.isNumeric = true) : l.isPlain = true := by
  cases l with
  | sign s => cases s <;> first | rfl | cases h
  | _ => rfl

end Lexeme

/-- The default value of a constant: numbers with the signs that are written around them. -/
structure Literal where
  lexemes : List Lexeme
  isNumeric : ∀ l ∈ lexemes, l.isNumeric = true

/-! ### Members -/

/-- A member of a block as it is written: its type, its name and its array length. -/
structure WrittenMember where
  glslType : Name
  name : Name
  array? : Option ArrayLength

namespace WrittenMember

/-- The lexemes of an array length. -/
def arrayLexemes : Option ArrayLength → List Lexeme
  | none => []
  | some (.fixed count) => [.sign .leftBracket, .number (.ofWord count), .sign .rightBracket]
  | some .runtime => [.sign .leftBracket, .sign .rightBracket]

/-- The lexemes of a member, without its semicolon. -/
def lexemes (m : WrittenMember) : List Lexeme :=
  .word m.glslType.toIdent :: .word m.name.toIdent :: arrayLexemes m.array?

/-- The lexemes of a list of members, each with its semicolon. -/
def listLexemes (ms : List WrittenMember) : List Lexeme :=
  ms.flatMap fun m => m.lexemes ++ [.sign .semicolon]

/-- The number of elements that a member takes room for. -/
def count (m : WrittenMember) : Nat :=
  match m.array? with
  | some (.fixed count) => count.toNat
  | some .runtime | none => 1

/-- The type of a member is known. -/
def isKnown (env : TypeEnv) (m : WrittenMember) : Bool :=
  (env.byteSize m.glslType.text).isOk

/-- The exact size in bytes of a member, if its type is known. -/
def size (env : TypeEnv) (m : WrittenMember) : Nat :=
  match env.byteSize m.glslType.text with
  | .ok element => element.toNat * m.count
  | .error _ => 0

/-- The exact size in bytes of a list of members. -/
def total (env : TypeEnv) : List WrittenMember → Nat
  | [] => 0
  | m :: ms => m.size env + total env ms

/-- The members packed one after the other from a byte offset on. -/
def packed (env : TypeEnv) (offset : Nat) : List WrittenMember → List Member
  | [] => []
  | m :: ms =>
    ⟨m.name.text, m.glslType.text, .ofNat (m.size env), .ofNat offset, m.array?⟩ ::
      packed env (offset + m.size env) ms

/-- The layout of a block: its members, if their types are known and the size of the block
is a word. -/
def layout? (env : TypeEnv) (ms : List WrittenMember) : Option (List Member) :=
  if ms.all (isKnown env) ∧ total env ms < UInt32.size then some (packed env 0 ms) else none

end WrittenMember

/-! ### Entries of a qualifier -/

/-- An entry of a layout qualifier as it is written: a key, and a number if it has one. -/
structure WrittenEntry where
  key : Ident
  value? : Option UInt32

namespace WrittenEntry

/-- The lexemes of an entry. -/
def lexemes (e : WrittenEntry) : List Lexeme :=
  match e.value? with
  | none => [.word e.key]
  | some value => [.word e.key, .sign .equals, .number (.ofWord value)]

/-- The lexemes of a list of entries, with commas between them. -/
def listLexemes : List WrittenEntry → List Lexeme
  | [] => []
  | [e] => e.lexemes
  | e :: e' :: es => e.lexemes ++ .sign .comma :: listLexemes (e' :: es)

/-- The entry that a written entry is read as. -/
def entry (e : WrittenEntry) : LayoutEntry :=
  ⟨e.key.text, e.value?.map fun value => value.toNat.repr⟩

end WrittenEntry

/-! ### Declarations -/

/-- A layout declaration as it is written. -/
inductive Written
  /-- A stage input. -/
  | vertexInput (location : UInt32) (glslType name : Name)
  /-- A stage output. -/
  | output (location? : Option UInt32) (glslType name : Name)
  /-- A uniform or a buffer block. -/
  | block (storage : BlockStorage) (set? : Option UInt32) (binding : UInt32) (name : Name)
      (members : List WrittenMember)
  /-- A uniform of an opaque type. -/
  | opaqueUniform (set? : Option UInt32) (binding : UInt32) (glslType name : Name)
  /-- The block of push constants. -/
  | pushBlock (name : Name) (members : List WrittenMember)
  /-- A specialization constant with its default value. -/
  | specConstant (id : UInt32) (glslType name : Name) (value : Literal)

namespace Written

/-- The entries of a qualifier with a binding. -/
def bindingEntries (set? : Option UInt32) (binding : UInt32) : List WrittenEntry :=
  (set?.toList.map fun set => ⟨.set, some set⟩) ++ [⟨.binding, some binding⟩]

/-- The entries of the qualifier. -/
def entries : Written → List WrittenEntry
  | vertexInput location _ _ => [⟨.location, some location⟩]
  | output location? _ _ => location?.toList.map fun location => ⟨.location, some location⟩
  | block _ set? binding _ _ | opaqueUniform set? binding _ _ => bindingEntries set? binding
  | pushBlock _ _ => [⟨.pushConstant, none⟩]
  | specConstant id _ _ _ => [⟨.constantId, some id⟩]

/-- The lexemes between the qualifier and the brace or the end. -/
def front : Written → List Lexeme
  | vertexInput _ glslType name => [.word .in_, .word glslType.toIdent, .word name.toIdent]
  | output _ glslType name => [.word .out, .word glslType.toIdent, .word name.toIdent]
  | block storage _ _ name _ => [.word (.ofStorage storage), .word name.toIdent]
  | opaqueUniform _ _ glslType name =>
    [.word (.ofStorage .uniform), .word glslType.toIdent, .word name.toIdent]
  | pushBlock name _ => [.word (.ofStorage .uniform), .word name.toIdent]
  | specConstant _ glslType name value =>
    .word .const :: .word glslType.toIdent :: .word name.toIdent :: .sign .equals ::
      value.lexemes

/-- The members, if the declaration has a block. -/
def members? : Written → Option (List WrittenMember)
  | block _ _ _ _ members | pushBlock _ members => some members
  | _ => none

/-- The lexemes of the block, if there is one. -/
def braces (w : Written) : List Lexeme :=
  match w.members? with
  | some ms => .sign .leftBrace :: WrittenMember.listLexemes ms ++ [.sign .rightBrace]
  | none => []

/-- The lexemes after the qualifier. -/
def body (w : Written) : List Lexeme :=
  w.front ++ w.braces

/-- The lexemes of the qualifier with its parentheses, and of the body. -/
def inner (w : Written) : List Lexeme :=
  .sign .leftParen :: WrittenEntry.listLexemes w.entries ++ .sign .rightParen :: w.body

/-- The characters of a declaration, without its semicolon. -/
def chars (w : Written) : List Char :=
  write (.word .layout :: w.inner)

/-- The text of a declaration, without its semicolon. -/
def text (w : Written) : String :=
  String.ofList w.chars

/-- The kind of the descriptor that a block with a storage keyword declares. -/
def blockKind : BlockStorage → DescriptorKind
  | .uniform => .uniformBuffer
  | .buffer => .storageBuffer

/-- What a written declaration declares, if its types are known and its sizes are words. -/
def item? (env : TypeEnv) : Written → Option Item
  | vertexInput location glslType name =>
    some (.vertexInput location glslType.text name.text)
  | output location? glslType name =>
    some (.output location? (output location? glslType name).text)
  | block storage set? binding name members =>
    (WrittenMember.layout? env members).map
      (.descriptor (set?.getD 0) binding name.text (blockKind storage)
        (.ofNat (WrittenMember.total env members)))
  | opaqueUniform set? binding glslType name =>
    (env.opaqueKind? glslType.text).map fun kind =>
      .descriptor (set?.getD 0) binding name.text kind 0 []
  | pushBlock _ members => (WrittenMember.layout? env members).map .pushConstants
  | specConstant id glslType name _ => some (.specConstant id glslType.text name.text)

end Written

end Glint

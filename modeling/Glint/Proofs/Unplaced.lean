import Glint.Interface

/-!
# Reading without positions

The positions of a declaration and of its tokens are told in errors and used nowhere else. A
declaration of which the positions are forgotten therefore declares the same, and where it
declares nothing it fails in the same way, at a position that is forgotten too.

## Main definitions

* `Token.unplaced`, `Declaration.unplaced`, `ReflectError.unplaced` — without positions

## Main results

* `Item.ofDeclaration_unplaced` — what a declaration declares, without its positions
* `Collected.foldlM_unplaced` — what is collected of declarations without their positions
-/

namespace Glint

/-! ### Forgetting positions -/

/-- The token with its position forgotten. -/
def Token.unplaced (t : Token) : Token :=
  { t with offset := 0 }

/-- The declaration with all its positions forgotten. -/
def Declaration.unplaced (d : Declaration) : Declaration :=
  { d with offset := 0, body := d.body.map Token.unplaced }

/-- The error with its position forgotten. -/
def ReflectError.unplaced : ReflectError → ReflectError
  | malformed _ fault => malformed 0 fault
  | e => e

/-- The outcome with the position of its error forgotten. -/
def Outcome.unplace {α : Type} (x : Except ReflectError α) : Except ReflectError α :=
  x.mapError ReflectError.unplaced

namespace Outcome

variable {α β : Type}

@[simp] theorem unplace_ok (a : α) : unplace (.ok a) = .ok a := rfl

@[simp] theorem unplace_error (e : ReflectError) :
    unplace (.error e : Except ReflectError α) = .error e.unplaced := rfl

theorem unplace_eq_ok {x : Except ReflectError α} {a : α} : unplace x = .ok a ↔ x = .ok a := by
  cases x <;> simp

theorem unplace_eq_error {x : Except ReflectError α} {e : ReflectError} :
    unplace x = .error e ↔ ∃ e', x = .error e' ∧ e'.unplaced = e := by
  cases x <;> simp

theorem unplace_bind (x : Except ReflectError α) (f : α → Except ReflectError β) :
    unplace (x >>= f) = unplace x >>= fun a => unplace (f a) := by
  cases x <;> rfl

theorem unplace_map (x : Except ReflectError α) (f : α → β) :
    unplace (x.map f) = (unplace x).map f := by
  cases x <;> rfl

theorem unplace_ite (c : Prop) [Decidable c] (x y : Except ReflectError α) :
    unplace (if c then x else y) = if c then unplace x else unplace y :=
  apply_ite unplace c x y

end Outcome

namespace Token

variable (t : Token)

@[simp] theorem text_unplaced : t.unplaced.text = t.text := rfl

@[simp] theorem kind_unplaced : t.unplaced.kind = t.kind := rfl

@[simp] theorem isIdent_unplaced : t.unplaced.isIdent = t.isIdent := rfl

@[simp] theorem isPunct_unplaced (c : Char) : t.unplaced.isPunct c = t.isPunct c := rfl

@[simp] theorem spells_unplaced (word : String) : t.unplaced.spells word = t.spells word := rfl

end Token

namespace Text

variable {α β : Type}

theorem splitWhere_map (isSep : β → Bool) (f : α → β) (as : List α) :
    splitWhere isSep (as.map f) = (splitWhere (isSep ∘ f) as).map (List.map f) := by
  induction as with
  | nil => rfl
  | cons a as ih =>
    rw [List.map_cons, splitWhere, splitWhere, ih, Function.comp_apply]
    split
    · rfl
    · cases splitWhere (isSep ∘ f) as <;> rfl

theorem splitLast?_map (isSep : β → Bool) (f : α → β) (as : List α) :
    splitLast? isSep (as.map f) =
      (splitLast? (isSep ∘ f) as).map fun (before, after) => (before.map f, after.map f) := by
  induction as with
  | nil => rfl
  | cons a as ih =>
    rw [List.map_cons, splitLast?, splitLast?, ih, Function.comp_apply]
    cases splitLast? (isSep ∘ f) as with
    | some parts => rfl
    | none => cases isSep (f a) <;> rfl

end Text

open Outcome (unplace unplace_bind unplace_map unplace_ite)

variable (env : TypeEnv) (d : Declaration) (ts : List Token)

/-! ### The numbers of a qualifier -/

namespace Declaration

theorem word?_unplaced (key : String) : d.unplaced.word? key = unplace (d.word? key) := by
  have hentry : d.unplaced.entry? key = d.entry? key := rfl
  rw [word?, word?, hentry]
  cases d.entry? key with
  | none => rfl
  | some entry =>
    cases hword : entry.value?.bind fun value => Text.decimal? value.toList <;>
      simp only [hword] <;> rfl

theorem word_unplaced (key : String) : d.unplaced.word key = unplace (d.word key) := by
  rw [word, word, word?_unplaced]
  cases d.word? key with
  | error e => rfl
  | ok word? => cases word? <;> rfl

theorem hasBlock_unplaced : d.unplaced.hasBlock = d.hasBlock := by
  rw [hasBlock, unplaced, List.any_map]
  rfl

end Declaration

/-! ### The members of a block -/

namespace MemberShape

theorem readCount_unplaced (t : Token) : readCount t.unplaced = unplace (readCount t) := by
  rw [readCount, readCount, Token.kind_unplaced, Token.text_unplaced]
  cases if t.kind == .number then Text.decimal? t.text.toList else none <;> rfl

theorem readArray_unplaced (name : String) :
    readArray name (ts.map Token.unplaced) = unplace (readArray name ts) := by
  match ts with
  | [] => rfl
  | [t] => rfl
  | [opening, closing] =>
    simp only [List.map_cons, List.map_nil, readArray, unplace_ite]
    rfl
  | [opening, count, closing] =>
    simp only [List.map_cons, List.map_nil, readArray, unplace_ite, unplace_map, readCount_unplaced]
    rfl
  | _ :: _ :: _ :: _ :: _ => rfl

theorem read_unplaced (first : Token) :
    read first.unplaced (ts.map Token.unplaced) = unplace (read first ts) := by
  cases ts with
  | nil => rfl
  | cons second rest =>
    simp only [List.map_cons, read, unplace_ite, unplace_map, readArray_unplaced]
    rfl

end MemberShape

theorem TypeEnv.unplace_byteSize (name : String) :
    unplace (env.byteSize name) = env.byteSize name := by
  rw [byteSize]
  cases env.value? name with
  | some type => rfl
  | none => cases env.struct? name <;> rfl

theorem TypeEnv.unplace_valueType (name : String) :
    unplace (env.valueType name) = env.valueType name := by
  rw [valueType]
  cases env.value? name <;> rfl

theorem TypeEnv.unplace_opaqueKind (name : String) :
    unplace (env.opaqueKind name) = env.opaqueKind name := by
  rw [opaqueKind]
  cases env.opaqueKind? name <;> rfl

namespace Member

theorem packFrom_unplaced (offset : UInt32) (fields : List (List Token)) :
    packFrom env offset (fields.map (List.map Token.unplaced)) =
      unplace (packFrom env offset fields) := by
  induction fields generalizing offset with
  | nil => rfl
  | cons field fields ih =>
    cases field with
    | nil => exact ih offset
    | cons first more =>
      simp only [List.map_cons, packFrom, MemberShape.read_unplaced, unplace_bind,
        TypeEnv.unplace_byteSize, ih]
      -- A member that is too large is the only failure with a position of its own.
      congr 1
      funext shape
      congr 1
      funext element
      cases shape.size? element with
      | none => rfl
      | some size =>
        cases hnext : Word.add? offset size with
        | none =>
          simp only [hnext]
          rfl
        | some next =>
          simp only [hnext, unplace_bind]
          rfl

theorem pack_unplaced : pack env (ts.map Token.unplaced) = unplace (pack env ts) := by
  rw [pack, pack, Text.splitWhere_map, packFrom_unplaced]
  rfl

theorem totalSize_unplaced (members : List Member) (at_ : Nat) :
    totalSize members 0 = unplace (totalSize members at_) := by
  rw [totalSize, totalSize]
  cases Word.total? (members.map Member.size) <;> rfl

end Member

/-! ### What a declaration declares -/

namespace Item

theorem after?_unplaced (keyword : String) :
    after? keyword (ts.map Token.unplaced) = (after? keyword ts).map (List.map Token.unplaced) := by
  induction ts with
  | nil => rfl
  | cons t ts ih =>
    have hleading : isLeading t.unplaced = isLeading t := rfl
    rw [List.map_cons, after?, after?, ih, Token.spells_unplaced, hleading]
    split
    · rfl
    · split <;> rfl

theorem head_unplaced : head d.unplaced = (head d).map Token.unplaced := by
  rw [head, Declaration.unplaced, List.takeWhile_map]
  rfl

theorem typedName_unplaced :
    typedName d.unplaced (ts.map Token.unplaced) = unplace (typedName d ts) := by
  have hdrop : (ts.map Token.unplaced).dropWhile (·.isOneOf qualifiers) =
      (ts.dropWhile (·.isOneOf qualifiers)).map Token.unplaced := by
    rw [List.dropWhile_map]
    rfl
  rw [typedName, typedName, hdrop]
  generalize ts.dropWhile (·.isOneOf qualifiers) = words
  match words with
  | [] => rfl
  | [t] => rfl
  | [type, name] =>
    simp only [List.map_cons, List.map_nil, unplace_ite]
    rfl
  | _ :: _ :: _ :: _ => rfl

theorem blockMembers_unplaced : blockMembers env d.unplaced = unplace (blockMembers env d) := by
  have htokens : memberTokens? d.unplaced.body =
      (memberTokens? d.body).map (List.map Token.unplaced) := by
    rw [memberTokens?, memberTokens?, Declaration.unplaced, List.dropWhile_map, ← List.map_drop,
      Text.splitLast?_map, Option.map_map, Option.map_map]
    rfl
  rw [blockMembers, blockMembers, htokens]
  cases memberTokens? d.body with
  | none => rfl
  | some ts => exact Member.pack_unplaced env ts

theorem blockName_unplaced :
    blockName d.unplaced (ts.map Token.unplaced) = unplace (blockName d ts) := by
  rw [blockName, blockName, List.getLast?_map]
  cases ts.getLast? with
  | none => rfl
  | some t =>
    simp only [Option.map_some, unplace_ite]
    rfl

theorem ofInput_unplaced : ofInput d.unplaced (ts.map Token.unplaced) = unplace (ofInput d ts) := by
  simp only [ofInput, Declaration.hasBlock_unplaced, Declaration.word?_unplaced,
    Declaration.word_unplaced, typedName_unplaced, unplace_ite, unplace_bind]
  rfl

theorem ofOutput_unplaced : ofOutput d.unplaced = unplace (ofOutput d) := by
  simp only [ofOutput, Declaration.word?_unplaced, unplace_bind]
  rfl

theorem ofDescriptor_unplaced (storage : BlockStorage) :
    ofDescriptor env storage d.unplaced (ts.map Token.unplaced) =
      unplace (ofDescriptor env storage d ts) := by
  simp only [ofDescriptor, Declaration.word?_unplaced, Declaration.word_unplaced,
    Declaration.hasBlock_unplaced, blockName_unplaced, blockMembers_unplaced, typedName_unplaced,
    TypeEnv.unplace_opaqueKind, ← Member.totalSize_unplaced, unplace_ite, unplace_bind]
  rfl

theorem ofUniform_unplaced :
    ofUniform env d.unplaced (ts.map Token.unplaced) = unplace (ofUniform env d ts) := by
  simp only [ofUniform, blockMembers_unplaced, ofDescriptor_unplaced, unplace_ite, unplace_map]
  rfl

theorem ofSpecConstant_unplaced : ofSpecConstant d.unplaced = unplace (ofSpecConstant d) := by
  simp only [ofSpecConstant, Declaration.word_unplaced, head_unplaced, after?_unplaced,
    unplace_bind]
  congr 1
  funext id
  cases after? "const" (head d) with
  | none => rfl
  | some rest =>
    have htake : (rest.map Token.unplaced).takeWhile (fun t => !t.isPunct '=') =
        (rest.takeWhile fun t => !t.isPunct '=').map Token.unplaced := by
      rw [List.takeWhile_map]
      rfl
    simp only [Option.map_some, htake, typedName_unplaced, unplace_bind]
    rfl

/-- A declaration without its positions declares the same, or fails in the same way. -/
theorem ofDeclaration_unplaced : ofDeclaration env d.unplaced = unplace (ofDeclaration env d) := by
  have hmarks : marksSpecConstant d.unplaced = marksSpecConstant d := rfl
  simp only [ofDeclaration, head_unplaced, after?_unplaced, Option.isSome_map, hmarks]
  cases after? "in" (head d) with
  | some rest => exact ofInput_unplaced d rest
  | none =>
    simp only [Option.map_none, unplace_ite, ofOutput_unplaced]
    congr 1
    cases after? "buffer" (head d) with
    | some rest => exact ofDescriptor_unplaced env d rest .buffer
    | none =>
      cases after? "uniform" (head d) with
      | some rest => exact ofUniform_unplaced env d rest
      | none =>
        simp only [Option.map_none, unplace_ite, ofSpecConstant_unplaced]
        rfl

end Item

/-! ### What is collected -/

namespace DescriptorSet

theorem unplace_mergeInto (set : UInt32) (new : Descriptor) (ds : List Descriptor) :
    unplace (mergeInto set new ds) = mergeInto set new ds := by
  induction ds with
  | nil => rfl
  | cons old ds ih =>
    rw [mergeInto, unplace_ite, unplace_ite, unplace_map, ih]
    rfl

theorem unplace_merge (s : DescriptorSet) (new : Descriptor) :
    unplace (s.merge new) = s.merge new := by
  rw [merge, unplace_map, unplace_mergeInto]

theorem unplace_update {change : DescriptorSet → Except ReflectError DescriptorSet}
    (hchange : ∀ s, unplace (change s) = change s) (set : UInt32) (ss : List DescriptorSet) :
    unplace (update set change ss) = update set change ss := by
  induction ss with
  | nil => rw [update, unplace_map, hchange]
  | cons s ss ih =>
    rw [update, unplace_ite, unplace_ite, unplace_map, unplace_map, unplace_map, hchange, hchange,
      ih]

end DescriptorSet

namespace Collected

variable (stage : Stage) (at_ : Nat) (c : Collected)

theorem addInput_unplaced (location : UInt32) (glslType name : String) :
    c.addInput env stage 0 location glslType name =
      unplace (c.addInput env stage at_ location glslType name) := by
  simp only [addInput, unplace_ite, unplace_bind, TypeEnv.unplace_valueType]
  congr 2
  funext type
  cases VertexAttribute.ofInput? location glslType name type <;> rfl

theorem unplace_addDescriptor (set : UInt32) (new : Descriptor) :
    unplace (c.addDescriptor set new) = c.addDescriptor set new := by
  rw [addDescriptor, unplace_map,
    DescriptorSet.unplace_update fun s => DescriptorSet.unplace_merge s new]

theorem addPushConstants_unplaced (members : List Member) :
    c.addPushConstants 0 members = unplace (c.addPushConstants at_ members) := by
  rw [addPushConstants, addPushConstants, unplace_ite]
  rfl

theorem addSpecConstant_unplaced (id : UInt32) (glslType name : String) :
    c.addSpecConstant env 0 id glslType name =
      unplace (c.addSpecConstant env at_ id glslType name) := by
  simp only [addSpecConstant, unplace_bind, unplace_ite, TypeEnv.unplace_valueType]
  congr 1
  funext type
  congr 1
  cases Word.add? c.specSize type.size <;> rfl

/-- The position at which an item was declared is told in an error only. -/
theorem addItem_unplaced (item : Item) :
    c.addItem env stage 0 item = unplace (c.addItem env stage at_ item) := by
  cases item with
  | vertexInput location glslType name => exact c.addInput_unplaced env stage at_ _ _ _
  | inputBlock location? declaration => rfl
  | output location? declaration => rfl
  | descriptor set binding name kind size members => exact (c.unplace_addDescriptor _ _).symm
  | pushConstants members => exact c.addPushConstants_unplaced at_ members
  | specConstant id glslType name => exact c.addSpecConstant_unplaced env at_ id glslType name

theorem addDeclaration_unplaced :
    c.addDeclaration env stage d.unplaced = unplace (c.addDeclaration env stage d) := by
  rw [addDeclaration, addDeclaration, unplace_bind, Item.ofDeclaration_unplaced]
  congr 1
  funext item
  exact c.addItem_unplaced env stage d.offset item

/-- Declarations without their positions are collected alike, up to the first that is refused. -/
theorem foldlM_unplaced (ds : List Declaration) :
    (ds.map Declaration.unplaced).foldlM (addDeclaration env stage) c =
      unplace (ds.foldlM (addDeclaration env stage) c) := by
  induction ds generalizing c with
  | nil => rfl
  | cons d ds ih =>
    rw [List.map_cons, List.foldlM_cons, List.foldlM_cons, unplace_bind, addDeclaration_unplaced]
    congr 1
    funext c'
    exact ih c'

end Collected

end Glint

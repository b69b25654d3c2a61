import Glint.Interface
import Glint.Proofs.Outcome

/-!
# Where the readers of a declaration find fault

A fault is told at a byte position. Every reader takes it from what it reads: the declaration, of
which it tells the start, or one of the tokens that it was given. Which of them it is differs from
one fault to another, but none is told anywhere else. Only the reader that chooses between the
others can fail to recognize a declaration.

## Main definitions

* `ReflectError.IsAt`, `Outcome.FailsAt` — faults are told at some places only
* `Declaration.Place` — the start of a declaration and those of the tokens in its body

## Main results

* `Member.failsAt_pack` — faults of members are told at their tokens
* `Item.failsWith_ofDeclaration` — faults of a declaration are told at a place of it
* `Collected.failsWith_addDeclaration`, `Collected.failsWith_foldlM` — so are those of what it
  declares, and of what several declare
-/

namespace Glint

/-! ### Places -/

/-- If the error is a fault it is told at one of the places, and it is not that a declaration is
not recognized. -/
def ReflectError.IsAt (place : Nat → Prop) : ReflectError → Prop
  | malformed offset _ => place offset
  | unrecognized _ => False
  | _ => True

theorem ReflectError.IsAt.mono {place place' : Nat → Prop} (hplace : ∀ n, place n → place' n)
    {e : ReflectError} (h : e.IsAt place) : e.IsAt place' := by
  cases e with
  | malformed offset fault => exact hplace offset h
  | unrecognized text => exact h
  | _ => trivial

/-- Faults are told at the places, and no declaration is unrecognized. -/
abbrev Outcome.FailsAt {α : Type} (place : Nat → Prop) (x : Except ReflectError α) : Prop :=
  FailsWith (ReflectError.IsAt place) x

/-- Some token starts at the byte position. -/
def Token.StartsAt (ts : List Token) (n : Nat) : Prop :=
  ∃ t ∈ ts, t.offset = n

theorem Token.StartsAt.mono {ts ts' : List Token} (hts : ts ⊆ ts') {n : Nat}
    (h : StartsAt ts n) : StartsAt ts' n := by
  obtain ⟨t, ht, hn⟩ := h
  exact ⟨t, hts ht, hn⟩

namespace Outcome.FailsAt

variable {α : Type} {place place' : Nat → Prop} {ts ts' : List Token} {x : Except ReflectError α}

theorem mono (h : FailsAt place x) (hplace : ∀ n, place n → place' n) : FailsAt place' x :=
  FailsWith.mono h fun _ => ReflectError.IsAt.mono hplace

theorem of_subset (h : FailsAt (Token.StartsAt ts) x) (hts : ts ⊆ ts') :
    FailsAt (Token.StartsAt ts') x :=
  h.mono fun _ => Token.StartsAt.mono hts

end Outcome.FailsAt

/-- The declaration starts at the byte position, or a token of its body does. -/
def Declaration.Place (d : Declaration) (n : Nat) : Prop :=
  d.offset = n ∨ Token.StartsAt d.body n

open Outcome (FailsWith FailsAt)

/-! ### Types and members -/

namespace TypeEnv

variable (env : TypeEnv) (place : Nat → Prop) (name : String)

theorem failsAt_byteSize : FailsAt place (env.byteSize name) := by
  rw [byteSize]
  split
  · exact .ok _
  · split
    · exact .ok _
    · exact .error trivial

theorem failsAt_valueType : FailsAt place (env.valueType name) := by
  rw [valueType]
  split
  · exact .ok _
  · exact .error trivial

theorem failsAt_opaqueKind : FailsAt place (env.opaqueKind name) := by
  rw [opaqueKind]
  split
  · exact .ok _
  · exact .error trivial

end TypeEnv

namespace MemberShape

theorem failsAt_readCount (t : Token) : FailsAt (· = t.offset) (readCount t) := by
  unfold readCount
  split
  · exact .ok _
  · exact .error rfl

theorem failsAt_readArray (name : String) (ts : List Token) :
    FailsAt (Token.StartsAt ts) (readArray name ts) := by
  unfold readArray
  split
  · exact .ok _
  · split
    · exact .ok _
    · exact .error ⟨_, List.mem_cons_self, rfl⟩
  · rename_i opening count closing
    split
    · apply FailsWith.map
      apply FailsAt.mono (failsAt_readCount count)
      intro n hn
      exact ⟨count, by simp, hn.symm⟩
    · exact .error ⟨_, List.mem_cons_self, rfl⟩
  · exact .error ⟨_, List.mem_cons_self, rfl⟩

theorem failsAt_read (first : Token) (more : List Token) :
    FailsAt (Token.StartsAt (first :: more)) (read first more) := by
  have hfirst : Token.StartsAt (first :: more) first.offset := ⟨first, List.mem_cons_self, rfl⟩
  unfold read
  split
  · exact .error hfirst
  · rename_i second rest
    split
    · apply FailsWith.map
      apply FailsAt.of_subset (failsAt_readArray second.text rest)
      simp
    · exact .error hfirst

end MemberShape

/-- The pieces of a list between separators have the other elements of the list. -/
theorem Text.flatten_splitWhere {α : Type} (isSep : α → Bool) (as : List α) :
    (splitWhere isSep as).flatten = as.filter (!isSep ·) := by
  induction as with
  | nil => rfl
  | cons a as ih =>
    rw [splitWhere, List.filter_cons]
    cases isSep a with
    | true => simpa using ih
    | false =>
      cases h : splitWhere isSep as with
      | nil => exact absurd h (splitWhere_ne_nil isSep as)
      | cons piece pieces =>
        rw [h] at ih
        simpa using ih

namespace Member

variable {env : TypeEnv}

theorem failsAt_packFrom (offset : UInt32) (fields : List (List Token)) :
    FailsAt (Token.StartsAt fields.flatten) (packFrom env offset fields) := by
  induction fields generalizing offset with
  | nil => exact .ok _
  | cons field fields ih =>
    cases field with
    | nil => exact ih offset
    | cons first more =>
      have hfirst : Token.StartsAt ((first :: more) :: fields).flatten first.offset :=
        ⟨first, by simp, rfl⟩
      have hread : FailsAt (Token.StartsAt ((first :: more) :: fields).flatten)
          (MemberShape.read first more) := by
        apply FailsAt.of_subset (MemberShape.failsAt_read first more)
        exact List.subset_append_left _ _
      rw [packFrom]
      apply hread.bind
      intro shape _
      apply (env.failsAt_byteSize _ shape.glslType).bind
      intro element _
      dsimp only
      split
      · exact .error hfirst
      · split
        · exact .error hfirst
        · rename_i next _
          have hmore : FailsAt (Token.StartsAt ((first :: more) :: fields).flatten)
              (packFrom env next fields) := by
            apply FailsAt.of_subset (ih next)
            exact List.subset_append_right _ _
          exact hmore.bind fun _ _ => .ok _

/-- Faults of members are told at their tokens. -/
theorem failsAt_pack (ts : List Token) : FailsAt (Token.StartsAt ts) (pack env ts) := by
  apply FailsAt.of_subset (failsAt_packFrom 0 _)
  rw [Text.flatten_splitWhere]
  exact List.filter_sublist.subset

theorem failsAt_totalSize (members : List Member) (at_ : Nat) :
    FailsAt (· = at_) (totalSize members at_) := by
  rw [totalSize]
  split
  · exact .ok _
  · exact .error rfl

end Member

/-! ### Declarations -/

namespace Declaration

variable (d : Declaration)

theorem failsAt_word? (key : String) : FailsAt (d.offset = ·) (d.word? key) := by
  rw [word?]
  split
  · exact .ok _
  · split
    · exact .ok _
    · exact .error rfl

theorem failsAt_word (key : String) : FailsAt (d.offset = ·) (d.word key) := by
  have hword := d.failsAt_word? key
  rw [word]
  split
  · exact .ok _
  · exact .error rfl
  · rename_i e he
    exact .error (hword e he)

end Declaration

namespace Item

open Declaration (Place)

variable {env : TypeEnv} {d : Declaration} {rest ts : List Token} {word : String}

/-! ### Tokens of a body -/

theorem suffix_of_after? (h : after? word ts = some rest) : rest <:+ ts := by
  induction ts with
  | nil => cases h
  | cons t ts ih =>
    rw [after?] at h
    split at h
    · obtain rfl := Option.some.inj h
      exact List.suffix_cons t ts
    · split at h
      · exact (ih h).trans (List.suffix_cons t ts)
      · cases h

theorem subset_body_of_after? (h : after? word (head d) = some rest) : rest ⊆ d.body :=
  List.Subset.trans (suffix_of_after? h).subset (List.takeWhile_subset _)

theorem subset_body_of_memberTokens? (h : memberTokens? d.body = some ts) : ts ⊆ d.body := by
  obtain ⟨⟨before, after⟩, hsplit, rfl⟩ := Option.map_eq_some_iff.mp h
  obtain ⟨closing, hinside, -⟩ := Text.exists_of_splitLast? hsplit
  have hbefore : before ⊆ (d.body.dropWhile fun t => !t.isPunct '{').drop 1 := by
    rw [hinside]
    exact List.subset_append_left _ _
  have hinside := (List.drop_suffix 1 (d.body.dropWhile fun t => !t.isPunct '{')).trans
    (List.dropWhile_suffix _)
  exact List.Subset.trans hbefore hinside.subset

/-! ### What a declaration declares -/

theorem failsAt_typedName (d : Declaration) (ts : List Token) :
    FailsAt (fun n => d.offset = n ∨ Token.StartsAt ts n) (typedName d ts) := by
  have hother := (List.dropWhile_suffix (fun t : Token => t.isOneOf qualifiers) (l := ts)).subset
  rw [typedName]
  split
  · split
    · exact .ok _
    · exact .error (.inl rfl)
  · rename_i t name other more hdrop
    rw [hdrop] at hother
    exact .error (.inr ⟨other, hother (by simp), rfl⟩)
  · exact .error (.inl rfl)

/-- A fault of tokens of the body is told at a place of the declaration. -/
theorem failsAt_typedName_of_subset (hts : ts ⊆ d.body) : FailsAt d.Place (typedName d ts) :=
  (failsAt_typedName d ts).mono fun _ => Or.imp_right (·.mono hts)

theorem failsAt_blockMembers : FailsAt d.Place (blockMembers env d) := by
  rw [blockMembers]
  split
  · rename_i ts hts
    apply FailsAt.mono (Member.failsAt_pack ts)
    intro n hn
    exact .inr (hn.mono (subset_body_of_memberTokens? hts))
  · exact .error (.inl rfl)

theorem failsAt_blockName (d : Declaration) (rest : List Token) :
    FailsAt d.Place (blockName d rest) := by
  rw [blockName]
  split
  · split
    · exact .ok _
    · exact .error (.inl rfl)
  · exact .error (.inl rfl)

/-- A fault of a number of the qualifier is told at the start. -/
theorem failsAt_place {α : Type} {x : Except ReflectError α} (h : FailsAt (d.offset = ·) x) :
    FailsAt d.Place x :=
  h.mono fun _ => .inl

theorem failsAt_ofInput (hrest : rest ⊆ d.body) : FailsAt d.Place (ofInput d rest) := by
  rw [ofInput]
  split
  · apply (failsAt_place (d.failsAt_word? "location")).bind
    intro _ _
    exact .ok _
  · apply (failsAt_place (d.failsAt_word "location")).bind
    intro _ _
    apply (failsAt_typedName_of_subset hrest).bind
    intro _ _
    exact .ok _

theorem failsAt_ofOutput : FailsAt d.Place (ofOutput d) := by
  apply (failsAt_place (d.failsAt_word? "location")).bind
  intro _ _
  exact .ok _

theorem failsAt_ofDescriptor (storage : BlockStorage) (hrest : rest ⊆ d.body) :
    FailsAt d.Place (ofDescriptor env storage d rest) := by
  apply (failsAt_place (d.failsAt_word? "set")).bind
  intro _ _
  apply (failsAt_place (d.failsAt_word "binding")).bind
  intro _ _
  split
  · apply (failsAt_blockName d rest).bind
    intro _ _
    apply failsAt_blockMembers.bind
    intro members _
    have hsize : FailsAt d.Place (Member.totalSize members d.offset) := by
      apply FailsAt.mono (Member.failsAt_totalSize members d.offset)
      intro n hn
      exact .inl hn.symm
    apply hsize.bind
    intro _ _
    exact .ok _
  · apply (failsAt_typedName_of_subset hrest).bind
    intro typed _
    apply (env.failsAt_opaqueKind _ typed.1).bind
    intro _ _
    exact .ok _

theorem failsAt_ofUniform (hrest : rest ⊆ d.body) : FailsAt d.Place (ofUniform env d rest) := by
  rw [ofUniform]
  split
  · exact failsAt_blockMembers.map
  · exact failsAt_ofDescriptor .uniform hrest

theorem failsAt_ofSpecConstant : FailsAt d.Place (ofSpecConstant d) := by
  apply (failsAt_place (d.failsAt_word "constant_id")).bind
  intro _ _
  split
  · exact .error (.inl rfl)
  · rename_i rest hrest
    have hname := List.Subset.trans (List.takeWhile_subset fun t => !t.isPunct '=')
      (subset_body_of_after? hrest)
    apply (failsAt_typedName_of_subset hname).bind
    intro _ _
    exact .ok _

/-- Faults of a declaration are told at a place of it, and if it is not recognized its text is
told. -/
theorem failsWith_ofDeclaration (env : TypeEnv) (d : Declaration) :
    FailsWith (fun e => e.IsAt d.Place ∨ e = .unrecognized d.text) (ofDeclaration env d) := by
  have hat {x : Except ReflectError Item} (h : FailsAt d.Place x) :
      FailsWith (fun e => e.IsAt d.Place ∨ e = .unrecognized d.text) x :=
    FailsWith.mono h fun _ => .inl
  rw [ofDeclaration]
  split
  · rename_i rest hrest
    exact hat (failsAt_ofInput (subset_body_of_after? hrest))
  · split
    · exact hat failsAt_ofOutput
    · split
      · rename_i rest hrest
        exact hat (failsAt_ofDescriptor .buffer (subset_body_of_after? hrest))
      · split
        · rename_i rest hrest
          exact hat (failsAt_ofUniform (subset_body_of_after? hrest))
        · split
          · exact hat failsAt_ofSpecConstant
          · exact .error (.inr rfl)

end Item

/-! ### What is collected -/

namespace DescriptorSet

variable {place : Nat → Prop}

theorem failsAt_mergeInto (set : UInt32) (new : Descriptor) (olds : List Descriptor) :
    FailsAt place (mergeInto set new olds) := by
  induction olds with
  | nil => exact .ok _
  | cons old others ih =>
    rw [mergeInto]
    split
    · split
      · exact .ok _
      · exact .error trivial
    · exact ih.map

theorem failsAt_update {change : DescriptorSet → Except ReflectError DescriptorSet}
    (hchange : ∀ s, FailsAt place (change s)) (set : UInt32) (sets : List DescriptorSet) :
    FailsAt place (update set change sets) := by
  induction sets with
  | nil => exact (hchange _).map
  | cons s others ih =>
    rw [update]
    split
    · exact (hchange s).map
    · split
      · exact (hchange _).map
      · exact ih.map

end DescriptorSet

namespace Collected

variable {env : TypeEnv} {stage : Stage} {c : Collected} {at_ : Nat}

/-- An item that cannot be added is told at the start of its declaration. -/
theorem failsAt_addItem (item : Item) : FailsAt (at_ = ·) (c.addItem env stage at_ item) := by
  cases item with
  | vertexInput location glslType name =>
    rw [addItem, addInput]
    split
    · apply (env.failsAt_valueType _ glslType).bind
      intro type _
      split
      · exact .ok _
      · exact .error rfl
    · exact .ok _
  | inputBlock location? declaration => exact .ok _
  | output location? declaration => exact .ok _
  | descriptor set binding name kind size members =>
    have hmerge (s : DescriptorSet) (new : Descriptor) : FailsAt (at_ = ·) (s.merge new) :=
      (DescriptorSet.failsAt_mergeInto s.set new s.descriptors).map
    exact (DescriptorSet.failsAt_update (fun s => hmerge s _) set c.descriptorSets).map
  | pushConstants members =>
    rw [addItem, addPushConstants]
    split
    · exact .error rfl
    · exact .ok _
  | specConstant id glslType name =>
    rw [addItem, addSpecConstant]
    apply (env.failsAt_valueType _ glslType).bind
    intro type _
    split
    · split
      · exact .ok _
      · exact .error rfl
    · exact .error rfl

/-- What stops a declaration from being added is told at a place of it, or it tells its text. -/
theorem failsWith_addDeclaration (c : Collected) (d : Declaration) :
    FailsWith (fun e => e.IsAt d.Place ∨ e = .unrecognized d.text)
      (c.addDeclaration env stage d) := by
  apply (Item.failsWith_ofDeclaration env d).bind
  intro item _
  have hadd : FailsAt (d.offset = ·) (c.addItem env stage d.offset item) := failsAt_addItem item
  exact FailsWith.mono (hadd.mono fun _ => .inl) fun _ => .inl

/-- What stops a run over declarations stems from one of them. -/
theorem failsWith_foldlM (env : TypeEnv) (stage : Stage) (ds : List Declaration) (c : Collected) :
    FailsWith (fun e => ∃ d ∈ ds, e.IsAt d.Place ∨ e = .unrecognized d.text)
      (ds.foldlM (addDeclaration env stage) c) := by
  apply FailsWith.foldlM
  intro d hd c
  exact (failsWith_addDeclaration c d).mono fun e he => ⟨d, hd, he⟩

end Collected

end Glint

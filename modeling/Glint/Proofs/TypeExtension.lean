import Glint.Proofs.Outcome
import Glint.Interface

/-!
# Knowing more types

An environment of types is asked for three things only: the size of a type, the value type and the
kind of descriptor that a name stands for. Each answer is used as it is, and a name without an
answer ends the run with that name. So an environment that knows more names, and the old ones
alike, makes the same of every text that was accepted before.

## Main definitions

* `TypeEnv.Extends` — what an environment answers, another one answers alike
* `TypeEnv.Learns` — an error at a name of which another environment knows something else

## Main results

* `Member.follows_packFrom` — members in an environment that knows more
* `Interface.follows_ofText` — interfaces in an environment that knows more
* `TypeEnv.ofText_extends` — accepted texts stay as they are, and a structure under the name of a
  value type is never seen
-/

namespace Glint

open Outcome

namespace TypeEnv

/-- Whatever the first environment knows of a name, the second one knows as well. -/
structure Extends (env env' : TypeEnv) : Prop where
  byteSize : ∀ name size, env.byteSize name = .ok size → env'.byteSize name = .ok size
  valueType : ∀ name type, env.valueType name = .ok type → env'.valueType name = .ok type
  opaqueKind : ∀ name kind, env.opaqueKind name = .ok kind → env'.opaqueKind name = .ok kind

/-- Both environments know the same of a name. -/
def Agrees (env env' : TypeEnv) (name : String) : Prop :=
  env'.byteSize name = env.byteSize name ∧ env'.valueType name = env.valueType name ∧
    env'.opaqueKind name = env.opaqueKind name

/-- The error is that the first environment does not know a name, of which the second one knows
something else. -/
def Learns (env env' : TypeEnv) (e : ReflectError) : Prop :=
  ∃ name, ¬ env.Agrees env' name ∧ e = .unknownType name

variable {env env' : TypeEnv}

/-! ### Answers -/

/-- An answer stays as it is, and there may be one where there was none. -/
theorem follows_answer {α : Type} {name : String} {x y : Except ReflectError α}
    (hok : ∀ a, x = .ok a → y = .ok a) (herror : ∀ e, x = .error e → e = .unknownType name)
    (hagrees : env.Agrees env' name → y = x) : Follows (env.Learns env') id x y := by
  cases x with
  | ok a =>
    rw [hok a rfl]
    exact .ok a
  | error e =>
    by_cases h : env.Agrees env' name
    · rw [hagrees h]
      exact .error e
    · exact .excuse ⟨name, h, herror e rfl⟩ y

theorem follows_byteSize (h : env.Extends env') (name : String) :
    Follows (env.Learns env') id (env.byteSize name) (env'.byteSize name) := by
  refine follows_answer (h.byteSize name) ?_ (·.1)
  intro e he
  rw [byteSize] at he
  split at he
  · cases he
  · split at he
    · cases he
    · exact (Except.error.inj he).symm

theorem follows_valueType (h : env.Extends env') (name : String) :
    Follows (env.Learns env') id (env.valueType name) (env'.valueType name) := by
  refine follows_answer (h.valueType name) ?_ (·.2.1)
  intro e he
  rw [valueType] at he
  split at he
  · cases he
  · exact (Except.error.inj he).symm

theorem follows_opaqueKind (h : env.Extends env') (name : String) :
    Follows (env.Learns env') id (env.opaqueKind name) (env'.opaqueKind name) := by
  refine follows_answer (h.opaqueKind name) ?_ (·.2.2)
  intro e he
  rw [opaqueKind] at he
  split at he
  · cases he
  · exact (Except.error.inj he).symm

end TypeEnv

variable {env env' : TypeEnv}

/-! ### Members -/

theorem Member.follows_packFrom (h : env.Extends env') (offset : UInt32)
    (fields : List (List Token)) :
    Follows (env.Learns env') id (packFrom env offset fields) (packFrom env' offset fields) := by
  induction fields generalizing offset with
  | nil => exact .ok []
  | cons field fields ih =>
    cases field with
    | nil => exact ih offset
    | cons first more =>
      rw [packFrom, packFrom]
      -- Of the type of a member, its size is all that matters.
      refine (Follows.refl _ _).bind fun shape => ?_
      refine (TypeEnv.follows_byteSize h shape.glslType).bind fun element => ?_
      dsimp only [id]
      split
      · exact .error _
      · split
        · exact .error _
        · exact (ih _).bind fun members => .ok _

theorem StructType.follows_ofText (h : env.Extends env') (text : String) :
    Follows (env.Learns env') id (StructType.ofText env text) (StructType.ofText env' text) :=
  (Member.follows_packFrom h 0 _).bind fun _ => .refl _ _

/-! ### Items -/

namespace Item

theorem follows_blockMembers (h : env.Extends env') (d : Declaration) :
    Follows (env.Learns env') id (blockMembers env d) (blockMembers env' d) := by
  rw [blockMembers, blockMembers]
  cases memberTokens? d.body with
  | none => exact .error _
  | some ts => exact Member.follows_packFrom h 0 _

theorem follows_ofDescriptor (h : env.Extends env') (storage : BlockStorage) (d : Declaration)
    (rest : List Token) :
    Follows (env.Learns env') id (ofDescriptor env storage d rest)
      (ofDescriptor env' storage d rest) := by
  rw [ofDescriptor, ofDescriptor]
  refine (Follows.refl _ _).bind fun set? => ?_
  refine (Follows.refl _ _).bind fun binding => ?_
  dsimp only [id]
  split
  · refine (Follows.refl _ _).bind fun name => ?_
    exact (follows_blockMembers h d).bind fun members => .refl _ _
  · refine (Follows.refl _ _).bind fun words => ?_
    exact (TypeEnv.follows_opaqueKind h words.1).bind fun kind => .ok _

theorem follows_ofUniform (h : env.Extends env') (d : Declaration) (rest : List Token) :
    Follows (env.Learns env') id (ofUniform env d rest) (ofUniform env' d rest) := by
  rw [ofUniform, ofUniform]
  split
  · exact (follows_blockMembers h d).map fun _ => rfl
  · exact follows_ofDescriptor h .uniform d rest

/-- Inputs, outputs and specialization constants are read without looking at their types. -/
theorem follows_ofDeclaration (h : env.Extends env') (d : Declaration) :
    Follows (env.Learns env') id (ofDeclaration env d) (ofDeclaration env' d) := by
  rw [ofDeclaration, ofDeclaration]
  split
  · exact .refl _ _
  · split
    · exact .refl _ _
    · split
      · exact follows_ofDescriptor h .buffer d _
      · split
        · exact follows_ofUniform h d _
        · exact .refl _ _

end Item

/-! ### What is collected -/

namespace Collected

variable (stage : Stage) (at_ : Nat)

theorem follows_addInput (h : env.Extends env') (location : UInt32) (glslType name : String)
    (c : Collected) :
    Follows (env.Learns env') id (c.addInput env stage at_ location glslType name)
      (c.addInput env' stage at_ location glslType name) := by
  rw [addInput, addInput]
  split
  · exact (TypeEnv.follows_valueType h glslType).bind fun type => .refl _ _
  · exact .ok c

theorem follows_addSpecConstant (h : env.Extends env') (id' : UInt32) (glslType name : String)
    (c : Collected) :
    Follows (env.Learns env') id (c.addSpecConstant env at_ id' glslType name)
      (c.addSpecConstant env' at_ id' glslType name) :=
  (TypeEnv.follows_valueType h glslType).bind fun _ => .refl _ _

theorem follows_addItem (h : env.Extends env') (item : Item) (c : Collected) :
    Follows (env.Learns env') id (c.addItem env stage at_ item)
      (c.addItem env' stage at_ item) := by
  cases item with
  | vertexInput location glslType name => exact follows_addInput stage at_ h _ _ _ c
  | specConstant id glslType name => exact follows_addSpecConstant at_ h _ _ _ c
  | inputBlock | output | descriptor | pushConstants => exact .refl _ _

theorem follows_addDeclaration (h : env.Extends env') (c : Collected) (d : Declaration) :
    Follows (env.Learns env') id (c.addDeclaration env stage d) (c.addDeclaration env' stage d) :=
  (Item.follows_ofDeclaration h d).bind fun item => follows_addItem stage d.offset h item c

end Collected

/-- The declarations of a text are collected alike, up to a type that is learned. -/
theorem Interface.follows_ofText (h : env.Extends env') (source : ShaderText) :
    Follows (env.Learns env') id (ofText env source) (ofText env' source) := by
  refine (Follows.refl _ _).bind fun ds => ?_
  refine (Follows.foldlM (Collected.follows_addDeclaration source.stage h) ds .empty).bind ?_
  exact fun c => .ok _

/-! ### Structures -/

namespace TypeEnv

theorem byteSize_of_value? {name : String} {type : ValueType} (h : env.value? name = some type) :
    env.byteSize name = .ok type.size := by
  rw [byteSize, h]

theorem byteSize_withStruct_of_ne {name other : String} (h : other ≠ name) (layout : StructType) :
    (env.withStruct name layout).byteSize other = env.byteSize other := by
  have hvalue : (env.withStruct name layout).value? other = env.value? other := rfl
  have hstruct : (env.withStruct name layout).struct? other = env.struct? other := if_neg h
  rw [byteSize, byteSize, hvalue, hstruct]

/-- A structure under the name of a value type is never looked at. -/
theorem agrees_withStruct {name : String} (h : (env.value? name).isSome = true)
    (layout : StructType) (other : String) : env.Agrees (env.withStruct name layout) other := by
  refine ⟨?_, rfl, rfl⟩
  by_cases hname : other = name
  · subst hname
    obtain ⟨type, htype⟩ := Option.isSome_iff_exists.mp h
    have htype' : (env.withStruct other layout).value? other = some type := htype
    rw [byteSize_of_value? htype, byteSize_of_value? htype']
  · exact byteSize_withStruct_of_ne hname layout

/-- A structure under a name that has none adds to what is known. -/
theorem extends_withStruct {name : String} (h : env.struct? name = none) (layout : StructType) :
    env.Extends (env.withStruct name layout) := by
  refine ⟨fun other size hsize => ?_, fun _ _ => id, fun _ _ => id⟩
  by_cases hname : other = name
  · subst hname
    -- Its size can only be that of a value type.
    cases hvalue : env.value? other with
    | some type =>
      have hvalue' : (env.withStruct other layout).value? other = some type := hvalue
      rwa [byteSize_of_value? hvalue', ← byteSize_of_value? hvalue]
    | none =>
      rw [byteSize, hvalue, h] at hsize
      cases hsize
  · rwa [byteSize_withStruct_of_ne hname]

theorem Extends.of_agrees (h : ∀ name, env.Agrees env' name) : env.Extends env' :=
  ⟨fun name _ => (h name).1.trans, fun name _ => (h name).2.1.trans,
    fun name _ => (h name).2.2.trans⟩

/-- Where both environments know the same, there is nothing to learn. -/
theorem not_learns_of_agrees (h : ∀ name, env.Agrees env' name) (e : ReflectError) :
    ¬ env.Learns env' e := by
  rintro ⟨name, hname, -⟩
  exact hname (h name)

/-- An environment that knows what another one knows, and perhaps more, accepts the shaders and the
structures that the other accepts, with the same result. A structure under a name that has none
adds to what is known; under the name of a value type, it changes nothing at all. -/
theorem ofText_extends :
    (∀ env env' : TypeEnv, env.Extends env' →
      (∀ source i, Interface.ofText env source = .ok i → Interface.ofText env' source = .ok i) ∧
        ∀ text layout, StructType.ofText env text = .ok layout →
          StructType.ofText env' text = .ok layout) ∧
    (∀ (env : TypeEnv) name layout, (env.value? name).isSome = true →
      (∀ other, env.Agrees (env.withStruct name layout) other) ∧
        (∀ source, Interface.ofText (env.withStruct name layout) source =
          Interface.ofText env source) ∧
        ∀ text, StructType.ofText (env.withStruct name layout) text =
          StructType.ofText env text) ∧
    ∀ (env : TypeEnv) name layout, env.struct? name = none →
      env.Extends (env.withStruct name layout) := by
  refine ⟨fun env env' h => ⟨fun source i hi => ?_, fun text layout hlayout => ?_⟩,
    fun env name layout hname => ?_, fun env name layout hname => extends_withStruct hname layout⟩
  · exact (Interface.follows_ofText h source).eq_ok hi
  · exact (StructType.follows_ofText h text).eq_ok hlayout
  · -- With nothing to learn, errors stay the same as well.
    have hagrees := agrees_withStruct hname layout
    have hextends := Extends.of_agrees hagrees
    have hsame := not_learns_of_agrees hagrees
    refine ⟨hagrees, fun source => ?_, fun text => ?_⟩
    · rw [(Interface.follows_ofText hextends source).eq_map hsame, Except.map_id, id]
    · rw [(StructType.follows_ofText hextends text).eq_map hsame, Except.map_id, id]

/-- A shader with a block of the shading language's own types. -/
def fog : ShaderText :=
  ⟨"lit.frag", .fragment, "layout(binding=0) uniform Fog{vec4 hue;};"⟩

theorem ofText_extends_light :
    glsl.Extends (glsl.withStruct "Light" (.ofSize 32)) ∧
    (∃ i, Interface.ofText glsl fog = .ok i ∧
      Interface.ofText (glsl.withStruct "Light" (.ofSize 32)) fog = .ok i) ∧
    (∃ layout, StructType.ofText glsl "vec4 hue;" = .ok layout ∧
      StructType.ofText (glsl.withStruct "Light" (.ofSize 32)) "vec4 hue;" = .ok layout) ∧
    (glsl.value? "vec4").isSome = true ∧
      Interface.ofText (glsl.withStruct "vec4" (.ofSize 64)) fog = Interface.ofText glsl fog := by
  have hlight := ofText_extends.2.2 glsl "Light" (.ofSize 32) rfl
  have hsame := ofText_extends.1 _ _ hlight
  have hvec4 : (glsl.value? "vec4").isSome = true := by decide
  have hfog : (Interface.ofText glsl fog).toOption.isSome = true := by decide +kernel
  have hstruct : (StructType.ofText glsl "vec4 hue;").toOption.isSome = true := by decide +kernel
  refine ⟨hlight, ?_, ?_, hvec4, (ofText_extends.2.1 glsl "vec4" (.ofSize 64) hvec4).2.1 fog⟩
  · cases hi : Interface.ofText glsl fog with
    | error e =>
      rw [hi] at hfog
      cases hfog
    | ok i => exact ⟨i, rfl, hsame.1 fog i hi⟩
  · cases hlayout : StructType.ofText glsl "vec4 hue;" with
    | error e =>
      rw [hlayout] at hstruct
      cases hstruct
    | ok layout => exact ⟨layout, rfl, hsame.2 _ layout hlayout⟩

/-- A shader with a block that has a sampler among its members. -/
def lamps : ShaderText :=
  ⟨"lit.frag", .fragment, "layout(binding=0) uniform Lamps{sampler2D hue;};"⟩

/-- An opaque type has no size, so a structure under its name is looked at, and a shader that was
refused is accepted: not just any name that stands for something will do. -/
theorem ofText_lamps :
    (Interface.ofText glsl lamps).toOption.isSome = false ∧
    (Interface.ofText (glsl.withStruct "sampler2D" (.ofSize 4)) lamps).toOption.isSome = true ∧
    ¬ ∀ (env : TypeEnv) name layout,
      ((env.value? name).isSome || (env.opaqueKind? name).isSome) = true →
        ∀ source, Interface.ofText (env.withStruct name layout) source =
          Interface.ofText env source := by
  have hrefused : (Interface.ofText glsl lamps).toOption.isSome = false := by decide +kernel
  have haccepted :
      (Interface.ofText (glsl.withStruct "sampler2D" (.ofSize 4)) lamps).toOption.isSome =
        true := by
    decide +kernel
  refine ⟨hrefused, haccepted, fun hsame => ?_⟩
  rw [hsame glsl "sampler2D" (.ofSize 4) (by decide) lamps, hrefused] at haccepted
  cases haccepted

end TypeEnv

end Glint

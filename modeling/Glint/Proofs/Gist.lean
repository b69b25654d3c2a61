import Glint.Proofs.Relocation
import Glint.Proofs.Unplaced

/-!
# What a shader says, apart from how it is written

Every decision about a shader is made on the kinds and the texts of its tokens. Where the tokens
stand, and what lies between them, shows in two places only: in the positions of errors, and in
the texts of declarations, which outputs, input blocks and unrecognized declarations repeat. The
gist of a result leaves both out, and two texts with the same tokens have the same gist.

## Main definitions

* `Declaration.gist`, `ReflectError.gist`, `Interface.gist` — what remains without positions and
  texts of declarations
* `Outcome.Alike` — two outcomes with one gist

## Main results

* `Declaration.alike_readTokens` — the same tokens are read as declarations of one gist
* `Item.alike_ofDeclaration` — declarations of one gist declare items of one gist
* `Interface.ofText_of_tokens` — the same tokens make interfaces of one gist
-/

namespace Glint

/-! ### Gists -/

/-- The declaration without its positions and its text. -/
def Declaration.gist (d : Declaration) : Declaration :=
  { d.unplaced with text := "" }

/-- The item without the text of its declaration. -/
def Item.gist : Item → Item
  | inputBlock location? _ => inputBlock location? ""
  | output location? _ => output location? ""
  | item => item

/-- The error without its position and without the text of a declaration. -/
def ReflectError.gist : ReflectError → ReflectError
  | malformed _ fault => malformed 0 fault
  | unrecognized _ => unrecognized ""
  | e => e

/-- The output or input block without the text of its declaration. -/
def StageLink.gist (l : StageLink) : StageLink :=
  { l with declaration := "" }

/-- What is collected, without the texts of declarations. -/
def Collected.gist (c : Collected) : Collected :=
  { c with
    outputs := c.outputs.map StageLink.gist
    inputBlocks := c.inputBlocks.map StageLink.gist }

/-- The interface without the texts of declarations. -/
def Interface.gist (i : Interface) : Interface :=
  { i with
    outputs := i.outputs.map StageLink.gist
    inputBlocks := i.inputBlocks.map StageLink.gist }

namespace Outcome

variable {α β γ : Type}

/-- Both outcomes are results, alike when seen through `f`, or both are errors, alike but for their
positions and the texts of declarations in them. -/
inductive Alike (f : α → β) : Except ReflectError α → Except ReflectError α → Prop
  | ok {a a' : α} (h : f a = f a') : Alike f (.ok a) (.ok a')
  | error {e e' : ReflectError} (h : e.gist = e'.gist) : Alike f (.error e) (.error e')

variable {f : α → β} {x y : Except ReflectError α}

theorem Alike.refl (f : α → β) (x : Except ReflectError α) : Alike f x x := by
  cases x with
  | ok a => exact .ok rfl
  | error e => exact .error rfl

/-- Runs are alike that go on alike from results that are alike. -/
theorem Alike.bind {g : γ → β} {k l : α → Except ReflectError γ} {δ : Type} {f : α → δ}
    (h : Alike f x y) (hgo : ∀ a a', f a = f a' → Alike g (k a) (l a')) :
    Alike g (x >>= k) (y >>= l) := by
  cases h with
  | ok h => exact hgo _ _ h
  | error h => exact .error h

/-- Runs are alike that go on alike from one result. -/
theorem Alike.bind_self {k l : γ → Except ReflectError α} (x : Except ReflectError γ)
    (hgo : ∀ a, Alike f (k a) (l a)) : Alike f (x >>= k) (x >>= l) := by
  cases x with
  | ok a => exact hgo a
  | error e => exact .error rfl

theorem gist_unplaced (e : ReflectError) : e.unplaced.gist = e.gist := by
  cases e <;> rfl

/-- Whether outcomes are alike does not depend on positions. -/
theorem Alike.of_unplace (h : Alike f (unplace x) (unplace y)) : Alike f x y := by
  cases x with
  | ok a =>
    cases y with
    | ok a' =>
      cases h with
      | ok h => exact .ok h
    | error e => cases h
  | error e =>
    cases y with
    | ok a => cases h
    | error e' =>
      cases h with
      | error h => exact .error ((gist_unplaced e).symm.trans (h.trans (gist_unplaced e')))

/-- Outcomes that differ in positions only are alike. -/
theorem alike_of_unplace_eq (h : (unplace x).map f = (unplace y).map f) : Alike f x y := by
  refine .of_unplace ?_
  cases hx : unplace x <;> cases hy : unplace y <;> rw [hx, hy] at h
  · exact .error (congrArg ReflectError.gist (Except.error.inj h))
  · cases h
  · cases h
  · exact .ok (Except.ok.inj h)

end Outcome

open Outcome (Alike unplace)

/-! ### Reading declarations -/

namespace Declaration

variable (ts : List Token)

/-- A declaration is read up to its positions and its text, which is empty without a source. Tokens
without positions are tokens that all stand at the first byte. -/
theorem read_unplaced (source : List Char) (first : Token) :
    read [] first.unplaced (ts.map Token.unplaced) =
      (unplace (read source first ts)).map gist :=
  read_relocate (fun _ => 0) ts source [] first

/-- Tokens without positions are read as declarations without positions and texts. -/
theorem readTokens_unplaced (source : List Char) :
    readTokens [] (ts.map Token.unplaced) =
      (unplace (readTokens source ts)).map (List.map gist) :=
  readTokens_relocate (fun _ => 0) ts (fun first inner => read_unplaced inner source first)
    fun _ => rfl

/-- The same tokens are read as declarations of one gist, or refused alike. -/
theorem alike_readTokens {ts ts' : List Token}
    (h : ts.map Token.unplaced = ts'.map Token.unplaced) (source source' : List Char) :
    Alike (List.map gist) (readTokens source ts) (readTokens source' ts') := by
  apply Outcome.alike_of_unplace_eq
  rw [← readTokens_unplaced, ← readTokens_unplaced, h]

end Declaration

/-! ### Items -/

namespace Item

variable (env : TypeEnv) (d : Declaration) (text : String)

theorem alike_ofInput_text (rest : List Token) :
    Alike gist (ofInput d rest) (ofInput { d with text := text } rest) := by
  have hblock : ({ d with text := text } : Declaration).hasBlock = d.hasBlock := rfl
  rw [ofInput, ofInput, hblock]
  split
  · exact Alike.bind_self (d.word? "location") fun _ => .ok rfl
  · exact .refl _ _

theorem alike_ofOutput_text : Alike gist (ofOutput d) (ofOutput { d with text := text }) :=
  Alike.bind_self (d.word? "location") fun _ => .ok rfl

/-- The text of a declaration is repeated in an item or an error, and decides nothing. -/
theorem alike_ofDeclaration_text :
    Alike gist (ofDeclaration env d) (ofDeclaration env { d with text := text }) := by
  have hafter (keyword : String) : after? keyword (head { d with text := text }) =
      after? keyword (head d) := rfl
  have hmarks : marksSpecConstant { d with text := text } = marksSpecConstant d := rfl
  simp only [ofDeclaration, hafter, hmarks]
  cases after? "in" (head d) with
  | some rest => exact alike_ofInput_text d text rest
  | none =>
    dsimp only
    split
    · exact alike_ofOutput_text d text
    · -- Descriptors and constants do not repeat the text.
      cases after? "buffer" (head d) with
      | some rest => exact .refl _ _
      | none =>
        cases after? "uniform" (head d) with
        | some rest => exact .refl _ _
        | none =>
          dsimp only
          split
          · exact .refl _ _
          · exact .error rfl

/-- Declarations of one gist declare items of one gist, or are refused alike. -/
theorem alike_ofDeclaration {d d' : Declaration} (h : d.gist = d'.gist) :
    Alike gist (ofDeclaration env d) (ofDeclaration env d') := by
  have htext : d'.unplaced = { d.unplaced with text := d'.text } := by
    calc
      d'.unplaced = { d'.gist with text := d'.text } := rfl
      _ = { d.gist with text := d'.text } := by rw [h]
  apply Alike.of_unplace
  rw [← ofDeclaration_unplaced, ← ofDeclaration_unplaced, htext]
  exact alike_ofDeclaration_text env d.unplaced d'.text

end Item

/-! ### What is collected -/

namespace Collected

variable (env : TypeEnv) (stage : Stage) (c : Collected) (at_ : Nat)

theorem addInput_gist (location : UInt32) (glslType name : String) :
    c.gist.addInput env stage at_ location glslType name =
      (c.addInput env stage at_ location glslType name).map gist := by
  rw [addInput, addInput]
  split
  · cases env.valueType glslType with
    | error e => rfl
    | ok type =>
      simp only [bind, Except.bind]
      cases VertexAttribute.ofInput? location glslType name type <;> rfl
  · rfl

theorem addDescriptor_gist (set : UInt32) (new : Descriptor) :
    c.gist.addDescriptor set new = (c.addDescriptor set new).map gist := by
  rw [addDescriptor, addDescriptor]
  dsimp only [gist]
  cases DescriptorSet.update set (·.merge new) c.descriptorSets <;> rfl

/-- The text of a declaration is kept where its item is kept, and plays no part elsewhere. -/
theorem addItem_gist (item : Item) :
    c.gist.addItem env stage at_ item.gist = (c.addItem env stage at_ item).map gist := by
  cases item with
  | vertexInput location glslType name => exact c.addInput_gist env stage at_ _ _ _
  | inputBlock location? declaration =>
    simp [addItem, Item.gist, gist, StageLink.gist, Except.map]
  | output location? declaration =>
    simp [addItem, Item.gist, gist, StageLink.gist, Except.map]
  | descriptor set binding name kind size members => exact c.addDescriptor_gist _ _
  | pushConstants members => exact addPushConstants_map rfl (fun _ => rfl) at_ members
  | specConstant id glslType name =>
    exact addSpecConstant_map rfl (fun _ _ => rfl) env at_ id glslType name

theorem alike_addItem {c c' : Collected} (hc : c.gist = c'.gist) {item item' : Item}
    (hitem : item.gist = item'.gist) (at_ at_' : Nat) :
    Alike gist (c.addItem env stage at_ item) (c'.addItem env stage at_' item') := by
  apply Outcome.alike_of_unplace_eq
  rw [← addItem_unplaced, ← addItem_unplaced, ← addItem_gist, ← addItem_gist, hc, hitem]

theorem alike_addDeclaration {c c' : Collected} (hc : c.gist = c'.gist) {d d' : Declaration}
    (hd : d.gist = d'.gist) :
    Alike gist (c.addDeclaration env stage d) (c'.addDeclaration env stage d') :=
  (Item.alike_ofDeclaration env hd).bind fun _ _ hitem => alike_addItem env stage hc hitem _ _

/-- Declarations of one gist are collected alike, up to the first that is refused. -/
theorem alike_foldlM {c c' : Collected} (hc : c.gist = c'.gist) {ds ds' : List Declaration}
    (hds : ds.map Declaration.gist = ds'.map Declaration.gist) :
    Alike gist (ds.foldlM (addDeclaration env stage) c)
      (ds'.foldlM (addDeclaration env stage) c') := by
  induction ds generalizing c c' ds' with
  | nil =>
    rw [List.map_nil, eq_comm, List.map_eq_nil_iff] at hds
    rw [hds]
    exact .ok hc
  | cons d ds ih =>
    rw [List.map_cons, eq_comm, List.map_eq_cons_iff] at hds
    obtain ⟨d', ds', rfl, hd, hds⟩ := hds
    rw [List.foldlM_cons, List.foldlM_cons]
    exact (alike_addDeclaration env stage hc hd.symm).bind fun _ _ hc => ih hc hds.symm

end Collected

/-! ### Interfaces -/

namespace Interface

/-- Texts that are read as declarations of one gist have interfaces of one gist. -/
theorem alike_ofText (env : TypeEnv) (name : String) (stage : Stage) {text text' : String}
    (h : Alike (List.map Declaration.gist) (Declaration.readAll (Comment.strip text))
      (Declaration.readAll (Comment.strip text'))) :
    Alike gist (ofText env ⟨name, stage, text⟩) (ofText env ⟨name, stage, text'⟩) := by
  refine h.bind fun ds ds' hds => ?_
  refine (Collected.alike_foldlM env stage rfl hds).bind fun c c' hc => ?_
  exact .ok (congrArg (ofCollected name stage) hc)

/-- The interface of a shader depends on the kinds and texts of its tokens, except for the texts of
its declarations. If two texts have the same tokens when comments are taken out, both have an
interface or neither has, whatever the name, the stage and the known types; the interfaces differ at
most in the texts of outputs and input blocks, and the errors at most in the position and in
the text of an unrecognized declaration. -/
theorem ofText_of_tokens (env : TypeEnv) (name : String) (stage : Stage) {text text' : String}
    (h : (Token.scan (Comment.strip text)).map Token.unplaced =
      (Token.scan (Comment.strip text')).map Token.unplaced) :
    Alike gist (ofText env ⟨name, stage, text⟩) (ofText env ⟨name, stage, text'⟩) :=
  alike_ofText env name stage (Declaration.alike_readTokens h _ _)

/-- The second text has spaces, ends of lines, comments and preprocessor lines between the tokens of
the first. -/
theorem ofText_of_tokens_spread :
    (Token.scan (Comment.strip "layout(location = 0) out vec4 color;")).map Token.unplaced =
      (Token.scan (Comment.strip
        "#version 450\nlayout ( location=0 ) // rgb\n#if 1\r\nout /* a */ vec4 color ;")).map
          Token.unplaced ∧
    Alike gist
      (ofText .glsl ⟨"lit.frag", .fragment, "layout(location = 0) out vec4 color;"⟩)
      (ofText .glsl ⟨"lit.frag", .fragment,
        "#version 450\nlayout ( location=0 ) // rgb\n#if 1\r\nout /* a */ vec4 color ;"⟩) := by
  have htokens :
      (Token.scan (Comment.strip "layout(location = 0) out vec4 color;")).map Token.unplaced =
        (Token.scan (Comment.strip
          "#version 450\nlayout ( location=0 ) // rgb\n#if 1\r\nout /* a */ vec4 color ;")).map
            Token.unplaced := by
    decide +kernel
  exact ⟨htokens, ofText_of_tokens .glsl "lit.frag" .fragment htokens⟩

end Interface

end Glint

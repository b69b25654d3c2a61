import Glint.Proofs.InputSlots
import Glint.Proofs.Strip
import Glint.Proofs.TokenSeam
import Glint.Proofs.WrittenItem

/-!
# A written shader is read back

A shader is written as a list of declarations, each with its semicolon, and between them white
space, comments and preprocessor lines. Its interface lists exactly what its declarations
declare, whatever stands between them. Every pass over the text has its part in this: comments are
stripped, tokens scanned, declarations split off, qualifiers and bodies read, and items
collected.

## Main definitions

* `IsDirective` — what stands in a preprocessor line
* `WrittenShader` — a text is that of a shader with some declarations
* `ReadBack` — a text without comments is read as some declarations

## Main results

* `WrittenShader.lines` — declarations alone, one on each line, are a written shader
* `WrittenShader.readBack` — the declarations of a written shader are read back
* `Interface.ofText_written` — the interface of a written shader lists its declarations
-/

namespace Glint

open Lexeme Text
open Comment (IsComment Opens stripChars)

/-! ### Texts of a shader -/

/-- The text stands in a preprocessor line behind its hash sign, and `rest` follows the line. The
line goes on to a line feed, which stays outside, or to the end of the text. Comments may stand in
it, and a line feed inside of one does not end the line. -/
inductive IsDirective : List Char → List Char → Prop
  | stop {rest : List Char} (hend : ∀ c ∈ rest.head?, c = '\n') : IsDirective [] rest
  | text {c : Char} {cs rest : List Char} (hline : c ≠ '\n') (hplain : ¬ Opens (c :: (cs ++ rest)))
    (h : IsDirective cs rest) : IsDirective (c :: cs) rest
  | comment {comment cs rest : List Char} (hcomment : IsComment comment (cs ++ rest))
    (h : IsDirective cs rest) : IsDirective (comment ++ cs) rest

/-- The text is that of a shader with the given declarations, in order. Each declaration has a
semicolon behind it. Between them stand characters of white space, comments and preprocessor
lines, as many as there may be. -/
inductive WrittenShader : List Written → List Char → Prop
  | nil : WrittenShader [] []
  | declaration (w : Written) {ws : List Written} {cs : List Char} (h : WrittenShader ws cs) :
    WrittenShader (w :: ws) (w.chars ++ ';' :: cs)
  | blank {c : Char} {ws : List Written} {cs : List Char} (hblank : isBlank c = true)
    (h : WrittenShader ws cs) : WrittenShader ws (c :: cs)
  | comment {comment cs : List Char} {ws : List Written} (hcomment : IsComment comment cs)
    (h : WrittenShader ws cs) : WrittenShader ws (comment ++ cs)
  | directive {line cs : List Char} {ws : List Written} (hline : IsDirective line cs)
    (h : WrittenShader ws cs) : WrittenShader ws ('#' :: line ++ cs)

/-- Characters other than slashes stand in a preprocessor line as they are. -/
theorem IsDirective.plain {plain cs rest : List Char} (hline : '\n' ∉ plain) (hslash : '/' ∉ plain)
    (h : IsDirective cs rest) : IsDirective (plain ++ cs) rest := by
  induction plain with
  | nil => exact h
  | cons c plain ih =>
    rw [List.mem_cons, not_or] at hline hslash
    exact .text (Ne.symm hline.1) (Comment.not_opens_of_ne (Ne.symm hslash.1) _)
      (ih hline.2 hslash.2)

/-- Declarations alone, with line feeds between them, are a written shader. -/
theorem WrittenShader.lines (ws : List Written) :
    WrittenShader ws (['\n'].intercalate (ws.map fun w => w.chars ++ [';'])) := by
  induction ws with
  | nil => exact .nil
  | cons w ws ih =>
    cases ws with
    | nil =>
      rw [List.map_singleton, List.intercalate_singleton]
      exact .declaration w .nil
    | cons w' ws =>
      rw [List.map_cons, List.map_cons, List.intercalate_cons_cons, List.append_assoc,
        List.append_assoc]
      -- The line feed behind the semicolon is white space.
      exact .declaration w (.blank (by decide) ih)

/-- A text with the characters of a written shader. -/
theorem WrittenShader.of_text {ws : List Written} {cs : List Char} {text : String}
    (h : WrittenShader ws cs) (htext : text = String.ofList cs) : WrittenShader ws text.toList := by
  rwa [htext, String.toList_ofList]

theorem Written.intercalate_text (ws : List Written) :
    "\n".intercalate (ws.map fun w => w.text ++ ";") =
      String.ofList (['\n'].intercalate (ws.map fun w => w.chars ++ [';'])) := by
  have hline (w : Written) : (w.text ++ ";").toList = w.chars ++ [';'] := by
    rw [String.toList_append, text, String.toList_ofList]
    rfl
  rw [← String.toList_inj, String.toList_ofList, String.toList_intercalate, List.map_map]
  exact congrArg ['\n'].intercalate (List.map_congr_left fun w _ => hline w)

/-! ### Stripping -/

theorem Written.slash_not_mem (w : Written) : '/' ∉ w.chars ++ [';'] := by
  rw [List.mem_append, not_or]
  exact ⟨slash_not_mem_write _, by decide⟩

/-- Without its comments a preprocessor line is still one line. -/
theorem IsDirective.exists_stripChars {line rest : List Char} (h : IsDirective line rest) :
    ∃ kept, kept.all isLinePart = true ∧ Breaks isLinePart (stripChars rest) ∧
      stripChars (line ++ rest) = kept ++ stripChars rest := by
  induction h with
  | @stop rest hend =>
    refine ⟨[], rfl, ?_, rfl⟩
    cases rest with
    | nil => exact breaks_nil _
    | cons c rest =>
      obtain rfl : c = '\n' := hend c rfl
      rw [Comment.stripChars_text (Comment.not_opens_of_ne (by decide) rest)]
      rintro c ⟨⟩
      rfl
  | @text c cs rest hline hplain _ ih =>
    obtain ⟨kept, hkept, hend, hstrip⟩ := ih
    refine ⟨c :: kept, ?_, hend, ?_⟩
    · rw [List.all_cons, hkept, Bool.and_true]
      exact bne_iff_ne.mpr hline
    · rw [List.cons_append, Comment.stripChars_text hplain, hstrip, List.cons_append]
  | comment hcomment _ ih =>
    obtain ⟨kept, hkept, hend, hstrip⟩ := ih
    refine ⟨kept, hkept, hend, ?_⟩
    rw [List.append_assoc, Comment.stripChars_comment hcomment, hstrip]

/-! ### Reading -/

/-- The text, which has no comments, is read as the given declarations wherever it stands. -/
def ReadBack (ws : List Written) (cs : List Char) : Prop :=
  ∀ before, ∃ ds, Declaration.readTokens (before ++ cs) (Token.scanFrom (byteLength before) cs) =
    .ok ds ∧ List.Forall₂ Written.ReadAs ws ds

namespace ReadBack

variable {ws : List Written} {cs gap : List Char}

theorem nil : ReadBack [] [] := by
  intro before
  refine ⟨[], ?_, .nil⟩
  rw [Token.scanFrom, Declaration.readTokens]

/-- A text without tokens may come before the declarations. -/
theorem skip (h : ReadBack ws cs)
    (hgap : ∀ pos, Token.scanFrom pos (gap ++ cs) = Token.scanFrom (pos + byteLength gap) cs) :
    ReadBack ws (gap ++ cs) := by
  intro before
  obtain ⟨ds, hread, hds⟩ := h (before ++ gap)
  refine ⟨ds, ?_, hds⟩
  rw [hgap, ← byteLength_append, ← List.append_assoc]
  exact hread

/-- One more declaration is read before the others. -/
theorem cons (h : ReadBack ws cs) (w : Written) : ReadBack (w :: ws) (w.chars ++ [';'] ++ cs) := by
  intro before
  obtain ⟨d, hd, hstep⟩ := w.exists_readTokens before cs
  obtain ⟨ds, hread, hds⟩ := h (before ++ (w.chars ++ [';']))
  refine ⟨d :: ds, ?_, .cons hd hds⟩
  simp only [List.append_assoc, List.singleton_append] at hread hstep ⊢
  rw [hstep, hread]
  rfl

end ReadBack

/-- The declarations of a written shader are read back, in order. -/
theorem WrittenShader.readBack {ws : List Written} {cs : List Char} (h : WrittenShader ws cs) :
    ReadBack ws (stripChars cs) := by
  -- By induction on the text: a part of it is stripped, then scanned, and the rest is as before.
  induction h with
  | nil => exact .nil
  | @declaration w ws cs _ ih =>
    rw [List.append_cons, Comment.stripChars_append w.slash_not_mem]
    exact ih.cons w
  | @blank c ws cs hblank _ ih =>
    have hslash : c ≠ '/' := by
      rintro rfl
      exact absurd hblank (by decide)
    rw [Comment.stripChars_text (Comment.not_opens_of_ne hslash cs)]
    exact ih.skip fun pos => Token.isGap_blank hblank pos _
  | comment hcomment _ ih =>
    rw [Comment.stripChars_comment hcomment]
    exact ih
  | directive hline _ ih =>
    obtain ⟨kept, hkept, hend, hstrip⟩ := hline.exists_stripChars
    have hhash : '/' ∉ ['#'] := by decide
    rw [← List.singleton_append, List.append_assoc, Comment.stripChars_append hhash, hstrip,
      ← List.append_assoc]
    exact ih.skip fun pos => Token.scanFrom_hash hkept hend pos

/-! ### The interface -/

/-- The items of written declarations are declared by the declarations read from them. -/
theorem Written.mapM_ofDeclaration {env : TypeEnv} {ws : List Written} {ds : List Declaration}
    {items : List Item} (hds : List.Forall₂ ReadAs ws ds)
    (hitems : ws.mapM (item? env) = some items) :
    ds.mapM (Item.ofDeclaration env) = .ok items := by
  induction hds generalizing items with
  | nil =>
    cases hitems
    rfl
  | cons hd _ ih =>
    simp only [List.mapM_cons, Option.bind_eq_bind, Option.bind_eq_some_iff] at hitems
    obtain ⟨item, hitem, items', hitems', hcons⟩ := hitems
    cases hcons
    rw [List.mapM_cons, hd.ofDeclaration hitem, ih hitems']
    rfl

/-- A written shader has an interface, which lists the items of its declarations. -/
theorem Interface.exists_lists_of_written {env : TypeEnv} {text : String} {ws : List Written}
    {items : List Item} (name : String) {stage : Stage} (htext : WrittenShader ws text.toList)
    (hitems : ws.mapM (Written.item? env) = some items)
    (hadm : (Inventory.ofItems stage items).Admissible env stage) :
    ∃ i, ofText env ⟨name, stage, text⟩ = .ok i ∧
      Lists env ⟨name, stage, text⟩ (.ofItems stage items) i := by
  obtain ⟨ds, hread, hds⟩ := htext.readBack []
  have hall : Declaration.readAll (Comment.strip text) = .ok ds := by
    rw [Declaration.readAll, Token.scan, Comment.strip, String.toList_ofList]
    exact hread
  have hdeclared := Written.mapM_ofDeclaration hds hitems
  have hiff : (∃ i, ofText env ⟨name, stage, text⟩ = .ok i) ↔
      (Inventory.ofItems stage items).Admissible env stage := exists_ofText_iff hall hdeclared
  obtain ⟨i, hi⟩ := hiff.mpr hadm
  -- The declarations and items that it lists are the ones read here.
  obtain ⟨ds', items', hall', hdeclared', hinterface⟩ := exists_lists_of_ofText hi
  obtain rfl : ds = ds' := Except.ok.inj (hall.symm.trans hall')
  obtain rfl : items = items' := Except.ok.inj (hdeclared.symm.trans hdeclared')
  exact ⟨i, hi, hinterface⟩

/-- A shader of written declarations whose items are admissible has an interface, and it is the one
that lists their items. The declarations alone, one on each line, have the same. In the vertex
stage no location and no offset of a slot of an input wraps around, where those of the types
do not. -/
theorem Interface.ofText_written (env : TypeEnv) (name : String) (stage : Stage) {text : String}
    {ws : List Written} {items : List Item} (htext : WrittenShader ws text.toList)
    (hitems : ws.mapM (Written.item? env) = some items)
    (hadm : (Inventory.ofItems stage items).Admissible env stage) :
    ∃ i, ofText env ⟨name, stage, text⟩ = .ok i ∧
      ofText env ⟨name, stage, "\n".intercalate (ws.map fun w => w.text ++ ";")⟩ = .ok i ∧
      Lists env ⟨name, stage, text⟩ (.ofItems stage items) i ∧
      (∀ i', Lists env ⟨name, stage, text⟩ (.ofItems stage items) i' → i' = i) ∧
      (stage = .vertex → env.SlotsFit → ∀ input ∈ (Inventory.ofItems stage items).inputs,
        input.Expands env (input.attributes env)) := by
  obtain ⟨i, hi, hlists⟩ := exists_lists_of_written name htext hitems hadm
  obtain ⟨i', hi', hlists'⟩ := exists_lists_of_written name
    ((WrittenShader.lines ws).of_text (Written.intercalate_text ws)) hitems hadm
  -- What an interface lists does not depend on the text that it is read from.
  have hsame : Lists env ⟨name, stage, text⟩ (.ofItems stage items) i' := { hlists' with }
  refine ⟨i, hi, hi'.trans (congrArg _ (hsame.unique hlists)), hlists, ?_, ?_⟩
  · intro i'' hlists''
    exact hlists''.unique hlists
  · intro hvertex hslots input hinput
    exact NamedInput.expands_attributes hslots (hadm.inputs hvertex input hinput)

/-! ### A lit scene -/

/-- The types of the shading language and one structure. -/
def TypeEnv.lit : TypeEnv :=
  TypeEnv.glsl.withStruct "Light" (.ofSize 32)

/-- Declarations of every kind in a vertex shader. Two of them are of images at one binding. -/
def Written.lit : List Written :=
  [.vertexInput 4 { text := "mat4" } { text := "instance" },
    .vertexInput 0 { text := "vec3" } { text := "position" },
    .block .uniform (some 1) 2 { text := "Camera" }
      [⟨{ text := "mat4" }, { text := "view" }, none⟩,
        ⟨{ text := "vec4" }, { text := "planes" }, some (.fixed 6)⟩],
    .block .buffer none 0 { text := "Lights" }
      [⟨{ text := "Light" }, { text := "lights" }, some .runtime⟩],
    .opaqueUniform none 1 { text := "sampler2D" } { text := "heights" },
    .opaqueUniform none 1 { text := "sampler2D" } { text := "normals" },
    .pushBlock { text := "Push" } [⟨{ text := "uint" }, { text := "frame" }, none⟩],
    .specConstant 3 { text := "float" } { text := "bias" }
      ⟨[.sign .minus, .number { text := "1.5e" }, .sign .minus, .number { text := "3" }],
        by decide⟩,
    .specConstant 0 { text := "uint" } { text := "count" } ⟨[.number { text := "8" }], by decide⟩,
    .output (some 0) { text := "vec4" } { text := "color" },
    .output none { text := "vec2" } { text := "uv" }]

/-- A shader with these declarations. Its first comment is in a preprocessor line, and its second
one ends with a carriage return. -/
def ShaderText.lit : ShaderText where
  name := "lit.vert"
  stage := .vertex
  text :=
    "#version 450 // core\n" ++
    "layout(location = 4) in mat4 instance; // not for each vertex\r" ++
    "/* and for\nall */layout(location = 0) in vec3 position;\n" ++
    "layout(set = 1, binding = 2) uniform Camera \x7b mat4 view; vec4 planes[6]; \x7d;\n" ++
    "layout(binding = 0) buffer Lights \x7b Light lights[]; \x7d;\n" ++
    "layout(binding = 1) uniform sampler2D heights;\n" ++
    "layout(binding = 1) uniform sampler2D normals;\n" ++
    "layout(push_constant) uniform Push \x7b uint frame; \x7d;\n" ++
    "layout(constant_id = 3) const float bias = -1.5e-3;\n" ++
    "layout(constant_id = 0) const uint count = 8;\n" ++
    "layout(location = 0) out vec4 color;\n" ++
    "layout() out vec2 uv;"

/-- What these declarations declare. -/
def Interface.lit : Interface where
  sourceName := "lit.vert"
  stage := .vertex
  vertexInputs :=
    [⟨"instance", "mat4", 4, 4, .perVertex, 64, ⟨.rgba, .float32⟩, 0⟩,
      ⟨"instance", "mat4", 4, 5, .perVertex, 64, ⟨.rgba, .float32⟩, 16⟩,
      ⟨"instance", "mat4", 4, 6, .perVertex, 64, ⟨.rgba, .float32⟩, 32⟩,
      ⟨"instance", "mat4", 4, 7, .perVertex, 64, ⟨.rgba, .float32⟩, 48⟩,
      ⟨"position", "vec3", 0, 0, .perVertex, 12, ⟨.rgb, .float32⟩, 0⟩]
  descriptorSets :=
    [⟨0, [⟨"Lights", 0, .storageBuffer, ⟨1⟩, 32, [⟨"lights", "Light", 32, 0, some .runtime⟩]⟩,
        ⟨"heights", 1, .combinedImageSampler, ⟨1⟩, 0, []⟩]⟩,
      ⟨1, [⟨"Camera", 2, .uniformBuffer, ⟨1⟩, 160,
        [⟨"view", "mat4", 64, 0, none⟩, ⟨"planes", "vec4", 96, 64, some (.fixed 6)⟩]⟩]⟩]
  pushConstants := [⟨"frame", "uint", 4, 0, none⟩]
  specConstants := [⟨3, "bias", "float", .float32, 4, 0⟩, ⟨0, "count", "uint", .uint32, 4, 4⟩]
  outputs := [⟨some 0, "layout(location = 0) out vec4 color"⟩, ⟨none, "layout() out vec2 uv"⟩]
  inputBlocks := []

set_option maxRecDepth 4000 in
/-- The text of the scene is made of its declarations and of what stands between them. -/
theorem WrittenShader.lit : WrittenShader Written.lit ShaderText.lit.text.toList := by
  have hbody (body : List Char) (h : body.any Comment.endsLine = false) :
      ∀ c ∈ body, Comment.endsLine c = false := by simpa using h
  have hall : ¬ ['*', '/'] <:+: " and for\nall ".toList := by decide
  have hends (c : Char) (h : Comment.endsLine c = true) (rest : List Char) :
      ∀ c' ∈ (c :: rest).head?, Comment.endsLine c' = true := by
    rintro c' ⟨⟩
    exact h
  have hversion (rest : List Char) :
      IsDirective ("version 450 ".toList ++ ("// core".toList ++ [])) ('\n' :: rest) := by
    refine .plain (by decide) (by decide) (.comment
      (.line (hbody " core".toList (by decide)) (hends '\n' rfl _)) (.stop ?_))
    rintro c ⟨⟩
    rfl
  -- The text is put together from its end, where every declaration is on a line of its own.
  have hlines := (WrittenShader.lines (Written.lit.drop 1)).comment (.block hall)
  have hline := (hlines.blank (c := '\r') rfl).comment
    (.line (hbody " not for each vertex".toList (by decide)) (hends '\r' rfl _))
  have hfirst := (hline.blank (c := ' ') rfl).declaration
    (.vertexInput 4 { text := "mat4" } { text := "instance" })
  have hshader := (hfirst.blank (c := '\n') rfl).directive (hversion _)
  convert hshader using 1
  · rfl
  · simp only [ShaderText.lit, String.toList_append]
    -- Each literal is replaced by its characters, since reading them off its bytes is slow.
    repeat rw [String.toList_ofList]
    rfl

/-- The interface of the scene lists what its declarations declare. -/
theorem Interface.lists_lit {items : List Item}
    (hitems : Written.lit.mapM (Written.item? .lit) = some items)
    (hadm : (Inventory.ofItems .vertex items).Admissible .lit .vertex) :
    Lists .lit .lit (.ofItems .vertex items) lit := by
  have hsets : (Inventory.ofItems .vertex items).sets.foldlM Pipeline.addSet [] =
      .ok lit.descriptorSets := by
    cases hitems
    decide +kernel
  have htyped : ∀ c ∈ lit.specConstants, c.IsTyped .lit :=
    List.forall_mem_cons.mpr ⟨⟨_, rfl, rfl, rfl, rfl⟩,
      List.forall_mem_singleton.mpr ⟨_, rfl, rfl, rfl, rfl⟩⟩
  cases hitems
  exact {
    sourceName := rfl
    stage := rfl
    outputs := by decide +kernel
    inputBlocks := rfl
    vertexInputs := by decide +kernel
    onePushBlock := hadm.pushBlocks
    pushConstants := by decide +kernel
    constants := by decide +kernel
    typed := htyped
    consecutive := ⟨rfl, rfl, trivial⟩
    agree := hadm.bindings
    sets := DescriptorSet.gathered_of_foldlM hsets
    nonempty := by decide
    stages := by decide }

/-- The scene is a written shader, and its declarations are found in its records. -/
theorem Interface.ofText_written_lit :
    WrittenShader Written.lit ShaderText.lit.text.toList ∧
    ∃ items, Written.lit.mapM (Written.item? .lit) = some items ∧
      (Inventory.ofItems .vertex items).Admissible .lit .vertex ∧
      ofText .lit .lit = .ok lit ∧
      ofText .lit ⟨"lit.vert", .vertex, "\n".intercalate (Written.lit.map fun w => w.text ++ ";")⟩ =
        .ok lit ∧
      Lists .lit .lit (.ofItems .vertex items) lit ∧
      ∀ input ∈ (Inventory.ofItems .vertex items).inputs,
        input.Expands .lit (input.attributes .lit) := by
  obtain ⟨items, hitems⟩ : ∃ items, Written.lit.mapM (Written.item? .lit) = some items := ⟨_, rfl⟩
  have hadm : (Inventory.ofItems .vertex items).Admissible .lit .vertex := by
    cases hitems
    decide +kernel
  obtain ⟨i, hi, hlines, hlists, hunique, hexpands⟩ :=
    ofText_written .lit "lit.vert" .vertex .lit hitems hadm
  -- What the shader is read as is what was listed by hand, for there is one such interface.
  obtain rfl : lit = i := hunique lit (lists_lit hitems hadm)
  exact ⟨.lit, items, hitems, hadm, hi, hlines, hlists, hexpands rfl (TypeEnv.slotsFit_glsl _)⟩

end Glint

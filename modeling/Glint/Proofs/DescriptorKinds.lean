import Glint.Proofs.SelectingKeyword

/-!
# The kind of a descriptor

The kind of a descriptor with a block is that of its keyword: a storage buffer for `buffer`, a
uniform buffer for `uniform`. A descriptor without a block is opaque, and its kind is that of its
type. The type is looked up behind `uniform` and behind `buffer` alike, and so the keyword `buffer`
stands for a storage buffer in all declarations but those that give it to an opaque type, such as
`buffer sampler2D`. These declare opaque descriptors, as if they had the keyword `uniform`.

## Main definitions

* `Item.KeywordFixesKind` — the keyword `buffer` stands for storage buffers, and `uniform` for
  opaque descriptors
* `Item.IsOpaqueBuffer` — a declaration gives the keyword `buffer` to an opaque type

## Main results

* `Item.isOpaqueBuffer_iff` — which declarations without a block the keyword `buffer` can have
* `Item.keywordFixesKind_iff` — the keyword fixes the kind in all other declarations
-/

namespace Glint

/-- Every opaque type of the shading language makes a descriptor without a size. -/
theorem TypeEnv.isOpaque_of_glsl {structs : String → Option StructType} {name : String}
    {kind : DescriptorKind} (h : { glsl with struct? := structs }.opaqueKind? name = some kind) :
    kind.isOpaque = true := by
  have hall : ∀ entry ∈ glslOpaques, entry.2.isOpaque = true := by decide
  obtain ⟨before, after, hentries, -⟩ := List.lookup_eq_some_iff.mp h
  apply hall (name, kind)
  rw [hentries]
  exact List.mem_append_right _ List.mem_cons_self

namespace Item

variable {env : TypeEnv} {d : Declaration} {lead rest : List Token} {item : Item}

/-! ### The keyword `buffer` and opaque types -/

/-- A declaration gives the keyword `buffer` to an opaque type: it has no block, behind the keyword
stand qualifiers, the type and a name, and its entries have the numbers of a descriptor. -/
structure IsOpaqueBuffer (env : TypeEnv) (d : Declaration) : Prop where
  block : d.hasBlock = false
  typed : ∃ lead words type name kind, IsReadBy d "buffer" lead (words ++ [type, name]) ∧
    (∀ t ∈ words, t.isOneOf qualifiers = true) ∧ type.isOneOf qualifiers = false ∧
    type.isIdent = true ∧ name.isIdent = true ∧ env.opaqueKind? type.text = some kind
  set : ∃ set?, d.word? "set" = .ok set?
  binding : ∃ binding, d.word "binding" = .ok binding

theorem IsOpaqueBuffer.exists_ofDeclaration (h : IsOpaqueBuffer env d) :
    ∃ set binding name type kind, env.opaqueKind? type = some kind ∧
      ofDeclaration env d = .ok (.descriptor set binding name kind 0 []) := by
  obtain ⟨lead, words, type, name, kind, hread, hwords, hfirst, htype, hname, hkind⟩ := h.typed
  obtain ⟨set?, hset⟩ := h.set
  obtain ⟨binding, hbinding⟩ := h.binding
  have htyped : typedName d (words ++ [type, name]) = .ok (type.text, name.text) :=
    typedName_eq_ok_iff.mpr ⟨words, type, name, rfl, hwords, hfirst, htype, hname, rfl, rfl⟩
  refine ⟨set?.getD 0, binding, name.text, type.text, kind, hkind, ?_⟩
  rw [ofDeclaration_eq_ofKeyword hread, hread.takeWhile_rest h.block, ofKeyword]
  exact (ofDescriptor_eq_ok_iff h.block).mpr
    ⟨set?, binding, type.text, name.text, kind, hset, hbinding, htyped, hkind, rfl⟩

/-- Without a block, the declarations that are read by the keyword `buffer` and declare something
are those that give it to an opaque type. -/
theorem isOpaqueBuffer_iff :
    IsOpaqueBuffer env d ↔ selector? d = some "buffer" ∧ d.hasBlock = false ∧
      ∃ item, ofDeclaration env d = .ok item := by
  constructor
  · intro h
    obtain ⟨_, _, _, _, _, hread, -⟩ := h.typed
    obtain ⟨_, _, _, _, _, -, hitem⟩ := h.exists_ofDeclaration
    exact ⟨hread.selector, h.block, _, hitem⟩
  · rintro ⟨hselector, hblock, item, hitem⟩
    obtain ⟨lead, rest, hread⟩ := exists_isReadBy_of_selector? hselector
    rw [ofDeclaration_eq_ofKeyword hread, hread.takeWhile_rest hblock, ofKeyword,
      ofDescriptor_eq_ok_iff hblock] at hitem
    obtain ⟨set?, binding, type, name, kind, hset, hbinding, htyped, hkind, -⟩ := hitem
    obtain ⟨words, first, second, rfl, hwords, hfirst, htype, hname, rfl, -⟩ :=
      typedName_eq_ok_iff.mp htyped
    exact ⟨hblock, ⟨lead, words, first, second, kind, hread, hwords, hfirst, htype, hname, hkind⟩,
      ⟨set?, hset⟩, binding, hbinding⟩

/-! ### The kind that a keyword stands for -/

/-- The storage keyword of a declaration fixes the kind of its descriptor: what is declared with
`buffer`, and neither with `in` nor with `out`, is a storage buffer, and what is opaque is declared
with `uniform` and without `buffer`. -/
structure KeywordFixesKind (env : TypeEnv) (d : Declaration) : Prop where
  buffer : "in" ∉ leadingWords d → "out" ∉ leadingWords d → "buffer" ∈ leadingWords d →
    ∀ item, ofDeclaration env d = .ok item → ∃ set binding name size members,
      item = .descriptor set binding name .storageBuffer size members
  uniform : ∀ set binding name kind size members,
    ofDeclaration env d = .ok (.descriptor set binding name kind size members) →
      kind.isOpaque = true → "uniform" ∈ leadingWords d ∧ "buffer" ∉ leadingWords d

theorem selector?_eq_buffer_iff :
    selector? d = some "buffer" ↔
      "in" ∉ leadingWords d ∧ "out" ∉ leadingWords d ∧ "buffer" ∈ leadingWords d := by
  rw [selector?_eq]
  split_ifs <;> simp_all

/-- A block with the keyword `buffer` is a storage buffer. -/
theorem exists_storageBuffer_of_hasBlock (hselector : selector? d = some "buffer")
    (hblock : d.hasBlock = true) (h : ofDeclaration env d = .ok item) :
    ∃ set binding name size members,
      item = .descriptor set binding name .storageBuffer size members := by
  obtain ⟨lead, rest, hread⟩ := exists_isReadBy_of_selector? hselector
  rw [ofDeclaration_eq_ofKeyword hread, ofKeyword] at h
  obtain ⟨set, binding, name, kind, size, members, rfl⟩ := of_ofDescriptor h
  obtain ⟨rfl, -, -⟩ := ofDescriptor_eq_ok_of_hasBlock hblock h
  exact ⟨set, binding, name, size, members, rfl⟩

/-- If the keyword `buffer` stands for storage buffers, an opaque descriptor has the other
keyword. -/
theorem KeywordFixesKind.of_buffer
    (h : selector? d = some "buffer" → ∀ item, ofDeclaration env d = .ok item →
      ∃ set binding name size members,
        item = .descriptor set binding name .storageBuffer size members) :
    KeywordFixesKind env d where
  buffer := fun hin hout hbuffer => h (selector?_eq_buffer_iff.mpr ⟨hin, hout, hbuffer⟩)
  uniform := by
    intro set binding name kind size members hitem hopaque
    have hreading := reading env d
    generalize hx : ofDeclaration env d = x at hreading
    -- The readers of other items yield another alternative.
    cases hreading with
    | input rest hin =>
      have halt := yields_ofInput.of_eq_ok (hx.symm.trans hitem)
      split at halt <;> cases halt
    | output hin hout => cases yields_ofOutput.of_eq_ok (hx.symm.trans hitem)
    | buffer hin hout hbuffer hrest =>
      obtain ⟨_, _, _, _, _, hstorage⟩ :=
        h (selector?_eq_buffer_iff.mpr ⟨hin, hout, hbuffer⟩) _ hitem
      cases hstorage
      cases hopaque
    | uniform hin hout hbuffer huniform hrest => exact ⟨huniform, hbuffer⟩
    | other hin hout hbuffer huniform =>
      rw [hitem] at hx
      split at hx
      · cases yields_ofSpecConstant.of_eq_ok hx.symm
      · cases hx

/-- With the types of the shading language and any structures, the keyword of a declaration fixes
the kind of its descriptor exactly if the declaration does not give the keyword `buffer` to an
opaque type. -/
theorem keywordFixesKind_iff (structs : String → Option StructType) (d : Declaration) :
    KeywordFixesKind { TypeEnv.glsl with struct? := structs } d ↔
      ¬ IsOpaqueBuffer { TypeEnv.glsl with struct? := structs } d := by
  constructor
  · intro hkind h
    obtain ⟨hselector, -, -⟩ := isOpaqueBuffer_iff.mp h
    obtain ⟨hin, hout, hbuffer⟩ := selector?_eq_buffer_iff.mp hselector
    obtain ⟨set, binding, name, type, kind, htype, hitem⟩ := h.exists_ofDeclaration
    obtain ⟨_, _, _, _, _, hstorage⟩ := hkind.buffer hin hout hbuffer _ hitem
    cases hstorage
    cases TypeEnv.isOpaque_of_glsl htype
  · intro hnone
    apply KeywordFixesKind.of_buffer
    intro hselector item hitem
    cases hblock : d.hasBlock with
    | true => exact exists_storageBuffer_of_hasBlock hselector hblock hitem
    | false => exact absurd (isOpaqueBuffer_iff.mpr ⟨hselector, hblock, item, hitem⟩) hnone

/-- A sampler with the keyword `buffer`. -/
def albedo : Declaration :=
  ⟨0, "layout(binding = 0) buffer sampler2D albedo", [⟨"binding", some "0"⟩],
    [⟨.ident, "buffer", 20⟩, ⟨.ident, "sampler2D", 27⟩, ⟨.ident, "albedo", 37⟩]⟩

/-- The declaration is read from a text, and its descriptor is a sampler: it is opaque, and none of
the leading words is `uniform`. -/
theorem not_keywordFixesKind_albedo :
    (Declaration.readAll "layout(binding = 0) buffer sampler2D albedo;").toOption = some [albedo] ∧
      leadingWords albedo = ["buffer"] ∧
      ofDeclaration .glsl albedo =
        .ok (.descriptor 0 0 "albedo" .combinedImageSampler 0 []) ∧
      ¬ KeywordFixesKind .glsl albedo := by
  have hitem : ofDeclaration .glsl albedo =
      .ok (.descriptor 0 0 "albedo" .combinedImageSampler 0 []) := by
    decide +kernel
  refine ⟨by decide +kernel, by decide +kernel, hitem, ?_⟩
  intro h
  have huniform := (h.uniform _ _ _ _ _ _ hitem (by decide)).1
  exact absurd huniform (by decide +kernel)

end Item

end Glint

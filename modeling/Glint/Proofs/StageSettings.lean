import Glint.Proofs.Division
import Glint.Proofs.SelectingKeyword

/-!
# Settings of the whole stage

A setting of the whole stage, such as the size of a work group, consists of qualifiers and the
keyword `in`. It declares nothing, and reading leaves it out. What is left out is told by two
signs alone: there is no block, and the last word is `in`. So there is more that is left out,
without an error: a declaration passes for a setting when it ends in the word `in` and has a
keyword, a type or a name before it.

## Main definitions

* `Declaration.IsSetting` — a body is that of a setting
* `Declaration.PassesForSetting` — a body is none of a setting and is left out like one
* `Declaration.LeavesOutSettings` — what is left out of a text are settings, which declare nothing
* `Item.Loss` — what may be declared by a declaration that passes for a setting

## Main results

* `Declaration.isStageSetting_iff_isSetting_or` — which declarations are left out
* `Declaration.exists_error_of_isSetting` — a setting declares nothing
* `Item.loss_of_isStageSetting` — what passes for a setting is never a block
* `Declaration.leavesOutSettings_iff` — when only settings are left out, and what is lost else
-/

namespace Glint

open Text

namespace Declaration

variable {source : List Char} {ts : List Token} {fs : List Found} {f : Found} {d : Declaration}
  {body : List Token}

/-! ### What is left out -/

/-- The body of a setting of the whole stage: qualifiers and the keyword `in`. -/
def IsSetting (body : List Token) : Prop :=
  ∃ words last, body = words ++ [last] ∧ (∀ t ∈ words, t.isOneOf Item.qualifiers = true) ∧
    last.spells "in" = true

/-- A body without a block that ends in the word `in`, with another word before it than a
qualifier. -/
def PassesForSetting (body : List Token) : Prop :=
  ∃ words last, body = words ++ [last] ∧ (∀ t ∈ words, t.isPunct '{' = false) ∧
    last.spells "in" = true ∧ ∃ t ∈ words, t.isOneOf Item.qualifiers = false

/-- A setting has no other words than qualifiers. -/
theorem PassesForSetting.not_isSetting (h : PassesForSetting body) : ¬ IsSetting body := by
  obtain ⟨words, last, rfl, -, -, t, ht, hother⟩ := h
  rintro ⟨words', last', hbody, hwords, -⟩
  obtain ⟨rfl, -⟩ := List.append_inj' hbody rfl
  rw [hwords t ht] at hother
  cases hother

/-- What is left out has no block and ends in the word `in`. -/
theorem isStageSetting_iff :
    d.isStageSetting = true ↔ ∃ words last, d.body = words ++ [last] ∧
      (∀ t ∈ words, t.isPunct '{' = false) ∧ last.spells "in" = true := by
  rw [isStageSetting, Bool.and_eq_true, Bool.not_eq_true', hasBlock_eq_false_iff]
  constructor
  · rintro ⟨hin, hblock⟩
    obtain ⟨last, hlast, hin⟩ := (Option.any_eq_true _ _).mp hin
    obtain ⟨words, hbody⟩ := List.getLast?_eq_some_iff.mp hlast
    rw [hbody] at hblock
    exact ⟨words, last, hbody, fun t ht => hblock t (List.mem_append_left _ ht), hin⟩
  · rintro ⟨words, last, hbody, hwords, hin⟩
    have hlast : last.isPunct '{' = false :=
      Item.isPunct_of_isLeading (Item.isLeading_of_spells (by decide) hin) '{'
    rw [hbody, List.getLast?_concat, Option.any_some, List.forall_mem_append,
      List.forall_mem_singleton]
    exact ⟨hin, hwords, hlast⟩

/-- A declaration is left out exactly if it is a setting or passes for one. -/
theorem isStageSetting_iff_isSetting_or :
    d.isStageSetting = true ↔ IsSetting d.body ∨ PassesForSetting d.body := by
  rw [isStageSetting_iff]
  constructor
  · rintro ⟨words, last, hbody, hwords, hin⟩
    by_cases hall : ∀ t ∈ words, t.isOneOf Item.qualifiers = true
    · exact .inl ⟨words, last, hbody, hall, hin⟩
    · push Not at hall
      obtain ⟨t, ht, hother⟩ := hall
      exact .inr ⟨words, last, hbody, hwords, hin, t, ht, Bool.eq_false_iff.mpr hother⟩
  · rintro (⟨words, last, hbody, hwords, hin⟩ | ⟨words, last, hbody, hwords, hin, -⟩)
    · refine ⟨words, last, hbody, ?_, hin⟩
      intro t ht
      exact Item.isPunct_of_isLeading (Item.isLeading_of_isOneOf (hwords t ht)) '{'
    · exact ⟨words, last, hbody, hwords, hin⟩

/-- Of the declarations of a division, those are missing among what is read that are left out. -/
theorem declaration_not_mem_iff {ds : List Declaration} (h : readTokens source ts = .ok ds)
    (hfs : Division ts fs) (hf : f ∈ fs) :
    f.declaration source ∉ ds ↔ (f.declaration source).isStageSetting = true := by
  rw [hfs.readTokens] at h
  obtain rfl := Except.ok.inj h
  rw [← Bool.not_eq_false, not_iff_not, List.mem_map]
  constructor
  · rintro ⟨g, hg, hsame⟩
    rw [List.mem_filter, g.isKept_eq source, hsame, Bool.not_eq_true'] at hg
    exact hg.2
  · intro hkept
    refine ⟨f, List.mem_filter.mpr ⟨hf, ?_⟩, rfl⟩
    rw [f.isKept_eq source, hkept, Bool.not_false]

theorem hasBlock_of_isStageSetting (h : d.isStageSetting = true) : d.hasBlock = false := by
  rw [isStageSetting, Bool.and_eq_true, Bool.not_eq_true'] at h
  exact h.2

/-- A setting declares nothing: there is no type behind its keyword. -/
theorem exists_error_of_isSetting (h : IsSetting d.body) (env : TypeEnv) :
    ∃ e, Item.ofDeclaration env d = .error e := by
  have hblock := hasBlock_of_isStageSetting (isStageSetting_iff_isSetting_or.mpr (.inl h))
  obtain ⟨words, last, hbody, hwords, hin⟩ := h
  have hhead : Item.head d = words ++ last :: [] := (Item.head_eq_body hblock).trans hbody
  have hafter : Item.after? "in" (Item.head d) = some [] := by
    refine Item.after?_eq_some_iff.mpr ⟨words, last, hhead, hin, ?_⟩
    intro t ht
    exact ⟨Item.isLeading_of_isOneOf (hwords t ht), Item.spells_of_isOneOf (hwords t ht) (by decide)⟩
  rw [Item.ofDeclaration, hafter]
  simp only [Item.ofInput, hblock]
  cases d.word "location" with
  | error e => exact ⟨e, rfl⟩
  | ok location => exact ⟨_, rfl⟩

end Declaration

/-! ### What is lost -/

namespace Item

variable {env : TypeEnv} {d : Declaration} {item : Item} {lead rest : List Token}
  {word type name : String}

/-- The name behind a type is the last word. -/
theorem exists_getLast?_of_typedName (h : typedName d rest = .ok (type, name)) :
    ∃ t, rest.getLast? = some t ∧ t.isIdent = true ∧ t.text = name := by
  obtain ⟨words, first, second, rfl, -, -, -, hident, -, hname⟩ := typedName_eq_ok_iff.mp h
  refine ⟨second, ?_, hident, hname⟩
  rw [List.getLast?_append, List.getLast?_cons_cons, List.getLast?_singleton, Option.some_or]

/-- Without a block there are no members. -/
theorem blockMembers_eq_error (hblock : d.hasBlock = false) :
    blockMembers env d = .error (.malformed d.offset .missingMembers) := by
  have hdrop : d.body.dropWhile (fun t => !t.isPunct '{') = [] := by
    rw [List.dropWhile_eq_nil_iff]
    intro t ht
    rw [Declaration.hasBlock_eq_false_iff.mp hblock t ht, Bool.not_false]
  rw [blockMembers, memberTokens?, hdrop]
  rfl

/-- What a declaration declares that passes for a setting: an input or an opaque descriptor with
the name `in`, an output, or a specialization constant. -/
inductive Loss : Item → Prop
  | vertexInput (location : UInt32) (glslType : String) : Loss (.vertexInput location glslType "in")
  | output (location? : Option UInt32) (declaration : String) : Loss (.output location? declaration)
  | descriptor (set binding : UInt32) (kind : DescriptorKind) :
    Loss (.descriptor set binding "in" kind 0 [])
  | specConstant (id : UInt32) (glslType name : String) : Loss (.specConstant id glslType name)

/-- The name of what is left out is its last word. -/
theorem eq_in_of_typedName (hleft : d.isStageSetting = true) (hread : IsReadBy d word lead rest)
    (htyped : typedName d rest = .ok (type, name)) : name = "in" := by
  obtain ⟨words, last, hbody, -, hin⟩ := Declaration.isStageSetting_iff.mp hleft
  obtain ⟨t, hlast, -, rfl⟩ := exists_getLast?_of_typedName htyped
  have hsame : d.body.getLast? = some t := by
    rw [hread.body, List.getLast?_append, hlast, Option.some_or]
  rw [hbody, List.getLast?_concat] at hsame
  obtain rfl := Option.some.inj hsame
  exact eq_of_beq (Bool.and_eq_true_iff.mp hin).2

/-- No block is left out, and what is left out with a type and a name has the name `in`, unless it
is an output or a constant. -/
theorem loss_of_isStageSetting (hleft : d.isStageSetting = true)
    (h : ofDeclaration env d = .ok item) : Loss item := by
  have hblock := Declaration.hasBlock_of_isStageSetting hleft
  obtain ⟨word, lead, rest, hread⟩ := exists_isReadBy h
  have hdescriptor {storage : BlockStorage} (h : ofDescriptor env storage d rest = .ok item) :
      Loss item := by
    obtain ⟨set?, binding, type, name, kind, -, -, htyped, -, rfl⟩ :=
      (ofDescriptor_eq_ok_iff hblock).mp h
    obtain rfl := eq_in_of_typedName hleft hread htyped
    exact .descriptor ..
  rw [ofDeclaration_eq_ofKeyword hread, hread.takeWhile_rest hblock] at h
  unfold ofKeyword at h
  -- The keywords in the order in which they are asked for.
  split at h
  · simp only [ofInput, hblock, Bool.false_eq_true, if_false, Outcome.bind_eq_ok,
      Outcome.pure_eq_ok] at h
    obtain ⟨location, -, ⟨type, name⟩, htyped, rfl⟩ := h
    obtain rfl := eq_in_of_typedName hleft hread htyped
    exact .vertexInput ..
  · obtain ⟨location?, -, h⟩ := Outcome.bind_eq_ok.mp h
    obtain rfl := Outcome.pure_eq_ok.mp h
    exact .output ..
  · exact hdescriptor h
  · -- Push constants are members of a block.
    rw [ofUniform, blockMembers_eq_error hblock] at h
    split at h
    · cases h
    · exact hdescriptor h
  · split at h
    · obtain ⟨id, -, h⟩ := Outcome.bind_eq_ok.mp h
      obtain ⟨⟨type, name⟩, -, h⟩ := Outcome.bind_eq_ok.mp h
      obtain rfl := Outcome.pure_eq_ok.mp h
      exact .specConstant ..
    · cases h

end Item

/-! ### Texts -/

namespace Declaration

/-- The declarations of a text that are missing among what is read are settings of the whole stage,
and declare nothing. -/
def LeavesOutSettings (source : String) : Prop :=
  ∀ ds fs, readAll source = .ok ds → Division (Token.scan source) fs → ∀ f ∈ fs,
    f.declaration source.toList ∉ ds →
      IsSetting f.body ∧ ∀ env, ∃ e, Item.ofDeclaration env (f.declaration source.toList) = .error e

theorem leavesOutSettings_iff_not_passes (source : String) :
    LeavesOutSettings source ↔
      ∀ fs, Division (Token.scan source) fs → ∀ f ∈ fs, ¬ PassesForSetting f.body := by
  constructor
  · intro h fs hfs f hf hpasses
    have hread := hfs.readTokens source.toList
    have hleft : (f.declaration source.toList).isStageSetting = true :=
      isStageSetting_iff_isSetting_or.mpr (.inr hpasses)
    have hmissing := (declaration_not_mem_iff hread hfs hf).mpr hleft
    exact hpasses.not_isSetting (h _ fs hread hfs f hf hmissing).1
  · intro h ds fs hread hfs f hf hmissing
    have hleft := (declaration_not_mem_iff hread hfs hf).mp hmissing
    rcases isStageSetting_iff_isSetting_or.mp hleft with hsetting | hpasses
    · exact ⟨hsetting, exists_error_of_isSetting hsetting⟩
    · exact absurd hpasses (h fs hfs f hf)

/-- Only settings are left out of a text exactly if none of its declarations passes for one. What
is lost with those that do is never a block. -/
theorem leavesOutSettings_iff (source : String) :
    (LeavesOutSettings source ↔
      ∀ fs, Division (Token.scan source) fs → ∀ f ∈ fs, ¬ PassesForSetting f.body) ∧
    ∀ ds fs, readAll source = .ok ds → Division (Token.scan source) fs → ∀ f ∈ fs,
      f.declaration source.toList ∉ ds → ∀ env item,
        Item.ofDeclaration env (f.declaration source.toList) = .ok item → Item.Loss item := by
  refine ⟨leavesOutSettings_iff_not_passes source, ?_⟩
  intro ds fs hread hfs f hf hmissing env item hitem
  exact Item.loss_of_isStageSetting ((declaration_not_mem_iff hread hfs hf).mp hmissing) hitem

/-- A sampler with the name `in`. -/
def samplerNamedIn : String :=
  "layout(binding = 0) uniform sampler2D in;"

/-- The declaration of the sampler as it stands among the tokens. -/
def foundSampler : Found where
  first := ⟨.ident, "layout", 0⟩
  opening := ⟨.punct '(', "(", 6⟩
  inside := [⟨.ident, "binding", 7⟩, ⟨.punct '=', "=", 15⟩, ⟨.number, "0", 17⟩,
    ⟨.punct ')', ")", 18⟩]
  entries := [⟨"binding", some "0"⟩]
  body := [⟨.ident, "uniform", 20⟩, ⟨.ident, "sampler2D", 28⟩, ⟨.ident, "in", 38⟩]
  semicolon := ⟨.punct ';', ";", 40⟩
  hfirst := by decide
  hopening := by decide
  hinside := .last (@IsEntry.value ⟨.ident, "binding", 7⟩ ⟨.punct '=', "=", 15⟩
    ⟨.number, "0", 17⟩ rfl rfl rfl) rfl
  hextent := by
    simp [extent_cons_iff, extent_nil_iff, openings_singleton, closings_singleton, Token.isPunct]
  hsemicolon := by decide

/-- The sampler is the only declaration of the text. It is left out, although it declares a
descriptor. -/
theorem not_leavesOutSettings_sampler :
    (readAll samplerNamedIn).toOption = some [] ∧
      Division (Token.scan samplerNamedIn) [foundSampler] ∧
      Item.ofDeclaration .glsl (foundSampler.declaration samplerNamedIn.toList) =
        .ok (.descriptor 0 0 "in" .combinedImageSampler 0 []) ∧
      ¬ LeavesOutSettings samplerNamedIn := by
  have hdivision : Division (Token.scan samplerNamedIn) [foundSampler] := by
    have htokens : Token.scan samplerNamedIn =
        [] ++ foundSampler.tokens ++ foundSampler.semicolon :: [] := by
      decide +kernel
    rw [htokens]
    exact .next [] (List.forall_mem_nil _) foundSampler (.last (List.forall_mem_nil _))
  have hitem : Item.ofDeclaration .glsl (foundSampler.declaration samplerNamedIn.toList) =
      .ok (.descriptor 0 0 "in" .combinedImageSampler 0 []) := by
    decide +kernel
  have hread : readAll samplerNamedIn = .ok [] := by
    rw [readAll, hdivision.readTokens]
    rfl
  refine ⟨by rw [hread]; rfl, hdivision, hitem, ?_⟩
  intro h
  obtain ⟨-, hnothing⟩ := h [] [foundSampler] hread hdivision foundSampler List.mem_cons_self nofun
  obtain ⟨e, he⟩ := hnothing .glsl
  rw [hitem] at he
  cases he

end Declaration

end Glint

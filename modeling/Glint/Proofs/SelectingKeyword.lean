import Glint.Proofs.LeadingWords

/-!
# The keyword that a declaration is read by

Several storage keywords may stand among the leading words of a declaration. They are asked for
in a fixed order, and the first one that is there says how the declaration is read. What matters
of the text is then where this keyword stands for the first time: the tokens behind it are a type
and a name, or the words before a block.

## Main definitions

* `Item.selector?` — the keyword that a declaration is read by
* `Item.IsReadBy` — the words up to this keyword, and what follows it
* `Item.ofKeyword` — how a declaration is read by a keyword

## Main results

* `Item.after?_eq_some_iff` — where a keyword is found
* `Item.typedName_eq_ok_iff` — what a type and a name look like
* `Item.ofDeclaration_eq_ofKeyword` — a declaration is read by its keyword
* `Item.exists_isReadBy` — what declares something is read by some keyword
* `Item.ofDescriptor_eq_ok_iff` — the opaque descriptor of a declaration without a block
-/

namespace Glint

theorem TypeEnv.opaqueKind_eq_ok_iff {env : TypeEnv} {name : String} {kind : DescriptorKind} :
    env.opaqueKind name = .ok kind ↔ env.opaqueKind? name = some kind := by
  rw [opaqueKind]
  cases env.opaqueKind? name <;> simp

/-- Without a block no token of the body is a brace. -/
theorem Declaration.hasBlock_eq_false_iff {d : Declaration} :
    d.hasBlock = false ↔ ∀ t ∈ d.body, t.isPunct '{' = false := by
  simp [hasBlock]

namespace Item

variable {env : TypeEnv} {d : Declaration} {word type name : String} {lead rest ts : List Token}
  {item : Item} {t : Token}

/-! ### Where a keyword stands -/

theorem isLeading_of_isOneOf (h : t.isOneOf qualifiers = true) : isLeading t = true := by
  rw [isLeading, h, Bool.or_true]

theorem isPunct_of_isLeading (h : isLeading t = true) (c : Char) : t.isPunct c = false :=
  Token.isPunct_of_isIdent (isIdent_of_isLeading h) c

/-- A qualifier spells no storage keyword. -/
theorem spells_of_isOneOf (h : t.isOneOf qualifiers = true) (hword : word ∈ storageKeywords) :
    t.spells word = false := by
  have hother : ∀ keyword ∈ storageKeywords, keyword ∉ qualifiers := by decide
  obtain ⟨qualifier, hqualifier, hspells⟩ := List.any_eq_true.mp h
  simp only [Token.spells, Bool.and_eq_true, beq_iff_eq] at hspells
  simp only [Token.spells, hspells.1, Bool.true_and, beq_eq_false_iff_ne, hspells.2]
  rintro rfl
  exact hother qualifier hword hqualifier

/-- A keyword is found where it stands for the first time, with leading words alone before it. -/
theorem after?_eq_some_iff :
    after? word ts = some rest ↔
      ∃ before keyword, ts = before ++ keyword :: rest ∧ keyword.spells word = true ∧
        ∀ t ∈ before, isLeading t = true ∧ t.spells word = false := by
  constructor
  · intro h
    induction ts with
    | nil => cases h
    | cons t ts ih =>
      rw [after?] at h
      split at h
      · rename_i ht
        obtain rfl := Option.some.inj h
        exact ⟨[], t, rfl, ht, List.forall_mem_nil _⟩
      · rename_i hother
        split at h
        · rename_i hleading
          obtain ⟨before, keyword, rfl, hkeyword, hbefore⟩ := ih h
          refine ⟨t :: before, keyword, rfl, hkeyword, ?_⟩
          exact List.forall_mem_cons.mpr ⟨⟨hleading, Bool.eq_false_iff.mpr hother⟩, hbefore⟩
        · cases h
  · rintro ⟨before, keyword, rfl, hkeyword, hbefore⟩
    induction before with
    | nil => rw [List.nil_append, after?, if_pos hkeyword]
    | cons t before ih =>
      obtain ⟨⟨hleading, hother⟩, hbefore⟩ := List.forall_mem_cons.mp hbefore
      rw [List.cons_append, after?, hother, if_neg Bool.false_ne_true, if_pos hleading, ih hbefore]

/-- A type and a name are two identifiers behind qualifiers, the first of which is no qualifier. -/
theorem typedName_eq_ok_iff :
    typedName d ts = .ok (type, name) ↔
      ∃ words first second, ts = words ++ [first, second] ∧
        (∀ t ∈ words, t.isOneOf qualifiers = true) ∧ first.isOneOf qualifiers = false ∧
        first.isIdent = true ∧ second.isIdent = true ∧ first.text = type ∧
        second.text = name := by
  constructor
  · intro h
    rw [typedName] at h
    split at h
    · rename_i first second hwords
      split at h
      · rename_i hident
        rw [Bool.and_eq_true] at hident
        obtain ⟨rfl, rfl⟩ := Prod.mk.inj (Except.ok.inj h)
        have hfirst := List.head?_dropWhile_not (·.isOneOf qualifiers) ts
        rw [hwords] at hfirst
        refine ⟨ts.takeWhile (·.isOneOf qualifiers), first, second, ?_, ?_, hfirst, hident.1,
          hident.2, rfl, rfl⟩
        · rw [← hwords, List.takeWhile_append_dropWhile]
        · exact fun t => List.mem_takeWhile_imp
      · cases h
    · cases h
    · cases h
  · rintro ⟨words, first, second, rfl, hwords, hfirst, htype, hname, rfl, rfl⟩
    rw [typedName, List.dropWhile_append_of_pos hwords, List.dropWhile_cons_of_neg (by simp [hfirst])]
    simp [htype, hname]

/-! ### The keyword that is asked for first -/

/-- The storage keywords in the order in which they are asked for. -/
def selectionOrder : List String :=
  ["in", "out", "buffer", "uniform", "const"]

/-- The keyword that a declaration is read by: of those among its leading words, the one that is
asked for first. -/
def selector? (d : Declaration) : Option String :=
  selectionOrder.find? (· ∈ leadingWords d)

/-- A declaration is read by a keyword: `lead` are the words up to its first occurrence, and `rest`
is what follows it. -/
structure IsReadBy (d : Declaration) (word : String) (lead rest : List Token) : Prop where
  selector : selector? d = some word
  body : d.body = lead ++ rest
  first : ∃ before keyword, lead = before ++ [keyword] ∧ keyword.spells word = true ∧
    ∀ t ∈ before, isLeading t = true ∧ t.spells word = false

theorem mem_storageKeywords_of_mem_selectionOrder (h : word ∈ selectionOrder) :
    word ∈ storageKeywords := by
  simp only [selectionOrder, storageKeywords, List.mem_cons] at h ⊢
  tauto

theorem mem_leadingWords_of_selector? (h : selector? d = some word) : word ∈ leadingWords d := by
  simpa using List.find?_some h

theorem mem_storageKeywords_of_selector? (h : selector? d = some word) :
    word ∈ storageKeywords :=
  mem_storageKeywords_of_mem_selectionOrder (List.mem_of_find?_eq_some h)

/-- One keyword is asked for after the other. -/
theorem selector?_eq (d : Declaration) :
    selector? d =
      if "in" ∈ leadingWords d then some "in"
      else if "out" ∈ leadingWords d then some "out"
      else if "buffer" ∈ leadingWords d then some "buffer"
      else if "uniform" ∈ leadingWords d then some "uniform"
      else if "const" ∈ leadingWords d then some "const"
      else none := by
  simp only [selector?, selectionOrder, List.find?_cons, List.find?_nil]
  split_ifs <;> simp_all

/-- A keyword that a declaration is read by stands somewhere. -/
theorem exists_isReadBy_of_selector? (h : selector? d = some word) :
    ∃ lead rest, IsReadBy d word lead rest := by
  have hafter : after? word (head d) ≠ none := by
    rw [Ne, after?_head_eq_none_iff (mem_storageKeywords_of_selector? h), not_not]
    exact mem_leadingWords_of_selector? h
  obtain ⟨rest, hrest⟩ := Option.ne_none_iff_exists'.mp hafter
  obtain ⟨before, keyword, hhead, hkeyword, hbefore⟩ := after?_eq_some_iff.mp hrest
  have hbody : head d ++ d.body.dropWhile (fun t => !t.isPunct '{') = d.body :=
    List.takeWhile_append_dropWhile
  rw [hhead] at hbody
  refine ⟨before ++ [keyword], rest ++ d.body.dropWhile (fun t => !t.isPunct '{'), h, ?_, before,
    keyword, rfl, hkeyword, hbefore⟩
  apply hbody.symm.trans
  simp only [List.append_assoc, List.cons_append, List.nil_append]

/-! ### Reading by a keyword -/

/-- The specialization constant of a declaration with the keyword `const`, which `rest` follows. -/
def ofConstant (d : Declaration) (rest : List Token) : Except ReflectError Item := do
  let id ← d.word "constant_id"
  let (glslType, name) ← typedName d (rest.takeWhile fun t => !t.isPunct '=')
  return .specConstant id glslType name

/-- What a declaration declares by a keyword, which `rest` follows. -/
def ofKeyword (env : TypeEnv) (d : Declaration) (rest : List Token) :
    String → Except ReflectError Item
  | "in" => ofInput d rest
  | "out" => ofOutput d
  | "buffer" => ofDescriptor env .buffer d rest
  | "uniform" => ofUniform env d rest
  | _ => if marksSpecConstant d then ofConstant d rest else .error (.unrecognized d.text)

namespace IsReadBy

/-- The words up to the keyword are leading words. -/
theorem isLeading (h : IsReadBy d word lead rest) : ∀ t ∈ lead, isLeading t = true := by
  obtain ⟨before, keyword, rfl, hkeyword, hbefore⟩ := h.first
  intro t ht
  rcases List.mem_append.mp ht with ht | ht
  · exact (hbefore t ht).1
  · obtain rfl := List.mem_singleton.mp ht
    exact isLeading_of_spells (mem_storageKeywords_of_selector? h.selector) hkeyword

theorem isPunct (h : IsReadBy d word lead rest) (c : Char) : ∀ t ∈ lead, t.isPunct c = false :=
  fun t ht => isPunct_of_isLeading (h.isLeading t ht) c

theorem head_eq (h : IsReadBy d word lead rest) :
    head d = lead ++ rest.takeWhile fun t => !t.isPunct '{' := by
  rw [head, h.body, List.takeWhile_append_of_pos]
  intro t ht
  rw [h.isPunct '{' t ht, Bool.not_false]

theorem after?_head (h : IsReadBy d word lead rest) :
    after? word (head d) = some (rest.takeWhile fun t => !t.isPunct '{') := by
  obtain ⟨before, keyword, hlead, hkeyword, hbefore⟩ := h.first
  refine after?_eq_some_iff.mpr ⟨before, keyword, ?_, hkeyword, hbefore⟩
  rw [h.head_eq, hlead, List.append_assoc, List.singleton_append]

end IsReadBy

/-- A declaration is read by its keyword. -/
theorem ofDeclaration_eq_ofKeyword (h : IsReadBy d word lead rest) :
    ofDeclaration env d = ofKeyword env d (rest.takeWhile fun t => !t.isPunct '{') word := by
  have hafter := h.after?_head
  have hselector := h.selector
  have hnone {other : String} (hother : other ∈ storageKeywords) (habsent : other ∉ leadingWords d) :
      after? other (head d) = none :=
    (after?_head_eq_none_iff hother).mpr habsent
  rw [selector?_eq] at hselector
  split_ifs at hselector with hin hout hbuffer huniform hconst
  all_goals obtain rfl := Option.some.inj hselector
  · rw [ofDeclaration, hafter, ofKeyword]
  · rw [ofDeclaration, hnone (by decide) hin, hafter, ofKeyword]
    rfl
  · rw [ofDeclaration, hnone (by decide) hin, hnone (by decide) hout, hafter, ofKeyword]
    rfl
  · rw [ofDeclaration, hnone (by decide) hin, hnone (by decide) hout, hnone (by decide) hbuffer,
      hafter, ofKeyword]
    rfl
  · rw [ofDeclaration, hnone (by decide) hin, hnone (by decide) hout, hnone (by decide) hbuffer,
      hnone (by decide) huniform, ofSpecConstant, hafter]
    simp [ofKeyword, ofConstant]

/-- What declares something is read by some keyword. -/
theorem exists_isReadBy (h : ofDeclaration env d = .ok item) :
    ∃ word lead rest, IsReadBy d word lead rest := by
  cases hselector : selector? d with
  | some word => exact ⟨word, exists_isReadBy_of_selector? hselector⟩
  | none =>
    -- Without a keyword not even a constant is read.
    have hnone {other : String} (hother : other ∈ selectionOrder) :
        after? other (head d) = none := by
      rw [after?_head_eq_none_iff (mem_storageKeywords_of_mem_selectionOrder hother)]
      simpa using List.find?_eq_none.mp hselector other hother
    rw [ofDeclaration, hnone (by decide), hnone (by decide), hnone (by decide), hnone (by decide),
      ofSpecConstant, hnone (by decide)] at h
    simp only [Option.isSome_none, Bool.false_eq_true, if_false] at h
    split at h
    · obtain ⟨_, -, h⟩ := Outcome.bind_eq_ok.mp h
      cases h
    · cases h

/-! ### Declarations without a block -/

theorem head_eq_body (hblock : d.hasBlock = false) : head d = d.body := by
  rw [head, List.takeWhile_eq_self_iff]
  intro t ht
  rw [Declaration.hasBlock_eq_false_iff.mp hblock t ht, Bool.not_false]

/-- Without a block, all that follows the keyword belongs to the head. -/
theorem IsReadBy.takeWhile_rest (h : IsReadBy d word lead rest) (hblock : d.hasBlock = false) :
    rest.takeWhile (fun t => !t.isPunct '{') = rest := by
  have hhead := head_eq_body hblock
  rw [h.head_eq, h.body] at hhead
  exact List.append_cancel_left hhead

/-- A descriptor without a block has two numbers, an opaque type and a name. -/
theorem ofDescriptor_eq_ok_iff {storage : BlockStorage} (hblock : d.hasBlock = false) :
    ofDescriptor env storage d rest = .ok item ↔
      ∃ set? binding type name kind, d.word? "set" = .ok set? ∧ d.word "binding" = .ok binding ∧
        typedName d rest = .ok (type, name) ∧ env.opaqueKind? type = some kind ∧
        item = .descriptor (set?.getD 0) binding name kind 0 [] := by
  simp only [ofDescriptor, hblock, Bool.false_eq_true, if_false, Outcome.bind_eq_ok,
    Outcome.pure_eq_ok, TypeEnv.opaqueKind_eq_ok_iff]
  constructor
  · rintro ⟨set?, hset, binding, hbinding, ⟨type, name⟩, htyped, kind, hkind, rfl⟩
    exact ⟨set?, binding, type, name, kind, hset, hbinding, htyped, hkind, rfl⟩
  · rintro ⟨set?, binding, type, name, kind, hset, hbinding, htyped, hkind, rfl⟩
    exact ⟨set?, hset, binding, hbinding, (type, name), htyped, kind, hkind, rfl⟩

end Item

end Glint

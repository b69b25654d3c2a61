import Glint.Proofs.WrittenDeclaration

/-!
# What a written declaration is read to declare

A written block is packed member by member, and the keyword of a written declaration
decides what it declares.

## Main results

* `WrittenMember.packFrom_listLexemes` — the members of a written block are packed
* `Written.ReadAs.ofDeclaration` — a declaration read from a written one declares its item
-/

namespace Glint

open Lexeme Text

variable {env : TypeEnv} {place : Nat → Nat}

/-! ### Lists cut at a separator -/

theorem Text.splitLast?_concat {α : Type} {isSep : α → Bool} {sep : α} (h : isSep sep = true)
    (as : List α) : splitLast? isSep (as ++ [sep]) = some (as, []) := by
  induction as with
  | nil => simp [splitLast?, h]
  | cons a as ih => rw [List.cons_append, splitLast?, ih]

/-! ### Members -/

namespace WrittenMember

theorem total_cons (env : TypeEnv) (m : WrittenMember) (ms : List WrittenMember) :
    total env (m :: ms) = m.size env + total env ms := rfl

theorem layout?_eq_some_iff {ms : List WrittenMember} {members : List Member} :
    layout? env ms = some members ↔
      (ms.all (isKnown env) = true ∧ total env ms < UInt32.size) ∧ packed env 0 ms = members := by
  rw [layout?, Option.ite_none_right_eq_some, Option.some.injEq]

/-- The shape of a written member. -/
def shape (m : WrittenMember) : MemberShape :=
  ⟨m.glslType.text, m.name.text, m.array?⟩

theorem readCount_ofWord (count : UInt32) (p : Nat) :
    MemberShape.readCount ((number (.ofWord count)).token p) = .ok count := by
  have hkind : (((number (.ofWord count)).token p).kind == .number) = true := rfl
  rw [MemberShape.readCount, hkind, if_pos rfl, text_number, Number.ofWord, decimal?_repr]

/-- The shape of a written member is read back. -/
theorem exists_read (m : WrittenMember) (place : Nat → Nat) :
    ∃ first more, tokens place m.lexemes = first :: more ∧
      MemberShape.read first more = .ok m.shape := by
  refine ⟨_, _, rfl, ?_⟩
  have harray : MemberShape.readArray m.name.text
      (tokens (fun i => place (i + 1 + 1)) (arrayLexemes m.array?)) = .ok m.array? := by
    rcases m.array? with - | (count | -)
    · rfl
    · simp [arrayLexemes, MemberShape.readArray, Sign.char, readCount_ofWord, Except.map]
    · simp [arrayLexemes, MemberShape.readArray, Sign.char]
  simp [MemberShape.read, harray, Except.map, shape]

/-- The size of a member of a known type is read as the exact one, if that is a word. -/
theorem size?_shape {m : WrittenMember} {element : UInt32}
    (helement : env.byteSize m.glslType.text = .ok element) (hfits : m.size env < UInt32.size) :
    m.shape.size? element = some (.ofNat (m.size env)) := by
  have hsize : m.size env = element.toNat * m.count := by rw [size, helement]
  rw [hsize] at hfits ⊢
  obtain ⟨glslType, name, array?⟩ := m
  rcases array? with - | (count | -)
  · simp [MemberShape.size?, shape, count]
  · rw [MemberShape.size?]
    exact Word.mul?_eq_some_iff.mpr (UInt32.toNat_ofNat_of_lt' hfits).symm
  · simp [MemberShape.size?, shape, count]

/-- The first member of a written block is the first piece between its semicolons. -/
theorem exists_splitWhere_cons (m : WrittenMember) (ms : List WrittenMember)
    (place : Nat → Nat) :
    ∃ place', splitWhere (·.isPunct ';') (tokens place (listLexemes (m :: ms))) =
      tokens place m.lexemes :: splitWhere (·.isPunct ';') (tokens place' (listLexemes ms)) := by
  have hnone : ∀ t ∈ tokens place m.lexemes, t.isPunct ';' = false := fun t ht =>
    (isPunct_of_mem_tokens (fun l => isPlain_of_mem_lexemes) ht).2.2
  have hcut (p : Nat) (rest : List Token) :
      splitWhere (·.isPunct ';') (tokens place m.lexemes ++ (sign .semicolon).token p :: rest) =
        tokens place m.lexemes :: splitWhere (·.isPunct ';') rest := by
    rw [splitWhere_append (by simp [Sign.char]), splitWhere_of_forall hnone]
    rfl
  simp only [listLexemes, List.flatMap_cons, tokens_append, tokens_cons, List.append_assoc,
    List.cons_append, List.nil_append]
  exact ⟨_, hcut _ _⟩

/-- The members of a written block are packed. -/
theorem packFrom_listLexemes (ms : List WrittenMember) (place : Nat → Nat) {offset : UInt32}
    (hknown : ms.all (isKnown env) = true)
    (hfits : offset.toNat + total env ms < UInt32.size) :
    Member.packFrom env offset (splitWhere (·.isPunct ';') (tokens place (listLexemes ms))) =
      .ok (packed env offset.toNat ms) := by
  induction ms generalizing offset place with
  | nil => rfl
  | cons m ms ih =>
    rw [List.all_cons, Bool.and_eq_true] at hknown
    obtain ⟨hm, hms⟩ := hknown
    rw [total_cons] at hfits
    obtain ⟨element, helement⟩ : ∃ element, env.byteSize m.glslType.text = .ok element := by
      rw [isKnown] at hm
      cases h : env.byteSize m.glslType.text with
      | ok element => exact ⟨element, rfl⟩
      | error e =>
        rw [h] at hm
        cases hm
    have hsize := size?_shape helement (by omega)
    -- The end of the member is where the others are packed from.
    have hnext : (UInt32.ofNat (offset.toNat + m.size env)).toNat = offset.toNat + m.size env :=
      UInt32.toNat_ofNat_of_lt' (by omega)
    have hadd : Word.add? offset (.ofNat (m.size env)) =
        some (.ofNat (offset.toNat + m.size env)) := by
      rw [Word.add?_eq_some_iff, hnext, UInt32.toNat_ofNat_of_lt' (by omega)]
    obtain ⟨first, more, hfirst, hread⟩ := m.exists_read place
    obtain ⟨place', hsplit⟩ := exists_splitWhere_cons m ms place
    have hrest := ih place' hms (by rwa [hnext, Nat.add_assoc])
    rw [hsplit, hfirst, Member.packFrom, hread]
    simp only [bind, Except.bind, shape] at hsize ⊢
    simp only [helement, hsize, hadd, hrest, hnext]
    rw [packed, UInt32.ofNat_toNat]
    rfl

/-- The size of a block is that of its packed members, if it is a word. -/
theorem sum_size_packed (ms : List WrittenMember) (offset : Nat)
    (hfits : total env ms < UInt32.size) :
    Word.sum ((packed env offset ms).map Member.size) = total env ms := by
  induction ms generalizing offset with
  | nil => rfl
  | cons m ms ih =>
    rw [total_cons] at hfits ⊢
    rw [packed, List.map_cons, Word.sum_cons, ih _ (by omega),
      UInt32.toNat_ofNat_of_lt' (by omega)]

/-- The layout of a written block is that of the members read from it. -/
theorem pack_listLexemes {ms : List WrittenMember} {members : List Member}
    (h : layout? env ms = some members) (place : Nat → Nat) :
    Member.pack env (tokens place (listLexemes ms)) = .ok members := by
  obtain ⟨⟨hknown, hfits⟩, rfl⟩ := layout?_eq_some_iff.mp h
  rw [Member.pack, packFrom_listLexemes ms place hknown (by simpa using hfits)]
  rfl

theorem totalSize_of_layout? {ms : List WrittenMember} {members : List Member}
    (h : layout? env ms = some members) (at_ : Nat) :
    Member.totalSize members at_ = .ok (.ofNat (total env ms)) := by
  obtain ⟨⟨-, hfits⟩, rfl⟩ := layout?_eq_some_iff.mp h
  have hsum : Word.total? ((packed env 0 ms).map Member.size) = some (.ofNat (total env ms)) := by
    rw [Word.total?_eq_some_iff, sum_size_packed ms 0 hfits, UInt32.toNat_ofNat_of_lt' hfits]
  rw [Member.totalSize, hsum]

end WrittenMember

namespace Written.ReadAs

open Item

variable {w : Written} {d : Declaration} {item : Item}

/-! ### The parts of the body -/

/-- The tokens before the first brace are those of the front. -/
theorem exists_head_eq (h : w.ReadAs d) : ∃ place, head d = tokens place w.front := by
  obtain ⟨place, hbody⟩ := h.body
  have hfront : ∀ t ∈ tokens place w.front, (!t.isPunct '\x7b') = true := fun t ht => by
    rw [isPunct_leftBrace_of_mem_front ht, Bool.not_false]
  refine ⟨place, ?_⟩
  rw [head, hbody, Written.body, tokens_append, List.takeWhile_append_of_pos hfront, braces]
  cases w.members? <;> simp [Sign.char]

/-- The tokens between the braces are those of the members. -/
theorem exists_memberTokens?_eq (h : w.ReadAs d) {ms : List WrittenMember}
    (hmembers : w.members? = some ms) :
    ∃ place, memberTokens? d.body = some (tokens place (WrittenMember.listLexemes ms)) := by
  obtain ⟨place, hbody⟩ := h.body
  have hfront : ∀ t ∈ tokens place w.front, (!t.isPunct '\x7b') = true := fun t ht => by
    rw [isPunct_leftBrace_of_mem_front ht, Bool.not_false]
  rw [memberTokens?, hbody, Written.body, tokens_append, List.dropWhile_append_of_pos hfront,
    braces, hmembers]
  simp [Sign.char, tokens_append, splitLast?_concat]
  exact ⟨_, rfl⟩

/-- The members of a written block are read back. -/
theorem blockMembers_eq (h : w.ReadAs d) {ms : List WrittenMember} {members : List Member}
    (hmembers : w.members? = some ms) (hlayout : WrittenMember.layout? env ms = some members) :
    blockMembers env d = .ok members := by
  obtain ⟨place, hinside⟩ := h.exists_memberTokens?_eq hmembers
  rw [blockMembers, hinside]
  exact WrittenMember.pack_listLexemes hlayout place

/-! ### The words before a type -/

theorem isOneOf_name (name : Name) {words : List String}
    (hwords : ∀ keyword ∈ words, keyword ∈ storageKeywords ++ qualifiers) (p : Nat) :
    ((word name.toIdent).token p).isOneOf words = false := by
  rw [Token.isOneOf, List.any_eq_false]
  intro keyword hkeyword
  simpa using name.text_ne (hwords keyword hkeyword)

/-- A storage keyword before a name is found exactly if it is the one asked for. -/
theorem after?_cons_name {keyword : String} (hkeyword : keyword ∈ storageKeywords) {first : Ident}
    (hfirst : first.text ∈ storageKeywords) (name : Name) (p q : Nat) (ts : List Token) :
    after? keyword ((word first).token p :: (word name.toIdent).token q :: ts) =
      if first.text = keyword then some ((word name.toIdent).token q :: ts) else none := by
  have hname : name.text ≠ keyword := name.text_ne (List.mem_append_left _ hkeyword)
  have hleading : isLeading ((word first).token p) = true := by
    rw [isLeading, Token.isOneOf, List.any_eq_true.mpr ⟨_, hfirst, by simp⟩, Bool.true_or]
  -- The search passes over the storage keyword and stops at the name.
  have hplain : isLeading ((word name.toIdent).token q) = false := by
    rw [isLeading, isOneOf_name name (fun _ => List.mem_append_left _),
      isOneOf_name name (fun _ => List.mem_append_right _), Bool.or_false]
  simp [after?, hleading, hplain, hname]

/-- A written type and name are read back. -/
theorem typedName_cons (glslType name : Name) (p q : Nat) :
    typedName d [(word glslType.toIdent).token p, (word name.toIdent).token q] =
      .ok (glslType.text, name.text) := by
  have hplain := isOneOf_name glslType (fun _ => List.mem_append_right storageKeywords) p
  simp [typedName, hplain]

/-- Of the storage keywords only the first word of a body is found before its type or name. -/
theorem exists_after?_head (h : w.ReadAs d) (first : Ident) {name : Name} {ls : List Lexeme}
    (hfront : w.front = .word first :: .word name.toIdent :: ls)
    (hfirst : first.text ∈ storageKeywords) :
    ∃ place, ∀ keyword ∈ storageKeywords, after? keyword (head d) =
      if first.text = keyword then some (tokens place (.word name.toIdent :: ls)) else none := by
  obtain ⟨place, hhead⟩ := h.exists_head_eq
  refine ⟨fun i => place (i + 1), ?_⟩
  intro keyword hkeyword
  rw [hhead, hfront]
  exact after?_cons_name hkeyword hfirst name _ _ _

/-- The first word of a body decides how it is read. -/
theorem exists_ofDeclaration_eq (h : w.ReadAs d) (env : TypeEnv) (first : Ident) {name : Name}
    {ls : List Lexeme} (hfront : w.front = .word first :: .word name.toIdent :: ls)
    (hfirst : first.text ∈ storageKeywords) :
    ∃ place, Item.ofDeclaration env d =
      if first.text = "in" then ofInput d (tokens place (.word name.toIdent :: ls))
      else if first.text = "out" then ofOutput d
      else if first.text = "buffer" then
        ofDescriptor env .buffer d (tokens place (.word name.toIdent :: ls))
      else if first.text = "uniform" then
        ofUniform env d (tokens place (.word name.toIdent :: ls))
      else if marksSpecConstant d then ofSpecConstant d
      else .error (.unrecognized d.text) := by
  obtain ⟨place, hafter⟩ := h.exists_after?_head first hfront hfirst
  simp only [storageKeywords, List.forall_mem_cons] at hafter
  obtain ⟨hin, hout, huniform, hbuffer, -⟩ := hafter
  refine ⟨place, ?_⟩
  rw [Item.ofDeclaration, hin, hout, hbuffer, huniform]
  -- Each question is whether the first word is one keyword, and the first yes decides.
  by_cases hisIn : first.text = "in"
  · simp only [if_pos hisIn]
  by_cases hisOut : first.text = "out"
  · simp only [if_neg hisIn, if_pos hisOut, Option.isSome_some, if_true]
  by_cases hisBuffer : first.text = "buffer"
  · simp only [if_neg hisIn, if_neg hisOut, if_pos hisBuffer, Option.isSome_none,
      Bool.false_eq_true, if_false]
  by_cases hisUniform : first.text = "uniform"
  · simp only [if_neg hisIn, if_neg hisOut, if_neg hisBuffer, if_pos hisUniform,
      Option.isSome_none, Bool.false_eq_true, if_false]
  · simp only [if_neg hisIn, if_neg hisOut, if_neg hisBuffer, if_neg hisUniform,
      Option.isSome_none, Bool.false_eq_true, if_false]

/-! ### Numbers of a qualifier -/

theorem sameWord_self (word : String) : Token.sameWord word word = true := by
  simp [Token.sameWord]

/-- The entry with a key is read from the written entry with that key. -/
theorem entry?_eq (h : w.ReadAs d) (key : String) :
    d.entry? key = (w.entries.find? fun e => Token.sameWord e.key.text key).map
      WrittenEntry.entry := by
  rw [Declaration.entry?, h.entries, List.find?_map]
  rfl

theorem word?_eq (h : w.ReadAs d) {key : String} {e : WrittenEntry} {n : UInt32}
    (hfind : w.entries.find? (fun e => Token.sameWord e.key.text key) = some e)
    (hvalue : e.value? = some n) : d.word? key = .ok (some n) := by
  have hentry : d.entry? key = some e.entry := by rw [h.entry?_eq, hfind, Option.map_some]
  simp only [Declaration.word?, hentry, WrittenEntry.entry, hvalue, Option.map_some,
    Option.bind_some, decimal?_repr]

theorem word_eq (h : w.ReadAs d) {key : String} {e : WrittenEntry} {n : UInt32}
    (hfind : w.entries.find? (fun e => Token.sameWord e.key.text key) = some e)
    (hvalue : e.value? = some n) : d.word key = .ok n := by
  rw [Declaration.word, h.word?_eq hfind hvalue]

theorem word?_eq_none (h : w.ReadAs d) {key : String}
    (hfind : w.entries.find? (fun e => Token.sameWord e.key.text key) = none) :
    d.word? key = .ok none := by
  have hentry : d.entry? key = none := by rw [h.entry?_eq, hfind, Option.map_none]
  rw [Declaration.word?, hentry]

/-- The set and the binding of a descriptor are read back. -/
theorem bindingEntries_eq (h : w.ReadAs d) {set? : Option UInt32} {binding : UInt32}
    (hentries : w.entries = bindingEntries set? binding) :
    d.word? "set" = .ok set? ∧ d.word "binding" = .ok binding := by
  have hset : Token.sameWord "set" "binding" = false := by decide
  have hbinding : Token.sameWord "binding" "set" = false := by decide
  constructor
  · cases set? with
    | none =>
      apply h.word?_eq_none
      simp [hentries, bindingEntries, Ident.binding, hbinding]
    | some set =>
      apply h.word?_eq (e := ⟨.set, some set⟩) _ rfl
      simp [hentries, bindingEntries, Ident.set, sameWord_self]
  · apply h.word_eq (e := ⟨.binding, some binding⟩) _ rfl
    cases set? <;>
      simp [hentries, bindingEntries, Ident.set, Ident.binding, hset, sameWord_self]

/-! ### The kinds of declaration -/

theorem ofDeclaration_vertexInput {location : UInt32} {glslType name : Name}
    (h : (vertexInput location glslType name).ReadAs d) :
    Item.ofDeclaration env d = .ok (.vertexInput location glslType.text name.text) := by
  obtain ⟨place, hread⟩ := h.exists_ofDeclaration_eq env .in_ rfl (by decide)
  have hlocation : d.word "location" = .ok location :=
    h.word_eq (e := ⟨.location, some location⟩)
      (List.find?_cons_of_pos (sameWord_self "location")) rfl
  have hin : Ident.in_.text = "in" := rfl
  rw [hread, if_pos hin]
  simp only [ofInput, h.hasBlock, members?, Option.isSome_none, Bool.false_eq_true, if_false,
    hlocation, tokens_cons, tokens_nil, typedName_cons]
  rfl

theorem ofDeclaration_output {location? : Option UInt32} {glslType name : Name}
    (h : (output location? glslType name).ReadAs d) :
    Item.ofDeclaration env d = .ok (.output location? (output location? glslType name).text) := by
  obtain ⟨place, hread⟩ := h.exists_ofDeclaration_eq env .out rfl (by decide)
  have hlocation : d.word? "location" = .ok location? := by
    cases location? with
    | none => exact h.word?_eq_none rfl
    | some location =>
      exact h.word?_eq (e := ⟨.location, some location⟩)
        (List.find?_cons_of_pos (sameWord_self "location")) rfl
  rw [hread]
  simp only [Ident.out, ofOutput, hlocation, h.text]
  rfl

/-- A uniform or a buffer with a binding is read as a descriptor. -/
theorem exists_ofDeclaration_eq_ofDescriptor (h : w.ReadAs d) (env : TypeEnv)
    (storage : BlockStorage) {name : Name} {ls : List Lexeme}
    (hfront : w.front = .word (.ofStorage storage) :: .word name.toIdent :: ls)
    {set? : Option UInt32} {binding : UInt32} (hentries : w.entries = bindingEntries set? binding) :
    ∃ place, Item.ofDeclaration env d =
      ofDescriptor env storage d (tokens place (.word name.toIdent :: ls)) := by
  obtain ⟨place, hread⟩ := h.exists_ofDeclaration_eq env (.ofStorage storage) hfront
    (by cases storage <;> decide)
  have hpush : marksPushConstants d = false := by
    rw [marksPushConstants, h.entries, hentries]
    cases set? <;> simp [bindingEntries, WrittenEntry.entry]
  refine ⟨place, ?_⟩
  rw [hread]
  cases storage with
  | uniform => simp [Ident.ofStorage, ofUniform, hpush]
  | buffer => simp [Ident.ofStorage]

theorem ofDeclaration_block {storage : BlockStorage} {set? : Option UInt32} {binding : UInt32}
    {name : Name} {ms : List WrittenMember} {members : List Member}
    (h : (block storage set? binding name ms).ReadAs d)
    (hlayout : WrittenMember.layout? env ms = some members) :
    Item.ofDeclaration env d = .ok (.descriptor (set?.getD 0) binding name.text (blockKind storage)
      (.ofNat (WrittenMember.total env ms)) members) := by
  have hkind : storage.kind = blockKind storage := by cases storage <;> rfl
  obtain ⟨place, hread⟩ := h.exists_ofDeclaration_eq_ofDescriptor env storage rfl rfl
  obtain ⟨hset, hbinding⟩ := h.bindingEntries_eq rfl
  have hname : blockName d (tokens place [.word name.toIdent]) = .ok name.text := by
    simp [blockName]
  have htotal := WrittenMember.totalSize_of_layout? hlayout d.offset
  rw [hread]
  simp only [ofDescriptor, hset, hbinding, h.hasBlock, members?, Option.isSome_some, if_true,
    hname, h.blockMembers_eq rfl hlayout, htotal, hkind, bind, Except.bind]
  rfl

theorem ofDeclaration_opaqueUniform {set? : Option UInt32} {binding : UInt32}
    {glslType name : Name} {kind : DescriptorKind}
    (h : (opaqueUniform set? binding glslType name).ReadAs d)
    (hkind : env.opaqueKind? glslType.text = some kind) :
    Item.ofDeclaration env d =
      .ok (.descriptor (set?.getD 0) binding name.text kind 0 []) := by
  obtain ⟨place, hread⟩ := h.exists_ofDeclaration_eq_ofDescriptor env .uniform rfl rfl
  obtain ⟨hset, hbinding⟩ := h.bindingEntries_eq rfl
  have hopaque : env.opaqueKind glslType.text = .ok kind := by rw [TypeEnv.opaqueKind, hkind]
  rw [hread]
  simp only [ofDescriptor, hset, hbinding, h.hasBlock, members?, Option.isSome_none,
    Bool.false_eq_true, if_false, tokens_cons, tokens_nil, typedName_cons, hopaque, bind,
    Except.bind]
  rfl

theorem ofDeclaration_pushBlock {name : Name} {ms : List WrittenMember} {members : List Member}
    (h : (pushBlock name ms).ReadAs d) (hlayout : WrittenMember.layout? env ms = some members) :
    Item.ofDeclaration env d = .ok (.pushConstants members) := by
  obtain ⟨place, hread⟩ := h.exists_ofDeclaration_eq env (.ofStorage .uniform) rfl (by decide)
  have hpush : marksPushConstants d = true := by
    simp [marksPushConstants, h.entries, Written.entries, WrittenEntry.entry, Ident.pushConstant,
      sameWord_self]
  rw [hread]
  simp only [Ident.ofStorage, ofUniform, hpush, if_true,
    h.blockMembers_eq rfl hlayout]
  rfl

theorem ofDeclaration_specConstant {id : UInt32} {glslType name : Name} {value : Literal}
    (h : (specConstant id glslType name value).ReadAs d) :
    Item.ofDeclaration env d = .ok (.specConstant id glslType.text name.text) := by
  have hfirst : Ident.const.text ∈ storageKeywords := by decide
  obtain ⟨_, hread⟩ := h.exists_ofDeclaration_eq env .const rfl hfirst
  obtain ⟨place, hafter⟩ := h.exists_after?_head .const rfl hfirst
  have hconst := (hafter "const" hfirst).trans (if_pos rfl)
  have hmark : marksSpecConstant d = true := by
    simp [marksSpecConstant, h.entries, Written.entries, WrittenEntry.entry, Ident.constantId,
      sameWord_self]
  have hid : d.word "constant_id" = .ok id :=
    h.word_eq (e := ⟨.constantId, some id⟩)
      (List.find?_cons_of_pos (sameWord_self "constant_id")) rfl
  rw [hread]
  simp only [hmark, if_true, ofSpecConstant, hid, hconst, bind, Except.bind]
  -- The default value starts at the sign after the name.
  simp [Ident.const, Sign.char, typedName_cons]
  rfl

/-- A declaration read from a written one declares its item. -/
theorem ofDeclaration (h : w.ReadAs d) (hitem : w.item? env = some item) :
    Item.ofDeclaration env d = .ok item := by
  cases w with
  | vertexInput location glslType name =>
    cases hitem
    exact h.ofDeclaration_vertexInput
  | output location? glslType name =>
    cases hitem
    exact h.ofDeclaration_output
  | block storage set? binding name ms =>
    obtain ⟨members, hlayout, rfl⟩ := Option.map_eq_some_iff.mp hitem
    exact h.ofDeclaration_block hlayout
  | opaqueUniform set? binding glslType name =>
    obtain ⟨kind, hkind, rfl⟩ := Option.map_eq_some_iff.mp hitem
    exact h.ofDeclaration_opaqueUniform hkind
  | pushBlock name ms =>
    obtain ⟨members, hlayout, rfl⟩ := Option.map_eq_some_iff.mp hitem
    exact h.ofDeclaration_pushBlock hlayout
  | specConstant id glslType name value =>
    cases hitem
    exact h.ofDeclaration_specConstant

end Written.ReadAs

end Glint

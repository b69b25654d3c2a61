import Glint.Proofs.FaultPlaces
import Glint.Proofs.ItemAccess
import Mathlib.Data.List.TakeWhile

/-!
# What the words before a type decide

A declaration begins with storage keywords and qualifiers, and the first other token ends them.
What the declaration declares is decided by these words, by the entries of its qualifier and by
whether it has a block. Nothing that stands behind them has a say, however it is spelled: no
type, no name and no member.

## Main definitions

* `Item.leadingWords` — the storage keywords and qualifiers at the start of a declaration
* `Item.Alternative`, `Item.alternative` — what is declared, without its data
* `Item.Decided` — the alternative that the leading words decide on
* `Outcome.Yields` — a result with a property, or an error about what is declared

## Main results

* `Item.ofDeclaration_cases` — the leading words decide how a declaration is read
* `Item.Decided.unique` — they decide on one alternative at most
* `Item.ofDeclaration_decided` — the alternative that a declaration takes
-/

namespace Glint

open Text

/-! ### Outcomes of one alternative -/

namespace Outcome

variable {α β : Type} {P : α → Prop} {Q : β → Prop} {x : Except ReflectError α}

/-- The outcome is a result with a property, or an error other than that a declaration is not
recognized. -/
inductive Yields (P : α → Prop) : Except ReflectError α → Prop
  | ok {a : α} (h : P a) : Yields P (.ok a)
  | error {e : ReflectError} (h : ∀ text, e ≠ .unrecognized text) : Yields P (.error e)

namespace Yields

theorem malformed (offset : Nat) (fault : Fault) : Yields P (.error (.malformed offset fault)) :=
  .error nofun

theorem bind {f : α → Except ReflectError β} (h : Yields P x) (hgo : ∀ a, P a → Yields Q (f a)) :
    Yields Q (x >>= f) := by
  cases h with
  | ok ha => exact hgo _ ha
  | error he => exact .error he

theorem map {f : α → β} (h : Yields P x) (hgo : ∀ a, P a → Q (f a)) : Yields Q (x.map f) := by
  cases h with
  | ok ha => exact .ok (hgo _ ha)
  | error he => exact .error he

theorem of_eq_ok (h : Yields P x) {a : α} (hx : x = .ok a) : P a := by
  subst hx
  cases h with
  | ok ha => exact ha

theorem ne_unrecognized (h : Yields P x) (text : String) : x ≠ .error (.unrecognized text) := by
  cases h with
  | ok ha => exact nofun
  | error he => exact fun hx => he text (Except.error.inj hx)

end Yields

/-- The outcome is not the error that a declaration is not recognized. -/
abbrev Recognized (x : Except ReflectError α) : Prop :=
  Yields (fun _ => True) x

/-- A reader that tells the places of its faults recognizes what it reads. -/
theorem FailsAt.recognized {place : Nat → Prop} (h : FailsAt place x) : Recognized x := by
  cases x with
  | ok a => exact .ok trivial
  | error e =>
    apply Yields.error
    intro text he
    have hat := h e rfl
    rwa [he] at hat

end Outcome

open Outcome (Yields Recognized)

namespace Item

variable {env : TypeEnv} {d : Declaration} {rest : List Token} {word : String} {t : Token}

/-! ### Leading words -/

/-- The storage keywords and qualifiers of a body before its first other token. -/
def leadingWords (d : Declaration) : List String :=
  (d.body.takeWhile isLeading).map Token.text

theorem isIdent_of_isLeading (h : isLeading t = true) : t.isIdent = true := by
  simp only [isLeading, Token.isOneOf, Bool.or_eq_true, List.any_eq_true, Token.spells,
    Bool.and_eq_true] at h
  rcases h with ⟨_, -, hident, -⟩ | ⟨_, -, hident, -⟩ <;> exact hident

/-- The leading words of a body stand before its block. -/
theorem takeWhile_head (d : Declaration) :
    (head d).takeWhile isLeading = d.body.takeWhile isLeading := by
  rw [head, List.takeWhile_takeWhile]
  congr 1
  funext t
  -- A leading word is an identifier, so it is no brace.
  cases h : isLeading t with
  | false => simp
  | true => simp [Token.isPunct_of_isIdent (isIdent_of_isLeading h)]

/-- A keyword is found exactly if it is a leading word. -/
theorem after?_head_eq_none_iff (hword : word ∈ storageKeywords) :
    after? word (head d) = none ↔ word ∉ leadingWords d := by
  have hspells : ∀ t ∈ d.body.takeWhile isLeading, t.spells word = false ↔ t.text ≠ word := by
    intro t ht
    have hident := isIdent_of_isLeading (List.mem_takeWhile_imp ht)
    simp [Token.spells, hident]
  rw [after?_eq hword, takeWhile_head, Option.map_eq_none_iff, keyword?,
    List.findIdx?_eq_none_iff, leadingWords, List.mem_map]
  simp only [not_exists, not_and]
  exact forall₂_congr hspells

theorem mem_leadingWords_of_after? (hword : word ∈ storageKeywords)
    (h : after? word (head d) = some rest) : word ∈ leadingWords d := by
  by_contra hnone
  rw [(after?_head_eq_none_iff hword).mpr hnone] at h
  cases h

/-! ### The alternatives -/

/-- The entries are `push_constant` alone, without a value. -/
def MarksPush (entries : List LayoutEntry) : Prop :=
  ∃ entry, entries = [entry] ∧ Token.sameWord entry.key "push_constant" = true ∧
    entry.value? = none

/-- The first entry is `constant_id`. -/
def MarksConstant (entries : List LayoutEntry) : Prop :=
  ∃ entry others, entries = entry :: others ∧ Token.sameWord entry.key "constant_id" = true

theorem marksPushConstants_iff : marksPushConstants d = true ↔ MarksPush d.entries := by
  rw [marksPushConstants, MarksPush]
  split
  · rename_i entry hentries
    simp [hentries]
  · rename_i hentries
    simp only [Bool.false_eq_true, false_iff]
    rintro ⟨entry, hentry, -⟩
    exact hentries entry hentry

theorem marksSpecConstant_iff : marksSpecConstant d = true ↔ MarksConstant d.entries := by
  rw [marksSpecConstant, MarksConstant]
  cases d.entries with
  | nil => simp
  | cons entry others => simp

/-- How a declaration is read, by its leading words. -/
inductive Reading (env : TypeEnv) (d : Declaration) : Except ReflectError Item → Prop
  | input (rest : List Token) (hin : "in" ∈ leadingWords d) : Reading env d (ofInput d rest)
  | output (hin : "in" ∉ leadingWords d) (hout : "out" ∈ leadingWords d) :
    Reading env d (ofOutput d)
  | buffer {rest : List Token} (hin : "in" ∉ leadingWords d) (hout : "out" ∉ leadingWords d)
    (hbuffer : "buffer" ∈ leadingWords d) (hrest : rest <:+ head d) :
    Reading env d (ofDescriptor env .buffer d rest)
  | uniform {rest : List Token} (hin : "in" ∉ leadingWords d) (hout : "out" ∉ leadingWords d)
    (hbuffer : "buffer" ∉ leadingWords d) (huniform : "uniform" ∈ leadingWords d)
    (hrest : rest <:+ head d) : Reading env d (ofUniform env d rest)
  | other (hin : "in" ∉ leadingWords d) (hout : "out" ∉ leadingWords d)
    (hbuffer : "buffer" ∉ leadingWords d) (huniform : "uniform" ∉ leadingWords d) :
    Reading env d
      (if marksSpecConstant d then ofSpecConstant d else .error (.unrecognized d.text))

/-- The leading words decide how a declaration is read. -/
theorem reading (env : TypeEnv) (d : Declaration) : Reading env d (ofDeclaration env d) := by
  rw [ofDeclaration]
  -- One question after the other, and each answer is about the leading words.
  cases hin : after? "in" (head d) with
  | some rest => exact .input rest (mem_leadingWords_of_after? (by decide) hin)
  | none =>
    have hin := (after?_head_eq_none_iff (by decide)).mp hin
    cases hout : after? "out" (head d) with
    | some rest => exact .output hin (mem_leadingWords_of_after? (by decide) hout)
    | none =>
      have hout := (after?_head_eq_none_iff (by decide)).mp hout
      cases hbuffer : after? "buffer" (head d) with
      | some rest =>
        exact .buffer hin hout (mem_leadingWords_of_after? (by decide) hbuffer)
          (suffix_of_after? hbuffer)
      | none =>
        have hbuffer := (after?_head_eq_none_iff (by decide)).mp hbuffer
        cases huniform : after? "uniform" (head d) with
        | some rest =>
          exact .uniform hin hout hbuffer (mem_leadingWords_of_after? (by decide) huniform)
            (suffix_of_after? huniform)
        | none =>
          exact .other hin hout hbuffer ((after?_head_eq_none_iff (by decide)).mp huniform)

/-- What is declared, without its data. -/
inductive Alternative
  | inputBlock
  | vertexInput
  | output
  | pushConstants
  | descriptor
  | specConstant
  deriving DecidableEq, Repr

/-- The alternative that an item is. -/
def alternative : Item → Alternative
  | vertexInput .. => .vertexInput
  | inputBlock .. => .inputBlock
  | output .. => .output
  | descriptor .. => .descriptor
  | pushConstants .. => .pushConstants
  | specConstant .. => .specConstant

/-- The alternative that leading words decide on, with the entries of the declaration and whether
it has a block. -/
inductive Decided (words : List String) (entries : List LayoutEntry) (block : Bool) :
    Alternative → Prop
  | inputBlock (hin : "in" ∈ words) (hblock : block = true) :
    Decided words entries block .inputBlock
  | vertexInput (hin : "in" ∈ words) (hblock : block = false) :
    Decided words entries block .vertexInput
  | output (hin : "in" ∉ words) (hout : "out" ∈ words) : Decided words entries block .output
  | pushConstants (hin : "in" ∉ words) (hout : "out" ∉ words) (hbuffer : "buffer" ∉ words)
    (huniform : "uniform" ∈ words) (hmark : MarksPush entries) :
    Decided words entries block .pushConstants
  | descriptor (hin : "in" ∉ words) (hout : "out" ∉ words)
    (hstorage : "buffer" ∈ words ∨ "uniform" ∈ words)
    (hmark : "buffer" ∈ words ∨ ¬ MarksPush entries) : Decided words entries block .descriptor
  | specConstant (hin : "in" ∉ words) (hout : "out" ∉ words) (hbuffer : "buffer" ∉ words)
    (huniform : "uniform" ∉ words) (hmark : MarksConstant entries) :
    Decided words entries block .specConstant

/-- One alternative at most is decided on. -/
theorem Decided.unique {words : List String} {entries : List LayoutEntry} {block : Bool}
    {a b : Alternative} (h : Decided words entries block a) (h' : Decided words entries block b) :
    a = b := by
  -- Any two alternatives differ in a keyword, in the block or in the mark of push constants.
  cases h <;> cases h' <;> first | rfl | simp_all

theorem yields_ofInput :
    Yields (fun item => item.alternative = if d.hasBlock then .inputBlock else .vertexInput)
      (ofInput d rest) := by
  rw [ofInput]
  split
  · exact (d.failsAt_word? "location").recognized.bind fun _ _ => .ok rfl
  · refine (d.failsAt_word "location").recognized.bind fun _ _ => ?_
    exact (failsAt_typedName d rest).recognized.bind fun _ _ => .ok rfl

theorem yields_ofOutput : Yields (fun item => item.alternative = .output) (ofOutput d) :=
  (d.failsAt_word? "location").recognized.bind fun _ _ => .ok rfl

theorem yields_ofDescriptor (storage : BlockStorage) :
    Yields (fun item => item.alternative = .descriptor) (ofDescriptor env storage d rest) := by
  refine (d.failsAt_word? "set").recognized.bind fun _ _ => ?_
  refine (d.failsAt_word "binding").recognized.bind fun _ _ => ?_
  split
  · refine (failsAt_blockName d rest).recognized.bind fun _ _ => ?_
    refine failsAt_blockMembers.recognized.bind fun members _ => ?_
    exact (Member.failsAt_totalSize members d.offset).recognized.bind fun _ _ => .ok rfl
  · refine (failsAt_typedName d rest).recognized.bind fun typed _ => ?_
    exact (env.failsAt_opaqueKind (d.offset = ·) typed.1).recognized.bind fun _ _ => .ok rfl

theorem yields_pushConstants :
    Yields (fun item => item.alternative = .pushConstants)
      ((blockMembers env d).map Item.pushConstants) :=
  failsAt_blockMembers.recognized.map fun _ _ => rfl

theorem yields_ofSpecConstant :
    Yields (fun item => item.alternative = .specConstant) (ofSpecConstant d) := by
  refine (d.failsAt_word "constant_id").recognized.bind fun _ _ => ?_
  split
  · exact .malformed ..
  · exact (failsAt_typedName d _).recognized.bind fun _ _ => .ok rfl

/-- The outcome is an item of the alternative that the leading words decide on or an error about
it, or there is no such alternative. -/
theorem Reading.decided {x : Except ReflectError Item} (h : Reading env d x) :
    (∃ a, Decided (leadingWords d) d.entries d.hasBlock a ∧
        Yields (fun item => item.alternative = a) x) ∨
      (∀ a, ¬ Decided (leadingWords d) d.entries d.hasBlock a) ∧
        x = .error (.unrecognized d.text) := by
  cases h with
  | input rest hin =>
    have hyields : Yields (fun item => item.alternative =
        if d.hasBlock then .inputBlock else .vertexInput) (ofInput d rest) := yields_ofInput
    cases hblock : d.hasBlock with
    | true => exact .inl ⟨_, .inputBlock hin rfl, by simpa [hblock] using hyields⟩
    | false => exact .inl ⟨_, .vertexInput hin rfl, by simpa [hblock] using hyields⟩
  | output hin hout => exact .inl ⟨_, .output hin hout, yields_ofOutput⟩
  | buffer hin hout hbuffer hrest =>
    exact .inl ⟨_, .descriptor hin hout (.inl hbuffer) (.inl hbuffer), yields_ofDescriptor .buffer⟩
  | uniform hin hout hbuffer huniform hrest =>
    rw [ofUniform]
    split
    · rename_i hmark
      have hmark := marksPushConstants_iff.mp hmark
      exact .inl ⟨_, .pushConstants hin hout hbuffer huniform hmark, yields_pushConstants⟩
    · rename_i hmark
      have hmark := mt marksPushConstants_iff.mpr hmark
      exact .inl ⟨_, .descriptor hin hout (.inr huniform) (.inr hmark),
        yields_ofDescriptor .uniform⟩
  | other hin hout hbuffer huniform =>
    split
    · rename_i hmark
      have hmark := marksSpecConstant_iff.mp hmark
      exact .inl ⟨_, .specConstant hin hout hbuffer huniform hmark, yields_ofSpecConstant⟩
    · rename_i hmark
      have hmark := mt marksSpecConstant_iff.mpr hmark
      refine .inr ⟨?_, rfl⟩
      intro a ha
      cases ha with
      | inputBlock h _ => exact hin h
      | vertexInput h _ => exact hin h
      | output _ h => exact hout h
      | pushConstants _ _ _ h _ => exact huniform h
      | descriptor _ _ h _ => exact h.elim hbuffer huniform
      | specConstant _ _ _ _ h => exact hmark h

/-! ### Blocks of descriptors -/

/-- What is read of a descriptor with a block. -/
theorem ofDescriptor_eq_ok_of_hasBlock {storage : BlockStorage} {set binding size : UInt32}
    {name : String} {kind : DescriptorKind} {members : List Member} (hblock : d.hasBlock = true)
    (h : ofDescriptor env storage d rest = .ok (.descriptor set binding name kind size members)) :
    kind = storage.kind ∧ blockName d rest = .ok name ∧ blockMembers env d = .ok members := by
  simp only [ofDescriptor, hblock, if_true, Outcome.bind_eq_ok, Outcome.pure_eq_ok] at h
  obtain ⟨_, -, _, -, _, hname, _, hmembers, _, -, hitem⟩ := h
  cases hitem
  exact ⟨rfl, hname, hmembers⟩

/-- The body of a declaration names a block: the token before its first brace is the name. -/
def NamesBlock (body : List Token) (name : String) : Prop :=
  ∃ before t brace after, body = before ++ t :: brace :: after ∧
    (∀ other ∈ before, other.isPunct '{' = false) ∧ t.isIdent = true ∧ t.text = name ∧
      brace.isPunct '{' = true

/-- A body with a block is its head, a brace and the rest. -/
theorem exists_body_eq (hblock : d.hasBlock = true) :
    ∃ brace after, d.body = head d ++ brace :: after ∧ brace.isPunct '{' = true ∧
      ∀ t ∈ head d, t.isPunct '{' = false := by
  have hfound : (d.body.find? (·.isPunct '{')).isSome = true := by
    rwa [List.isSome_find?]
  obtain ⟨brace, hbrace⟩ := Option.isSome_iff_exists.mp hfound
  obtain ⟨hpunct, opening, after, hbody, hopening⟩ := List.find?_eq_some_iff_append.mp hbrace
  have hhead : head d = opening := by
    rw [head, hbody, List.takeWhile_append_of_pos hopening, List.takeWhile_cons, hpunct]
    simp
  refine ⟨brace, after, by rw [hhead, hbody], hpunct, ?_⟩
  simpa [hhead] using hopening

theorem namesBlock_of_blockName {name : String} (hblock : d.hasBlock = true)
    (hrest : rest <:+ head d) (h : blockName d rest = .ok name) : NamesBlock d.body name := by
  rw [blockName] at h
  split at h
  · rename_i t ht
    split at h
    · rename_i hident
      cases h
      obtain ⟨init, rfl⟩ := List.getLast?_eq_some_iff.mp ht
      obtain ⟨before, hhead⟩ := hrest
      obtain ⟨brace, after, hbody, hbrace, hnone⟩ := exists_body_eq hblock
      rw [← hhead, ← List.append_assoc] at hbody hnone
      refine ⟨before ++ init, t, brace, after, by rw [hbody]; simp, ?_, hident, rfl, hbrace⟩
      exact fun other hother => hnone other (List.mem_append_left _ hother)
    · cases h
  · cases h

/-- A descriptor with a block has the kind that the leading words say, the name before its brace
and the members of the block. -/
theorem ofDeclaration_block {set binding size : UInt32} {name : String} {kind : DescriptorKind}
    {members : List Member} (hblock : d.hasBlock = true)
    (h : ofDeclaration env d = .ok (.descriptor set binding name kind size members)) :
    kind = (if "buffer" ∈ leadingWords d then .storageBuffer else .uniformBuffer) ∧
      NamesBlock d.body name ∧ blockMembers env d = .ok members := by
  have hreading := reading env d
  rw [h] at hreading
  generalize hx : Except.ok (Item.descriptor set binding name kind size members) = x at hreading
  -- The readers of other items yield another alternative.
  cases hreading with
  | input rest hin =>
    have halt := yields_ofInput.of_eq_ok hx.symm
    rw [hblock] at halt
    cases halt
  | output hin hout => cases yields_ofOutput.of_eq_ok hx.symm
  | buffer hin hout hbuffer hrest =>
    obtain ⟨rfl, hname, hmembers⟩ := ofDescriptor_eq_ok_of_hasBlock hblock hx.symm
    rw [if_pos hbuffer]
    exact ⟨rfl, namesBlock_of_blockName hblock hrest hname, hmembers⟩
  | uniform hin hout hbuffer huniform hrest =>
    rw [ofUniform] at hx
    split at hx
    · cases yields_pushConstants.of_eq_ok hx.symm
    · obtain ⟨rfl, hname, hmembers⟩ := ofDescriptor_eq_ok_of_hasBlock hblock hx.symm
      rw [if_neg hbuffer]
      exact ⟨rfl, namesBlock_of_blockName hblock hrest hname, hmembers⟩
  | other hin hout hbuffer huniform =>
    split at hx
    · cases yields_ofSpecConstant.of_eq_ok hx.symm
    · cases hx

/-- The item of a declaration is of the alternative that is decided on. -/
theorem decided_of_ofDeclaration {item : Item} (h : ofDeclaration env d = .ok item) :
    Decided (leadingWords d) d.entries d.hasBlock item.alternative := by
  rcases (reading env d).decided with ⟨a, ha, hyields⟩ | ⟨-, herror⟩
  · rwa [hyields.of_eq_ok h]
  · rw [h] at herror
    cases herror

/-- A declaration is not recognized exactly if no alternative is decided on. -/
theorem ofDeclaration_eq_unrecognized_iff {text : String} :
    ofDeclaration env d = .error (.unrecognized text) ↔
      (∀ a, ¬ Decided (leadingWords d) d.entries d.hasBlock a) ∧ text = d.text := by
  rcases (reading env d).decided with ⟨a, ha, hyields⟩ | ⟨hnone, herror⟩
  · constructor
    · intro h
      exact absurd h (hyields.ne_unrecognized text)
    · rintro ⟨hnone, -⟩
      exact absurd ha (hnone a)
  · rw [herror]
    simp [hnone, eq_comm]

/-- The leading words of a declaration, its entries and whether it has a block decide which
alternative it takes. It is an item of this alternative or fails for another reason, and if there
is none it is not recognized. Declarations that agree in these take the same alternative. A
descriptor with a block has the kind that the leading words say and the name before its brace. -/
theorem ofDeclaration_decided (env : TypeEnv) (d : Declaration) :
    (∀ item, ofDeclaration env d = .ok item →
      Decided (leadingWords d) d.entries d.hasBlock item.alternative) ∧
    (∀ text, ofDeclaration env d = .error (.unrecognized text) ↔
      (∀ a, ¬ Decided (leadingWords d) d.entries d.hasBlock a) ∧ text = d.text) ∧
    (∀ (env' : TypeEnv) (d' : Declaration), leadingWords d' = leadingWords d →
      d'.entries = d.entries → d'.hasBlock = d.hasBlock →
        (∀ item item', ofDeclaration env d = .ok item → ofDeclaration env' d' = .ok item' →
          item'.alternative = item.alternative) ∧
        (ofDeclaration env d = .error (.unrecognized d.text) ↔
          ofDeclaration env' d' = .error (.unrecognized d'.text))) ∧
    ∀ set binding name kind size members, d.hasBlock = true →
      ofDeclaration env d = .ok (.descriptor set binding name kind size members) →
        kind = (if "buffer" ∈ leadingWords d then .storageBuffer else .uniformBuffer) ∧
        NamesBlock d.body name ∧ blockMembers env d = .ok members := by
  refine ⟨fun item => decided_of_ofDeclaration, fun text => ofDeclaration_eq_unrecognized_iff,
    ?_, ?_⟩
  · intro env' d' hwords hentries hblock
    constructor
    · intro item item' h h'
      have hdecided := decided_of_ofDeclaration h'
      rw [hwords, hentries, hblock] at hdecided
      exact hdecided.unique (decided_of_ofDeclaration h)
    · rw [ofDeclaration_eq_unrecognized_iff, ofDeclaration_eq_unrecognized_iff, hwords, hentries,
        hblock]
      simp
  · intro set binding name kind size members
    exact ofDeclaration_block

/-- A block with the keyword `buffer`, of any name. -/
def bufferBlock (name : String) : Declaration :=
  ⟨0, "", [⟨"std430", none⟩, ⟨"binding", some "1"⟩],
    Token.scan ("readonly buffer " ++ name ++ " { vec4 in; } uniform")⟩

theorem ofDeclaration_decided_bufferBlock :
    (∃ size members, ofDeclaration .glsl (bufferBlock "In") =
        .ok (.descriptor 0 1 "In" .storageBuffer size members) ∧
      NamesBlock (bufferBlock "In").body "In" ∧
      blockMembers .glsl (bufferBlock "In") = .ok members) ∧
    ∃ item, ofDeclaration .glsl (bufferBlock "Uniform") = .ok item ∧
      item.alternative = .descriptor := by
  have hread : ofDeclaration .glsl (bufferBlock "In") =
      .ok (.descriptor 0 1 "In" .storageBuffer 16 [⟨"in", "vec4", 16, 0, none⟩]) := by
    decide +kernel
  obtain ⟨-, -, hsame, hblock⟩ := ofDeclaration_decided .glsl (bufferBlock "In")
  obtain ⟨-, hname, hmembers⟩ := hblock _ _ _ _ _ _ (by decide +kernel) hread
  refine ⟨⟨_, _, hread, hname, hmembers⟩, ?_⟩
  -- The other block has another name and the same leading words.
  have hother : (ofDeclaration .glsl (bufferBlock "Uniform")).isOk = true := by decide +kernel
  cases hitem : ofDeclaration .glsl (bufferBlock "Uniform") with
  | error e =>
    rw [hitem] at hother
    cases hother
  | ok item =>
    have halike := hsame .glsl (bufferBlock "Uniform") (by decide +kernel) rfl (by decide +kernel)
    exact ⟨item, rfl, halike.1 _ item hread hitem⟩

end Item

end Glint

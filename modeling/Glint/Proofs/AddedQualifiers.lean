import Glint.Proofs.SelectingKeyword
import Glint.Proofs.Unplaced
import Mathlib.Data.List.Find

/-!
# Qualifiers around the keyword

Qualifiers say how memory is accessed, how precise a value is and how it is interpolated. They may
stand before and behind the keyword that a declaration is read by, as many as there are, and none
of them changes what is declared. Before the keyword they are passed over in search of it, and
behind it they are passed over in search of the type. The name of a block is the last word before
its brace, and so it is found behind them, too.

## Main definitions

* `Item.AddsQualifiers` — words with qualifiers added to them
* `Item.Requalified` — a declaration with qualifiers added around its keyword
* `Item.withText` — the item with another text of its declaration

## Main results

* `Item.IsReadBy.requalified` — with more qualifiers a declaration is read by the same keyword
* `Item.ofDeclaration_requalified` — it declares the same
-/

namespace Glint.Item

variable {env : TypeEnv} {d d' : Declaration} {word : String} {item : Item}
  {lead lead' rest added ts : List Token} {t t' keyword : Token}

/-! ### Added qualifiers -/

/-- The words `lead'` are those of `lead`, which may stand at other places, with qualifiers before
them, between them and behind them. -/
inductive AddsQualifiers : List Token → List Token → Prop
  | nil : AddsQualifiers [] []
  | keep {t t' : Token} {lead lead' : List Token} (ht : t'.unplaced = t.unplaced)
    (h : AddsQualifiers lead lead') : AddsQualifiers (t :: lead) (t' :: lead')
  | add {q : Token} {lead lead' : List Token} (hq : q.isOneOf qualifiers = true)
    (h : AddsQualifiers lead lead') : AddsQualifiers lead (q :: lead')

theorem spells_of_unplaced_eq (h : t'.unplaced = t.unplaced) (word : String) :
    t'.spells word = t.spells word :=
  congrArg (·.spells word) h

theorem isLeading_of_unplaced_eq (h : t'.unplaced = t.unplaced) : isLeading t' = isLeading t := by
  have hplace (t : Token) : isLeading t.unplaced = isLeading t := rfl
  rw [← hplace t', h, hplace]

namespace AddsQualifiers

/-- What is true of all words and of qualifiers is true when qualifiers are added. -/
theorem forall_mem {P : Token → Prop} (h : AddsQualifiers lead lead')
    (hplace : ∀ t t' : Token, t'.unplaced = t.unplaced → P t → P t')
    (hadd : ∀ q : Token, q.isOneOf qualifiers = true → P q) (hlead : ∀ t ∈ lead, P t) :
    ∀ t ∈ lead', P t := by
  induction h with
  | nil => exact hlead
  | keep ht _ ih =>
    obtain ⟨hfirst, hmore⟩ := List.forall_mem_cons.mp hlead
    exact List.forall_mem_cons.mpr ⟨hplace _ _ ht hfirst, ih hmore⟩
  | add hq _ ih => exact List.forall_mem_cons.mpr ⟨hadd _ hq, ih hlead⟩

theorem isLeading (h : AddsQualifiers lead lead') (hlead : ∀ t ∈ lead, isLeading t = true) :
    ∀ t ∈ lead', Item.isLeading t = true :=
  h.forall_mem (P := fun t => Item.isLeading t = true)
    (fun _ _ ht h => (isLeading_of_unplaced_eq ht).trans h) (fun _ => isLeading_of_isOneOf) hlead

theorem of_nil (h : AddsQualifiers [] lead') : ∀ q ∈ lead', q.isOneOf qualifiers = true :=
  h.forall_mem (P := fun q => q.isOneOf qualifiers = true)
    (fun _ _ ht hq => (congrArg (·.isOneOf qualifiers) ht).trans hq) (fun _ hq => hq)
    (List.forall_mem_nil _)

/-- The same storage keywords are among the words. -/
theorem any_spells (h : AddsQualifiers lead lead') (hword : word ∈ storageKeywords) :
    lead'.any (·.spells word) = lead.any (·.spells word) := by
  induction h with
  | nil => rfl
  | keep ht _ ih => rw [List.any_cons, List.any_cons, ih, spells_of_unplaced_eq ht]
  | add hq _ ih => rw [List.any_cons, ih, spells_of_isOneOf hq hword, Bool.false_or]

/-- The qualifiers behind the last word can be taken off. -/
theorem exists_eq_append {before : List Token} (h : AddsQualifiers (before ++ [keyword]) lead') :
    ∃ before' keyword' added, lead' = before' ++ [keyword'] ++ added ∧
      AddsQualifiers before before' ∧ keyword'.unplaced = keyword.unplaced ∧
      ∀ q ∈ added, q.isOneOf qualifiers = true := by
  -- The induction is on the added qualifiers, and the last word is met when nothing is before it.
  generalize hlead : before ++ [keyword] = lead at h
  induction h generalizing before with
  | nil => exact absurd hlead (List.append_ne_nil_of_right_ne_nil _ (List.cons_ne_nil _ _))
  | @keep t t' lead lead' ht h ih =>
    cases before with
    | nil =>
      obtain ⟨rfl, rfl⟩ := List.cons.inj hlead
      exact ⟨[], t', lead', rfl, .nil, ht, h.of_nil⟩
    | cons first before =>
      obtain ⟨rfl, hmore⟩ := List.cons.inj hlead
      obtain ⟨before', keyword', added, rfl, hbefore, hkeyword, hadded⟩ := ih hmore
      exact ⟨t' :: before', keyword', added, rfl, .keep ht hbefore, hkeyword, hadded⟩
  | @add q lead lead' hq h ih =>
    obtain ⟨before', keyword', added, rfl, hbefore, hkeyword, hadded⟩ := ih hlead
    exact ⟨q :: before', keyword', added, rfl, .add hq hbefore, hkeyword, hadded⟩

theorem unplaced (h : AddsQualifiers lead lead') :
    AddsQualifiers (lead.map Token.unplaced) (lead'.map Token.unplaced) := by
  induction h with
  | nil => exact .nil
  | keep ht _ ih => exact .keep (congrArg Token.unplaced ht) ih
  | add hq _ ih => exact .add hq ih

end AddsQualifiers

/-! ### The keyword stays the same -/

/-- A body that begins with leading words has a leading word among them, or among those that
follow. -/
theorem mem_leadingWords_iff_of_append (hbody : d.body = lead ++ rest)
    (hleading : ∀ t ∈ lead, isLeading t = true) :
    word ∈ leadingWords d ↔
      lead.any (·.spells word) = true ∨ word ∈ (rest.takeWhile isLeading).map Token.text := by
  have hlead : word ∈ lead.map Token.text ↔ lead.any (·.spells word) = true := by
    rw [List.mem_map, List.any_eq_true]
    apply exists_congr
    intro t
    apply and_congr_right
    intro ht
    simp [Token.spells, isIdent_of_isLeading (hleading t ht)]
  rw [leadingWords, hbody, List.takeWhile_append_of_pos hleading, List.map_append,
    List.mem_append, hlead]

namespace IsReadBy

theorem unplaced (h : IsReadBy d word lead rest) :
    IsReadBy d.unplaced word (lead.map Token.unplaced) (rest.map Token.unplaced) where
  selector := by
    have hwords : leadingWords d.unplaced = leadingWords d := by
      rw [leadingWords, Declaration.unplaced, List.takeWhile_map, List.map_map]
      rfl
    rw [selector?, hwords]
    exact h.selector
  body := by rw [Declaration.unplaced, h.body, List.map_append]
  first := by
    obtain ⟨before, keyword, rfl, hkeyword, hbefore⟩ := h.first
    refine ⟨before.map Token.unplaced, keyword.unplaced, by simp, hkeyword, ?_⟩
    exact List.forall_mem_map.mpr hbefore

/-- With qualifiers added to the words up to its keyword, a declaration is read by the same
keyword. -/
theorem requalified (h : IsReadBy d word lead rest) (hadd : AddsQualifiers lead lead')
    (hbody : d'.body = lead' ++ rest) :
    ∃ upTo added, IsReadBy d' word upTo (added ++ rest) ∧
      ∀ q ∈ added, q.isOneOf qualifiers = true := by
  have hword := mem_storageKeywords_of_selector? h.selector
  -- The same storage keywords are asked for, with the same answers.
  have hselector : selector? d' = some word := by
    rw [← h.selector, selector?, selector?]
    apply List.find?_congr
    intro other hother
    have hstorage := mem_storageKeywords_of_mem_selectionOrder hother
    rw [decide_eq_decide, mem_leadingWords_iff_of_append h.body h.isLeading,
      ← hadd.any_spells hstorage]
    exact mem_leadingWords_iff_of_append hbody (hadd.isLeading h.isLeading)
  obtain ⟨before, keyword, rfl, hkeyword, hbefore⟩ := h.first
  obtain ⟨before', keyword', added, rfl, hadd', hkeyword', hadded⟩ := hadd.exists_eq_append
  refine ⟨before' ++ [keyword'], added, ⟨hselector, ?_, before', keyword', rfl, ?_, ?_⟩, hadded⟩
  · rw [hbody, List.append_assoc]
  · rw [spells_of_unplaced_eq hkeyword', hkeyword]
  · apply hadd'.forall_mem _ _ hbefore
    · rintro t t' ht ⟨hleading, hother⟩
      exact ⟨(isLeading_of_unplaced_eq ht).trans hleading,
        (spells_of_unplaced_eq ht word).trans hother⟩
    · intro q hq
      exact ⟨isLeading_of_isOneOf hq, spells_of_isOneOf hq hword⟩

end IsReadBy

/-! ### The item stays the same -/

/-- The item with another text of its declaration. -/
def withText (text : String) : Item → Item
  | inputBlock location? _ => inputBlock location? text
  | output location? _ => output location? text
  | item => item

/-- The declarations start at the same byte and have the same entries, and the same block or none.
-/
structure SameBlock (d d' : Declaration) : Prop where
  offset : d'.offset = d.offset
  entries : d'.entries = d.entries
  hasBlock : d'.hasBlock = d.hasBlock
  memberTokens : memberTokens? d'.body = memberTokens? d.body

namespace SameBlock

variable (h : SameBlock d d')

include h

theorem word?_eq (key : String) : d'.word? key = d.word? key := by
  rw [Declaration.word?, Declaration.entry?, h.entries, h.offset, Declaration.word?,
    Declaration.entry?]

theorem word_eq (key : String) : d'.word key = d.word key := by
  rw [Declaration.word, h.word?_eq key, h.offset, Declaration.word]

theorem blockMembers_eq : blockMembers env d' = blockMembers env d := by
  rw [Item.blockMembers, h.memberTokens, h.offset, Item.blockMembers]

theorem marksPushConstants_eq : marksPushConstants d' = marksPushConstants d := by
  rw [Item.marksPushConstants, h.entries, Item.marksPushConstants]

theorem marksSpecConstant_eq : marksSpecConstant d' = marksSpecConstant d := by
  rw [Item.marksSpecConstant, h.entries, Item.marksSpecConstant]

end SameBlock

section Added

variable (h : SameBlock d d') (hadded : ∀ q ∈ added, q.isOneOf qualifiers = true)

include hadded

/-- No qualifier is a punctuation character. -/
theorem takeWhile_added (c : Char) :
    (added ++ ts).takeWhile (fun t => !t.isPunct c) =
      added ++ ts.takeWhile fun t => !t.isPunct c := by
  apply List.takeWhile_append_of_pos
  intro q hq
  rw [isPunct_of_isLeading (isLeading_of_isOneOf (hadded q hq)), Bool.not_false]

include h

/-- Qualifiers before a type are passed over. -/
theorem typedName_added : typedName d' (added ++ ts) = typedName d ts := by
  rw [typedName, List.dropWhile_append_of_pos hadded, h.offset, typedName]

omit hadded in
/-- The last word before a block has no qualifier behind it. -/
theorem blockName_added {name : String} (hname : blockName d ts = .ok name) :
    blockName d' (added ++ ts) = .ok name := by
  rw [blockName] at hname ⊢
  cases hlast : ts.getLast? with
  | none =>
    rw [hlast] at hname
    cases hname
  | some t =>
    rw [hlast] at hname
    rw [List.getLast?_append, hlast, h.offset]
    exact hname

theorem ofInput_added : ofInput d' (added ++ ts) = (ofInput d ts).map (withText d'.text) := by
  rw [ofInput, ofInput, h.hasBlock, h.word?_eq, h.word_eq, typedName_added h hadded]
  split
  · cases d.word? "location" <;> rfl
  · cases d.word "location" with
    | error e => rfl
    | ok location => cases typedName d ts <;> rfl

omit hadded in
theorem ofOutput_added : ofOutput d' = (ofOutput d).map (withText d'.text) := by
  rw [ofOutput, ofOutput, h.word?_eq]
  cases d.word? "location" <;> rfl

theorem ofDescriptor_added {storage : BlockStorage}
    (hitem : ofDescriptor env storage d ts = .ok item) :
    ofDescriptor env storage d' (added ++ ts) = .ok (item.withText d'.text) := by
  obtain ⟨set, binding, name, kind, size, members, rfl⟩ := of_ofDescriptor hitem
  -- The item has no text.
  apply Eq.trans _ hitem
  rw [ofDescriptor, ofDescriptor, h.word?_eq, h.word_eq, h.hasBlock, h.blockMembers_eq, h.offset,
    typedName_added h hadded]
  cases hblock : d.hasBlock with
  | false => rfl
  | true =>
    obtain ⟨-, hname, -⟩ := ofDescriptor_eq_ok_of_hasBlock hblock hitem
    rw [hname, blockName_added h hname]

theorem ofUniform_added (hitem : ofUniform env d ts = .ok item) :
    ofUniform env d' (added ++ ts) = .ok (item.withText d'.text) := by
  rw [ofUniform] at hitem ⊢
  rw [h.marksPushConstants_eq, h.blockMembers_eq]
  split at hitem
  · rename_i hpush
    obtain ⟨members, -, rfl⟩ := Outcome.map_eq_ok.mp hitem
    rw [if_pos hpush, hitem]
    rfl
  · rename_i hpush
    rw [if_neg hpush, ofDescriptor_added h hadded hitem]

theorem ofConstant_added : ofConstant d' (added ++ ts) = (ofConstant d ts).map (withText d'.text) := by
  rw [ofConstant, ofConstant, takeWhile_added hadded, h.word_eq, typedName_added h hadded]
  cases d.word "constant_id" with
  | error e => rfl
  | ok id => cases typedName d (ts.takeWhile fun t => !t.isPunct '=') <;> rfl

/-- What a keyword declares, it declares with qualifiers behind it. -/
theorem ofKeyword_added (hitem : ofKeyword env d ts word = .ok item) :
    ofKeyword env d' (added ++ ts) word = .ok (item.withText d'.text) := by
  unfold ofKeyword at hitem ⊢
  -- The keywords in the order in which they are asked for.
  split at hitem
  · rw [ofInput_added h hadded, hitem]
    rfl
  · rw [ofOutput_added h, hitem]
    rfl
  · exact ofDescriptor_added h hadded hitem
  · exact ofUniform_added h hadded hitem
  · split at hitem
    · rename_i hmark
      rw [h.marksSpecConstant_eq, if_pos hmark, ofConstant_added h hadded, hitem]
      rfl
    · cases hitem

end Added

/-! ### Declarations with added qualifiers -/

theorem hasBlock_of_lead (hbody : d.body = lead ++ rest)
    (hlead : ∀ t ∈ lead, t.isPunct '{' = false) : d.hasBlock = rest.any (·.isPunct '{') := by
  have hnone : lead.any (·.isPunct '{') = false :=
    List.any_eq_false.mpr fun t ht => Bool.eq_false_iff.mp (hlead t ht)
  rw [Declaration.hasBlock, hbody, List.any_append, hnone, Bool.false_or]

theorem memberTokens?_of_lead (hbody : d.body = lead ++ rest)
    (hlead : ∀ t ∈ lead, t.isPunct '{' = false) : memberTokens? d.body = memberTokens? rest := by
  rw [memberTokens?, hbody, List.dropWhile_append_of_pos, memberTokens?]
  intro t ht
  rw [hlead t ht, Bool.not_false]

/-- Words before a block make no difference to it. -/
theorem SameBlock.of_lead (hoffset : d'.offset = d.offset) (hentries : d'.entries = d.entries)
    (hbody : d.body = lead ++ rest) (hbody' : d'.body = lead' ++ rest)
    (hlead : ∀ t ∈ lead, t.isPunct '{' = false) (hlead' : ∀ t ∈ lead', t.isPunct '{' = false) :
    SameBlock d d' where
  offset := hoffset
  entries := hentries
  hasBlock := by rw [hasBlock_of_lead hbody hlead, hasBlock_of_lead hbody' hlead']
  memberTokens := by rw [memberTokens?_of_lead hbody hlead, memberTokens?_of_lead hbody' hlead']

/-- Qualifiers added to the words up to its keyword do not change what a declaration declares. -/
theorem ofDeclaration_added (hread : IsReadBy d word lead rest) (hadd : AddsQualifiers lead lead')
    (hoffset : d'.offset = d.offset) (hentries : d'.entries = d.entries)
    (hbody : d'.body = lead' ++ rest) (hitem : ofDeclaration env d = .ok item) :
    ofDeclaration env d' = .ok (item.withText d'.text) := by
  obtain ⟨upTo, added, hread', hadded⟩ := hread.requalified hadd hbody
  have hlead' : ∀ t ∈ lead', t.isPunct '{' = false := fun t ht =>
    isPunct_of_isLeading (hadd.isLeading hread.isLeading t ht) '{'
  have hsame := SameBlock.of_lead hoffset hentries hread.body hbody (hread.isPunct '{') hlead'
  rw [ofDeclaration_eq_ofKeyword hread] at hitem
  rw [ofDeclaration_eq_ofKeyword hread', takeWhile_added hadded]
  exact ofKeyword_added hsame hadded hitem

/-- The declaration `d'` has the entries of `d`, and its tokens with qualifiers added before the
keyword that `d` is read by and directly behind it. Its text and the places of its tokens are its
own. -/
structure Requalified (d d' : Declaration) : Prop where
  entries : d'.entries = d.entries
  body : ∃ word lead lead' rest rest', IsReadBy d word lead rest ∧ AddsQualifiers lead lead' ∧
    rest'.map Token.unplaced = rest.map Token.unplaced ∧ d'.body = lead' ++ rest'

/-- A declaration that declares something is read by a keyword, and with qualifiers added before
this keyword and directly behind it, it declares the same. Only the text of the declaration, which
outputs and input blocks repeat, is another one. -/
theorem ofDeclaration_requalified (h : ofDeclaration env d = .ok item) :
    (∃ word lead rest, IsReadBy d word lead rest) ∧
      ∀ d', Requalified d d' → ofDeclaration env d' = .ok (item.withText d'.text) := by
  refine ⟨exists_isReadBy h, ?_⟩
  rintro d' ⟨hentries, word, lead, lead', rest, rest', hread, hadd, hrest, hbody⟩
  have hunplaced : ofDeclaration env d.unplaced = .ok item := by
    rw [ofDeclaration_unplaced, h, Outcome.unplace_ok]
  have hbody' : d'.unplaced.body = lead'.map Token.unplaced ++ rest.map Token.unplaced := by
    rw [Declaration.unplaced, hbody, List.map_append, hrest]
  -- Without places, the tokens behind the keyword are the same.
  have hitem : ofDeclaration env d'.unplaced = .ok (item.withText d'.text) :=
    ofDeclaration_added hread.unplaced hadd.unplaced rfl hentries hbody' hunplaced
  rwa [ofDeclaration_unplaced, Outcome.unplace_eq_ok] at hitem

/-- The name and the members of a block that stands at a byte. -/
def tints (start : Nat) : List Token :=
  [⟨.ident, "Tints", start⟩, ⟨.punct '{', "\x7b", start + 6⟩, ⟨.ident, "vec4", start + 8⟩,
    ⟨.ident, "tint", start + 13⟩, ⟨.punct ';', ";", start + 17⟩, ⟨.punct '}', "\x7d", start + 19⟩]

/-- A storage buffer. -/
def storedTints : Declaration :=
  ⟨0, "layout(binding = 1) buffer Tints \x7b vec4 tint; \x7d", [⟨"binding", some "1"⟩],
    ⟨.ident, "buffer", 20⟩ :: tints 27⟩

/-- A storage buffer with qualifiers before its keyword and behind it. -/
def readonlyTints : Declaration :=
  ⟨0, "layout(binding = 1) readonly buffer restrict Tints \x7b vec4 tint; \x7d",
    [⟨"binding", some "1"⟩],
    ⟨.ident, "readonly", 20⟩ :: ⟨.ident, "buffer", 29⟩ :: ⟨.ident, "restrict", 36⟩ :: tints 45⟩

/-- The qualifiers are neither taken for the name of the block nor for a keyword. -/
theorem ofDeclaration_requalified_tints :
    Requalified storedTints readonlyTints ∧
      ofDeclaration .glsl storedTints =
        .ok (.descriptor 0 1 "Tints" .storageBuffer 16 [⟨"tint", "vec4", 16, 0, none⟩]) ∧
      ofDeclaration .glsl readonlyTints =
        .ok (.descriptor 0 1 "Tints" .storageBuffer 16 [⟨"tint", "vec4", 16, 0, none⟩]) := by
  have hitem : ofDeclaration .glsl storedTints =
      .ok (.descriptor 0 1 "Tints" .storageBuffer 16 [⟨"tint", "vec4", 16, 0, none⟩]) := by
    decide +kernel
  have hread : IsReadBy storedTints "buffer" [⟨.ident, "buffer", 20⟩] (tints 27) :=
    ⟨by decide +kernel, rfl, [], _, rfl, by decide, List.forall_mem_nil _⟩
  have hadd : AddsQualifiers [⟨.ident, "buffer", 20⟩]
      [⟨.ident, "readonly", 20⟩, ⟨.ident, "buffer", 29⟩, ⟨.ident, "restrict", 36⟩] :=
    .add (by decide) (.keep rfl (.add (by decide) .nil))
  have hsame : Requalified storedTints readonlyTints :=
    ⟨rfl, "buffer", _, _, tints 27, tints 45, hread, hadd, rfl, rfl⟩
  exact ⟨hsame, hitem, (ofDeclaration_requalified hitem).2 _ hsame⟩

end Glint.Item

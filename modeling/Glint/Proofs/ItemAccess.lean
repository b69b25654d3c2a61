import Glint.Proofs.DeclarationAccess
import Glint.Proofs.PackedMembers

/-!
# Items by position

The words before a type, the members of a block and the value of a constant are ranges of the
body of a declaration, between positions that are searched for. Some branches are left to be
unreachable: a block whose braces are not in order, a member without a token, a block whose
size is no word although its members were packed, a block declared with another word than the
two for blocks. Written with checks, an item is found with sound accesses only, and no such
branch is reached.

## Main definitions

* `Text.lastIdx?` — the position of the last element that is a separator
* `Member.packAt` — the members of a block with checks
* `Item.ofDeclarationAt` — the item of a declaration with checks

## Main results

* `Declaration.Found.extent_body` — the braces of a body are in order
* `Item.ofDeclarationAt_eq` — the accesses made for an item are sound
-/

namespace Glint

open Text

/-! ### Ranges up to a position -/

namespace Text

variable {α : Type}

/-- The position of the last element that is a separator. -/
def lastIdx? (isSep : α → Bool) : List α → Option Nat
  | [] => none
  | a :: as =>
    match lastIdx? isSep as with
    | some index => some (index + 1)
    | none => if isSep a then some 0 else none

theorem lastIdx?_eq (isSep : α → Bool) (as : List α) :
    lastIdx? isSep as = (splitLast? isSep as).map fun parts => parts.1.length := by
  induction as with
  | nil => rfl
  | cons a as ih =>
    rw [lastIdx?, splitLast?, ih]
    cases splitLast? isSep as with
    | some parts => rfl
    | none => cases isSep a <;> rfl

/-- The range up to the position of the first separator, or up to the end if there is none. -/
def upTo? (isSep : α → Bool) (as : List α) : Option (List α) :=
  range? 0 ((as.findIdx? isSep).getD as.length) as

/-- The elements before the first separator. -/
theorem upTo?_eq (isSep : α → Bool) (as : List α) :
    upTo? isSep as = some (as.takeWhile (!isSep ·)) := by
  have hlength : (as.findIdx? isSep).getD as.length = (as.takeWhile (!isSep ·)).length := by
    induction as with
    | nil => rfl
    | cons a as ih =>
      rw [List.findIdx?_cons, List.takeWhile_cons]
      cases isSep a with
      | true => rfl
      | false =>
        rw [if_neg Bool.false_ne_true, Bool.not_false, if_pos rfl, List.length_cons, List.length_cons,
          ← ih]
        cases as.findIdx? isSep <;> rfl
  have hrange := range?_zero (as.takeWhile (!isSep ·)) (as.dropWhile (!isSep ·))
  rwa [List.takeWhile_append_dropWhile, ← hlength] at hrange

/-- The elements behind a position, as a range up to the end. -/
theorem range?_succ {index : Nat} {as : List α} (h : index < as.length) :
    range? (index + 1) as.length as = some (as.drop (index + 1)) := by
  have htake : (as.take (index + 1)).length = index + 1 := List.length_take_of_le h
  have hrange := range?_length (as.take (index + 1)) (as.drop (index + 1))
  rwa [List.take_append_drop, htake] at hrange

end Text

/-! ### Members -/

open Checked (outcome access fault)

namespace Word

/-- A sum of words that is made word by word. -/
theorem foldlM_add? (start : UInt32) (words : List UInt32) :
    words.foldlM add? start =
      if start.toNat + sum words < UInt32.size then
        some (UInt32.ofNat (start.toNat + sum words)) else none := by
  induction words generalizing start with
  | nil =>
    have hstart : start.toNat < UInt32.size := start.toNat_lt
    rw [sum_nil, Nat.add_zero, if_pos hstart, UInt32.ofNat_toNat]
    rfl
  | cons word words ih =>
    rw [List.foldlM_cons, sum_cons]
    cases hadd : add? start word with
    | none =>
      have hlarge : ¬ start.toNat + word.toNat < UInt32.size := by
        intro hsum
        rw [add?, if_pos hsum] at hadd
        cases hadd
      rw [if_neg (by omega)]
      rfl
    | some next =>
      have hnext := add?_eq_some_iff.mp hadd
      rw [Option.bind_eq_bind, Option.bind_some, ih, ← hnext, Nat.add_assoc]

theorem foldlM_add?_zero (words : List UInt32) : words.foldlM add? 0 = total? words := by
  rw [foldlM_add?, total?, UInt32.toNat_zero, Nat.zero_add]

end Word

namespace MemberShape

/-- The shape of a member, which has a token. -/
def readAt : List Token → Checked MemberShape
  | [] => fault
  | first :: more => outcome (read first more)

end MemberShape

namespace Member

/-- The refusal of a member that is too large, at its first token. -/
def tooLargeAt (field : List Token) (name : String) : Checked (List Member) := do
  let first ← access field[0]?
  outcome (.error (.malformed first.offset (.memberTooLarge name)))

/-- The members that a list of fields declares, packed from a byte offset on. -/
def packFieldsAt (env : TypeEnv) (offset : UInt32) : List (List Token) → Checked (List Member)
  | [] => return []
  | field :: fields => do
    let shape ← MemberShape.readAt field
    let element ← outcome (env.byteSize shape.glslType)
    match shape.size? element with
    | none => tooLargeAt field shape.name
    | some size =>
      match Word.add? offset size with
      | none => tooLargeAt field shape.name
      | some next => do
        let members ← packFieldsAt env next fields
        return ⟨shape.name, shape.glslType, size, offset, shape.array?⟩ :: members

/-- The members that a list of tokens declares. Empty fields are left out before. -/
def packAt (env : TypeEnv) (ts : List Token) : Checked (List Member) :=
  packFieldsAt env 0 ((splitWhere (·.isPunct ';') ts).filter (!·.isEmpty))

/-- The size of a block whose members were packed. -/
def sizeAt (members : List Member) : Checked UInt32 :=
  access ((members.map size).foldlM Word.add? 0)

variable {env : TypeEnv}

theorem packFieldsAt_eq (offset : UInt32) (fields : List (List Token)) :
    packFieldsAt env offset (fields.filter (!·.isEmpty)) =
      outcome (packFrom env offset fields) := by
  induction fields generalizing offset with
  | nil => rfl
  | cons field fields ih =>
    cases field with
    | nil => exact ih offset
    | cons first more =>
      rw [List.filter_cons_of_pos (by rfl), packFieldsAt, packFrom]
      refine Checked.outcome_bind _ fun shape _ => Checked.outcome_bind _ fun element _ => ?_
      cases shape.size? element with
      | none => rfl
      | some size =>
        dsimp only
        cases Word.add? offset size with
        | none => rfl
        | some next =>
          dsimp only
          rw [ih next]
          exact Checked.outcome_bind _ fun members _ => rfl

/-- The accesses made for the members of a block are sound, and no member is without a token. -/
theorem packAt_eq (ts : List Token) : packAt env ts = outcome (pack env ts) :=
  packFieldsAt_eq 0 _

/-- The size of members that were packed is a word. -/
theorem sizeAt_eq {ts : List Token} {members : List Member} (h : pack env ts = .ok members)
    (at_ : Nat) : sizeAt members = outcome (totalSize members at_) := by
  rw [sizeAt, Word.foldlM_add?_zero, totalSize, Word.total?, if_pos (sum_size_of_pack h)]
  rfl

end Member

/-! ### Blocks -/

namespace Declaration

variable {ts : List Token}

/-- Tokens without braces may be left out at the start of an extent. -/
theorem Extent.of_append {depth : Nat} {before : List Token}
    (hopenings : openings before = 0) (hclosings : closings before = 0)
    (h : Extent depth (before ++ ts)) : Extent depth ts where
  closed := by
    have := h.closed
    rw [openings_append, closings_append] at this
    omega
  covered := by
    intro part hpart
    have := h.covered (before ++ part) ((List.prefix_append_right_inj before).mpr hpart)
    rw [openings_append, closings_append] at this
    omega
  inside := by
    intro part t hpart ht
    have hprefix : before ++ part ++ [t] <+: before ++ ts := by
      rw [List.append_assoc]
      exact (List.prefix_append_right_inj before).mpr hpart
    have := h.inside (before ++ part) t hprefix ht
    rw [openings_append, closings_append] at this
    omega

/-- The braces of the body of a declaration are in order. -/
theorem Found.extent_body (f : Found) : Extent 0 f.body := by
  have h := f.extent_tokens
  rw [f.tokens_eq] at h
  refine h.of_append ?_ ?_
  · exact openings_eq_zero
      (f.isPunct_qualifier (by decide) (by decide) (by decide) (by decide))
  · exact closings_eq_zero
      (f.isPunct_qualifier (by decide) (by decide) (by decide) (by decide))

/-- The braces of every declaration that is read are in order. -/
theorem extent_body_of_readTokens {source : List Char} {ts : List Token}
    {ds : List Declaration} (h : readTokens source ts = .ok ds) : ∀ d ∈ ds, Extent 0 d.body := by
  intro d hd
  obtain ⟨fs, -, rfl⟩ := readTokens_eq_ok_iff.mp h
  obtain ⟨f, -, rfl⟩ := List.mem_map.mp hd
  exact f.extent_body

/-- A part of an extent that has no opening brace has no closing one if no brace is open. -/
theorem Extent.isPunct_eq_false (h : Extent 0 ts) {part : List Token} (hpart : part <+: ts)
    (hnone : ∀ t ∈ part, t.isPunct '{' = false) : ∀ t ∈ part, t.isPunct '}' = false := by
  have hcovered := h.covered part hpart
  rw [openings_eq_zero hnone] at hcovered
  have hzero : closings part = 0 := by omega
  intro t ht
  exact Bool.eq_false_iff.mpr (List.countP_eq_zero.mp hzero t ht)

/-- An opening brace is closed behind it. -/
theorem Extent.exists_closing {before rest : List Token} {brace : Token}
    (h : Extent 0 (before ++ brace :: rest)) (hbrace : brace.isPunct '{' = true) :
    ∃ inside after, splitLast? (·.isPunct '}') rest = some (inside, after) := by
  cases hsplit : splitLast? (·.isPunct '}') rest with
  | some parts => exact ⟨parts.1, parts.2, rfl⟩
  | none =>
    -- What is before the brace closes no more than it opens, and nothing is closed behind it.
    have hcovered := h.covered before (List.prefix_append _ _)
    have hclosed := h.closed
    have hbrace' := Token.isPunct_eq_false hbrace (d := '}') (by decide)
    rw [closings_append, openings_append, closings_cons, openings_cons,
      closings_eq_zero (splitLast?_eq_none_iff.mp hsplit), openings_singleton, closings_singleton,
      hbrace, hbrace', if_pos rfl, if_neg Bool.false_ne_true] at hclosed
    omega

/-- In a body with braces in order, the first opening brace stands before the last closing one,
and what lies between them are its members; or there is no brace. -/
theorem Extent.braces (h : Extent 0 ts) :
    (ts.findIdx? (·.isPunct '{') = none ∧ lastIdx? (·.isPunct '}') ts = none ∧
        Item.memberTokens? ts = none) ∨
      ∃ opening inside, ts.findIdx? (·.isPunct '{') = some opening ∧
        lastIdx? (·.isPunct '}') ts = some (opening + 1 + inside.length) ∧
        range? (opening + 1) (opening + 1 + inside.length) ts = some inside ∧
        Item.memberTokens? ts = some inside := by
  rw [lastIdx?_eq, Item.memberTokens?]
  cases hfind : ts.find? (·.isPunct '{') with
  | none =>
    have hnone : ∀ t ∈ ts, t.isPunct '{' = false := by
      simpa using List.find?_eq_none.mp hfind
    have hall : ∀ t ∈ ts, (!t.isPunct '{') = true := by simpa using hnone
    have hdrop : (ts ++ []).dropWhile (fun t : Token => !t.isPunct '{') = [] :=
      List.dropWhile_append_of_pos hall
    rw [List.append_nil] at hdrop
    refine .inl ⟨List.findIdx?_eq_none_iff.mpr hnone, ?_, ?_⟩
    · rw [splitLast?_eq_none_iff.mpr (h.isPunct_eq_false (List.prefix_refl ts) hnone)]
      rfl
    · rw [hdrop]
      rfl
  | some brace =>
    -- The last closing brace stands behind the first opening one, so it is the last of the rest.
    obtain ⟨hbrace, before, rest, rfl, hbefore⟩ := List.find?_eq_some_iff_append.mp hfind
    have hnone : ∀ t ∈ before, t.isPunct '{' = false := by simpa using hbefore
    have hdrop : ((before ++ brace :: rest).dropWhile (fun t => !t.isPunct '{')).drop 1 = rest := by
      rw [List.dropWhile_append_of_pos hbefore, List.dropWhile_cons, hbrace]
      rfl
    have hindex : (before ++ brace :: rest).findIdx? (·.isPunct '{') = some before.length := by
      rw [List.findIdx?_append, List.findIdx?_eq_none_iff.mpr hnone, List.findIdx?_cons, hbrace]
      simp
    obtain ⟨inside, after, hlast⟩ := h.exists_closing hbrace
    obtain ⟨closing, hrest, -⟩ := exists_of_splitLast? hlast
    have hlast' : splitLast? (·.isPunct '}') (before ++ brace :: rest) =
        some (before ++ brace :: inside, after) := by
      have := splitLast?_append hlast (before ++ [brace])
      rwa [List.append_assoc, List.append_assoc] at this
    have hrange := range?_append (before ++ [brace]) inside (closing :: after)
    refine .inr ⟨before.length, inside, hindex, ?_, ?_, ?_⟩
    · rw [hlast']
      simp
      omega
    · simpa [hrest] using hrange
    · rw [hdrop, hlast]
      rfl

end Declaration

/-! ### The words before a type -/

namespace Item

/-- The position of a keyword among leading words. -/
def keyword? (word : String) (leading : List Token) : Option Nat :=
  leading.findIdx? (·.spells word)

/-- The tokens behind a position, up to the end. -/
def behindAt (index : Nat) (ts : List Token) : Checked (List Token) :=
  access (range? (index + 1) ts.length ts)

/-- The members between the first opening and the last closing brace. That these are not in
order, or that only one of them is there, must not happen. -/
def blockMembersAt (env : TypeEnv) (d : Declaration) : Checked (List Member) :=
  match d.body.findIdx? (·.isPunct '{'), lastIdx? (·.isPunct '}') d.body with
  | some opening, some closing => do
    let inside ← access (range? (opening + 1) closing d.body)
    Member.packAt env inside
  | none, none => outcome (.error (.malformed d.offset .missingMembers))
  | _, _ => fault

/-- The item of a declaration with the keyword `in` at a position of the head. -/
def ofInputAt (d : Declaration) (head : List Token) (index : Nat) : Checked Item :=
  if d.hasBlock then do
    let location? ← outcome (d.word? "location")
    return .inputBlock location? d.text
  else do
    let location ← outcome (d.word "location")
    let rest ← behindAt index head
    let (glslType, name) ← outcome (typedName d rest)
    return .vertexInput location glslType name

/-- The item of a declaration with a storage keyword, which `rest` follows. The size of a block
whose members were packed is there, and so is the kind of a block with this keyword. -/
def ofDescriptorAt (env : TypeEnv) (d : Declaration) (storage : String) (rest : List Token) :
    Checked Item :=
  if storage == "uniform" && marksPushConstants d then do
    let members ← blockMembersAt env d
    return .pushConstants members
  else do
    let set? ← outcome (d.word? "set")
    let set := set?.getD 0
    let binding ← outcome (d.word "binding")
    if d.hasBlock then
      let name ← outcome (blockName d rest)
      let members ← blockMembersAt env d
      let size ← Member.sizeAt members
      let storage ← access (BlockStorage.ofKeyword? storage)
      return .descriptor set binding name storage.kind size members
    else
      let (glslType, name) ← outcome (typedName d rest)
      let kind ← outcome (env.opaqueKind glslType)
      return .descriptor set binding name kind 0 []

/-- The item of a specialization constant with the keyword `const` at a position of the head, if
it is there. -/
def ofSpecConstantAt (d : Declaration) (head : List Token) (index? : Option Nat) :
    Checked Item := do
  let id ← outcome (d.word "constant_id")
  match index? with
  | none => outcome (.error (.malformed d.offset .constantNotConst))
  | some index => do
    let rest ← behindAt index head
    let typed ← access (upTo? (·.isPunct '=') rest)
    let (glslType, name) ← outcome (typedName d typed)
    return .specConstant id glslType name

/-- What a declaration declares. -/
def ofDeclarationAt (env : TypeEnv) (d : Declaration) : Checked Item := do
  let head ← access (upTo? (·.isPunct '{') d.body)
  let leading ← access (upTo? (!isLeading ·) head)
  match keyword? "in" leading with
  | some index => ofInputAt d head index
  | none =>
    if (keyword? "out" leading).isSome then outcome (ofOutput d)
    else
      match keyword? "buffer" leading with
      | some index => do
        let rest ← behindAt index head
        ofDescriptorAt env d "buffer" rest
      | none =>
        match keyword? "uniform" leading with
        | some index => do
          let rest ← behindAt index head
          ofDescriptorAt env d "uniform" rest
        | none =>
          if marksSpecConstant d then ofSpecConstantAt d head (keyword? "const" leading)
          else outcome (.error (.unrecognized d.text))

variable {env : TypeEnv} {d : Declaration}

theorem isLeading_of_spells {word : String} (hword : word ∈ storageKeywords) {t : Token}
    (ht : t.spells word = true) : isLeading t = true := by
  rw [isLeading, Token.isOneOf, List.any_eq_true.mpr ⟨word, hword, ht⟩, Bool.true_or]

/-- A keyword counts as long as only leading words stand before it. -/
theorem after?_eq {word : String} (hword : word ∈ storageKeywords) (head : List Token) :
    after? word head =
      (keyword? word (head.takeWhile isLeading)).map fun index => head.drop (index + 1) := by
  induction head with
  | nil => rfl
  | cons t ts ih =>
    rw [after?, List.takeWhile_cons]
    by_cases ht : t.spells word = true
    · rw [if_pos ht, isLeading_of_spells hword ht, if_pos rfl, keyword?, List.findIdx?_cons, ht]
      rfl
    · rw [if_neg ht, ih]
      split
      · rw [keyword?, keyword?, List.findIdx?_cons, Bool.eq_false_iff.mpr ht,
          if_neg Bool.false_ne_true, Option.map_map]
        rfl
      · rfl

/-- The position of a keyword lies in the head. -/
theorem behindAt_eq {word : String} {head : List Token} {index : Nat}
    (h : keyword? word (head.takeWhile isLeading) = some index) :
    behindAt index head = outcome (.ok (head.drop (index + 1))) := by
  have hindex : index < head.length :=
    (List.findIdx?_eq_some_iff_getElem.mp h).1.trans_le (List.takeWhile_prefix _).length_le
  rw [behindAt, range?_succ hindex]
  rfl

theorem blockMembersAt_eq (h : Declaration.Extent 0 d.body) :
    blockMembersAt env d = outcome (blockMembers env d) := by
  rw [blockMembersAt, blockMembers]
  obtain ⟨hopening, hclosing, hmembers⟩ | ⟨opening, inside, hopening, hclosing, hrange, hmembers⟩ :=
    h.braces
  · rw [hopening, hclosing, hmembers]
  · rw [hopening, hclosing, hmembers]
    dsimp only
    rw [hrange]
    exact Member.packAt_eq inside

/-- Braces in another order are an access that fails. -/
example : blockMembersAt .empty ⟨0, "", [], [⟨.punct '}', "", 0⟩, ⟨.punct '{', "", 1⟩]⟩ = fault :=
  rfl

theorem ofKeyword?_keyword (storage : BlockStorage) :
    BlockStorage.ofKeyword? storage.keyword = some storage := by
  cases storage <;> decide

theorem blockMembers_eq_ok {members : List Member} (h : blockMembers env d = .ok members) :
    ∃ ts, Member.pack env ts = .ok members := by
  rw [blockMembers] at h
  split at h
  · exact ⟨_, h⟩
  · cases h

theorem ofInputAt_eq {head : List Token} {index : Nat}
    (h : keyword? "in" (head.takeWhile isLeading) = some index) :
    ofInputAt d head index = outcome (ofInput d (head.drop (index + 1))) := by
  rw [ofInputAt, ofInput]
  split
  · exact Checked.outcome_bind _ fun location? _ => rfl
  · refine Checked.outcome_bind _ fun location _ => ?_
    rw [behindAt_eq h, Checked.outcome_ok_bind]
    exact Checked.outcome_bind _ fun typed _ => rfl

theorem ofDescriptorAt_eq (h : Declaration.Extent 0 d.body) (storage : BlockStorage)
    (rest : List Token)
    (hpush : (storage.keyword == "uniform" && marksPushConstants d) = false) :
    ofDescriptorAt env d storage.keyword rest = outcome (ofDescriptor env storage d rest) := by
  rw [ofDescriptorAt, ofDescriptor, hpush, if_neg Bool.false_ne_true]
  refine Checked.outcome_bind _ fun set? _ => Checked.outcome_bind _ fun binding _ => ?_
  dsimp only
  split
  · refine Checked.outcome_bind _ fun name _ => ?_
    rw [blockMembersAt_eq h]
    refine Checked.outcome_bind _ fun members hmembers => ?_
    -- The size is a word because every end of a member was checked to be one.
    obtain ⟨ts, hpack⟩ := blockMembers_eq_ok hmembers
    rw [Member.sizeAt_eq hpack d.offset]
    refine Checked.outcome_bind _ fun size _ => ?_
    rw [ofKeyword?_keyword]
    rfl
  · exact Checked.outcome_bind _ fun typed _ => Checked.outcome_bind _ fun kind _ => rfl

theorem ofDescriptorAt_uniform (h : Declaration.Extent 0 d.body) (rest : List Token) :
    ofDescriptorAt env d "uniform" rest = outcome (ofUniform env d rest) := by
  rw [ofUniform]
  cases hpush : marksPushConstants d with
  | true =>
    rw [ofDescriptorAt, hpush, blockMembersAt_eq h]
    cases blockMembers env d <;> rfl
  | false => exact ofDescriptorAt_eq h .uniform rest (by rw [hpush, Bool.and_false])

theorem ofSpecConstantAt_eq :
    ofSpecConstantAt d (head d) (keyword? "const" ((head d).takeWhile isLeading)) =
      outcome (ofSpecConstant d) := by
  rw [ofSpecConstantAt, ofSpecConstant, after?_eq (by decide)]
  refine Checked.outcome_bind _ fun id _ => ?_
  cases hindex : keyword? "const" ((head d).takeWhile isLeading) with
  | none => rfl
  | some index =>
    dsimp only [Option.map]
    rw [behindAt_eq hindex, Checked.outcome_ok_bind, upTo?_eq]
    exact Checked.outcome_bind _ fun typed _ => rfl

/-- The accesses made for the item of a declaration are sound, if the braces of its body are in
order, and the branches that must not be reached are not. -/
theorem ofDeclarationAt_eq (h : Declaration.Extent 0 d.body) :
    ofDeclarationAt env d = outcome (ofDeclaration env d) := by
  have hhead : upTo? (·.isPunct '{') d.body = some (head d) := upTo?_eq _ _
  have hleading : upTo? (!isLeading ·) (head d) = some ((head d).takeWhile isLeading) := by
    simpa using upTo?_eq (!isLeading ·) (head d)
  rw [ofDeclarationAt, ofDeclaration, hhead, Checked.access_some, Checked.outcome_ok_bind, hleading,
    Checked.access_some, Checked.outcome_ok_bind, after?_eq (by decide), after?_eq (by decide),
    after?_eq (by decide), after?_eq (by decide), Option.isSome_map]
  cases hin : keyword? "in" ((head d).takeWhile isLeading) with
  | some index => exact ofInputAt_eq hin
  | none =>
    dsimp only [Option.map]
    split
    · rfl
    · cases hbuffer : keyword? "buffer" ((head d).takeWhile isLeading) with
      | some index =>
        dsimp only
        rw [behindAt_eq hbuffer]
        exact ofDescriptorAt_eq h .buffer _ rfl
      | none =>
        cases huniform : keyword? "uniform" ((head d).takeWhile isLeading) with
        | some index =>
          dsimp only
          rw [behindAt_eq huniform]
          exact ofDescriptorAt_uniform h _
        | none =>
          dsimp only
          split
          · exact ofSpecConstantAt_eq
          · rfl

end Item

end Glint

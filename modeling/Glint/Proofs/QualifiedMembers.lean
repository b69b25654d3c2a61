import Glint.Proofs.InlineStruct

/-!
# Members with qualifiers

The type and the name that a declaration begins with may have qualifiers before them, which are
passed over. The type and the name of a member may not: a field is a type and a name, and then an
array length or nothing. In a field with qualifiers the first two words are taken for the type and
the name, and the third one is an error. So no qualifier can be added to a field of a text that
declares members.

## Main definitions

* `Member.memberQualifiers` — the memory and precision qualifiers
* `Member.Prefixed` — a field with qualifiers before it
* `Member.FirstAdded` — the field that is the first one with qualifiers added to it

## Main results

* `Member.packFrom_prefixed` — the first field with a qualifier is an error
* `Member.ofText_prefixed_iff` — the same members are declared exactly if no qualifier was added
-/

namespace Glint

/-! ### The word behind a name -/

/-- Nothing but a bracket stands behind the name of a member. -/
theorem MemberShape.readArray_eq_error {name : String} {third : Token} {more : List Token}
    (h : third.isPunct '[' = false) :
    readArray name (third :: more) = .error (.malformed third.offset (.afterMember third.text name)) := by
  unfold readArray
  split <;> simp_all

/-- A field begins with two identifiers. -/
theorem MemberShape.IsField.exists_idents {shape : MemberShape} {field : List Token}
    (h : shape.IsField field) :
    ∃ type name more, field = type :: name :: more ∧ type.isIdent = true ∧ name.isIdent = true := by
  cases h with
  | intro htype hname _ => exact ⟨_, _, _, rfl, htype, hname⟩

namespace Member

variable {env : TypeEnv} {offset : UInt32} {m : Member} {ms : List Member}
  {field field' : List Token} {fs fs' rest : List (List Token)} {first second third : Token}
  {more : List Token} {text text' : String}

/-- The memory and precision qualifiers. -/
def memberQualifiers : List String :=
  ["readonly", "writeonly", "restrict", "coherent", "volatile", "highp", "mediump", "lowp"]

/-- The field has the tokens of another one, perhaps at other places, behind qualifiers. -/
def Prefixed (field field' : List Token) : Prop :=
  ∃ words, field'.map Token.unplaced = words ++ field.map Token.unplaced ∧
    ∀ q ∈ words, q.isOneOf memberQualifiers = true

/-- In the first field that has qualifiers added to it, these are the second and the third
token. -/
inductive FirstAdded (second third : Token) : List (List Token) → List (List Token) → Prop
  | here {field : List Token} {fs fs' : List (List Token)} {first : Token} {more : List Token}
    (hfield : Prefixed field (first :: second :: third :: more))
    (hlonger : field.length < (first :: second :: third :: more).length) :
    FirstAdded second third (field :: fs) ((first :: second :: third :: more) :: fs')
  | later {field field' : List Token} {fs fs' : List (List Token)}
    (hsame : field'.map Token.unplaced = field.map Token.unplaced)
    (h : FirstAdded second third fs fs') : FirstAdded second third (field :: fs) (field' :: fs')

/-! ### One field -/

/-- A field with a third token that is no bracket is an error. -/
theorem packFrom_eq_error (hfirst : first.isIdent = true) (hsecond : second.isIdent = true)
    (hthird : third.isPunct '[' = false) :
    packFrom env offset ((first :: second :: third :: more) :: fs) =
      .error (.malformed third.offset (.afterMember third.text second.text)) := by
  rw [packFrom, MemberShape.read, hfirst, hsecond, Bool.and_self, if_pos rfl,
    MemberShape.readArray_eq_error hthird]
  rfl

theorem isIdent_of_isOneOf {t : Token} {words : List String} (h : t.isOneOf words = true) :
    t.isIdent = true := by
  obtain ⟨word, -, hspells⟩ := List.any_eq_true.mp h
  exact (Bool.and_eq_true_iff.mp hspells).1

/-- Identifiers before two others leave two identifiers at the start. -/
theorem exists_two_idents {words : List Token} (hwords : ∀ q ∈ words, q.isIdent = true)
    (hfirst : first.isIdent = true) (hsecond : second.isIdent = true) :
    ∃ a b after, words ++ first :: second :: more = a :: b :: after ∧ a.isIdent = true ∧
      b.isIdent = true := by
  match words with
  | [] => exact ⟨first, second, more, rfl, hfirst, hsecond⟩
  | [q] => exact ⟨q, first, second :: more, rfl, hwords q List.mem_cons_self, hfirst⟩
  | q :: q' :: words =>
    obtain ⟨hq, hwords⟩ := List.forall_mem_cons.mp hwords
    exact ⟨q, q', _, rfl, hq, hwords q' List.mem_cons_self⟩

/-- A field with qualifiers added to it begins with three identifiers, if it declared a member
before. -/
theorem Prefixed.exists_eq_cons (hfield : Prefixed field field')
    (hother : field'.map Token.unplaced ≠ field.map Token.unplaced) (hm : DeclaredBy env m field) :
    ∃ first second third more, field' = first :: second :: third :: more ∧
      first.isIdent = true ∧ second.isIdent = true ∧ third.isIdent = true ∧
      field.length < field'.length := by
  obtain ⟨words, hmap, hwords⟩ := hfield
  obtain ⟨type, name, more, rfl, htype, hname⟩ := hm.isField.exists_idents
  cases words with
  | nil => exact absurd hmap hother
  | cons q words =>
    obtain ⟨hq, hwords⟩ := List.forall_mem_cons.mp hwords
    have hlength := congrArg List.length hmap
    have hidents : ∃ a b after,
        words ++ type.unplaced :: name.unplaced :: more.map Token.unplaced = a :: b :: after ∧
          a.isIdent = true ∧ b.isIdent = true :=
      exists_two_idents (fun q hq => isIdent_of_isOneOf (hwords q hq)) htype hname
    obtain ⟨second', third', after, hsplit, hsecond, hthird⟩ := hidents
    rw [List.cons_append, List.map_cons, List.map_cons, hsplit] at hmap
    obtain ⟨first, _, rfl, rfl, htail⟩ := List.map_eq_cons_iff.mp hmap
    obtain ⟨second, _, rfl, rfl, hbehind⟩ := List.map_eq_cons_iff.mp htail
    obtain ⟨third, more', rfl, rfl, -⟩ := List.map_eq_cons_iff.mp hbehind
    refine ⟨first, second, third, more', rfl, isIdent_of_isOneOf hq, hsecond, hthird, ?_⟩
    simp only [List.length_map, List.length_append, List.length_cons] at hlength ⊢
    omega

/-! ### All fields -/

/-- What follows a field that declares a member decides on the outcome. -/
theorem packFrom_cons_of_eq_ok (hfield : field ≠ [])
    (h : packFrom env offset (field :: rest) = .ok ms) :
    ∃ m next members, packFrom env next rest = .ok members ∧
      ∀ fs, packFrom env offset (field :: fs) = (packFrom env next fs).map (m :: ·) := by
  obtain ⟨first, more, rfl⟩ := List.exists_cons_of_ne_nil hfield
  obtain ⟨shape, element, size, next, members, hshape, helement, hsize, hnext, hmembers, -⟩ :=
    packFrom_cons_eq_ok_iff.mp h
  refine ⟨⟨shape.name, shape.glslType, size, offset, shape.array?⟩, next, members, hmembers, ?_⟩
  intro fs
  simp only [packFrom, hshape, helement, hsize, hnext, bind, Except.bind]
  cases packFrom env next fs <;> rfl

/-- Of fields that declare members, the first one with a qualifier added to it is an error. -/
theorem packFrom_prefixed (hfs : List.Forall₂ Prefixed fs fs') (hne : ∀ field ∈ fs, field ≠ [])
    (h : packFrom env offset fs = .ok ms) :
    fs'.map (List.map Token.unplaced) = fs.map (List.map Token.unplaced) ∨
      ∃ second third, FirstAdded second third fs fs' ∧
        packFrom env offset fs' =
          .error (.malformed third.offset (.afterMember third.text second.text)) := by
  induction hfs generalizing offset ms with
  | nil => exact .inl rfl
  | @cons field field' fs fs' hfield hfs ih =>
    -- Either the first field is as before and the others decide, or it is the error.
    obtain ⟨hfirst, hne⟩ := List.forall_mem_cons.mp hne
    by_cases hsame : field'.map Token.unplaced = field.map Token.unplaced
    · have h' : packFrom env offset (field' :: fs) = .ok ms := by
        rw [← Outcome.unplace_eq_ok, ← packFrom_unplaced, List.map_cons, hsame, ← List.map_cons,
          packFrom_unplaced, h, Outcome.unplace_ok]
      have hfirst' : field' ≠ [] := by
        rintro rfl
        exact hfirst (List.map_eq_nil_iff.mp hsame.symm)
      obtain ⟨m, next, members, hmembers, hgo⟩ := packFrom_cons_of_eq_ok hfirst' h'
      rcases ih hne hmembers with hrest | ⟨second, third, hadded, herror⟩
      · left
        rw [List.map_cons, List.map_cons, hsame, hrest]
      · right
        refine ⟨second, third, .later hsame hadded, ?_⟩
        rw [hgo, herror]
        rfl
    · obtain ⟨m, next, members, -, hm, -⟩ := (packFrom_cons_eq_ok_iff_declaredBy hfirst).mp h
      obtain ⟨first, second, third, more, rfl, hident, hident', hident'', hlonger⟩ :=
        hfield.exists_eq_cons hsame hm
      exact .inr ⟨second, third, .here hfield hlonger,
        packFrom_eq_error hident hident' (Token.isPunct_of_isIdent hident'' '[')⟩

/-- An empty field declares nothing. -/
theorem packFrom_filter (offset : UInt32) (fs : List (List Token)) :
    packFrom env offset (fs.filter (!·.isEmpty)) = packFrom env offset fs := by
  induction fs generalizing offset with
  | nil => rfl
  | cons field fs ih =>
    cases field with
    | nil => exact ih offset
    | cons first more =>
      rw [List.filter_cons_of_pos (by rfl)]
      simp only [packFrom, ih]

theorem ofText_eq_packFrom (env : TypeEnv) (text : String) :
    ofText env text = packFrom env 0 (fields (Token.scan text)) := by
  rw [ofText, pack, fields, packFrom_filter, Text.splitWhere_eq_splitOnP]

theorem fieldsOf_eq_map (text : String) :
    fieldsOf text = (fields (Token.scan text)).map (List.map Token.unplaced) := by
  rw [fieldsOf, fields, fields, ← Text.splitWhere_eq_splitOnP, ← Text.splitWhere_eq_splitOnP,
    Text.splitWhere_map, List.filter_map]
  congr 2
  funext field
  cases field <;> rfl

/-- To a text that declares members, no qualifier can be added: where one is, the third token of its
field is an error, and the same members are declared exactly if there is none. -/
theorem ofText_prefixed_iff (h : ofText env text = .ok ms)
    (hfields : List.Forall₂ Prefixed (fields (Token.scan text)) (fields (Token.scan text'))) :
    (ofText env text' = .ok ms ↔ fieldsOf text' = fieldsOf text) ∧
      (fieldsOf text' ≠ fieldsOf text → ∃ second third,
        FirstAdded second third (fields (Token.scan text)) (fields (Token.scan text')) ∧
          ofText env text' =
            .error (.malformed third.offset (.afterMember third.text second.text))) := by
  have hne : ∀ field ∈ fields (Token.scan text), field ≠ [] := by
    intro field hfield
    simpa using (List.mem_filter.mp hfield).2
  have hpack := h
  rw [ofText_eq_packFrom] at hpack
  have hcases := packFrom_prefixed hfields hne hpack
  rw [← fieldsOf_eq_map, ← fieldsOf_eq_map, ← ofText_eq_packFrom] at hcases
  constructor
  · constructor
    · intro h'
      rcases hcases with hsame | ⟨_, _, -, herror⟩
      · exact hsame
      · rw [h'] at herror
        cases herror
    · intro hsame
      rwa [ofText_eq_ok_iff, hsame, ← ofText_eq_ok_iff]
  · intro hother
    exact hcases.resolve_left hother

/-- A vector and an array. -/
def plainFields : String :=
  "vec4 tint; float depth[2];"

/-- The array has a qualifier. -/
def lowpFields : String :=
  "vec4 tint; lowp float depth[2];"

/-- The vector declares a member as before, and the name of the array is an error. -/
theorem ofText_prefixed_iff_lowp :
    ofText .glsl plainFields =
        .ok [⟨"tint", "vec4", 16, 0, none⟩, ⟨"depth", "float", 8, 16, some (.fixed 2)⟩] ∧
      List.Forall₂ Prefixed (fields (Token.scan plainFields)) (fields (Token.scan lowpFields)) ∧
      ∃ second third,
        FirstAdded second third (fields (Token.scan plainFields)) (fields (Token.scan lowpFields)) ∧
          ofText .glsl lowpFields =
            .error (.malformed third.offset (.afterMember third.text second.text)) := by
  have hitem : ofText .glsl plainFields =
      .ok [⟨"tint", "vec4", 16, 0, none⟩, ⟨"depth", "float", 8, 16, some (.fixed 2)⟩] := by
    decide +kernel
  have hplain : fields (Token.scan plainFields) =
      [[⟨.ident, "vec4", 0⟩, ⟨.ident, "tint", 5⟩],
        [⟨.ident, "float", 11⟩, ⟨.ident, "depth", 17⟩, ⟨.punct '[', "[", 22⟩, ⟨.number, "2", 23⟩,
          ⟨.punct ']', "]", 24⟩]] := by
    decide +kernel
  have hlowp : fields (Token.scan lowpFields) =
      [[⟨.ident, "vec4", 0⟩, ⟨.ident, "tint", 5⟩],
        [⟨.ident, "lowp", 11⟩, ⟨.ident, "float", 16⟩, ⟨.ident, "depth", 22⟩, ⟨.punct '[', "[", 27⟩,
          ⟨.number, "2", 28⟩, ⟨.punct ']', "]", 29⟩]] := by
    decide +kernel
  have hfields : List.Forall₂ Prefixed (fields (Token.scan plainFields))
      (fields (Token.scan lowpFields)) := by
    rw [hplain, hlowp]
    exact .cons ⟨[], rfl, List.forall_mem_nil _⟩
      (.cons ⟨[⟨.ident, "lowp", 0⟩], rfl, by decide⟩ .nil)
  have hother : fieldsOf lowpFields ≠ fieldsOf plainFields := by decide +kernel
  exact ⟨hitem, hfields, (ofText_prefixed_iff hitem hfields).2 hother⟩

/-- A member with the qualifier `highp` is an error, where a declaration with the same words has
the type and the name behind it. -/
theorem ofText_highp :
    List.Forall₂ Prefixed (fields (Token.scan "vec4 tint;")) (fields (Token.scan "highp vec4 tint;")) ∧
      ofText .glsl "vec4 tint;" = .ok [⟨"tint", "vec4", 16, 0, none⟩] ∧
      ofText .glsl "highp vec4 tint;" = .error (.malformed 11 (.afterMember "tint" "vec4")) ∧
      ∀ d, Item.typedName d (Token.scan "highp vec4 tint") = .ok ("vec4", "tint") := by
  have hplain : fields (Token.scan "vec4 tint;") = [[⟨.ident, "vec4", 0⟩, ⟨.ident, "tint", 5⟩]] := by
    decide +kernel
  have hhighp : fields (Token.scan "highp vec4 tint;") =
      [[⟨.ident, "highp", 0⟩, ⟨.ident, "vec4", 6⟩, ⟨.ident, "tint", 11⟩]] := by
    decide +kernel
  have htokens : Token.scan "highp vec4 tint" =
      [⟨.ident, "highp", 0⟩, ⟨.ident, "vec4", 6⟩, ⟨.ident, "tint", 11⟩] := by
    decide +kernel
  refine ⟨?_, by decide +kernel, by decide +kernel, ?_⟩
  · rw [hplain, hhighp]
    exact .cons ⟨[⟨.ident, "highp", 0⟩], rfl, by decide⟩ .nil
  · intro d
    rw [htokens]
    rfl

end Member

end Glint

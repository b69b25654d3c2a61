import Glint.Proofs.LineEnds
import Glint.Proofs.MemberFields
import Glint.Proofs.TypeExtension
import Glint.Proofs.Unplaced

/-!
# Members that stand in a block as one

Two texts with a semicolon between them, on a line of its own, declare the members of the first and
behind them those of the second, moved to where the first ones end. What stands in the middle of a
block therefore matters to what is around it by its size alone, and a structure can be a member of
its own or be written out member by member.

## Main definitions

* `Member.between` — a text in the middle of a block
* `Member.moved` — a member of a block that starts at an offset
* `StructType.followedBy?` — the members of one structure behind those of another

## Main results

* `StructType.ofText_joined_iff` — the members of two texts with a semicolon between them
* `StructType.ofText_between_iff` — the members of a text in the middle of a block
* `Member.ofText_inline_struct` — a structure as a member, and its members in its place
-/

namespace Glint

open Text

/-! ### The fields of joined texts -/

namespace Member

/-- The fields of a text, without the places of their tokens. -/
def fieldsOf (text : String) : List (List Token) :=
  fields ((Token.scan text).map Token.unplaced)

/-- A text in the middle of a block, between semicolons on lines of their own. -/
def between (before middle after : String) : String :=
  before ++ "\n;\n" ++ middle ++ "\n;\n" ++ after

/-- A semicolon on a line of its own is a token between those of the texts around it. -/
theorem scan_joined (before after : String) :
    ∃ at_ pos, Token.scan (before ++ "\n;\n" ++ after) =
      Token.scan before ++ ⟨.punct ';', ";", at_⟩ :: Token.scanFrom pos after.toList := by
  have htext : (before ++ "\n;\n" ++ after).toList =
      before.toList ++ '\n' :: ([';'] ++ '\n' :: after.toList) := by
    simp
  have hsemicolon (pos : Nat) : Token.scanFrom pos [';'] = [⟨.punct ';', ";", pos⟩] := by
    have hscan := Lexeme.scanFrom_chars (l := .sign .semicolon) (breaks_nil _) pos
    rwa [List.append_nil, Token.scanFrom] at hscan
  rw [Token.scan, htext, Token.scanFrom_append_feed, Token.scanFrom_append_feed, hsemicolon]
  exact ⟨_, _, rfl⟩

theorem fieldsOf_joined (before after : String) :
    fieldsOf (before ++ "\n;\n" ++ after) = fieldsOf before ++ fieldsOf after := by
  obtain ⟨at_, pos, hscan⟩ := scan_joined before after
  have hafter : (Token.scanFrom pos after.toList).map Token.unplaced =
      (Token.scan after).map Token.unplaced := Token.map_unplaced_scanFrom _ _ _
  rw [fieldsOf, hscan, List.map_append, List.map_cons, hafter, fields,
    List.splitOnP_append_cons _ _ rfl, List.filter_append]
  rfl

variable {env : TypeEnv} {text : String} {ms ms' : List Member} {start : Nat} {k : UInt32}
  {rest rest' : List (List Token)}

theorem ofText_eq_ok_iff :
    ofText env text = .ok ms ↔ List.Forall₂ (DeclaredBy env) ms (fieldsOf text) ∧ Packed 0 ms ∧
      Word.sum (ms.map size) < UInt32.size := by
  rw [ofText, ← Outcome.unplace_eq_ok, ← pack_unplaced, pack_eq_ok_iff]
  rfl

/-- Fields in two parts declare members in two parts. -/
theorem declared_append_iff :
    List.Forall₂ (DeclaredBy env) ms (rest ++ rest') ↔
      ∃ one two, ms = one ++ two ∧ List.Forall₂ (DeclaredBy env) one rest ∧
        List.Forall₂ (DeclaredBy env) two rest' := by
  constructor
  · intro h
    exact ⟨_, _, (List.take_append_drop rest.length ms).symm, List.forall₂_take_append _ _ _ h,
      List.forall₂_drop_append _ _ _ h⟩
  · rintro ⟨one, two, rfl, hone, htwo⟩
    exact List.rel_append hone htwo

theorem packed_append_iff :
    Packed start (ms ++ ms') ↔
      Packed start ms ∧ Packed (start + Word.sum (ms.map size)) ms' := by
  induction ms generalizing start with
  | nil => simp [Packed]
  | cons m ms ih =>
    rw [List.cons_append, Packed, Packed, ih, List.map_cons, Word.sum_cons, and_assoc,
      ← Nat.add_assoc]
    refine and_congr_right fun hm => ?_
    rw [stop, hm]

/-! ### Moved members -/

/-- The member in a block of which its own block is the part that starts at an offset. -/
def moved (start : UInt32) (m : Member) : Member :=
  { m with offset := start + m.offset }

@[simp] theorem size_moved (m : Member) : (m.moved k).size = m.size := rfl

theorem map_size_moved (ms : List Member) : (ms.map (moved k)).map size = ms.map size := by
  rw [List.map_map]
  rfl

theorem moved_neg (m : Member) : (m.moved (-k)).moved k = m := by
  rw [moved, moved, ← UInt32.add_assoc, UInt32.add_right_neg, UInt32.zero_add]

/-- A field declares a member wherever it stands. -/
theorem declaredBy_moved_iff {m : Member} {field : List Token} :
    DeclaredBy env (m.moved k) field ↔ DeclaredBy env m field :=
  ⟨fun h => ⟨h.isField, h.size⟩, fun h => ⟨h.isField, h.size⟩⟩

theorem declared_moved_iff :
    List.Forall₂ (DeclaredBy env) (ms.map (moved k)) rest ↔
      List.Forall₂ (DeclaredBy env) ms rest := by
  simp only [List.forall₂_map_left_iff, declaredBy_moved_iff]

/-- Members that are moved stay packed, as long as they do not outgrow a word. -/
theorem packed_moved_iff (hfits : k.toNat + start + Word.sum (ms.map size) < UInt32.size) :
    Packed (k.toNat + start) (ms.map (moved k)) ↔ Packed start ms := by
  induction ms generalizing start with
  | nil => exact Iff.rfl
  | cons m ms ih =>
    rw [List.map_cons, Word.sum_cons] at hfits
    have hword : UInt32.size = 2 ^ 32 := rfl
    -- The sum is a word, so an offset that wraps around is not the one asked for.
    have hoffset : (m.moved k).offset.toNat = k.toNat + start ↔ m.offset.toNat = start := by
      have hm : m.offset.toNat < 2 ^ 32 := m.offset.toNat_lt
      rw [moved, UInt32.toNat_add]
      omega
    rw [List.map_cons, Packed, Packed, hoffset]
    refine and_congr_right fun hm => ?_
    have hstop : (m.moved k).stop = k.toNat + m.stop := by
      rw [stop, stop, size_moved, hoffset.mpr hm, hm, Nat.add_assoc]
    rw [hstop]
    exact ih (by rw [stop, hm]; omega)

end Member

/-! ### The members of joined texts -/

namespace StructType

open Member

variable {env : TypeEnv} {text before middle after : String} {layout : StructType}

/-- The members of a structure, and behind them those of another one, if together they fit. -/
def followedBy? (one two : StructType) : Option StructType :=
  (Word.add? one.size two.size).map fun size =>
    ⟨size, one.members ++ two.members.map (Member.moved one.size)⟩

theorem followedBy?_eq_some_iff {one two : StructType} :
    one.followedBy? two = some layout ↔ Word.add? one.size two.size = some layout.size ∧
      layout.members = one.members ++ two.members.map (Member.moved one.size) := by
  rw [followedBy?, Option.map_eq_some_iff]
  constructor
  · rintro ⟨size, hsize, rfl⟩
    exact ⟨hsize, rfl⟩
  · rintro ⟨hsize, hmembers⟩
    exact ⟨layout.size, hsize, by rw [← hmembers]⟩

/-- A structure has the members that its text declares, and is as long as they are. -/
theorem ofText_eq_ok_iff_member :
    ofText env text = .ok layout ↔ Member.ofText env text = .ok layout.members ∧
      Word.sum (layout.members.map Member.size) = layout.size.toNat := by
  rw [ofText, Outcome.bind_eq_ok]
  constructor
  · rintro ⟨ms, hms, h⟩
    obtain ⟨size, hsize, hlayout⟩ := Outcome.bind_eq_ok.mp h
    obtain rfl := Outcome.pure_eq_ok.mp hlayout
    exact ⟨hms, totalSize_eq_ok_iff.mp hsize⟩
  · rintro ⟨hms, hsize⟩
    exact ⟨_, hms, Outcome.bind_eq_ok.mpr ⟨_, totalSize_eq_ok_iff.mpr hsize, rfl⟩⟩

theorem ofText_eq_ok_iff :
    ofText env text = .ok layout ↔
      List.Forall₂ (DeclaredBy env) layout.members (fieldsOf text) ∧ Packed 0 layout.members ∧
        Word.sum (layout.members.map Member.size) = layout.size.toNat := by
  rw [ofText_eq_ok_iff_member, Member.ofText_eq_ok_iff, and_assoc, and_assoc]
  refine and_congr_right fun _ => and_congr_right fun _ => ⟨And.right, fun h => ⟨?_, h⟩⟩
  rw [h]
  exact layout.size.toNat_lt

/-- Members that a text declares have a size together. -/
theorem exists_ofText_of_member {ms : List Member} (h : Member.ofText env text = .ok ms) :
    ∃ size, ofText env text = .ok ⟨size, ms⟩ :=
  ⟨.ofNat (Word.sum (ms.map Member.size)),
    ofText_eq_ok_iff_member.mpr ⟨h, (UInt32.toNat_ofNat_of_lt' (sum_size_of_pack h)).symm⟩⟩

/-- The structure of two texts with a semicolon between them is that of the first, followed by that
of the second. -/
theorem ofText_joined_iff :
    ofText env (before ++ "\n;\n" ++ after) = .ok layout ↔
      ∃ one two, ofText env before = .ok one ∧ ofText env after = .ok two ∧
        one.followedBy? two = some layout := by
  have hword : layout.size.toNat < UInt32.size := layout.size.toNat_lt
  simp only [ofText_eq_ok_iff, fieldsOf_joined, declared_append_iff, followedBy?_eq_some_iff,
    Word.add?_eq_some_iff]
  constructor
  · rintro ⟨⟨first, second, hlayout, hfirst, hsecond⟩, hpacked, hsum⟩
    rw [hlayout, packed_append_iff, Nat.zero_add] at hpacked
    rw [hlayout, List.map_append, Word.sum_append] at hsum
    have hone : (UInt32.ofNat (Word.sum (first.map Member.size))).toNat =
        Word.sum (first.map Member.size) := UInt32.toNat_ofNat_of_lt' (by omega)
    have htwo : (UInt32.ofNat (Word.sum (second.map Member.size))).toNat =
        Word.sum (second.map Member.size) := UInt32.toNat_ofNat_of_lt' (by omega)
    generalize UInt32.ofNat (Word.sum (first.map Member.size)) = start at hone
    -- The members of the second text are moved back to the start of a block of their own.
    have hback : (second.map (Member.moved (-start))).map (Member.moved start) = second := by
      simp only [List.map_map, Function.comp_def, moved_neg, List.map_id']
    refine ⟨⟨start, first⟩, ⟨_, second.map (Member.moved (-start))⟩,
      ⟨hfirst, hpacked.1, hone.symm⟩,
      ⟨declared_moved_iff.mpr hsecond, ?_, by rw [map_size_moved, htwo]⟩, ?_, ?_⟩
    · have hfits : start.toNat + 0 +
          Word.sum ((second.map (Member.moved (-start))).map Member.size) < UInt32.size := by
        rw [map_size_moved]
        omega
      rw [← packed_moved_iff hfits, hback, hone]
      exact hpacked.2
    · rw [hone, htwo]
      exact hsum
    · rw [hback]
      exact hlayout
  · rintro ⟨one, two, ⟨hone, hpackedOne, hsumOne⟩, ⟨htwo, hpackedTwo, hsumTwo⟩, hsize, hlayout⟩
    rw [hlayout, packed_append_iff, List.map_append, Word.sum_append, map_size_moved, hsumOne,
      hsumTwo]
    refine ⟨⟨_, _, rfl, hone, declared_moved_iff.mpr htwo⟩, ⟨hpackedOne, ?_⟩, hsize⟩
    rw [Nat.zero_add]
    have hfits : one.size.toNat + 0 + Word.sum (two.members.map Member.size) < UInt32.size := by
      omega
    exact (packed_moved_iff hfits).mpr hpackedTwo

/-- What a text declares in the middle of a block starts where the members before it end, and those
behind it start where it ends. -/
theorem ofText_between_iff {inner : StructType} (hinner : ofText env middle = .ok inner) :
    ofText env (between before middle after) = .ok layout ↔
      ∃ first last stop, ofText env before = .ok first ∧ ofText env after = .ok last ∧
        Word.add? first.size inner.size = some stop ∧
        Word.add? stop last.size = some layout.size ∧
        layout.members = first.members ++ inner.members.map (Member.moved first.size) ++
          last.members.map (Member.moved stop) := by
  rw [between, ofText_joined_iff]
  constructor
  · rintro ⟨one, last, hone, hlast, hlayout⟩
    obtain ⟨first, inner', hfirst, hinner', hfollowed⟩ := ofText_joined_iff.mp hone
    obtain rfl : inner' = inner := Except.ok.inj (hinner'.symm.trans hinner)
    obtain ⟨hstop, hmembers⟩ := followedBy?_eq_some_iff.mp hfollowed
    obtain ⟨hsize, hlayout⟩ := followedBy?_eq_some_iff.mp hlayout
    exact ⟨first, last, one.size, hfirst, hlast, hstop, hsize, hmembers ▸ hlayout⟩
  · rintro ⟨first, last, stop, hfirst, hlast, hstop, hsize, hlayout⟩
    refine ⟨⟨stop, first.members ++ inner.members.map (Member.moved first.size)⟩, last,
      ofText_joined_iff.mpr
        ⟨first, inner, hfirst, hinner, followedBy?_eq_some_iff.mpr ⟨hstop, rfl⟩⟩,
      hlast, followedBy?_eq_some_iff.mpr ⟨hsize, hlayout⟩⟩

/-- Of what a text declares in the middle of a block, its size alone decides if the block is
accepted. -/
theorem exists_ofText_between_iff {inner : StructType} (hinner : ofText env middle = .ok inner) :
    (∃ ms, Member.ofText env (between before middle after) = .ok ms) ↔
      ∃ first last stop size, ofText env before = .ok first ∧ ofText env after = .ok last ∧
        Word.add? first.size inner.size = some stop ∧ Word.add? stop last.size = some size := by
  constructor
  · rintro ⟨ms, hms⟩
    obtain ⟨size, hlayout⟩ := exists_ofText_of_member hms
    obtain ⟨first, last, stop, hfirst, hlast, hstop, hsize, -⟩ :=
      (ofText_between_iff hinner).mp hlayout
    exact ⟨first, last, stop, size, hfirst, hlast, hstop, hsize⟩
  · rintro ⟨first, last, stop, size, hfirst, hlast, hstop, hsize⟩
    have hlayout : ofText env (between before middle after) = .ok ⟨size, _⟩ :=
      (ofText_between_iff hinner).mpr ⟨first, last, stop, hfirst, hlast, hstop, hsize, rfl⟩
    exact ⟨_, (ofText_eq_ok_iff_member.mp hlayout).1⟩

end StructType

/-! ### A structure as a member -/

namespace Member

open TypeEnv

variable {env : TypeEnv} {inside : String} {layout : StructType}

theorem fieldsOf_words (name member : Ident) :
    fieldsOf (name.text ++ " " ++ member.text) =
      [[⟨.ident, name.text, 0⟩, ⟨.ident, member.text, 0⟩]] := by
  have htext : (name.text ++ " " ++ member.text).toList =
      (Lexeme.word name).chars ++ ' ' :: (Lexeme.word member).chars := by
    simp [Lexeme.chars]
  have hspace : Breaks (Lexeme.word name).continues (' ' :: (Lexeme.word member).chars) := by
    rintro c ⟨⟩
    exact (by decide : isIdentPart ' ' = false)
  have hlast (pos : Nat) : Token.scanFrom pos (Lexeme.word member).chars =
      [(Lexeme.word member).token pos] := by
    have hscan := Lexeme.scanFrom_chars (l := .word member) (breaks_nil _) pos
    rwa [List.append_nil, Token.scanFrom] at hscan
  rw [fieldsOf, Token.scan, htext, Lexeme.scanFrom_chars hspace, Token.scanFrom_blank (by decide),
    hlast]
  simp [fields, List.splitOnP_cons_eq_if_modifyHead, Lexeme.token, Lexeme.kind, Lexeme.chars,
    Token.unplaced, Token.isPunct]

/-- A structure as the only member of a block is as long as the block. -/
theorem ofText_words (name member : Ident) (hsize : env.byteSize name.text = .ok layout.size) :
    StructType.ofText env (name.text ++ " " ++ member.text) =
      .ok ⟨layout.size, [⟨member.text, name.text, layout.size, 0, none⟩]⟩ := by
  have hfield : (MemberShape.mk name.text member.text none).IsField
      [⟨.ident, name.text, 0⟩, ⟨.ident, member.text, 0⟩] :=
    @MemberShape.IsField.intro ⟨.ident, name.text, 0⟩ ⟨.ident, member.text, 0⟩ none [] rfl rfl .none
  rw [StructType.ofText_eq_ok_iff, fieldsOf_words]
  refine ⟨.cons ⟨hfield, layout.size, hsize, ?_⟩ .nil, ⟨rfl, trivial⟩, ?_⟩
  · exact (Nat.mul_one _).symm
  · exact Nat.add_zero _

/-- A structure under a name that stands for nothing else is laid out as a member like its own
members in its place: the block is accepted with it exactly if it is accepted with them, and then
it is as long, the members before are the same, and so are those behind, with their offsets. -/
theorem ofText_inline_struct (name member : Ident) {env' : TypeEnv}
    (henv : env' = env.withStruct name.text layout) (hvalue : env.value? name.text = none)
    (hstruct : env.struct? name.text = none) (hlayout : StructType.ofText env inside = .ok layout)
    (before after : String) :
    ((∃ ms, ofText env' (between before (name.text ++ " " ++ member.text) after) = .ok ms) ↔
      ∃ ms, ofText env' (between before inside after) = .ok ms) ∧
    ∀ ms ms', ofText env' (between before (name.text ++ " " ++ member.text) after) = .ok ms →
      ofText env' (between before inside after) = .ok ms' →
        (∃ size, ∀ at_, totalSize ms at_ = .ok size ∧ totalSize ms' at_ = .ok size) ∧
        ∃ first last stop, StructType.ofText env' before = .ok first ∧
          StructType.ofText env' after = .ok last ∧
          Word.add? first.size layout.size = some stop ∧
          ms = first.members ++ ⟨member.text, name.text, layout.size, first.size, none⟩ ::
            last.members.map (moved stop) ∧
          ms' = first.members ++ layout.members.map (moved first.size) ++
            last.members.map (moved stop) := by
  subst henv
  have hsize : (env.withStruct name.text layout).byteSize name.text = .ok layout.size := by
    have hvalue' : (env.withStruct name.text layout).value? name.text = none := hvalue
    have hstruct' : (env.withStruct name.text layout).struct? name.text = some layout := if_pos rfl
    rw [byteSize, hvalue', hstruct']
  have hinside : StructType.ofText (env.withStruct name.text layout) inside = .ok layout :=
    (StructType.follows_ofText (extends_withStruct hstruct layout) inside).eq_ok hlayout
  have hwords := ofText_words name member hsize
  refine ⟨?_, fun ms ms' hms hms' => ?_⟩
  · rw [StructType.exists_ofText_between_iff hwords, StructType.exists_ofText_between_iff hinside]
  · obtain ⟨size, hwhole⟩ := StructType.exists_ofText_of_member hms
    obtain ⟨size', hinline⟩ := StructType.exists_ofText_of_member hms'
    obtain ⟨first, last, stop, hfirst, hlast, hstop, htotal, hmembers⟩ :=
      (StructType.ofText_between_iff hwords).mp hwhole
    obtain ⟨first', last', stop', hfirst', hlast', hstop', htotal', hmembers'⟩ :=
      (StructType.ofText_between_iff hinside).mp hinline
    -- Both blocks have the same parts around a middle of the same size.
    obtain rfl : first' = first := Except.ok.inj (hfirst'.symm.trans hfirst)
    obtain rfl : last' = last := Except.ok.inj (hlast'.symm.trans hlast)
    obtain rfl : stop' = stop := Option.some.inj (hstop'.symm.trans hstop)
    obtain rfl : size' = size := Option.some.inj (htotal'.symm.trans htotal)
    have hsum := (StructType.ofText_eq_ok_iff_member.mp hwhole).2
    have hsum' := (StructType.ofText_eq_ok_iff_member.mp hinline).2
    refine ⟨⟨size', fun at_ => ⟨totalSize_eq_ok_iff.mpr hsum, totalSize_eq_ok_iff.mpr hsum'⟩⟩,
      first', last', stop', hfirst, hlast, hstop, ?_, hmembers'⟩
    refine hmembers.trans ?_
    -- The structure starts its own block, which is moved to the end of the first members.
    rw [List.append_assoc, List.map_singleton, moved, UInt32.add_zero, List.singleton_append]

/-- The members of a light. -/
def light : StructType :=
  ⟨20, [⟨"hue", "vec4", 16, 0, none⟩, ⟨"glow", "float", 4, 16, none⟩]⟩

/-- A light in the middle of a block, which has more lights behind it. -/
theorem ofText_inline_light :
    StructType.ofText glsl "vec4 hue; float glow;" = .ok light ∧
    (∃ ms, ofText (glsl.withStruct "Light" light)
      (between "mat4 view" ("Light" ++ " " ++ "s") "Light rest[2];") = .ok ms) ∧
    ∃ ms, ofText (glsl.withStruct "Light" light)
      (between "mat4 view" "vec4 hue; float glow;" "Light rest[2];") = .ok ms := by
  have hlight : StructType.ofText glsl "vec4 hue; float glow;" = .ok light := by decide +kernel
  have hinline := ofText_inline_struct ⟨"Light", by decide⟩ ⟨"s", by decide⟩ rfl rfl rfl hlight
    "mat4 view" "Light rest[2];"
  have hwhole : ∃ ms, ofText (glsl.withStruct "Light" light)
      (between "mat4 view" ("Light" ++ " " ++ "s") "Light rest[2];") = .ok ms := by
    refine ⟨[⟨"view", "mat4", 64, 0, none⟩, ⟨"s", "Light", 20, 64, none⟩,
      ⟨"rest", "Light", 40, 84, some (.fixed 2)⟩], ?_⟩
    decide +kernel
  exact ⟨hlight, hwhole, hinline.1.mp hwhole⟩

end Member

end Glint

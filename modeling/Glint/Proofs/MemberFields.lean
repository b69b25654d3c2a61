import Glint.Proofs.Digits
import Glint.Proofs.PackedMembers
import Glint.Proofs.Qualifier
import Mathlib.Algebra.Ring.Nat
import Mathlib.Data.List.Forall2

/-!
# Which members a list of tokens declares

The fields of a block are the tokens between its semicolons, where empty ones do not count. A field
is a type and a name, and perhaps an array length in brackets. A list of tokens declares members
exactly if every field is of this form, every type is known, and the sizes, exact products of
naturals, fit in a word, each of them and all of them together. There is one member for each
field, and they leave no gap.

## Main definitions

* `MemberShape.IsField` — the tokens of a field
* `Member.fields` — the fields of a list of tokens
* `Member.DeclaredBy` — a member is what a field declares, wherever it stands
* `Member.PackedExactly` — when a list of tokens declares members, and which ones

## Main results

* `Member.packFrom_eq_ok_iff` — the members that fields declare from a byte offset on
* `Member.pack_exact` — the members that tokens, and the tokens of a text, declare
-/

namespace Glint

open Text

/-- A list is cut into the same pieces as by the library. -/
theorem Text.splitWhere_eq_splitOnP {α : Type} (isSep : α → Bool) (as : List α) :
    splitWhere isSep as = as.splitOnP isSep := by
  induction as with
  | nil => rw [List.splitOnP_nil, splitWhere]
  | cons a as ih => rw [List.splitOnP_cons_eq_if_modifyHead, splitWhere, ih]

/-! ### Fields -/

namespace MemberShape

/-- The tokens of an array length: none, a pair of brackets, or a number in brackets that is a
decimal numeral. -/
inductive IsArray : Option ArrayLength → List Token → Prop
  | none : IsArray none []
  | runtime {opening closing : Token} (hopening : opening.isPunct '[' = true)
      (hclosing : closing.isPunct ']' = true) : IsArray (some .runtime) [opening, closing]
  | fixed {opening number closing : Token} {count : UInt32}
      (hopening : opening.isPunct '[' = true) (hclosing : closing.isPunct ']' = true)
      (hkind : number.kind = .number) (hcount : IsNumeral number.text.toList count.toNat) :
      IsArray (some (.fixed count)) [opening, number, closing]

/-- The tokens of a field: an identifier for the type, one for the name, and an array length. -/
inductive IsField : MemberShape → List Token → Prop
  | intro {type name : Token} {array? : Option ArrayLength} {rest : List Token}
      (htype : type.isIdent = true) (hname : name.isIdent = true) (harray : IsArray array? rest) :
      IsField ⟨type.text, name.text, array?⟩ (type :: name :: rest)

/-- The number of elements that a member takes room for. An array whose length the device learns
counts as one element. -/
def count (shape : MemberShape) : Nat :=
  match shape.array? with
  | some (.fixed count) => count.toNat
  | some .runtime | none => 1

/-- The exact size in bytes of a member, if its type is known. -/
def extent (env : TypeEnv) (shape : MemberShape) : Nat :=
  match env.byteSize shape.glslType with
  | .ok element => element.toNat * shape.count
  | .error _ => 0

/-- The type of a member is known, and its exact size is a word. -/
def Fits (env : TypeEnv) (shape : MemberShape) : Prop :=
  ∃ element, env.byteSize shape.glslType = .ok element ∧
    element.toNat * shape.count < UInt32.size

variable {env : TypeEnv} {shape : MemberShape} {first : Token} {more : List Token}
  {element size : UInt32}

theorem readCount_eq_ok_iff {number : Token} {count : UInt32} :
    readCount number = .ok count ↔
      number.kind = .number ∧ IsNumeral number.text.toList count.toNat := by
  rw [readCount, ← decimal?_eq_some_iff]
  by_cases hkind : number.kind = .number
  · rw [if_pos (beq_iff_eq.mpr hkind)]
    cases decimal? number.text.toList <;> simp [hkind]
  · rw [if_neg (by simpa using hkind)]
    simp [hkind]

theorem readArray_eq_ok_iff {name : String} {rest : List Token} {array? : Option ArrayLength} :
    readArray name rest = .ok array? ↔ IsArray array? rest := by
  constructor
  · intro h
    match rest with
    | [] =>
      cases h
      exact .none
    | [_] => cases h
    | [opening, closing] =>
      rw [readArray] at h
      split at h
      · rename_i hbrackets
        rw [Bool.and_eq_true] at hbrackets
        cases h
        exact .runtime hbrackets.1 hbrackets.2
      · cases h
    | [opening, number, closing] =>
      rw [readArray] at h
      split at h
      · rename_i hbrackets
        rw [Bool.and_eq_true] at hbrackets
        obtain ⟨count, hread, rfl⟩ := Outcome.map_eq_ok.mp h
        obtain ⟨hkind, hcount⟩ := readCount_eq_ok_iff.mp hread
        exact .fixed hbrackets.1 hbrackets.2 hkind hcount
      · cases h
    | _ :: _ :: _ :: _ :: _ => cases h
  · intro h
    cases h with
    | none => rfl
    | runtime hopening hclosing => rw [readArray, hopening, hclosing, Bool.and_self, if_pos rfl]
    | fixed hopening hclosing hkind hcount =>
      rw [readArray, hopening, hclosing, Bool.and_self, if_pos rfl,
        readCount_eq_ok_iff.mpr ⟨hkind, hcount⟩]
      rfl

/-- A field is read exactly if it has the form of one. -/
theorem read_eq_ok_iff : read first more = .ok shape ↔ IsField shape (first :: more) := by
  constructor
  · intro h
    cases more with
    | nil => cases h
    | cons second rest =>
      rw [read] at h
      split at h
      · rename_i hwords
        rw [Bool.and_eq_true] at hwords
        obtain ⟨array?, harray, rfl⟩ := Outcome.map_eq_ok.mp h
        exact .intro hwords.1 hwords.2 (readArray_eq_ok_iff.mp harray)
      · cases h
  · intro h
    cases h with
    | intro htype hname harray =>
      rw [read, htype, hname, Bool.and_self, if_pos rfl, readArray_eq_ok_iff.mpr harray]
      rfl

theorem size?_eq_some_iff :
    shape.size? element = some size ↔ element.toNat * shape.count = size.toNat := by
  obtain ⟨glslType, name, array?⟩ := shape
  rcases array? with - | (length | -)
  · simp [size?, count, UInt32.toNat_inj]
  · exact Word.mul?_eq_some_iff
  · simp [size?, count, UInt32.toNat_inj]

end MemberShape

/-! ### Members -/

namespace Member

/-- What the tokens of a member say. -/
def shape (m : Member) : MemberShape :=
  ⟨m.glslType, m.name, m.array?⟩

/-- The fields of a list of tokens, without the empty ones. -/
def fields (ts : List Token) : List (List Token) :=
  (ts.splitOnP (·.isPunct ';')).filter (!·.isEmpty)

/-- The member is what a field declares, wherever it stands: its shape is that of the field, its
type is known, and its size is that of one element times their number. -/
structure DeclaredBy (env : TypeEnv) (m : Member) (field : List Token) : Prop where
  isField : m.shape.IsField field
  size : ∃ element, env.byteSize m.glslType = .ok element ∧
    m.size.toNat = element.toNat * m.shape.count

variable {env : TypeEnv} {offset : UInt32} {m : Member} {ms : List Member} {field ts : List Token}
  {rest : List (List Token)}

/-- The end of the last of some packed members is as far from where they start as they are long. -/
theorem Packed.getD_stop_getLast? {start : Nat} (h : Packed start ms) :
    (ms.getLast?.map stop).getD start = start + Word.sum (ms.map size) := by
  induction ms generalizing start with
  | nil => rfl
  | cons first ms ih =>
    have hstop := h.stop_eq
    have hrest := ih h.2
    rw [List.map_cons, Word.sum_cons, ← Nat.add_assoc, ← hstop, ← hrest]
    cases ms with
    | nil => rfl
    | cons second ms => rw [List.getLast?_cons_cons]; rfl

theorem DeclaredBy.extent (h : DeclaredBy env m field) : m.shape.extent env = m.size.toNat := by
  obtain ⟨element, helement, hsize⟩ := h.size
  have hknown : env.byteSize m.shape.glslType = .ok element := helement
  rw [MemberShape.extent, hknown, hsize]

theorem DeclaredBy.fits (h : DeclaredBy env m field) : m.shape.Fits env := by
  obtain ⟨element, helement, hsize⟩ := h.size
  exact ⟨element, helement, hsize ▸ m.size.toNat_lt⟩

/-- A field declares the member that is packed for it. -/
theorem packFrom_cons_eq_ok_iff_declaredBy (hfield : field ≠ []) :
    packFrom env offset (field :: rest) = .ok ms ↔
      ∃ m next members, ms = m :: members ∧ DeclaredBy env m field ∧ m.offset = offset ∧
        Word.add? offset m.size = some next ∧ packFrom env next rest = .ok members := by
  obtain ⟨first, more, rfl⟩ := List.exists_cons_of_ne_nil hfield
  rw [packFrom_cons_eq_ok_iff]
  constructor
  · rintro ⟨shape, element, size, next, members, hshape, helement, hsize, hnext, hmembers, rfl⟩
    have hfield := MemberShape.read_eq_ok_iff.mp hshape
    have hexact := (MemberShape.size?_eq_some_iff.mp hsize).symm
    exact ⟨_, next, members, rfl, ⟨hfield, element, helement, hexact⟩, rfl, hnext, hmembers⟩
  · rintro ⟨m, next, members, rfl, ⟨hshape, element, helement, hsize⟩, rfl, hnext, hmembers⟩
    exact ⟨m.shape, element, m.size, next, members, MemberShape.read_eq_ok_iff.mpr hshape,
      helement, MemberShape.size?_eq_some_iff.mpr hsize.symm, hnext, hmembers, rfl⟩

/-- Fields declare the members that stand for them one after the other, without a gap, if all
together end within a word. -/
theorem packFrom_eq_ok_iff :
    packFrom env offset rest = .ok ms ↔
      List.Forall₂ (DeclaredBy env) ms (rest.filter (!·.isEmpty)) ∧ Packed offset.toNat ms ∧
        offset.toNat + Word.sum (ms.map size) < UInt32.size := by
  -- The induction is on the fields with the empty ones, which declare nothing.
  constructor
  · intro h
    refine ⟨?_, packed_of_packFrom h, sum_size_of_packFrom h⟩
    induction rest generalizing offset ms with
    | nil =>
      cases h
      exact .nil
    | cons field rest ih =>
      by_cases hfield : field = []
      · subst hfield
        exact ih h
      · obtain ⟨m, next, members, rfl, hm, -, -, hmembers⟩ :=
          (packFrom_cons_eq_ok_iff_declaredBy hfield).mp h
        rw [List.filter_cons_of_pos (by simpa using hfield)]
        exact .cons hm (ih hmembers)
  · rintro ⟨hfields, hpacked, hfits⟩
    induction rest generalizing offset ms with
    | nil =>
      cases hfields
      rfl
    | cons field rest ih =>
      by_cases hfield : field = []
      · subst hfield
        exact ih hfields hpacked hfits
      · rw [List.filter_cons_of_pos (by simpa using hfield)] at hfields
        obtain ⟨m, members, hm, hmembers, rfl⟩ := List.forall₂_cons_right_iff.mp hfields
        rw [List.map_cons, Word.sum_cons] at hfits
        -- The end of the first member is the word from which the others are packed.
        have hnext : (offset + m.size).toNat = offset.toNat + m.size.toNat :=
          Word.toNat_add (by omega)
        have hstop : m.stop = (offset + m.size).toNat := by rw [hpacked.stop_eq, hnext]
        refine (packFrom_cons_eq_ok_iff_declaredBy hfield).mpr ⟨m, offset + m.size, members, rfl,
          hm, UInt32.toNat_inj.mp hpacked.1, Word.add?_eq_some_iff.mpr hnext.symm, ?_⟩
        exact ih hmembers (hstop ▸ hpacked.2) (by omega)

theorem pack_eq_ok_iff :
    pack env ts = .ok ms ↔ List.Forall₂ (DeclaredBy env) ms (fields ts) ∧ Packed 0 ms ∧
      Word.sum (ms.map size) < UInt32.size := by
  rw [pack, packFrom_eq_ok_iff, splitWhere_eq_splitOnP, UInt32.toNat_zero, Nat.zero_add]
  rfl

/-! ### Acceptance -/

/-- Members are as long together as their shapes say. -/
theorem sum_size_of_declared (h : List.Forall₂ (DeclaredBy env) ms rest) :
    Word.sum (ms.map size) = ((ms.map shape).map (MemberShape.extent env)).sum := by
  induction h with
  | nil => rfl
  | cons hm _ ih =>
    rw [List.map_cons, Word.sum_cons, ih, List.map_cons, List.map_cons, List.sum_cons, hm.extent]

/-- Fields with shapes that fit declare members of these shapes, from any position on. -/
theorem exists_declared {shapes : List MemberShape} {start : Nat}
    (hfields : List.Forall₂ MemberShape.IsField shapes rest)
    (hfits : ∀ s ∈ shapes, s.Fits env)
    (htotal : start + (shapes.map (MemberShape.extent env)).sum < UInt32.size) :
    ∃ ms, ms.map shape = shapes ∧ List.Forall₂ (DeclaredBy env) ms rest ∧ Packed start ms := by
  induction hfields generalizing start with
  | nil => exact ⟨[], rfl, .nil, trivial⟩
  | @cons s field shapes rest hfield _ ih =>
    obtain ⟨⟨element, helement, hword⟩, hfits⟩ := List.forall_mem_cons.mp hfits
    have hextent : s.extent env = element.toNat * s.count := by
      rw [MemberShape.extent, helement]
    rw [List.map_cons, List.sum_cons, ← Nat.add_assoc] at htotal
    obtain ⟨ms, hshapes, hdeclared, hpacked⟩ := ih hfits htotal
    have hoffset : (UInt32.ofNat start).toNat = start := UInt32.toNat_ofNat_of_lt' (by omega)
    have hsize : (UInt32.ofNat (s.extent env)).toNat = s.extent env :=
      UInt32.toNat_ofNat_of_lt' (by omega)
    refine ⟨⟨s.name, s.glslType, .ofNat (s.extent env), .ofNat start, s.array?⟩ :: ms, ?_,
      .cons ⟨hfield, element, helement, hsize.trans hextent⟩ hdeclared, hoffset, ?_⟩
    · rw [List.map_cons, hshapes]
      rfl
    · rwa [stop, hoffset, hsize]

/-- The members that fields declare: one for each field in order, which has the type, the name and
the size that the field says. They leave no gap from the start of the block on, and their size is
a word, the end of the last one. -/
structure Laid (env : TypeEnv) (rest : List (List Token)) (ms : List Member) : Prop where
  declared : List.Forall₂ (DeclaredBy env) ms rest
  packed : Packed 0 ms
  totalSize : ∀ at_, ∃ size, Member.totalSize ms at_ = .ok size ∧
    size.toNat = (ms.getLast?.map stop).getD 0

/-- An outcome is that of packing a list of tokens: the tokens are accepted exactly if every field
has the form of one, with a known type and a size that is a word, and the sizes together are a
word. What is accepted is laid out field by field. -/
structure PackedExactly (env : TypeEnv) (ts : List Token)
    (outcome : Except ReflectError (List Member)) : Prop where
  accepted_iff : (∃ ms, outcome = .ok ms) ↔
    ∃ shapes, List.Forall₂ MemberShape.IsField shapes (fields ts) ∧ (∀ s ∈ shapes, s.Fits env) ∧
      (shapes.map (MemberShape.extent env)).sum < UInt32.size
  laid : ∀ ms, outcome = .ok ms → Laid env (fields ts) ms

theorem exists_pack_iff :
    (∃ ms, pack env ts = .ok ms) ↔
      ∃ shapes, List.Forall₂ MemberShape.IsField shapes (fields ts) ∧ (∀ s ∈ shapes, s.Fits env) ∧
        (shapes.map (MemberShape.extent env)).sum < UInt32.size := by
  constructor
  · rintro ⟨ms, h⟩
    obtain ⟨hdeclared, -, hfits⟩ := pack_eq_ok_iff.mp h
    have hshapes : List.Forall₂ (fun m field => m.shape.Fits env ∧ m.shape.IsField field) ms
        (fields ts) := hdeclared.imp fun _ _ h => ⟨h.fits, h.isField⟩
    obtain ⟨hknown, hfields⟩ := (List.forall₂_and_left _ _).mp hshapes
    exact ⟨ms.map shape, List.forall₂_map_left_iff.mpr hfields, List.forall_mem_map.mpr hknown,
      sum_size_of_declared hdeclared ▸ hfits⟩
  · rintro ⟨shapes, hfields, hfits, htotal⟩
    obtain ⟨ms, rfl, hdeclared, hpacked⟩ := exists_declared hfields hfits (by rwa [Nat.zero_add])
    exact ⟨ms, pack_eq_ok_iff.mpr ⟨hdeclared, hpacked, sum_size_of_declared hdeclared ▸ htotal⟩⟩

theorem laid_of_pack (h : pack env ts = .ok ms) : Laid env (fields ts) ms := by
  obtain ⟨hdeclared, hpacked, hfits⟩ := pack_eq_ok_iff.mp h
  have hsize : (UInt32.ofNat (Word.sum (ms.map size))).toNat = Word.sum (ms.map size) :=
    UInt32.toNat_ofNat_of_lt' hfits
  refine ⟨hdeclared, hpacked, fun at_ => ⟨_, totalSize_eq_ok_iff.mpr hsize.symm, ?_⟩⟩
  rw [hsize, hpacked.getD_stop_getLast?, Nat.zero_add]

/-- Tokens, and the tokens of a text, declare members exactly if their fields fit together in a
block, and what they declare is laid out field by field. -/
theorem pack_exact (env : TypeEnv) :
    (∀ ts, PackedExactly env ts (pack env ts)) ∧
      ∀ text, PackedExactly env (Token.scan text) (ofText env text) :=
  have hpack : ∀ ts, PackedExactly env ts (pack env ts) :=
    fun _ => ⟨exists_pack_iff, fun _ => laid_of_pack⟩
  ⟨hpack, fun text => hpack (Token.scan text)⟩

end Member

end Glint

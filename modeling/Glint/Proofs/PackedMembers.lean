import Glint.Item
import Glint.Proofs.Outcome

/-!
# The members of a block leave no gap

Members are packed one after the other, so the block that they make up runs from the offset
of the first member to the end of the last one and is as long as all of them together.

## Main definitions

* `Member.stop` — the byte position after a member
* `Member.Packed` — members stand one after the other without a gap

## Main results

* `Member.packed_of_pack` — members that are read from a text are packed from byte 0 on
* `Member.Packed.stop_le`, `Member.Packed.exists_stop_eq` — where packed members end
-/

namespace Glint

namespace Member

/-- The byte position after a member. -/
def stop (m : Member) : Nat :=
  m.offset.toNat + m.size.toNat

/-- Members stand one after the other without a gap, from a byte position on. -/
def Packed (start : Nat) : List Member → Prop
  | [] => True
  | m :: ms => m.offset.toNat = start ∧ Packed m.stop ms

variable {env : TypeEnv} {start : Nat} {m : Member} {ms : List Member} {offset : UInt32}
  {first : Token} {more : List Token} {fields : List (List Token)}

/-- A field is packed at an offset, and the fields that follow it where it ends. -/
theorem packFrom_cons_eq_ok_iff :
    packFrom env offset ((first :: more) :: fields) = .ok ms ↔
      ∃ shape element size next members, MemberShape.read first more = .ok shape ∧
        env.byteSize shape.glslType = .ok element ∧ shape.size? element = some size ∧
        Word.add? offset size = some next ∧ packFrom env next fields = .ok members ∧
        ms = ⟨shape.name, shape.glslType, size, offset, shape.array?⟩ :: members := by
  simp only [packFrom, Outcome.bind_eq_ok]
  constructor
  · rintro ⟨shape, hshape, element, helement, h⟩
    split at h
    · cases h
    · rename_i size hsize
      split at h
      · cases h
      · rename_i next hnext
        obtain ⟨members, hmembers, hms⟩ := Outcome.bind_eq_ok.mp h
        exact ⟨shape, element, size, next, members, hshape, helement, hsize, hnext, hmembers,
          (Outcome.pure_eq_ok.mp hms).symm⟩
  · rintro ⟨shape, element, size, next, members, hshape, helement, hsize, hnext, hmembers, rfl⟩
    refine ⟨shape, hshape, element, helement, ?_⟩
    rw [hsize]
    dsimp only
    rw [hnext]
    exact Outcome.bind_eq_ok.mpr ⟨members, hmembers, rfl⟩

theorem packed_of_packFrom (h : packFrom env offset fields = .ok ms) :
    Packed offset.toNat ms := by
  induction fields generalizing offset ms with
  | nil =>
    cases h
    trivial
  | cons field fields ih =>
    cases field with
    | nil => exact ih h
    | cons first more =>
      obtain ⟨shape, element, size, next, members, -, -, -, hnext, hmembers, rfl⟩ :=
        packFrom_cons_eq_ok_iff.mp h
      -- The next member starts at the word that the sum was checked to be.
      have hstop : offset.toNat + size.toNat = next.toNat := Word.add?_eq_some_iff.mp hnext
      refine ⟨rfl, ?_⟩
      rw [stop, hstop]
      exact ih hmembers

/-- The members that tokens declare are packed from the start of the block on. -/
theorem packed_of_pack {ts : List Token} (h : pack env ts = .ok ms) : Packed 0 ms :=
  packed_of_packFrom h

/-- The size of members that were packed from a word on fits in a word. -/
theorem sum_size_of_packFrom (h : packFrom env offset fields = .ok ms) :
    offset.toNat + Word.sum (ms.map size) < UInt32.size := by
  induction fields generalizing offset ms with
  | nil =>
    cases h
    exact offset.toNat_lt
  | cons field fields ih =>
    cases field with
    | nil => exact ih h
    | cons first more =>
      obtain ⟨shape, element, size, next, members, -, -, -, hnext, hmembers, rfl⟩ :=
        packFrom_cons_eq_ok_iff.mp h
      -- The sum was checked to be a word at every member.
      have hstop : offset.toNat + size.toNat = next.toNat := Word.add?_eq_some_iff.mp hnext
      have hsum := ih hmembers
      rw [List.map_cons, Word.sum_cons, ← Nat.add_assoc, hstop]
      exact hsum

/-- The size of members that were packed is a word. -/
theorem sum_size_of_pack {ts : List Token} (h : pack env ts = .ok ms) :
    Word.sum (ms.map size) < UInt32.size := by
  have hsum := sum_size_of_packFrom h
  rwa [UInt32.toNat_zero, Nat.zero_add] at hsum

theorem totalSize_eq_ok_iff {size' : UInt32} {at_ : Nat} :
    totalSize ms at_ = .ok size' ↔ Word.sum (ms.map size) = size'.toNat := by
  rw [totalSize, ← Word.total?_eq_some_iff]
  cases Word.total? (ms.map size) <;> simp

namespace Packed

theorem stop_eq (h : Packed start (m :: ms)) : m.stop = start + m.size.toNat := by
  rw [stop, h.1]

/-- No packed member starts before the first one. -/
theorem le_offset (h : Packed start ms) (hm : m ∈ ms) : start ≤ m.offset.toNat := by
  induction ms generalizing start with
  | nil => cases hm
  | cons first ms ih =>
    rcases List.mem_cons.mp hm with rfl | hm
    · exact Nat.le_of_eq h.1.symm
    · have hrest := ih h.2 hm
      have hstop := h.stop_eq
      omega

/-- Packed members end within the bytes that they take together. -/
theorem stop_le (h : Packed start ms) (hm : m ∈ ms) :
    m.stop ≤ start + Word.sum (ms.map size) := by
  induction ms generalizing start with
  | nil => cases hm
  | cons first ms ih =>
    have hstop := h.stop_eq
    rw [List.map_cons, Word.sum_cons]
    rcases List.mem_cons.mp hm with rfl | hm
    · omega
    · have hrest := ih h.2 hm
      omega

/-- One of the packed members ends with the bytes that they take together. -/
theorem exists_stop_eq (h : Packed start ms) (hne : ms ≠ []) :
    ∃ m ∈ ms, m.stop = start + Word.sum (ms.map size) := by
  induction ms generalizing start with
  | nil => exact absurd rfl hne
  | cons first ms ih =>
    have hstop := h.stop_eq
    rw [List.map_cons, Word.sum_cons]
    by_cases hms : ms = []
    · subst hms
      refine ⟨first, List.mem_cons_self, ?_⟩
      rw [hstop, List.map_nil, Word.sum_nil, Nat.add_zero]
    · obtain ⟨last, hlast, hend⟩ := ih h.2 hms
      refine ⟨last, List.mem_cons_of_mem _ hlast, ?_⟩
      rw [hend, hstop, Nat.add_assoc]

/-- The lowest offset of packed members is where they start. -/
theorem min?_offset (h : Packed offset.toNat ms) (hne : ms ≠ []) :
    (ms.map Member.offset).min? = some offset := by
  rw [List.min?_eq_some_iff]
  constructor
  · cases ms with
    | nil => exact absurd rfl hne
    | cons first ms =>
      obtain rfl : first.offset = offset := UInt32.toNat_inj.mp h.1
      exact List.mem_cons_self
  · intro b hb
    obtain ⟨m, hm, rfl⟩ := List.mem_map.mp hb
    exact h.le_offset hm

end Packed

end Member

/-! ### Push constants -/

namespace Item

variable {env : TypeEnv} {d : Declaration} {rest : List Token} {item : Item}

theorem of_ofInput (h : ofInput d rest = .ok item) :
    (∃ location?, item = .inputBlock location? d.text) ∨
      ∃ location glslType name, item = .vertexInput location glslType name := by
  rw [ofInput] at h
  split at h
  · obtain ⟨location?, -, h⟩ := Outcome.bind_eq_ok.mp h
    exact .inl ⟨location?, (Outcome.pure_eq_ok.mp h).symm⟩
  · obtain ⟨location, -, h⟩ := Outcome.bind_eq_ok.mp h
    obtain ⟨⟨glslType, name⟩, -, h⟩ := Outcome.bind_eq_ok.mp h
    exact .inr ⟨location, glslType, name, (Outcome.pure_eq_ok.mp h).symm⟩

theorem of_ofOutput (h : ofOutput d = .ok item) : ∃ location?, item = .output location? d.text := by
  obtain ⟨location?, -, h⟩ := Outcome.bind_eq_ok.mp h
  exact ⟨location?, (Outcome.pure_eq_ok.mp h).symm⟩

theorem of_ofDescriptor {storage : BlockStorage} (h : ofDescriptor env storage d rest = .ok item) :
    ∃ set binding name kind size members,
      item = .descriptor set binding name kind size members := by
  simp only [ofDescriptor, Outcome.bind_eq_ok] at h
  obtain ⟨set?, -, binding, -, h⟩ := h
  split at h
  · simp only [Outcome.bind_eq_ok, Outcome.pure_eq_ok] at h
    obtain ⟨name, -, members, -, size, -, rfl⟩ := h
    exact ⟨_, _, _, _, _, _, rfl⟩
  · simp only [Outcome.bind_eq_ok, Outcome.pure_eq_ok] at h
    obtain ⟨⟨glslType, name⟩, -, kind, -, rfl⟩ := h
    exact ⟨_, _, _, _, _, _, rfl⟩

theorem of_ofUniform (h : ofUniform env d rest = .ok item) :
    (∃ members, blockMembers env d = .ok members ∧ item = .pushConstants members) ∨
      ∃ set binding name kind size members,
        item = .descriptor set binding name kind size members := by
  rw [ofUniform] at h
  split at h
  · obtain ⟨members, hmembers, rfl⟩ := Outcome.map_eq_ok.mp h
    exact .inl ⟨members, hmembers, rfl⟩
  · exact .inr (of_ofDescriptor h)

theorem of_ofSpecConstant (h : ofSpecConstant d = .ok item) :
    ∃ id glslType name, item = .specConstant id glslType name := by
  obtain ⟨id, -, h⟩ := Outcome.bind_eq_ok.mp h
  split at h
  · cases h
  · obtain ⟨⟨glslType, name⟩, -, h⟩ := Outcome.bind_eq_ok.mp h
    exact ⟨id, glslType, name, (Outcome.pure_eq_ok.mp h).symm⟩

/-- The push constants that a declaration declares are read from the tokens of its block. -/
theorem exists_pack_of_pushConstants {members : List Member}
    (h : ofDeclaration env d = .ok (.pushConstants members)) :
    ∃ ts, Member.pack env ts = .ok members := by
  rw [ofDeclaration] at h
  split at h
  · rcases of_ofInput h with ⟨_, hitem⟩ | ⟨_, _, _, hitem⟩ <;> cases hitem
  · split at h
    · obtain ⟨_, hitem⟩ := of_ofOutput h
      cases hitem
    · split at h
      · obtain ⟨_, _, _, _, _, _, hitem⟩ := of_ofDescriptor h
        cases hitem
      · split at h
        · rcases of_ofUniform h with ⟨members', hmembers, hitem⟩ | ⟨_, _, _, _, _, _, hitem⟩
          · -- Only here can the item be a block of push constants.
            cases hitem
            rw [blockMembers] at hmembers
            split at hmembers
            · exact ⟨_, hmembers⟩
            · cases hmembers
          · cases hitem
        · split at h
          · obtain ⟨_, _, _, hitem⟩ := of_ofSpecConstant h
            cases hitem
          · cases h

end Item

end Glint

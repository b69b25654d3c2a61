import Glint.Stage
import Mathlib.Data.List.Induction

/-!
# Stages of several declarations together

A resource that is declared more than once has the stages of all its declarations.

## Main definitions

* `StageSet.unionAll` — the stages of several sets together

## Main results

* `StageSet.unionAll_perm` — the order of the sets does not matter
* `StageSet.holds_unionAll_flag`, `StageSet.unnamed_unionAll_flag` — a set put together from
  single stages holds these stages and nothing else
-/

namespace Glint

/-- The stages of several sets together. -/
def StageSet.unionAll (sets : List StageSet) : StageSet :=
  sets.foldl union empty

namespace StageSet

theorem empty_union (s : StageSet) : empty.union s = s := by
  simp [union, empty]

theorem union_assoc (s t u : StageSet) : (s.union t).union u = s.union (t.union u) := by
  simp [union, UInt32.or_assoc]

theorem union_comm (s t : StageSet) : s.union t = t.union s := by
  simp [union, UInt32.or_comm]

theorem union_self (s : StageSet) : s.union s = s := by
  simp [union]

theorem unionAll_cons (s : StageSet) (sets : List StageSet) :
    unionAll (s :: sets) = sets.foldl union s := by
  rw [unionAll, List.foldl_cons, empty_union]

/-- The stages of sets that are all alike. -/
theorem unionAll_eq {sets : List StageSet} {s : StageSet} (hne : sets ≠ [])
    (h : ∀ t ∈ sets, t = s) : unionAll sets = s := by
  cases sets with
  | nil => exact absurd rfl hne
  | cons first sets =>
    rw [List.forall_mem_cons] at h
    obtain ⟨rfl, h⟩ := h
    rw [unionAll_cons]
    clear hne
    induction sets with
    | nil => rfl
    | cons t sets ih =>
      rw [List.forall_mem_cons] at h
      rw [List.foldl_cons, h.1, union_self, ih h.2]

/-- The stages of several sets do not depend on their order. -/
theorem unionAll_perm {sets sets' : List StageSet} (h : sets.Perm sets') :
    unionAll sets = unionAll sets' :=
  h.foldl_eq' (fun s _ t _ u => by rw [union_assoc, union_comm s t, ← union_assoc]) empty

/-! ### Which stages a set holds -/

/-- The bit of a stage is a power of two, so it is in a word or has no bit in common with it. -/
theorem and_bit (s : StageSet) (stage : Stage) :
    s.bits &&& stage.bit = if s.bits.toBitVec.getLsbD stage.rank then stage.bit else 0 := by
  have hbit : stage.bit.toBitVec = BitVec.twoPow 32 stage.rank := by cases stage <;> rfl
  rw [← UInt32.toBitVec_inj, UInt32.toBitVec_and, hbit, BitVec.and_twoPow, ← hbit]
  split <;> rfl

theorem holds_eq_getLsbD (s : StageSet) (stage : Stage) :
    s.holds stage = s.bits.toBitVec.getLsbD stage.rank := by
  have hne : stage.bit ≠ 0 := by cases stage <;> decide
  rw [holds, and_bit]
  cases s.bits.toBitVec.getLsbD stage.rank <;> simp [hne]

theorem and_or_distrib_right (a b c : UInt32) : (a ||| b) &&& c = a &&& c ||| b &&& c := by
  rw [← UInt32.toBitVec_inj]
  exact BitVec.and_or_distrib_right

theorem holds_empty (stage : Stage) : empty.holds stage = false := by
  simp [holds, empty]

theorem holds_union (s t : StageSet) (stage : Stage) :
    (s.union t).holds stage = (s.holds stage || t.holds stage) := by
  rw [Bool.eq_iff_iff, Bool.or_eq_true, holds, holds, holds, union, bne_iff_ne, bne_iff_ne,
    bne_iff_ne, and_or_distrib_right, ne_eq, UInt32.or_eq_zero_iff, not_and_or]

theorem holds_flag (s t : Stage) : s.flag.holds t = true ↔ s = t := by
  cases s <;> cases t <;> decide

theorem unnamed_union (s t : StageSet) : (s.union t).unnamed = s.unnamed ||| t.unnamed :=
  and_or_distrib_right ..

theorem unnamed_flag (stage : Stage) : stage.flag.unnamed = 0 := by
  cases stage <;> rfl

theorem unionAll_concat (sets : List StageSet) (s : StageSet) :
    unionAll (sets ++ [s]) = (unionAll sets).union s := by
  rw [unionAll, List.foldl_append]
  rfl

/-- A set put together from single stages holds these stages. -/
theorem holds_unionAll_flag (stages : List Stage) (stage : Stage) :
    (unionAll (stages.map Stage.flag)).holds stage = true ↔ stage ∈ stages := by
  induction stages using List.reverseRecOn with
  | nil => simp [unionAll, holds_empty]
  | append_singleton stages s ih =>
    rw [List.map_append, List.map_singleton, unionAll_concat, holds_union, Bool.or_eq_true, ih,
      holds_flag, List.mem_append, List.mem_singleton, eq_comm (a := s)]

/-- A set put together from single stages has no other bits. -/
theorem unnamed_unionAll_flag (stages : List Stage) :
    (unionAll (stages.map Stage.flag)).unnamed = 0 := by
  induction stages using List.reverseRecOn with
  | nil => rfl
  | append_singleton stages s ih =>
    rw [List.map_append, List.map_singleton, unionAll_concat, unnamed_union, ih, unnamed_flag]
    rfl

end StageSet

/-- Two stages have no bit in common. -/
theorem Stage.bit_and_bit {s t : Stage} (h : s ≠ t) : s.bit &&& t.bit = 0 := by
  cases s <;> cases t <;> first | rfl | exact absurd rfl h

end Glint

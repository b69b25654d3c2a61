import Glint.Proofs.Collection
import Glint.Proofs.PipelineMerge
import Mathlib.Data.Fintype.Card

/-!
# The size of a descriptor set

The sizes of the buffers of a set are added in words of 64 bits, and nothing checks the sum. It
is exact all the same. The bindings of a set are words of 32 bits, and no two of its descriptors
share one, so there are at most as many descriptors as words; and as many words of 32 bits as there
are cannot outgrow 64 bits. That no binding is shared does not come of the sum but of merging,
which makes every set.

## Main definitions

* `DescriptorSet.Distinct` — no two descriptors of a set share a binding
* `DescriptorSet.Made` — a set comes of merging, or is one of a shader or of a pipeline

## Main results

* `Word.toNat_foldl_add` — a sum in words of 64 bits is exact if it fits
* `Word.sum_lt_of_nodup` — as many words as there are different words fit in 64 bits
* `DescriptorSet.Distinct.merge` — merging keeps bindings distinct
* `DescriptorSet.size_exact` — when a set has a size, and which
-/

namespace Glint

/-! ### Sums of words -/

namespace Word

/-- Added in words of 64 bits, words of 32 bits make their exact sum if it fits. -/
theorem toNat_foldl_add (words : List UInt32) (start : UInt64)
    (hfits : start.toNat + sum words < UInt64.size) :
    ((words.map UInt32.toUInt64).foldl (· + ·) start).toNat = start.toNat + sum words := by
  induction words generalizing start with
  | nil => simp
  | cons word words ih =>
    rw [sum_cons, ← Nat.add_assoc] at hfits
    have hfirst : (start + word.toUInt64).toNat = start.toNat + word.toNat := by
      rw [UInt64.toNat_add, UInt32.toNat_toUInt64]
      apply Nat.mod_eq_of_lt
      exact Nat.lt_of_le_of_lt (Nat.le_add_right _ _) hfits
    rw [← hfirst] at hfits
    rw [List.map_cons, List.foldl_cons, ih _ hfits, hfirst, sum_cons, Nat.add_assoc]

theorem sum_le_length_mul (words : List UInt32) :
    sum words ≤ words.length * (UInt32.size - 1) := by
  induction words with
  | nil => simp
  | cons word words ih =>
    have hword : word.toNat ≤ UInt32.size - 1 := Nat.le_sub_one_of_lt word.toNat_lt
    rw [sum_cons, List.length_cons, Nat.succ_mul]
    omega

/-- A list in which no word occurs twice has no more elements than there are words. -/
theorem length_le_of_nodup {words : List UInt32} (h : words.Nodup) :
    words.length ≤ UInt32.size := by
  have hinjective : Function.Injective UInt32.toFin := fun _ _ => UInt32.toFin_inj.mp
  have hcard := (h.map hinjective).length_le_card
  rwa [List.length_map, Fintype.card_fin] at hcard

/-- As many words as a list has that repeats none make a sum of less than 64 bits. -/
theorem sum_lt_of_nodup {keys words : List UInt32} (hkeys : keys.Nodup)
    (hlength : words.length = keys.length) : sum words < UInt64.size := by
  calc
    sum words ≤ words.length * (UInt32.size - 1) := sum_le_length_mul words
    _ ≤ UInt32.size * (UInt32.size - 1) := by
      rw [hlength]
      exact Nat.mul_le_mul_right _ (length_le_of_nodup hkeys)
    _ < UInt64.size := by decide

end Word

/-! ### Sets with distinct bindings -/

namespace DescriptorSet

variable {s s' : DescriptorSet}

/-- No two descriptors of the set share a binding. -/
def Distinct (s : DescriptorSet) : Prop :=
  (s.descriptors.map Descriptor.binding).Nodup

instance (s : DescriptorSet) : Decidable s.Distinct :=
  inferInstanceAs (Decidable (s.descriptors.map Descriptor.binding).Nodup)

theorem distinct_empty (n : UInt32) : (empty n).Distinct :=
  List.nodup_nil

/-- A descriptor that is merged is at a binding of its own, or adds no binding. -/
theorem Distinct.merge (h : s.Distinct) {new : Descriptor} (hmerge : s.merge new = .ok s') :
    s'.Distinct := by
  rw [DescriptorSet.merge, mergeInto_eq_insert, Outcome.map_eq_ok] at hmerge
  obtain ⟨ds, hds, rfl⟩ := hmerge
  have hkeys : ds.map Descriptor.binding =
      if new.binding ∈ s.descriptors.map Descriptor.binding then
        s.descriptors.map Descriptor.binding
      else s.descriptors.map Descriptor.binding ++ [new.binding] := MergeRule.keys_insert hds
  rw [Distinct, hkeys]
  split
  · exact h
  · rename_i hnew
    exact List.nodup_append.mpr ⟨h, List.nodup_singleton _, by simpa using hnew⟩

/-- The sets that can come about: those that start without descriptors and take up one after the
other, and the sets of shaders and of pipelines, whatever the shaders of a pipeline are. -/
inductive Made : DescriptorSet → Prop
  | empty (n : UInt32) : Made (empty n)
  | merge {s s' : DescriptorSet} (h : Made s) (new : Descriptor)
    (hmerge : s.merge new = .ok s') : Made s'
  | ofText {env : TypeEnv} {source : ShaderText} {i : Interface} {s : DescriptorSet}
    (h : Interface.ofText env source = .ok i) (hs : s ∈ i.descriptorSets) : Made s
  | ofInterfaces {instanced : UInt32 → Bool} {shaders : List Interface} {p : Pipeline}
    {s : DescriptorSet} (h : Pipeline.ofInterfaces instanced shaders = .ok p) (hs : s ∈ p.sets) :
    Made s

theorem Made.distinct (h : s.Made) : s.Distinct := by
  induction h with
  | empty n => exact distinct_empty n
  | merge _ _ hmerge ih => exact ih.merge hmerge
  | ofText h hs =>
    obtain ⟨_, _, -, -, hlists⟩ := Interface.exists_lists_of_ofText h
    exact hlists.sets.distinct _ hs
  | ofInterfaces h hs => exact (Pipeline.mergedFrom_of_ofInterfaces h).sets.distinct _ hs

/-! ### Sizes -/

/-- The sizes of distinct descriptors fit in a word of 64 bits together. -/
theorem Distinct.sum_size_lt (h : s.Distinct) :
    Word.sum (s.descriptors.map Descriptor.size) < UInt64.size := by
  apply Word.sum_lt_of_nodup h
  rw [List.length_map, List.length_map]

theorem size_eq_error_iff :
    s.size = .error (.unsizedSet s.set) ↔ ∃ d ∈ s.descriptors, d.kind.isOpaque = true := by
  rw [size, ← List.any_eq_true]
  split
  · rename_i hopaque
    exact iff_of_true rfl hopaque
  · rename_i hbuffers
    exact iff_of_false nofun hbuffers

/-- A set of distinct buffers has the exact sum of their sizes for its size. -/
theorem Distinct.exists_size (h : s.Distinct)
    (hbuffers : ∀ d ∈ s.descriptors, d.kind.isOpaque = false) :
    ∃ total, s.size = .ok total ∧
      total.toNat = Word.sum (s.descriptors.map Descriptor.size) := by
  have hany : ¬ s.descriptors.any (·.kind.isOpaque) = true := by
    rw [List.any_eq_true]
    rintro ⟨d, hd, hopaque⟩
    exact Bool.false_ne_true ((hbuffers d hd).symm.trans hopaque)
  have hzero : (0 : UInt64).toNat = 0 := rfl
  have hsum := Word.toNat_foldl_add (s.descriptors.map Descriptor.size) 0
    (by rw [hzero, Nat.zero_add]; exact h.sum_size_lt)
  rw [List.map_map, hzero, Nat.zero_add] at hsum
  refine ⟨_, ?_, hsum⟩
  rw [size, if_neg hany]
  rfl

/-- However a set has come about, no two of its descriptors share a binding. A set of which this
holds has no size exactly if one of its descriptors is opaque, and else the exact sum of their
sizes, however many and however large they are. -/
theorem size_exact (s : DescriptorSet) :
    (s.Made → s.Distinct) ∧
      (s.Distinct →
        (s.size = .error (.unsizedSet s.set) ↔ ∃ d ∈ s.descriptors, d.kind.isOpaque = true) ∧
        ((∀ d ∈ s.descriptors, d.kind.isOpaque = false) →
          ∃ total, s.size = .ok total ∧
            total.toNat = Word.sum (s.descriptors.map Descriptor.size))) := by
  constructor
  · intro h
    exact h.distinct
  · intro h
    exact ⟨size_eq_error_iff, h.exists_size⟩

/-- As large a buffer as there can be. -/
def hugeBuffer (binding : UInt32) : Descriptor :=
  ⟨"particles", binding, .storageBuffer, Stage.compute.flag, 4294967295, []⟩

/-- An image, which has no size. -/
def heightMap (binding : UInt32) : Descriptor :=
  ⟨"heights", binding, .combinedImageSampler, Stage.compute.flag, 0, []⟩

/-- A set that comes of merging, of a size that is no word of 32 bits. With an image in the place
of the second buffer it has no size. -/
theorem size_exact_huge :
    Made ⟨1, [hugeBuffer 7, hugeBuffer 0]⟩ ∧ Distinct ⟨1, [hugeBuffer 7, hugeBuffer 0]⟩ ∧
      (∀ d ∈ [hugeBuffer 7, hugeBuffer 0], d.kind.isOpaque = false) ∧
      (∃ total, size ⟨1, [hugeBuffer 7, hugeBuffer 0]⟩ = .ok total ∧
        total.toNat = 2 * 4294967295) ∧
      Made ⟨1, [hugeBuffer 7, heightMap 0]⟩ ∧ Distinct ⟨1, [hugeBuffer 7, heightMap 0]⟩ ∧
      size ⟨1, [hugeBuffer 7, heightMap 0]⟩ = .error (.unsizedSet 1) := by
  have hone : Made ⟨1, [hugeBuffer 7]⟩ := (Made.empty 1).merge (hugeBuffer 7) rfl
  have hmade : Made ⟨1, [hugeBuffer 7, hugeBuffer 0]⟩ := hone.merge (hugeBuffer 0) rfl
  have hbuffers : ∀ d ∈ [hugeBuffer 7, hugeBuffer 0], d.kind.isOpaque = false := by decide
  have hdistinct := (size_exact _).1 hmade
  obtain ⟨total, htotal, hsum⟩ := ((size_exact _).2 hdistinct).2 hbuffers
  have hmixed : Made ⟨1, [hugeBuffer 7, heightMap 0]⟩ := hone.merge (heightMap 0) rfl
  have hdistinct' := (size_exact _).1 hmixed
  have hopaque : ∃ d ∈ [hugeBuffer 7, heightMap 0], d.kind.isOpaque = true :=
    ⟨heightMap 0, by decide, rfl⟩
  exact ⟨hmade, hdistinct, hbuffers, ⟨total, htotal, hsum⟩, hmixed, hdistinct',
    ((size_exact _).2 hdistinct').1.mpr hopaque⟩

end DescriptorSet

end Glint

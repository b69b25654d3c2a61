import Glint.Binary32
import Mathlib.Algebra.Order.Ring.Int
import Mathlib.Tactic.Positivity
import Mathlib.Tactic.Ring

/-!
# Rounding integers to 24 bits

An integer whose significand has 24 bits is a number of so many bits with zeros behind it. Between
two neighbours that have all 24 bits and share their zeros there is no other such integer, since
one with fewer zeros is smaller. So the quotient of a division that leaves 24 bits, and the number
after it, enclose what is rounded, and the remainder tells which of the two is nearer.

## Main definitions

* `Binary32.IsShort` — the integers with a significand of 24 bits
* `Binary32.rounded` — a natural number rounded to 24 bits
* `Binary32.IsRounding` — the nearest of those integers, and of two the even one

## Main results

* `Binary32.IsShort.le_or_le` — none of those integers lies between two neighbours
* `Binary32.isRounding_rounded` — rounding goes to the nearest
* `Binary32.IsRounding.le_of_lt` — rounding keeps the order
-/

namespace Glint.Binary32

variable {value value' n n' : Int} {s s' : Nat}

/-! ### Integers of 24 bits -/

/-- The integer is one of at most 24 bits with zeros behind it. -/
def IsShort (n : Int) : Prop :=
  ∃ (s : Int) (e : Nat), s.natAbs < 2 ^ 24 ∧ n = s * 2 ^ e

/-- The power of two after the largest significand is a significand with one more zero. -/
theorem isShort_mul {s : Int} (h : s.natAbs ≤ 2 ^ 24) (e : Nat) : IsShort (s * 2 ^ e) := by
  by_cases hs : s.natAbs < 2 ^ 24
  · exact ⟨s, e, hs, rfl⟩
  · -- The power itself has a bit too many, but all of its zeros can go behind.
    obtain rfl | rfl : s = 1 * 2 ^ 24 ∨ s = -1 * 2 ^ 24 := by omega
    · exact ⟨1, 24 + e, by decide, by ring⟩
    · exact ⟨-1, 24 + e, by decide, by ring⟩

theorem isShort_of_natAbs_le (h : n.natAbs ≤ 2 ^ 24) : IsShort n := by
  simpa using isShort_mul h 0

theorem IsShort.neg (h : IsShort n) : IsShort (-n) := by
  obtain ⟨s, e, hs, rfl⟩ := h
  exact ⟨-s, e, by rwa [Int.natAbs_neg], by ring⟩

/-- No integer of 24 bits lies between two neighbours with as many bits and the same zeros. -/
theorem IsShort.le_or_le (h : IsShort n) {q : Nat} (hq : 2 ^ 23 ≤ q) (k : Nat) :
    n ≤ q * 2 ^ k ∨ (q + 1) * 2 ^ k ≤ n := by
  obtain ⟨s, e, hs, rfl⟩ := h
  rcases Nat.lt_or_ge e k with hlt | hge
  · -- With fewer zeros it is smaller than both.
    have hs' : s ≤ 2 ^ 24 := by omega
    have hq' : (2 ^ 23 : Int) ≤ q := by exact_mod_cast hq
    have hpow : (2 ^ (e + 1) : Int) ≤ 2 ^ k := pow_le_pow_right₀ (by decide) hlt
    refine .inl ?_
    calc
      s * 2 ^ e ≤ 2 ^ 24 * 2 ^ e := mul_le_mul_of_nonneg_right hs' (by positivity)
      _ = 2 ^ 23 * 2 ^ (e + 1) := by ring
      _ ≤ q * 2 ^ k := mul_le_mul hq' hpow (by positivity) (by positivity)
  · -- Otherwise it is a multiple of what the neighbours are multiples of.
    obtain ⟨d, rfl⟩ := Nat.exists_eq_add_of_le hge
    have hmultiple : s * 2 ^ (k + d) = s * 2 ^ d * 2 ^ k := by ring
    rw [hmultiple]
    rcases lt_or_ge (q : Int) (s * 2 ^ d) with hlt | hle
    · exact .inr (mul_le_mul_of_nonneg_right hlt (by positivity))
    · exact .inl (mul_le_mul_of_nonneg_right hle (by positivity))

/-! ### Dividing by a power of two -/

/-- The quotient stays if the remainder is at most the half, and else it grows by one. At the
half the result is even. -/
theorem roundShift_cases (m k : Nat) :
    (roundShift m k = m / 2 ^ k ∧ 2 * (m % 2 ^ k) ≤ 2 ^ k ∨
      roundShift m k = m / 2 ^ k + 1 ∧ 2 ^ k ≤ 2 * (m % 2 ^ k)) ∧
      (2 * (m % 2 ^ k) = 2 ^ k → roundShift m k % 2 = 0) := by
  rw [roundShift, Nat.pow_eq]
  split <;> omega

/-- The quotient of a number by the power of two that leaves 24 bits. -/
theorem div_pow_bounds {m : Nat} (h : 23 < m.log2) :
    2 ^ 23 ≤ m / 2 ^ (m.log2 - 23) ∧ m / 2 ^ (m.log2 - 23) < 2 ^ 24 := by
  have hm : m ≠ 0 := by
    rintro rfl
    cases h
  have hlow : 23 + (m.log2 - 23) = m.log2 := by omega
  have hhigh : 24 + (m.log2 - 23) = m.log2 + 1 := by omega
  constructor
  · rw [Nat.le_div_iff_mul_le (Nat.two_pow_pos _), ← Nat.pow_add, hlow]
    exact Nat.log2_self_le hm
  · rw [Nat.div_lt_iff_lt_mul (Nat.two_pow_pos _), ← Nat.pow_add, hhigh]
    exact Nat.lt_log2_self

/-- The significand of a positive number has 24 bits, or is the number after all of these. -/
theorem significand_bounds {m : Nat} (hm : m ≠ 0) :
    2 ^ 23 ≤ significand m ∧ significand m ≤ 2 ^ 24 := by
  rw [significand, Nat.pow_eq]
  split
  · rename_i hsmall
    -- Shifting fills up the 24 bits, so the bounds of the logarithm are shifted along.
    have hlow : 2 ^ m.log2 * 2 ^ (23 - m.log2) = 2 ^ 23 := by
      rw [← Nat.pow_add, Nat.add_sub_cancel' hsmall]
    have hhigh : 2 ^ (m.log2 + 1) * 2 ^ (23 - m.log2) = 2 ^ 24 := by
      rw [← Nat.pow_add]
      congr 1
      omega
    constructor
    · rw [← hlow]
      exact Nat.mul_le_mul_right _ (Nat.log2_self_le hm)
    · rw [← hhigh]
      exact Nat.mul_le_mul_right _ Nat.lt_log2_self.le
  · rename_i hlarge
    -- The quotient has 24 bits, and rounding adds one at most.
    have hquotient := div_pow_bounds (Nat.not_le.mp hlarge)
    have hround := (roundShift_cases m (m.log2 - 23)).1
    omega

/-! ### The nearest integer -/

/-- A number rounded to 24 bits. -/
def rounded (m : Nat) : Nat :=
  if m.log2 ≤ 23 then m else significand m * 2 ^ (m.log2 - 23)

/-- What the significand stands for, in units of the same power of two for all numbers. -/
theorem rounded_mul (m : Nat) : rounded m * 2 ^ 150 = significand m * 2 ^ (m.log2 + 127) := by
  rw [rounded, significand, Nat.pow_eq]
  split
  · rename_i hsmall
    have hpow : 150 = 23 - m.log2 + (m.log2 + 127) := by omega
    rw [Nat.mul_assoc, ← Nat.pow_add, ← hpow]
  · rename_i hlarge
    have hpow : m.log2 - 23 + 150 = m.log2 + 127 := by omega
    rw [Nat.mul_assoc, ← Nat.pow_add, hpow]

/-- The integer is one of 24 bits, and none of these is nearer to a value. If another one is
as near, the significand that the integer is written with is even. -/
structure IsRounding (value n : Int) (significand : Nat) : Prop where
  short : IsShort n
  nearest : ∀ other, IsShort other → (n - value).natAbs ≤ (other - value).natAbs
  even : ∀ other, IsShort other → other ≠ n →
    (other - value).natAbs = (n - value).natAbs → significand % 2 = 0

/-- Where a division leaves 24 bits, its rounded quotient stands for the nearest. -/
theorem isRounding_roundShift {m k : Nat} (hquotient : 2 ^ 23 ≤ m / 2 ^ k)
    (hround : roundShift m k ≤ 2 ^ 24) :
    IsRounding m (roundShift m k * 2 ^ k : Nat) (roundShift m k) := by
  obtain ⟨hcases, heven⟩ := roundShift_cases m k
  have hm : m = m / 2 ^ k * 2 ^ k + m % 2 ^ k := (Nat.div_add_mod' m _).symm
  have hremainder : m % 2 ^ k < 2 ^ k := Nat.mod_lt _ (Nat.two_pow_pos k)
  have hvalue : roundShift m k * 2 ^ k = m / 2 ^ k * 2 ^ k ∧ 2 * (m % 2 ^ k) ≤ 2 ^ k ∨
      roundShift m k * 2 ^ k = m / 2 ^ k * 2 ^ k + 2 ^ k ∧ 2 ^ k ≤ 2 * (m % 2 ^ k) := by
    rcases hcases with ⟨hround, hhalf⟩ | ⟨hround, hhalf⟩
    · exact .inl ⟨by rw [hround], hhalf⟩
    · exact .inr ⟨by rw [hround, Nat.succ_mul], hhalf⟩
  -- Every integer of 24 bits is at least as far away as one of the two neighbours.
  have hgap : ∀ other, IsShort other →
      other ≤ (m / 2 ^ k * 2 ^ k : Nat) ∨ (m / 2 ^ k * 2 ^ k + 2 ^ k : Nat) ≤ other := by
    intro other hother
    have hneighbours := hother.le_or_le hquotient k
    rw [add_mul, one_mul] at hneighbours
    exact_mod_cast hneighbours
  -- What is left is about distances from the lower neighbour.
  generalize m / 2 ^ k * 2 ^ k = lower at *
  generalize m % 2 ^ k = remainder at *
  refine ⟨?_, ?_, ?_⟩
  · have hshort := isShort_mul (s := roundShift m k) (by simpa using hround) k
    exact_mod_cast hshort
  · intro other hother
    have hgap := hgap other hother
    omega
  · intro other hother hne hdistance
    have hgap := hgap other hother
    exact heven (by omega)

/-- A number is rounded to the nearest. -/
theorem isRounding_rounded (m : Nat) : IsRounding m (rounded m) (significand m) := by
  by_cases hsmall : m.log2 ≤ 23
  · have hm : m < 2 ^ 24 := calc
      m < 2 ^ (m.log2 + 1) := Nat.lt_log2_self
      _ ≤ 2 ^ 24 := Nat.pow_le_pow_right (by decide) (by omega)
    rw [rounded, if_pos hsmall]
    -- Nothing else is as near as the number itself.
    exact ⟨isShort_of_natAbs_le hm.le, by omega, by omega⟩
  · have hne : m ≠ 0 := by
      rintro rfl
      exact hsmall (Nat.zero_le 23)
    have hbound := (significand_bounds hne).2
    have hquotient := (div_pow_bounds (Nat.not_le.mp hsmall)).1
    rw [rounded, if_neg hsmall]
    rw [significand, if_neg hsmall] at hbound ⊢
    exact isRounding_roundShift hquotient hbound

theorem IsRounding.neg (h : IsRounding value n s) : IsRounding (-value) (-n) s := by
  refine ⟨h.short.neg, ?_, ?_⟩
  · intro other hother
    have hnearest := h.nearest _ hother.neg
    omega
  · intro other hother hne hdistance
    exact h.even _ hother.neg (by omega) (by omega)

theorem IsRounding.neg_one_pow_mul (h : IsRounding value n s) (sign : Nat) :
    IsRounding ((-1) ^ sign * value) ((-1) ^ sign * n) s := by
  rcases neg_one_pow_eq_or Int sign with hsign | hsign
  · rwa [hsign, one_mul, one_mul]
  · rw [hsign, neg_one_mul, neg_one_mul]
    exact h.neg

/-- Only whether a significand is even matters. -/
theorem IsRounding.of_mod_eq (h : IsRounding value n s) (hmod : s' % 2 = s % 2) :
    IsRounding value n s' :=
  { h with even := fun other hother hne hdistance =>
      hmod.trans (h.even other hother hne hdistance) }

/-- What has 24 bits is not rounded. -/
theorem IsRounding.eq_of_isShort (h : IsRounding value n s) (hshort : IsShort value) :
    n = value := by
  have hnearest := h.nearest value hshort
  omega

/-- What is nearest to a larger value is not smaller. -/
theorem IsRounding.le_of_lt (h : IsRounding value n s) (h' : IsRounding value' n' s')
    (hlt : value < value') : n ≤ n' := by
  -- If the order were turned, both values would lie in the middle between the two numbers.
  have hnearest := h.nearest n' h'.short
  have hnearest' := h'.nearest n h.short
  omega

end Glint.Binary32

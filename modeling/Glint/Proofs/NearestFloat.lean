import Glint.Proofs.Rounding
import Glint.Specialization

/-!
# The numbers that constants are encoded as

A value of a specialization constant is an integer, and four bytes stand for it, the lowest first.
For a constant that is itself an integer they make the value up to a multiple of `2 ^ 32`. For
a floating point constant they are read by their fields: a bit for the sign, eight bits for the
exponent and 23 bits for the fraction. The number that they stand for is the value rounded to 24
bits. A significand that is rounded up to the next power of two needs no care, since the bit that
is carried over adds one to the exponent and leaves a fraction of zero.

## Main definitions

* `Binary32.Fields` — the fields of a floating point word
* `Binary32.Fields.Denotes` — the word stands for an integer
* `littleEndian` — the number that bytes make
* `SpecConstant.bits` — the number that the four bytes of a value make

## Main results

* `Binary32.denotes_ofBits` — a sign and a magnitude stand for a rounded number
* `Binary32.exists_isRounding_ofInt` — the word of an integer stands for the nearest number
* `SpecConstant.encode_rounded` — the numbers that values of constants are encoded as
-/

namespace Glint

namespace Binary32

/-- The fields of a floating point word. -/
structure Fields where
  sign : Nat
  exponent : Nat
  fraction : Nat
  deriving DecidableEq, Repr

namespace Fields

/-- The fields of a word of 32 bits: its highest bit, the next eight and the last 23. -/
def ofBits (bits : Nat) : Fields :=
  ⟨bits / 2 ^ 31, bits / 2 ^ 23 % 2 ^ 8, bits % 2 ^ 23⟩

/-- The fraction behind its leading bit, which only the least of the exponents does not have. -/
def significand (fields : Fields) : Nat :=
  if fields.exponent = 0 then fields.fraction else 2 ^ 23 + fields.fraction

/-- The fields stand for an integer. The exponent has a bias of 127 and the significand has 23
bits behind its point, so both count in units of `2 ^ (-150)`. The two least exponents stand for
the same power, and the largest one for no number. -/
def Denotes (fields : Fields) (n : Int) : Prop :=
  fields.exponent < 255 ∧
    n * 2 ^ 150 = (-1) ^ fields.sign * (fields.significand * 2 ^ max 1 fields.exponent)

instance (fields : Fields) (n : Int) : Decidable (fields.Denotes n) :=
  inferInstanceAs (Decidable (_ ∧ _))

/-- Fields stand for one number at most. -/
theorem Denotes.unique {fields : Fields} {n n' : Int} (h : fields.Denotes n)
    (h' : fields.Denotes n') : n = n' :=
  Int.eq_of_mul_eq_mul_right (by decide) (h.2.trans h'.2.symm)

/-- A significand of 24 bits is written without its leading bit, which adds one to the exponent.
The number after all of these has a bit more; it adds two and leaves no fraction. -/
theorem ofBits_eq {sign exponent s : Nat} (hexponent : exponent ≤ 252) (hlow : 2 ^ 23 ≤ s)
    (hhigh : s ≤ 2 ^ 24) :
    ofBits (sign * 2 ^ 31 + (exponent * 2 ^ 23 + s)) =
      if s < 2 ^ 24 then ⟨sign, exponent + 1, s - 2 ^ 23⟩ else ⟨sign, exponent + 2, 0⟩ := by
  rw [ofBits]
  split <;> rw [Fields.mk.injEq] <;> omega

theorem significand_of_pos {fields : Fields} (h : 0 < fields.exponent) :
    fields.significand = 2 ^ 23 + fields.fraction :=
  if_neg h.ne'

/-- Either way the significand counts in the same power of two, and it is as even as before. -/
theorem scaled_ofBits {sign exponent s : Nat} {fields : Fields} (hexponent : exponent ≤ 252)
    (hlow : 2 ^ 23 ≤ s) (hhigh : s ≤ 2 ^ 24)
    (hfields : fields = ofBits (sign * 2 ^ 31 + (exponent * 2 ^ 23 + s))) :
    fields.sign = sign ∧ fields.exponent < 255 ∧
      fields.significand * 2 ^ max 1 fields.exponent = s * 2 ^ (exponent + 1) ∧
      fields.significand % 2 = s % 2 := by
  rw [ofBits_eq hexponent hlow hhigh] at hfields
  split at hfields <;> subst hfields <;> rw [significand_of_pos (Nat.succ_pos _)] <;> dsimp only
  · -- Reading puts the leading bit back.
    have hsignificand : 2 ^ 23 + (s - 2 ^ 23) = s := by omega
    rw [hsignificand, Nat.max_eq_right (Nat.le_add_left 1 exponent)]
    exact ⟨rfl, by omega, rfl, rfl⟩
  · -- Half the significand counts in twice the unit.
    obtain rfl : s = 2 ^ 24 := by omega
    rw [Nat.max_eq_right (Nat.le_add_left 1 (exponent + 1))]
    exact ⟨rfl, by omega, by ring, rfl⟩

end Fields

open Fields (ofBits)

/-! ### The word of an integer -/

/-- A sign and the magnitude of a number stand for the number rounded to 24 bits. -/
theorem denotes_ofBits {m : Nat} (hm : m < 2 ^ 127) {sign : Nat} (hsign : sign < 2) :
    (ofBits (sign * 2 ^ 31 + magnitude m)).Denotes ((-1) ^ sign * rounded m) ∧
      (ofBits (sign * 2 ^ 31 + magnitude m)).significand % 2 = significand m % 2 := by
  by_cases hzero : m = 0
  · -- Zero has no leading bit, so all its fields but the sign are zero.
    subst hzero
    obtain rfl | rfl : sign = 0 ∨ sign = 1 := by omega
    all_goals decide
  · have hlog : m.log2 < 127 := (Nat.log2_lt hzero).mpr hm
    obtain ⟨hlow, hhigh⟩ := significand_bounds hzero
    rw [magnitude, if_neg hzero]
    generalize hfields :
      ofBits (sign * 2 ^ 31 + ((m.log2 + 126) * 0x800000 + significand m)) = fields
    have hexponent : m.log2 + 126 ≤ 252 := by omega
    obtain ⟨hfirst, hfinite, hscaled, heven⟩ :=
      Fields.scaled_ofBits hexponent hlow hhigh hfields.symm
    have hrounded := rounded_mul m
    rw [← hscaled] at hrounded
    refine ⟨⟨hfinite, ?_⟩, heven⟩
    rw [hfirst, Int.mul_assoc]
    congr 1
    exact_mod_cast hrounded

theorem magnitude_lt {m : Nat} (hm : m < 2 ^ 127) : magnitude m < 2 ^ 31 := by
  rw [magnitude]
  split
  · decide
  · rename_i hzero
    have hlog : m.log2 < 127 := (Nat.log2_lt hzero).mpr hm
    have hhigh := (significand_bounds hzero).2
    omega

variable {value : Int}

/-- The word of an integer is its sign and the magnitude of its absolute value. -/
theorem exists_toNat_ofInt (h : value.natAbs < 2 ^ 127) :
    ∃ sign < 2, value = (-1) ^ sign * value.natAbs ∧
      (ofInt value).toNat = sign * 2 ^ 31 + magnitude value.natAbs := by
  -- The magnitude leaves the highest bit to the sign.
  have hmagnitude := magnitude_lt h
  by_cases hneg : value < 0
  · refine ⟨1, by decide, by omega, ?_⟩
    rw [ofInt, if_pos hneg]
    exact UInt32.toNat_ofNat_of_lt' (by rw [UInt32.size]; omega)
  · refine ⟨0, by decide, by omega, ?_⟩
    rw [ofInt, if_neg hneg, Nat.zero_mul]
    exact UInt32.toNat_ofNat_of_lt' (by rw [UInt32.size]; omega)

/-- The word of an integer stands for the nearest number of 24 bits. -/
theorem exists_isRounding_ofInt (h : value.natAbs < 2 ^ 127) :
    ∃ n, (ofBits (ofInt value).toNat).Denotes n ∧
      IsRounding value n (ofBits (ofInt value).toNat).significand := by
  obtain ⟨sign, hsign, hvalue, hword⟩ := exists_toNat_ofInt h
  obtain ⟨hdenotes, heven⟩ := denotes_ofBits h hsign
  have hrounding := (isRounding_rounded value.natAbs).neg_one_pow_mul sign
  rw [← hvalue] at hrounding
  rw [hword]
  exact ⟨_, hdenotes, hrounding.of_mod_eq heven⟩

end Binary32

/-! ### Bytes -/

/-- The number that bytes make, the lowest first. -/
def littleEndian : List UInt8 → Nat
  | [] => 0
  | byte :: bytes => byte.toNat + 256 * littleEndian bytes

/-- The first bytes make the number up to a multiple of a power of 256. -/
theorem littleEndian_take (bytes : List UInt8) (k : Nat) :
    littleEndian (bytes.take k) = littleEndian bytes % 256 ^ k := by
  induction bytes generalizing k with
  | nil => rw [List.take_nil, littleEndian, Nat.zero_mod]
  | cons byte bytes ih =>
    cases k with
    | zero => rw [List.take_zero, littleEndian, Nat.pow_zero, Nat.mod_one]
    | succ k =>
      have hbyte : byte.toNat < 256 := byte.toNat_lt
      have hlast : (byte.toNat + 256 * littleEndian bytes) % 256 = byte.toNat := by omega
      have hrest : (byte.toNat + 256 * littleEndian bytes) / 256 = littleEndian bytes := by omega
      rw [List.take_succ_cons, littleEndian, littleEndian, ih, Nat.pow_succ', Nat.mod_mul, hlast,
        hrest]

/-- The bytes of a word make the word. -/
theorem littleEndian_wordBytes (w : UInt32) : littleEndian (wordBytes w) = w.toNat := by
  have hw : w.toNat < 2 ^ 32 := w.toNat_lt
  simp only [wordBytes, littleEndian, UInt32.toNat_toUInt8, UInt32.toNat_shiftRight,
    Nat.shiftRight_eq_div_pow, UInt32.toNat_ofNat, Nat.reduceMod, Nat.reducePow]
  omega

/-! ### The values of constants -/

namespace SpecConstant

open Binary32 (IsRounding)
open Binary32.Fields (ofBits)

variable {c : SpecConstant} {value value' : Int32} {n n' : Int}

/-- The number that the four bytes of a value make. -/
def bits (c : SpecConstant) (value : Int32) : Nat :=
  littleEndian (wordBytes (c.word value))

theorem bits_eq (c : SpecConstant) (value : Int32) : c.bits value = (c.word value).toNat :=
  littleEndian_wordBytes _

/-- As many of the four bytes are written as the constant has room for. -/
theorem littleEndian_encode (c : SpecConstant) (value : Int32) :
    littleEndian (c.encode value) = c.bits value % 256 ^ c.size.toNat :=
  littleEndian_take _ _

/-- A floating point constant is encoded as its value rounded to 24 bits. -/
theorem exists_isRounding_bits (hfloat : c.scalar = .float32) (value : Int32) :
    ∃ n, (ofBits (c.bits value)).Denotes n ∧
      IsRounding value.toInt n (ofBits (c.bits value)).significand := by
  have hlow := value.le_toInt
  have hhigh := value.toInt_lt
  have hword : c.word value = Binary32.ofInt value.toInt := by
    rw [word, hfloat]
  rw [bits_eq, hword]
  exact Binary32.exists_isRounding_ofInt (by omega)

/-- Larger values are encoded as larger numbers, or the same. -/
theorem le_of_denotes_bits (hfloat : c.scalar = .float32) (hle : value.toInt ≤ value'.toInt)
    (h : (ofBits (c.bits value)).Denotes n) (h' : (ofBits (c.bits value')).Denotes n') :
    n ≤ n' := by
  obtain ⟨m, hm, hrounding⟩ := exists_isRounding_bits hfloat value
  obtain ⟨m', hm', hrounding'⟩ := exists_isRounding_bits hfloat value'
  obtain rfl := h.unique hm
  obtain rfl := h'.unique hm'
  rcases Int.lt_or_eq_of_le hle with hlt | heq
  · exact hrounding.le_of_lt hrounding' hlt
  · -- Nearness does not decide here, but the word does.
    obtain rfl := Int32.toInt_inj.mp heq
    exact (h.unique h').le

/-- An integer constant is encoded as its value up to a multiple of `2 ^ 32`. -/
theorem bits_of_integer (hinteger : c.scalar = .int32 ∨ c.scalar = .uint32) (value : Int32) :
    (c.bits value : Int) = value.toInt % 2 ^ 32 := by
  have hword : c.word value = value.toUInt32 := by
    rcases hinteger with h | h <;> rw [word, h]
  have hvalue : value.toInt = Int.bmod value.toUInt32.toNat (2 ^ 32) :=
    BitVec.toInt_eq_toNat_bmod value.toBitVec
  have hmod : value.toInt % (2 ^ 32 : Nat) = value.toUInt32.toNat % (2 ^ 32 : Nat) := by
    rw [hvalue, Int.bmod_emod]
  have hlt : value.toUInt32.toNat < 2 ^ 32 := value.toUInt32.toNat_lt
  rw [bits_eq, hword]
  omega

/-- The bytes of a value are the low ones of four. Those of a floating point constant stand for
the number nearest to the value among those with a significand of 24 bits; where two are as near,
for the one with the even significand. It is the value itself up to `2 ^ 24`, and it does not fall
when the value grows. Those of an integer constant make the value up to a multiple of
`2 ^ 32`. -/
theorem encode_rounded (c : SpecConstant) :
    (∀ value, littleEndian (c.encode value) = c.bits value % 256 ^ c.size.toNat) ∧
    (c.scalar = .float32 →
      (∀ value : Int32, ∃ n, (ofBits (c.bits value)).Denotes n ∧
        IsRounding value.toInt n (ofBits (c.bits value)).significand ∧
        (value.toInt.natAbs ≤ 2 ^ 24 → n = value.toInt)) ∧
      ∀ (value value' : Int32) (n n' : Int), value.toInt ≤ value'.toInt →
        (ofBits (c.bits value)).Denotes n → (ofBits (c.bits value')).Denotes n' → n ≤ n') ∧
    (c.scalar = .int32 ∨ c.scalar = .uint32 →
      ∀ value : Int32, (c.bits value : Int) = value.toInt % 2 ^ 32) := by
  refine ⟨littleEndian_encode c, fun hfloat => ⟨?_, ?_⟩, bits_of_integer⟩
  · intro value
    obtain ⟨n, hdenotes, hrounding⟩ := exists_isRounding_bits hfloat value
    refine ⟨n, hdenotes, hrounding, fun hsmall => ?_⟩
    exact hrounding.eq_of_isShort (Binary32.isShort_of_natAbs_le hsmall)
  · intro value value' n n' hle
    exact le_of_denotes_bits hfloat hle

/-- A floating point constant. -/
def scale : SpecConstant :=
  ⟨7, "scale", "float", .float32, 4, 0⟩

/-- An unsigned constant. -/
def count : SpecConstant :=
  ⟨0, "count", "uint", .uint32, 4, 4⟩

/-- A value halfway between two numbers, one that is kept, the largest value, which goes up to a
power of two, and a negative one for an unsigned constant. -/
theorem encode_rounded_scale :
    scale.scalar = .float32 ∧
    (littleEndian (scale.encode 16777219) = scale.bits 16777219 ∧
      (ofBits (scale.bits 16777219)).Denotes 16777220 ∧
      IsRounding 16777219 16777220 (ofBits (scale.bits 16777219)).significand) ∧
    ((-16777216 : Int32).toInt.natAbs ≤ 2 ^ 24 ∧
      (ofBits (scale.bits (-16777216))).Denotes (-16777216)) ∧
    ((16777219 : Int32).toInt ≤ (2147483647 : Int32).toInt ∧
      (ofBits (scale.bits 2147483647)).Denotes 2147483648 ∧ (16777220 : Int) ≤ 2147483648) ∧
    count.scalar = .uint32 ∧ count.bits (-1) = 4294967295 := by
  obtain ⟨hbytes, hfloat, -⟩ := encode_rounded scale
  obtain ⟨hnearest, hmono⟩ := hfloat rfl
  have hhalf : (ofBits (scale.bits 16777219)).Denotes 16777220 := by decide +kernel
  have hlargest : (ofBits (scale.bits 2147483647)).Denotes 2147483648 := by decide +kernel
  have hle : (16777219 : Int32).toInt ≤ (2147483647 : Int32).toInt := by decide
  obtain ⟨n, hdenotes, hrounding, -⟩ := hnearest 16777219
  obtain rfl := hdenotes.unique hhalf
  have hsmall : (-16777216 : Int32).toInt.natAbs ≤ 2 ^ 24 := by decide
  obtain ⟨kept, hkept, -, hsame⟩ := hnearest (-16777216)
  obtain rfl := hsame hsmall
  have hinteger : (count.bits (-1) : Int) = 4294967295 :=
    ((encode_rounded count).2.2 (.inr rfl) (-1)).trans (by decide)
  refine ⟨rfl, ⟨?_, hhalf, hrounding⟩, ⟨hsmall, hkept⟩,
    ⟨hle, hlargest, hmono _ _ _ _ hle hhalf hlargest⟩, rfl, ?_⟩
  · rw [hbytes]
    decide +kernel
  · exact_mod_cast hinteger

end SpecConstant

end Glint

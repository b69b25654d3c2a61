/-!
# Integers as floating point words

A floating point number of 32 bits has a sign, eight bits of exponent and 23 bits
of fraction. An integer is encoded as the nearest such number, and one that lies
halfway between two goes to the number whose last bit is zero. All of it is
integer arithmetic: the significand is the integer, shifted to 24 bits and
rounded.

## Main definitions

* `Binary32.roundShift` — a number divided by a power of two, rounded
* `Binary32.ofInt` — the word of the floating point number nearest to an integer
-/

namespace Glint.Binary32

/-- The integer nearest to `m / 2 ^ shift`; of two that are equally near, the even one. -/
def roundShift (m shift : Nat) : Nat :=
  let divisor := Nat.pow 2 shift
  let quotient := m / divisor
  let remainder := m % divisor
  if divisor < 2 * remainder ∨ divisor = 2 * remainder ∧ quotient % 2 = 1 then quotient + 1
  else quotient

/-- The significand of a positive number as an integer of 24 bits, or of 25 bits after a
carry. -/
def significand (m : Nat) : Nat :=
  if m.log2 ≤ 23 then m * Nat.pow 2 (23 - m.log2) else roundShift m (m.log2 - 23)

/-- The exponent and fraction fields of a number. The leading bit of the significand adds
one to the exponent field, and so does a carry. -/
def magnitude (m : Nat) : Nat :=
  -- The bias of the exponent is 127, and the leading bit of the significand is worth one more.
  if m = 0 then 0 else (m.log2 + 126) * 0x800000 + significand m

/-- The word of the floating point number nearest to an integer. -/
def ofInt (value : Int) : UInt32 :=
  UInt32.ofNat ((if value < 0 then 0x80000000 else 0) + magnitude value.natAbs)

end Glint.Binary32

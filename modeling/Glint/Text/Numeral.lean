/-!
# Numerals

Reading 32-bit words from decimal and hexadecimal digits, and writing them in
lower-case hexadecimal. A numeral may start with zeros, and one that denotes a
number past the last word is refused.

## Main definitions

* `Text.digits?` — the number that a list of digits denotes in a base
* `Text.decimal?`, `Text.hexadecimal?` — the word that a numeral denotes
* `Text.hexDigits` — a number in lower-case hexadecimal
-/

namespace Glint.Text

/-- The value of an ASCII digit or letter as a digit below `base`. -/
def digitValue? (base : Nat) (c : Char) : Option Nat :=
  let value? :=
    if c.isDigit then some (c.toNat - '0'.toNat)
    else if 'a' ≤ c ∧ c ≤ 'z' then some (c.toNat - 'a'.toNat + 10)
    else if 'A' ≤ c ∧ c ≤ 'Z' then some (c.toNat - 'A'.toNat + 10)
    else none
  value?.filter (· < base)

/-- The number denoted by digits that continue a number `value` read so far. -/
def digitsFrom? (base value : Nat) : List Char → Option Nat
  | [] => some value
  | c :: cs =>
    match digitValue? base c with
    | some digit => digitsFrom? base (value * base + digit) cs
    | none => none

/-- The number that a non-empty list of digits denotes. -/
def digits? (base : Nat) (cs : List Char) : Option Nat :=
  if cs.isEmpty then none else digitsFrom? base 0 cs

/-- A number as a word, if it is one. -/
def word? (n : Nat) : Option UInt32 :=
  if n < UInt32.size then some (UInt32.ofNat n) else none

/-- The word that a decimal numeral denotes. -/
def decimal? (cs : List Char) : Option UInt32 :=
  (digits? 10 cs).bind word?

/-- The word that a hexadecimal numeral denotes, after an optional plus sign. -/
def hexadecimal? : List Char → Option UInt32
  | '+' :: cs => (digits? 16 cs).bind word?
  | cs => (digits? 16 cs).bind word?

/-- A number in lower-case hexadecimal, without leading zeros. -/
def hexDigits (n : Nat) : List Char :=
  Nat.toDigits 16 n

end Glint.Text

import Glint.Text.Numeral

/-!
# Numerals written and read back

A number is written in a base up to sixteen with its digits alone, and its numeral
denotes it again. The decimal numerals are the lists of decimal digits, with or without zeros at
the start, that denote a word.

## Main definitions

* `Text.IsNumeral` — decimal digits that denote a number

## Main results

* `Text.digits?_toDigits` — a number is read back from its digits
* `Text.decimal?_repr` — a word is read back from its decimal numeral
* `Text.decimal?_eq_some_iff` — what is read as a decimal numeral
-/

namespace Glint.Text

variable {base digit n : Nat} {cs : List Char}

theorem digitValue?_digitChar (hbase : base ≤ 16) (hdigit : digit < base) :
    digitValue? base digit.digitChar = some digit := by
  have hvalue : ∀ d < 16,
      (if d.digitChar.isDigit then some (d.digitChar.toNat - '0'.toNat)
        else if 'a' ≤ d.digitChar ∧ d.digitChar ≤ 'z' then
          some (d.digitChar.toNat - 'a'.toNat + 10)
        else if 'A' ≤ d.digitChar ∧ d.digitChar ≤ 'Z' then
          some (d.digitChar.toNat - 'A'.toNat + 10)
        else none) = some d := by
    decide
  rw [digitValue?, hvalue digit (by omega)]
  simp [Option.filter, hdigit]

theorem digitsFrom?_append (base value : Nat) (as bs : List Char) :
    digitsFrom? base value (as ++ bs) =
      (digitsFrom? base value as).bind fun value' => digitsFrom? base value' bs := by
  induction as generalizing value with
  | nil => rfl
  | cons a as ih =>
    rw [List.cons_append, digitsFrom?, digitsFrom?]
    cases digitValue? base a with
    | none => rfl
    | some digit => exact ih _

theorem digitsFrom?_digit (hbase : base ≤ 16) (hdigit : digit < base) (value : Nat) :
    digitsFrom? base value [digit.digitChar] = some (value * base + digit) := by
  rw [digitsFrom?, digitValue?_digitChar hbase hdigit]
  rfl

/-- A number is read back from its digits. -/
theorem digits?_toDigits (hone : 1 < base) (hbase : base ≤ 16) (n : Nat) :
    digits? base (Nat.toDigits base n) = some n := by
  rw [digits?, if_neg (by simp)]
  -- The last digit is read after the number that the others denote.
  induction n using Nat.base_induction base hone with
  | single digit hdigit =>
    rw [Nat.toDigits_of_lt_base hdigit, digitsFrom?_digit hbase hdigit, Nat.zero_mul,
      Nat.zero_add]
  | digit n digit hdigit hn ih =>
    rw [← Nat.toDigits_append_toDigits hone hn hdigit, digitsFrom?_append, ih,
      Nat.toDigits_of_lt_base hdigit, Option.bind_some, digitsFrom?_digit hbase hdigit,
      Nat.mul_comm]

theorem word?_toNat (w : UInt32) : word? w.toNat = some w := by
  rw [word?, if_pos w.toNat_lt, UInt32.ofNat_toNat]

/-- A word is read back from its decimal numeral. -/
theorem decimal?_repr (w : UInt32) : decimal? w.toNat.repr.toList = some w := by
  rw [Nat.toList_repr, decimal?, digits?_toDigits (by decide) (by decide), Option.bind_some,
    word?_toNat]

/-! ### Decimal numerals -/

/-- The characters are decimal digits, at least one, and denote a number. -/
structure IsNumeral (cs : List Char) (n : Nat) : Prop where
  ne_nil : cs ≠ []
  isDigit : ∀ c ∈ cs, c.isDigit = true
  value : Nat.ofDigitChars 10 cs 0 = n

/-- The decimal digits are the characters from `0` to `9`. -/
theorem digitValue?_ten (c : Char) :
    digitValue? 10 c = if c.isDigit then some (c.toNat - '0'.toNat) else none := by
  rw [digitValue?]
  split
  · rename_i hdigit
    have hrange : 0x30 ≤ c.toNat ∧ c.toNat ≤ 0x39 := Char.isDigit_iff_toNat.mp hdigit
    have hzero : '0'.toNat = 0x30 := rfl
    rw [Option.filter_some, if_pos (by rw [decide_eq_true_eq]; omega)]
  · -- The value of a letter is ten or more.
    split
    · simp [Option.filter]
    · split
      · simp [Option.filter]
      · rfl

theorem digitsFrom?_eq_some_iff {value : Nat} :
    digitsFrom? 10 value cs = some n ↔
      (∀ c ∈ cs, c.isDigit = true) ∧ Nat.ofDigitChars 10 cs value = n := by
  induction cs generalizing value with
  | nil => simp [digitsFrom?, Nat.ofDigitChars]
  | cons c cs ih =>
    rw [digitsFrom?, digitValue?_ten, List.forall_mem_cons, Nat.ofDigitChars_cons]
    split
    · rename_i digit hdigit
      obtain ⟨hc, hvalue⟩ := Option.ite_none_right_eq_some.mp hdigit
      obtain rfl := Option.some.inj hvalue
      rw [ih, Nat.mul_comm 10]
      simp [hc]
    · rename_i hnone
      have hc : c.isDigit = false := by
        cases hdigit : c.isDigit <;> simp [hdigit] at hnone ⊢
      simp [hc]

theorem word?_eq_some_iff {w : UInt32} : word? n = some w ↔ n = w.toNat := by
  constructor
  · intro h
    obtain ⟨hlt, hw⟩ := Option.ite_none_right_eq_some.mp h
    obtain rfl := Option.some.inj hw
    exact (UInt32.toNat_ofNat_of_lt' hlt).symm
  · rintro rfl
    exact word?_toNat w

/-- A decimal numeral is read as the word that it denotes, and nothing else is read. -/
theorem decimal?_eq_some_iff {w : UInt32} : decimal? cs = some w ↔ IsNumeral cs w.toNat := by
  rw [decimal?, digits?]
  cases cs with
  | nil => exact ⟨nofun, fun h => absurd rfl h.ne_nil⟩
  | cons c cs =>
    rw [if_neg (by simp), Option.bind_eq_some_iff]
    constructor
    · rintro ⟨n, hn, hw⟩
      obtain ⟨hdigits, hvalue⟩ := digitsFrom?_eq_some_iff.mp hn
      exact ⟨List.cons_ne_nil c cs, hdigits, hvalue.trans (word?_eq_some_iff.mp hw)⟩
    · intro h
      exact ⟨_, digitsFrom?_eq_some_iff.mpr ⟨h.isDigit, h.value⟩, word?_toNat w⟩


end Glint.Text

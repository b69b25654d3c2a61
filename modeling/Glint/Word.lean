/-!
# Sums and products that fit in 32 bits

Sizes, offsets, locations and bindings are 32-bit words. A layout whose numbers
outgrow a word has no meaning for the device, so the operations here answer
`none` instead of wrapping around.

## Main definitions

* `Word.add?`, `Word.mul?` — the sum and the product of two words, if they are words
* `Word.total?` — the sum of a list of words, if it is a word

## Main results

* `Word.add?_eq_some_iff`, `Word.mul?_eq_some_iff`, `Word.total?_eq_some_iff` — each
  operation is exact where it answers, and answers wherever the exact result fits
-/

namespace Glint.Word

variable {a b c : UInt32}

/-- The sum of two words, if it is a word. -/
def add? (a b : UInt32) : Option UInt32 :=
  if a.toNat + b.toNat < UInt32.size then some (a + b) else none

/-- The product of two words, if it is a word. -/
def mul? (a b : UInt32) : Option UInt32 :=
  if a.toNat * b.toNat < UInt32.size then some (a * b) else none

/-- The exact sum of a list of words. -/
def sum : List UInt32 → Nat
  | [] => 0
  | word :: words => word.toNat + sum words

/-- The sum of a list of words, if it is a word. -/
def total? (words : List UInt32) : Option UInt32 :=
  if sum words < UInt32.size then some (UInt32.ofNat (sum words)) else none

theorem toNat_add (h : a.toNat + b.toNat < UInt32.size) : (a + b).toNat = a.toNat + b.toNat := by
  rw [UInt32.toNat_add]
  exact Nat.mod_eq_of_lt h

theorem toNat_mul (h : a.toNat * b.toNat < UInt32.size) : (a * b).toNat = a.toNat * b.toNat := by
  rw [UInt32.toNat_mul]
  exact Nat.mod_eq_of_lt h

theorem add?_eq_some_iff : add? a b = some c ↔ a.toNat + b.toNat = c.toNat := by
  have hc : c.toNat < UInt32.size := c.toNat_lt
  unfold add?
  split
  · rename_i h
    rw [Option.some.injEq, ← toNat_add h]
    exact ⟨congrArg _, UInt32.toNat_inj.1⟩
  · rename_i h
    constructor
    · intro h'
      cases h'
    · intro h'
      omega

theorem mul?_eq_some_iff : mul? a b = some c ↔ a.toNat * b.toNat = c.toNat := by
  have hc : c.toNat < UInt32.size := c.toNat_lt
  unfold mul?
  split
  · rename_i h
    rw [Option.some.injEq, ← toNat_mul h]
    exact ⟨congrArg _, UInt32.toNat_inj.1⟩
  · rename_i h
    constructor
    · intro h'
      cases h'
    · intro h'
      omega

theorem total?_eq_some_iff {words : List UInt32} :
    total? words = some c ↔ sum words = c.toNat := by
  have hc : c.toNat < UInt32.size := c.toNat_lt
  unfold total?
  split
  · rename_i h
    have hsum : (UInt32.ofNat (sum words)).toNat = sum words :=
      UInt32.toNat_ofNat_of_lt' h
    rw [Option.some.injEq]
    constructor
    · intro h'
      rw [← h', hsum]
    · intro h'
      exact UInt32.toNat_inj.1 (hsum.trans h')
  · rename_i h
    constructor
    · intro h'
      cases h'
    · intro h'
      omega

@[simp] theorem sum_nil : sum [] = 0 := rfl

@[simp] theorem sum_cons (word : UInt32) (words : List UInt32) :
    sum (word :: words) = word.toNat + sum words := rfl

theorem sum_append (words words' : List UInt32) :
    sum (words ++ words') = sum words + sum words' := by
  induction words with
  | nil => rw [List.nil_append, sum_nil, Nat.zero_add]
  | cons word words ih => rw [List.cons_append, sum_cons, sum_cons, ih, Nat.add_assoc]

end Glint.Word

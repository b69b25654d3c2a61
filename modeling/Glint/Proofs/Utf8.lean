import Glint.Text.Bytes
import Mathlib.Data.List.Infix

/-!
# Texts as bytes

In UTF-8 a character of ASCII is one byte, and all bytes of any other character lie above
those of ASCII. What is said of a text in terms of characters of ASCII can therefore be
said of its bytes: whether such a character occurs, which one comes first, and whether two
of them stand next to each other.

## Main definitions

* `Text.utf8` — the bytes of a text

## Main results

* `Text.toUTF8_eq` — they are the bytes of the string
* `Text.toUInt8_mem_utf8_iff`, `Text.pair_prefix_utf8_iff`, `Text.pair_infix_utf8_iff` — where
  characters of ASCII occur among them
-/

namespace Glint.Text

/-- The bytes of a text in UTF-8. -/
def utf8 (cs : List Char) : List UInt8 :=
  cs.flatMap String.utf8EncodeChar

@[simp] theorem utf8_nil : utf8 [] = [] := rfl

@[simp] theorem utf8_cons (c : Char) (cs : List Char) :
    utf8 (c :: cs) = String.utf8EncodeChar c ++ utf8 cs := rfl

@[simp] theorem utf8_append (as bs : List Char) : utf8 (as ++ bs) = utf8 as ++ utf8 bs :=
  List.flatMap_append

theorem toUTF8_eq (source : String) : source.toUTF8.data.toList = utf8 source.toList := by
  have hbytes : source.toByteArray = source.toList.utf8Encode := by
    rw [← String.toByteArray_ofList, String.ofList_toList]
  rw [String.toUTF8_eq_toByteArray, hbytes]
  exact List.toList_data_toByteArray

theorem length_utf8 (cs : List Char) : (utf8 cs).length = byteLength cs := by
  induction cs with
  | nil => rfl
  | cons c cs ih =>
    rw [utf8_cons, List.length_append, String.length_utf8EncodeChar, ih, byteLength_cons]

/-! ### Single characters -/

/-- A character is a single byte of ASCII, or bytes above ASCII. -/
theorem utf8EncodeChar_cases (c : Char) :
    (c.toNat < 128 ∧ String.utf8EncodeChar c = [c.toUInt8]) ∨
      128 ≤ c.toNat ∧ ∀ b ∈ String.utf8EncodeChar c, 128 ≤ b.toNat := by
  have hval : c.toNat = c.val.toNat := rfl
  by_cases hlow : c.val.toNat ≤ 127
  · refine .inl ⟨by omega, ?_⟩
    rw [String.utf8EncodeChar_eq_singleton (Char.utf8Size_eq_one_iff.mpr hlow)]
    rfl
  · refine .inr ⟨by omega, ?_⟩
    -- Every byte is a sum with one of the marks of a longer form.
    intro b hb
    simp only [String.utf8EncodeChar, hlow, if_false] at hb
    split at hb
    · simp only [List.mem_cons, List.not_mem_nil, or_false] at hb
      rcases hb with rfl | rfl <;> simp only [UInt8.toNat_ofNat'] <;> omega
    · split at hb
      · simp only [List.mem_cons, List.not_mem_nil, or_false] at hb
        rcases hb with rfl | rfl | rfl <;> simp only [UInt8.toNat_ofNat'] <;> omega
      · simp only [List.mem_cons, List.not_mem_nil, or_false] at hb
        rcases hb with rfl | rfl | rfl | rfl <;> simp only [UInt8.toNat_ofNat'] <;> omega

variable {a b c : Char} {cs : List Char}

theorem utf8EncodeChar_of_ascii (ha : a.toNat < 128) : String.utf8EncodeChar a = [a.toUInt8] := by
  rcases utf8EncodeChar_cases a with ⟨-, h⟩ | ⟨hhigh, -⟩
  · exact h
  · omega

theorem toNat_toUInt8 (ha : a.toNat < 128) : a.toUInt8.toNat = a.toNat := by
  have hbyte : a.toUInt8.toNat = a.toNat % 256 := rfl
  omega

/-- A byte of ASCII is that of one character only. -/
theorem toUInt8_mem_encode_iff (ha : a.toNat < 128) :
    a.toUInt8 ∈ String.utf8EncodeChar c ↔ c = a := by
  constructor
  · intro hmem
    rcases utf8EncodeChar_cases c with ⟨hc, hencode⟩ | ⟨-, hhigh⟩
    · rw [hencode, List.mem_singleton] at hmem
      have hcode := congrArg UInt8.toNat hmem
      rw [toNat_toUInt8 ha, toNat_toUInt8 hc] at hcode
      exact (Char.toNat_inj.mp hcode).symm
    · have hbyte := hhigh _ hmem
      rw [toNat_toUInt8 ha] at hbyte
      omega
  · rintro rfl
    rw [utf8EncodeChar_of_ascii ha]
    exact List.mem_singleton_self _

/-! ### Characters of a text -/

theorem toUInt8_mem_utf8_iff (ha : a.toNat < 128) : a.toUInt8 ∈ utf8 cs ↔ a ∈ cs := by
  rw [utf8, List.mem_flatMap]
  constructor
  · rintro ⟨c, hc, hmem⟩
    rwa [← (toUInt8_mem_encode_iff ha).mp hmem]
  · intro hmem
    exact ⟨a, hmem, (toUInt8_mem_encode_iff ha).mpr rfl⟩

theorem head?_utf8_iff (ha : a.toNat < 128) :
    (utf8 cs).head? = some a.toUInt8 ↔ cs.head? = some a := by
  cases cs with
  | nil => simp
  | cons c cs =>
    rw [utf8_cons, List.head?_append_of_ne_nil _ String.utf8EncodeChar_ne_nil, List.head?_cons,
      Option.some.injEq]
    constructor
    · intro hhead
      exact (toUInt8_mem_encode_iff ha).mp (List.mem_of_head? hhead)
    · rintro rfl
      rw [utf8EncodeChar_of_ascii ha]
      rfl

/-! ### Two characters next to each other -/

theorem pair_prefix_iff {α : Type} {x y : α} {xs : List α} :
    [x, y] <+: xs ↔ xs.head? = some x ∧ xs.tail.head? = some y := by
  cases xs with
  | nil => simp
  | cons x' xs =>
    cases xs with
    | nil => simp
    | cons y' xs => simp [eq_comm]

theorem pair_prefix_cons_cons_iff {α : Type} {x y a b : α} {xs : List α} :
    [x, y] <+: a :: b :: xs ↔ a = x ∧ b = y := by
  rw [pair_prefix_iff]
  simp

/-- Where the first of two elements is missing, the two are not found. -/
theorem pair_infix_append_iff {α : Type} {x y : α} {as bs : List α} (hx : x ∉ as) :
    [x, y] <:+: as ++ bs ↔ [x, y] <:+: bs := by
  induction as with
  | nil => rfl
  | cons a as ih =>
    rw [List.mem_cons, not_or] at hx
    rw [List.cons_append, List.infix_cons_iff, ih hx.2, List.cons_prefix_cons]
    exact or_iff_right fun h => hx.1 h.1

/-- Two bytes of ASCII start a text exactly if their characters do. -/
theorem pair_prefix_utf8_iff (ha : a.toNat < 128) (hb : b.toNat < 128) :
    [a.toUInt8, b.toUInt8] <+: utf8 cs ↔ [a, b] <+: cs := by
  rw [pair_prefix_iff, pair_prefix_iff, head?_utf8_iff ha]
  refine and_congr_right ?_
  intro hhead
  cases cs with
  | nil => cases hhead
  | cons c cs =>
    cases hhead
    rw [utf8_cons, utf8EncodeChar_of_ascii ha]
    exact head?_utf8_iff hb

/-- Two bytes of ASCII stand next to each other exactly if their characters do. -/
theorem pair_infix_utf8_iff (ha : a.toNat < 128) (hb : b.toNat < 128) :
    [a.toUInt8, b.toUInt8] <:+: utf8 cs ↔ [a, b] <:+: cs := by
  induction cs with
  | nil => simp
  | cons c cs ih =>
    rw [List.infix_cons_iff, ← ih, ← pair_prefix_utf8_iff ha hb, utf8_cons]
    by_cases hc : c = a
    · rw [hc, utf8EncodeChar_of_ascii ha, List.singleton_append, List.infix_cons_iff]
    · -- No byte of another character starts such a pair.
      have hnone : a.toUInt8 ∉ String.utf8EncodeChar c := fun hmem =>
        hc ((toUInt8_mem_encode_iff ha).mp hmem)
      rw [pair_infix_append_iff hnone]
      constructor
      · exact Or.inr
      · rintro (hstart | hlater)
        · exact (pair_infix_append_iff hnone).mp hstart.isInfix
        · exact hlater

end Glint.Text

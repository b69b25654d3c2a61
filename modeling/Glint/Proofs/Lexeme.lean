import Glint.Proofs.Digits
import Glint.Token

/-!
# Texts written lexeme by lexeme

A lexeme is an identifier, a number or a sign, with the proof that it is one. A list of
lexemes is written with a space where two of them would run together, and in the other
places where a space helps the reader. Scanning the text gives back the lexemes, each as a
token. What the tokens are read as does not depend on where they stand, so the tokens of a
list of lexemes are given by any assignment of positions.

## Main definitions

* `Ident`, `Number`, `Sign` — the three kinds of lexeme
* `Lexeme.write` — the text of a list of lexemes
* `Lexeme.tokens` — the tokens of a list of lexemes at given positions

## Main results

* `Lexeme.exists_scanFrom_write` — the tokens of a written list are those of its lexemes
-/

namespace Glint

open Text

/-- The characters are those of one identifier. -/
def isIdentText : List Char → Bool
  | [] => false
  | c :: cs => isIdentStart c && cs.all isIdentPart

/-- The characters are those of one number. -/
def isNumberText : List Char → Bool
  | [] => false
  | c :: cs => c.isDigit && cs.all isNumberPart

/-- An identifier. -/
structure Ident where
  text : String
  isIdent : isIdentText text.toList = true := by decide

/-- A number as it is written. -/
structure Number where
  text : String
  isNumber : isNumberText text.toList = true := by decide

/-- The punctuation of layout declarations and of the numbers in them. -/
inductive Sign
  | leftParen
  | rightParen
  | leftBracket
  | rightBracket
  | leftBrace
  | rightBrace
  | equals
  | comma
  | semicolon
  | plus
  | minus
  | point
  deriving DecidableEq

/-- An identifier, a number or a sign. -/
inductive Lexeme
  | word (w : Ident)
  | number (n : Number)
  | sign (s : Sign)

namespace Sign

/-- The character of a sign. -/
def char : Sign → Char
  | leftParen => '('
  | rightParen => ')'
  | leftBracket => '['
  | rightBracket => ']'
  | leftBrace => '\x7b'
  | rightBrace => '\x7d'
  | equals => '='
  | comma => ','
  | semicolon => ';'
  | plus => '+'
  | minus => '-'
  | point => '.'

/-- The sign is written without a space after it. -/
def opens : Sign → Bool
  | leftParen | leftBracket | plus | minus | point => true
  | _ => false

/-- The sign is written without a space before it. -/
def closes : Sign → Bool
  | leftParen | rightParen | leftBracket | rightBracket | comma | semicolon => true
  | _ => false

/-- The sign can stand in the exponent of a number. -/
def isPolarity : Sign → Bool
  | plus | minus => true
  | _ => false

end Sign

/-- The decimal numeral of a word. -/
def Number.ofWord (w : UInt32) : Number where
  text := w.toNat.repr
  isNumber := by
    have hdigits : ∀ c ∈ Nat.toDigits 10 w.toNat, c.isDigit = true := fun c hc =>
      Nat.isDigit_of_mem_toDigits (by decide) (by decide) hc
    rw [Nat.toList_repr]
    cases h : Nat.toDigits 10 w.toNat with
    | nil => exact absurd h Nat.toDigits_ne_nil
    | cons c cs =>
      rw [h] at hdigits
      rw [isNumberText, hdigits c List.mem_cons_self, Bool.true_and, List.all_eq_true]
      intro d hd
      simp [isNumberPart, isIdentPart, Char.isAlphanum, hdigits d (List.mem_cons_of_mem c hd)]

namespace Lexeme

/-- The kind of the token that a lexeme is read as. -/
def kind : Lexeme → TokenKind
  | word _ => .ident
  | number _ => .number
  | sign s => .punct s.char

/-- The characters of a lexeme. -/
def chars : Lexeme → List Char
  | word w => w.text.toList
  | number n => n.text.toList
  | sign s => [s.char]

/-- The token that a lexeme at a byte position is read as. -/
def token (l : Lexeme) (position : Nat) : Token :=
  ⟨l.kind, String.ofList l.chars, position⟩

/-- A character that a lexeme would take up if it stood right after it. -/
def continues : Lexeme → Char → Bool
  | word _ => isIdentPart
  | number _ => isNumberPart
  | sign _ => fun _ => false

/-- Two lexemes are written without a space between them. -/
def adjoins : Lexeme → Lexeme → Bool
  | sign s, sign s' => s.opens || s'.closes
  | sign s, _ => s.opens
  | number _, sign s => s.closes || s.isPolarity
  | word _, sign s => s.closes
  | _, _ => false

/-- What is written between a lexeme and those that follow it. -/
def gap (l : Lexeme) : List Lexeme → List Char
  | [] => []
  | next :: _ => if l.adjoins next then [] else [' ']

/-- The text of a list of lexemes. -/
def write : List Lexeme → List Char
  | [] => []
  | l :: ls => l.chars ++ (l.gap ls ++ write ls)

/-- The tokens of a list of lexemes, the one with index `i` at the byte position `place i`. -/
def tokens (place : Nat → Nat) : List Lexeme → List Token
  | [] => []
  | l :: ls => l.token (place 0) :: tokens (fun i => place (i + 1)) ls

@[simp] theorem tokens_nil (place : Nat → Nat) : tokens place [] = [] := rfl

@[simp] theorem tokens_cons (place : Nat → Nat) (l : Lexeme) (ls : List Lexeme) :
    tokens place (l :: ls) = l.token (place 0) :: tokens (fun i => place (i + 1)) ls := rfl

theorem tokens_append (place : Nat → Nat) (ls ls' : List Lexeme) :
    tokens place (ls ++ ls') =
      tokens place ls ++ tokens (fun i => place (i + ls.length)) ls' := by
  induction ls generalizing place with
  | nil => rfl
  | cons l ls ih => simp [ih, Nat.add_assoc]

/-- A token of a list of lexemes is one of them at some position. -/
theorem exists_of_mem_tokens {place : Nat → Nat} {ls : List Lexeme} {t : Token}
    (h : t ∈ tokens place ls) : ∃ l ∈ ls, ∃ position, t = l.token position := by
  induction ls generalizing place with
  | nil => cases h
  | cons l ls ih =>
    rcases List.mem_cons.mp h with rfl | h
    · exact ⟨l, List.mem_cons_self, place 0, rfl⟩
    · obtain ⟨l', hl', hposition⟩ := ih h
      exact ⟨l', List.mem_cons_of_mem l hl', hposition⟩

end Lexeme

/-! ### Classes of characters -/

theorem isBlank_eq_false {c : Char} (hlow : 0x20 < c.toNat) (hhigh : c.toNat < 0x7f) :
    isBlank c = false := by
  simp [isBlank, blankRanges]
  omega

theorem beq_hash_eq_false {c : Char} (h : 0x23 < c.toNat) : (c == '#') = false := by
  rw [beq_eq_false_iff_ne]
  rintro rfl
  exact absurd h (by decide)

theorem toNat_of_isIdentStart {c : Char} (h : isIdentStart c = true) :
    0x40 < c.toNat ∧ c.toNat < 0x7f := by
  have hclasses : ((c.isUpper || c.isLower) || c == '_') = true := h
  rw [Bool.or_eq_true, Bool.or_eq_true, beq_iff_eq] at hclasses
  rcases hclasses with (hupper | hlower) | rfl
  · have hrange : 0x41 ≤ c.toNat ∧ c.toNat ≤ 0x5a := of_decide_eq_true hupper
    omega
  · have hbounds : (decide (c.val ≥ 'a'.val) && decide (c.val ≤ 'z'.val)) = true := hlower
    rw [Bool.and_eq_true] at hbounds
    have hrange : 0x61 ≤ c.toNat ∧ c.toNat ≤ 0x7a :=
      ⟨of_decide_eq_true hbounds.1, of_decide_eq_true hbounds.2⟩
    omega
  · decide

theorem toNat_of_isDigit {c : Char} (h : c.isDigit = true) :
    0x2f < c.toNat ∧ c.toNat < 0x3a := by
  have hrange : 0x30 ≤ c.toNat ∧ c.toNat ≤ 0x39 := Char.isDigit_iff_toNat.mp h
  omega

theorem isNumberPart_of_isIdentPart {c : Char} (h : isIdentPart c = true) :
    isNumberPart c = true := by
  rw [isNumberPart, h, Bool.true_or]

theorem isNumberPart_of_isIdentStart {c : Char} (h : isIdentStart c = true) :
    isNumberPart c = true := by
  rw [isIdentStart, Bool.or_eq_true] at h
  refine isNumberPart_of_isIdentPart ?_
  rw [isIdentPart, Char.isAlphanum]
  rcases h with h | h <;> simp [h]

theorem isNumberPart_of_isDigit {c : Char} (h : c.isDigit = true) : isNumberPart c = true := by
  refine isNumberPart_of_isIdentPart ?_
  rw [isIdentPart, Char.isAlphanum, h, Bool.or_true, Bool.true_or]

/-- The characters of identifiers and of numbers are neither blanks nor hash signs. -/
theorem isBlank_eq_false_of_isNumberPart {c : Char} (h : isNumberPart c = true) :
    isBlank c = false ∧ c ≠ '#' := by
  have hrange : 0x2d < c.toNat ∧ c.toNat < 0x7f := by
    rw [isNumberPart, isIdentPart, Bool.or_eq_true, Bool.or_eq_true, beq_iff_eq, beq_iff_eq,
      Char.isAlphanum, Bool.or_eq_true] at h
    rcases h with ((halpha | hdigit) | rfl) | rfl
    · have := toNat_of_isIdentStart (c := c) (by rw [isIdentStart, halpha, Bool.true_or])
      omega
    · have := toNat_of_isDigit hdigit
      omega
    all_goals decide
  refine ⟨isBlank_eq_false (by omega) hrange.2, ?_⟩
  rintro rfl
  exact absurd hrange.1 (by decide)

/-- A text that starts with no character of a class. -/
def Breaks (p : Char → Bool) (cs : List Char) : Prop :=
  ∀ c ∈ cs.head?, p c = false

theorem breaks_nil (p : Char → Bool) : Breaks p [] := by
  rintro c ⟨⟩

theorem takeWhile_append_of_breaks {p : Char → Bool} {as bs : List Char}
    (has : as.all p = true) (hbs : Breaks p bs) : (as ++ bs).takeWhile p = as := by
  rw [List.takeWhile_append_of_pos (List.all_eq_true.mp has)]
  cases bs with
  | nil => simp
  | cons b bs => simp [hbs b rfl]

theorem dropWhile_append_of_breaks {p : Char → Bool} {as bs : List Char}
    (has : as.all p = true) (hbs : Breaks p bs) : (as ++ bs).dropWhile p = bs := by
  rw [List.dropWhile_append_of_pos (List.all_eq_true.mp has)]
  cases bs with
  | nil => rfl
  | cons b bs => simp [hbs b rfl]

/-! ### Scanning -/

namespace Token

/-- A blank is passed over. -/
theorem scanFrom_blank {c : Char} (hc : isBlank c = true) (pos : Nat) (cs : List Char) :
    scanFrom pos (c :: cs) = scanFrom (pos + c.utf8Size) cs := by
  have hhash : (c == '#') = false := by
    rw [beq_eq_false_iff_ne]
    intro h
    rw [h] at hc
    revert hc
    decide
  rw [scanFrom, hhash, hc]
  simp

end Token

namespace Lexeme

variable {l : Lexeme} {ls : List Lexeme} {rest : List Char}

/-- A lexeme that is not run together with what follows it is read as its token. -/
theorem scanFrom_chars (hrest : Breaks l.continues rest) (pos : Nat) :
    Token.scanFrom pos (l.chars ++ rest) =
      l.token pos :: Token.scanFrom (pos + byteLength l.chars) rest := by
  cases l with
  | word w =>
    obtain ⟨text, hw⟩ := w
    obtain ⟨cs, rfl⟩ : ∃ cs, text = String.ofList cs := ⟨_, String.ofList_toList.symm⟩
    simp only [chars, token, kind, String.toList_ofList] at hw ⊢
    cases cs with
    | nil => cases hw
    | cons c cs =>
      rw [isIdentText, Bool.and_eq_true] at hw
      obtain ⟨hc, hcs⟩ := hw
      have hrange := toNat_of_isIdentStart hc
      -- The first character is in no other class, and the others go with it.
      rw [List.cons_append, Token.scanFrom, beq_hash_eq_false (by omega),
        isBlank_eq_false (by omega) (by omega), hc, takeWhile_append_of_breaks hcs hrest,
        dropWhile_append_of_breaks hcs hrest]
      simp
  | number n =>
    obtain ⟨text, hn⟩ := n
    obtain ⟨cs, rfl⟩ : ∃ cs, text = String.ofList cs := ⟨_, String.ofList_toList.symm⟩
    simp only [chars, token, kind, String.toList_ofList] at hn ⊢
    cases cs with
    | nil => cases hn
    | cons c cs =>
      rw [isNumberText, Bool.and_eq_true] at hn
      obtain ⟨hc, hcs⟩ := hn
      have hrange := toNat_of_isDigit hc
      -- No digit starts an identifier.
      have hstart : isIdentStart c = false := by
        rw [Bool.eq_false_iff]
        intro hstart
        have := toNat_of_isIdentStart hstart
        omega
      rw [List.cons_append, Token.scanFrom, beq_hash_eq_false (by omega),
        isBlank_eq_false (by omega) (by omega), hstart, hc, takeWhile_append_of_breaks hcs hrest,
        dropWhile_append_of_breaks hcs hrest]
      simp
  | sign s =>
    -- A sign is in no class, so it is read by itself.
    have hhash : (s.char == '#') = false := by cases s <;> decide
    have hblank : isBlank s.char = false := by cases s <;> decide
    have hstart : isIdentStart s.char = false := by cases s <;> decide
    have hdigit : s.char.isDigit = false := by cases s <;> decide
    rw [chars, List.cons_append, List.nil_append, Token.scanFrom, hhash, hblank, hstart, hdigit]
    rfl

/-- Two lexemes without a space between them are not run together. -/
theorem breaks_of_adjoins {next : Lexeme} (h : l.adjoins next = true) (cs : List Char) :
    Breaks l.continues (next.chars ++ cs) := by
  cases l with
  | sign s => exact fun _ _ => rfl
  | word w =>
    cases next with
    | sign s =>
      rintro c ⟨⟩
      cases s <;> rfl
    | _ => cases h
  | number n =>
    cases next with
    | sign s =>
      rintro c ⟨⟩
      cases s <;> first | rfl | cases h
    | _ => cases h

/-- A lexeme is not run together with what is written after it. -/
theorem breaks_gap (l : Lexeme) (ls : List Lexeme) (hrest : Breaks isNumberPart rest) :
    Breaks l.continues (l.gap ls ++ (write ls ++ rest)) := by
  cases ls with
  | nil =>
    -- What ends a number ends an identifier too.
    intro c hc
    have hnumber := hrest c hc
    cases l with
    | word w =>
      rw [isNumberPart, Bool.or_eq_false_iff] at hnumber
      exact hnumber.1
    | number n => exact hnumber
    | sign s => rfl
  | cons next ls =>
    rw [gap, write]
    split
    · rename_i hadjoins
      rw [List.nil_append, List.append_assoc]
      exact breaks_of_adjoins hadjoins _
    · rintro c ⟨⟩
      cases l <;> rfl

theorem scanFrom_gap (l : Lexeme) (ls : List Lexeme) (pos : Nat) (cs : List Char) :
    Token.scanFrom pos (l.gap ls ++ cs) =
      Token.scanFrom (pos + byteLength (l.gap ls)) cs := by
  cases ls with
  | nil => rfl
  | cons next ls =>
    rw [gap]
    split
    · rfl
    · exact Token.scanFrom_blank (by decide) pos cs

/-- The tokens of a written list are those of its lexemes. The first one stands where the
text starts, and the last one ends where the text ends. -/
theorem exists_scanFrom_write (ls : List Lexeme) (hrest : Breaks isNumberPart rest)
    (pos : Nat) :
    ∃ place : Nat → Nat, place 0 = pos ∧
      Token.scanFrom pos (write ls ++ rest) =
        tokens place ls ++ Token.scanFrom (pos + byteLength (write ls)) rest ∧
      ∀ t ∈ (tokens place ls).getLast?, t.stop = pos + byteLength (write ls) := by
  induction ls generalizing pos with
  | nil => exact ⟨fun _ => pos, rfl, rfl, by simp⟩
  | cons l ls ih =>
    obtain ⟨place, -, hscan, hlast⟩ :=
      ih (pos + byteLength l.chars + byteLength (l.gap ls))
    refine ⟨fun | 0 => pos | i + 1 => place i, rfl, ?_, ?_⟩
    · -- The lexeme is read, the gap is passed over, and the others follow.
      rw [write, List.append_assoc, List.append_assoc, scanFrom_chars (breaks_gap l ls hrest),
        scanFrom_gap, hscan]
      simp [Nat.add_assoc]
    · intro t ht
      cases ls with
      | nil =>
        obtain rfl : l.token pos = t := by simpa using ht
        simp [Token.stop, token, write, gap]
      | cons next ls =>
        rw [hlast t (by simpa [List.getLast?_cons] using ht)]
        simp only [write, byteLength_append, Nat.add_assoc]

/-! ### The characters of a text -/

theorem not_mem_cons_of_classes {first others : Char → Bool} {c d : Char} {cs : List Char}
    (hc : first c = true) (hcs : cs.all others = true) (hfirst : first d = false)
    (hothers : others d = false) : d ∉ c :: cs := by
  intro hd
  rcases List.mem_cons.mp hd with rfl | hd
  · exact Bool.false_ne_true (hfirst.symm.trans hc)
  · exact Bool.false_ne_true (hothers.symm.trans (List.all_eq_true.mp hcs d hd))

theorem slash_not_mem_chars (l : Lexeme) : '/' ∉ l.chars := by
  cases l with
  | word w =>
    obtain ⟨text, hw⟩ := w
    rw [chars]
    cases h : text.toList with
    | nil => exact List.not_mem_nil
    | cons c cs =>
      rw [h, isIdentText, Bool.and_eq_true] at hw
      exact not_mem_cons_of_classes hw.1 hw.2 (by decide) (by decide)
  | number n =>
    obtain ⟨text, hn⟩ := n
    rw [chars]
    cases h : text.toList with
    | nil => exact List.not_mem_nil
    | cons c cs =>
      rw [h, isNumberText, Bool.and_eq_true] at hn
      exact not_mem_cons_of_classes hn.1 hn.2 (by decide) (by decide)
  | sign s => cases s <;> decide

/-- No comment can start in a written list of lexemes. -/
theorem slash_not_mem_write (ls : List Lexeme) : '/' ∉ write ls := by
  induction ls with
  | nil => exact List.not_mem_nil
  | cons l ls ih =>
    have hgap : '/' ∉ l.gap ls := by
      cases ls with
      | nil => exact List.not_mem_nil
      | cons next ls =>
        rw [gap]
        split <;> decide
    rw [write, List.mem_append, List.mem_append, not_or, not_or]
    exact ⟨slash_not_mem_chars l, hgap, ih⟩

end Lexeme

end Glint

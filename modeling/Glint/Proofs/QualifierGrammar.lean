import Glint.Proofs.Digits
import Glint.Proofs.Qualifier

/-!
# The grammar of the layout qualifier

Between the parentheses of a qualifier stand no arguments, or arguments with a comma between any
two and perhaps one more after the last. A declaration is read exactly if its tokens have this
form, and its entries are the arguments in order. A key has the number that the first argument
with it gives in decimal digits, whatever later arguments with the same key say.

## Main definitions

* `Declaration.Separated`, `Declaration.IsArguments` — what stands between the parentheses
* `Declaration.HasFirst`, `LayoutEntry.Gives` — the first argument with a key, and its number

## Main results

* `Declaration.isList_iff` — a list of entries is a list of arguments and its parenthesis
* `Declaration.word?_eq_some_iff`, `Declaration.word?_eq_error_iff` — the number of a key
* `Declaration.read_grammar` — what is read, and the numbers of its keys
-/

namespace Glint

/-- An argument gives a number in decimal digits. -/
def LayoutEntry.Gives (entry : LayoutEntry) (n : UInt32) : Prop :=
  ∃ value, entry.value? = some value ∧ Text.IsNumeral value.toList n.toNat

theorem LayoutEntry.number?_eq_some_iff {entry : LayoutEntry} {n : UInt32} :
    (entry.value?.bind fun value => Text.decimal? value.toList) = some n ↔ entry.Gives n := by
  simp only [Option.bind_eq_some_iff, Text.decimal?_eq_some_iff, Gives]

namespace Declaration

variable {entry : LayoutEntry} {entries : List LayoutEntry} {ts inside rest : List Token}
  {comma close : Token} {d : Declaration} {key : String} {n : UInt32}

/-! ### Arguments -/

/-- Arguments with a comma between any two. -/
inductive Separated : List LayoutEntry → List Token → Prop
  | one {entry : LayoutEntry} {ts : List Token} (hentry : IsEntry entry ts) :
    Separated [entry] ts
  | cons {entry : LayoutEntry} {entries : List LayoutEntry} {ts more : List Token} {comma : Token}
    (hentry : IsEntry entry ts) (hcomma : comma.isPunct ',' = true)
    (hmore : Separated entries more) : Separated (entry :: entries) (ts ++ comma :: more)

/-- The tokens between the parentheses of a qualifier. -/
inductive IsArguments : List LayoutEntry → List Token → Prop
  | none : IsArguments [] []
  | separated {entries : List LayoutEntry} {ts : List Token} (h : Separated entries ts) :
    IsArguments entries ts
  | trailing {entries : List LayoutEntry} {ts : List Token} {comma : Token}
    (h : Separated entries ts) (hcomma : comma.isPunct ',' = true) :
    IsArguments entries (ts ++ [comma])

/-- One more argument in front of arguments. -/
theorem IsArguments.cons (hentry : IsEntry entry ts) (hcomma : comma.isPunct ',' = true)
    (h : IsArguments entries inside) : IsArguments (entry :: entries) (ts ++ comma :: inside) := by
  cases h with
  | none => exact .trailing (.one hentry) hcomma
  | separated h => exact .separated (.cons hentry hcomma h)
  | trailing h hlast =>
    have htrailing := IsArguments.trailing (.cons hentry hcomma h) hlast
    rwa [List.append_assoc, List.cons_append] at htrailing

/-- Arguments are a list with what follows them if the last one is. -/
theorem Separated.isList (h : Separated entries ts)
    (hlast : ∀ {entry ts}, IsEntry entry ts → IsList [entry] (ts ++ rest)) :
    IsList entries (ts ++ rest) := by
  induction h with
  | one hentry => exact hlast hentry
  | cons hentry hcomma _ ih =>
    rw [List.append_assoc, List.cons_append]
    exact .next hentry hcomma ih

/-- A list of entries is made of arguments and a closing parenthesis. -/
theorem isList_iff :
    IsList entries inside ↔
      ∃ args close, inside = args ++ [close] ∧ close.isPunct ')' = true ∧
        IsArguments entries args := by
  constructor
  · intro h
    -- By induction on the list. What is left after a last comma is an empty list.
    induction h with
    | nil hclose => exact ⟨[], _, rfl, hclose, .none⟩
    | last hentry hclose => exact ⟨_, _, rfl, hclose, .separated (.one hentry)⟩
    | next hentry hcomma _ ih =>
      obtain ⟨args, close, rfl, hclose, hargs⟩ := ih
      exact ⟨_, close, by simp, hclose, hargs.cons hentry hcomma⟩
  · rintro ⟨args, close, rfl, hclose, hargs⟩
    cases hargs with
    | none => exact .nil hclose
    | separated h => exact h.isList fun hentry => .last hentry hclose
    | trailing h hcomma =>
      rw [List.append_assoc]
      exact h.isList fun hentry => .next hentry hcomma (.nil hclose)

/-! ### Numbers -/

/-- The first argument of a declaration with a key, in upper or lower case. -/
def HasFirst (d : Declaration) (key : String) (entry : LayoutEntry) : Prop :=
  Token.sameWord entry.key key = true ∧
    ∃ before after, d.entries = before ++ entry :: after ∧
      ∀ earlier ∈ before, Token.sameWord earlier.key key = false

theorem entry?_eq_some_iff : d.entry? key = some entry ↔ d.HasFirst key entry := by
  simp only [HasFirst, entry?, List.find?_eq_some_iff_append, Bool.not_eq_true']

theorem entry?_eq_none_iff :
    d.entry? key = none ↔ ∀ entry ∈ d.entries, Token.sameWord entry.key key = false := by
  simp only [Bool.not_eq_true, entry?, List.find?_eq_none]

/-- A key has the number that the first argument with it gives. -/
theorem word?_eq_some_iff :
    d.word? key = .ok (some n) ↔ ∃ entry, d.HasFirst key entry ∧ entry.Gives n := by
  simp only [← entry?_eq_some_iff, ← LayoutEntry.number?_eq_some_iff, word?]
  cases d.entry? key with
  | none => simp
  | some entry =>
    simp only [Option.some.injEq, exists_eq_left']
    cases entry.value?.bind fun value => Text.decimal? value.toList <;> simp

/-- A key has no number only if no argument has it. -/
theorem word?_eq_none_iff :
    d.word? key = .ok none ↔ ∀ entry ∈ d.entries, Token.sameWord entry.key key = false := by
  rw [← entry?_eq_none_iff, word?]
  cases d.entry? key with
  | none => simp
  | some entry =>
    simp only [reduceCtorEq, iff_false]
    cases entry.value?.bind fun value => Text.decimal? value.toList <;> simp

/-- A key is refused if the first argument with it gives no number. -/
theorem word?_eq_error_iff {e : ReflectError} :
    d.word? key = .error e ↔
      (∃ entry, d.HasFirst key entry ∧ ∀ n, ¬ entry.Gives n) ∧
        e = .malformed d.offset (.qualifierNotInteger key) := by
  simp only [← entry?_eq_some_iff, ← LayoutEntry.number?_eq_some_iff, word?]
  cases d.entry? key with
  | none => simp
  | some entry =>
    simp only [Option.some.injEq, exists_eq_left']
    cases entry.value?.bind fun value => Text.decimal? value.toList <;> simp [eq_comm]

/-- A declaration is read exactly if an opening parenthesis, arguments and a closing parenthesis
follow its first token. Its entries are the arguments, and its body is what stands after them. A
key has the number that the first argument with it gives, none if no argument has it, and is
refused otherwise. -/
theorem read_grammar (source : List Char) (first : Token) (inner : List Token) :
    (∀ d, read source first inner = .ok d ↔
      ∃ opening args close body entries, inner = opening :: (args ++ close :: body) ∧
        opening.isPunct '(' = true ∧ IsArguments entries args ∧ close.isPunct ')' = true ∧
        d = ⟨first.offset,
          String.ofList (Text.slice first.offset (inner.getLast?.getD first).stop source),
          entries, body⟩) ∧
    ∀ (d : Declaration) (key : String),
      (∀ n, d.word? key = .ok (some n) ↔ ∃ entry, d.HasFirst key entry ∧ entry.Gives n) ∧
      (d.word? key = .ok none ↔ ∀ entry ∈ d.entries, Token.sameWord entry.key key = false) ∧
      ∀ e, d.word? key = .error e ↔
        (∃ entry, d.HasFirst key entry ∧ ∀ n, ¬ entry.Gives n) ∧
          e = .malformed d.offset (.qualifierNotInteger key) := by
  refine ⟨?_, ?_⟩
  · intro d
    simp only [read_eq_ok_iff, isList_iff]
    constructor
    · rintro ⟨opening, _, entries, body, rfl, hopening, ⟨args, close, rfl, hclose, hargs⟩, rfl⟩
      exact ⟨opening, args, close, body, entries, by simp, hopening, hargs, hclose, rfl⟩
    · rintro ⟨opening, args, close, body, entries, rfl, hopening, hargs, hclose, rfl⟩
      exact ⟨opening, args ++ [close], entries, body, by simp, hopening,
        ⟨args, close, rfl, hclose, hargs⟩, rfl⟩
  · intro d key
    exact ⟨fun n => word?_eq_some_iff, word?_eq_none_iff, fun e => word?_eq_error_iff⟩

/-- A key stands without a value, another one twice, and a comma follows the last argument. -/
example :
    (readAll "layout(std140, set = 2, SET = 3,) uniform Light { vec4 hue; };").toOption.map
      (·.map fun d => (d.entries, (d.word? "set").toOption, (d.word? "std140").toOption)) =
    some [([⟨"std140", none⟩, ⟨"set", some "2"⟩, ⟨"SET", some "3"⟩], some (some 2), none)] := by
  decide +kernel

end Declaration

end Glint

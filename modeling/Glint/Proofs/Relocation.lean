import Glint.Proofs.Division

/-!
# Declarations at other positions

Declarations are read from the kinds and the texts of tokens, and positions are only copied from
tokens into what is read. If every token stands at another position, the same declarations are
read, at the positions that the tokens then have, and an error tells its new position. The text of
a declaration alone is cut out of the source at these positions.

## Main definitions

* `Token.relocate`, `Declaration.relocate`, `ReflectError.relocate` — with all positions changed
* `Outcome.relocate` — an outcome with the position of its error changed

## Main results

* `Declaration.splitEnd_relocate`, `Declaration.readEntries_relocate` — what is read of tokens
  at other positions
* `Declaration.readTokens_relocate` — all declarations are read, if one is
-/

namespace Glint

/-- The token at another position. -/
def Token.relocate (f : Nat → Nat) (t : Token) : Token :=
  { t with offset := f t.offset }

/-- The declaration with all its positions changed. -/
def Declaration.relocate (f : Nat → Nat) (d : Declaration) : Declaration :=
  { d with offset := f d.offset, body := d.body.map (Token.relocate f) }

/-- The error with its position changed, if it has one. -/
def ReflectError.relocate (f : Nat → Nat) : ReflectError → ReflectError
  | malformed offset fault => malformed (f offset) fault
  | e => e

/-- The outcome with the position of its error changed. -/
def Outcome.relocate {α : Type} (f : Nat → Nat) (x : Except ReflectError α) :
    Except ReflectError α :=
  x.mapError (ReflectError.relocate f)

namespace Outcome

variable {α β : Type} (f : Nat → Nat)

@[simp] theorem relocate_ok (a : α) : relocate f (.ok a) = .ok a := rfl

theorem relocate_map (x : Except ReflectError α) (g : α → β) :
    relocate f (x.map g) = (relocate f x).map g := by
  cases x <;> rfl

theorem relocate_ite (c : Prop) [Decidable c] (x y : Except ReflectError α) :
    relocate f (if c then x else y) = if c then relocate f x else relocate f y :=
  apply_ite (relocate f) c x y

end Outcome

open Outcome (relocate_map relocate_ite)

namespace Token

variable {f : Nat → Nat} {t : Token}

@[simp] theorem isIdent_relocate : (t.relocate f).isIdent = t.isIdent := rfl

@[simp] theorem isPunct_relocate (c : Char) : (t.relocate f).isPunct c = t.isPunct c := rfl

@[simp] theorem isAnyPunct_relocate : (t.relocate f).isAnyPunct = t.isAnyPunct := rfl

@[simp] theorem text_relocate : (t.relocate f).text = t.text := rfl

@[simp] theorem offset_relocate : (t.relocate f).offset = f t.offset := rfl

end Token

namespace Declaration

variable (f : Nat → Nat) (ts : List Token)

/-! ### The end of a declaration -/

theorem prepend_relocate (t : Token) (split : Except ReflectError (List Token × List Token)) :
    splitEnd.prepend (t.relocate f) (split.map fun (inner, rest) =>
        (inner.map (Token.relocate f), rest.map (Token.relocate f))) =
      (splitEnd.prepend t split).map fun (inner, rest) =>
        (inner.map (Token.relocate f), rest.map (Token.relocate f)) := by
  cases split <;> rfl

/-- The semicolon of a declaration is found wherever the tokens stand. -/
theorem splitEnd_relocate (start depth : Nat) :
    splitEnd (f start) depth (ts.map (Token.relocate f)) =
      (Outcome.relocate f (splitEnd start depth ts)).map fun (inner, rest) =>
        (inner.map (Token.relocate f), rest.map (Token.relocate f)) := by
  have hprepend (t : Token) (split : Except ReflectError (List Token × List Token)) :
      Outcome.relocate f (splitEnd.prepend t split) =
        splitEnd.prepend t (Outcome.relocate f split) :=
    relocate_map f _ _
  induction ts generalizing depth with
  | nil => rfl
  | cons t ts ih =>
    simp only [List.map_cons, splitEnd, relocate_ite, ih, prepend_relocate, hprepend,
      Token.isPunct_relocate]
    split
    · rfl
    · split
      · split <;> rfl
      · split <;> rfl

/-! ### The qualifier -/

theorem readNext_relocate (entry : LayoutEntry) (next : Token)
    (more : Except ReflectError (List LayoutEntry × List Token)) :
    readEntries.readNext entry (next.relocate f) (ts.map (Token.relocate f))
        ((Outcome.relocate f more).map fun (entries, rest) =>
          (entries, rest.map (Token.relocate f))) =
      (Outcome.relocate f (readEntries.readNext entry next ts more)).map fun (entries, rest) =>
        (entries, rest.map (Token.relocate f)) := by
  rw [readEntries.readNext, readEntries.readNext, Token.isPunct_relocate, Token.isPunct_relocate,
    relocate_ite, relocate_ite, relocate_map]
  split
  · cases Outcome.relocate f more <;> rfl
  · split <;> rfl

/-- The entries of a qualifier are read wherever the tokens stand. -/
theorem readEntries_relocate (last : Nat) :
    readEntries (f last) (ts.map (Token.relocate f)) =
      (Outcome.relocate f (readEntries last ts)).map fun (entries, rest) =>
        (entries, rest.map (Token.relocate f)) := by
  fun_induction readEntries last ts with
  | case1 => rfl
  | case8 _ _ _ _ _ _ _ _ _ ih | case9 _ _ _ _ _ _ ih =>
    rw [← readNext_relocate, ← ih, List.map_cons, readEntries.eq_def]
    simp_all
  -- In every other case the reader stops.
  | _ =>
    rw [List.map_cons, readEntries.eq_def]
    simp_all
    rfl

/-! ### Declarations -/

/-- A declaration is read wherever its tokens stand, and its text is cut out there. -/
theorem read_relocate (source source' : List Char) (first : Token) :
    read source' (first.relocate f) (ts.map (Token.relocate f)) =
      (Outcome.relocate f (read source first ts)).map fun d =>
        { offset := f d.offset
          text := String.ofList (Text.slice (f first.offset)
            ((ts.getLast?.getD first).relocate f).stop source')
          entries := d.entries
          body := d.body.map (Token.relocate f) } := by
  cases ts with
  | nil => rfl
  | cons t ts =>
    have hlast : ((t :: ts).map (Token.relocate f)).getLast?.getD (first.relocate f) =
        ((t :: ts).getLast?.getD first).relocate f := by
      rw [List.getLast?_map]
      cases (t :: ts).getLast? <;> rfl
    rw [List.map_cons] at hlast ⊢
    rw [read, read, hlast, Token.isPunct_relocate, relocate_ite, relocate_map]
    split
    · rw [Token.offset_relocate, Token.offset_relocate, readEntries_relocate]
      cases Outcome.relocate f (readEntries ((t :: ts).getLast?.getD first).offset ts) <;> rfl
    · rfl

/-- A declaration is a setting of the stage by its body, wherever its tokens stand. -/
theorem isStageSetting_of_body {f : Nat → Nat} {d d' : Declaration}
    (hbody : d'.body = d.body.map (Token.relocate f)) : d'.isStageSetting = d.isStageSetting := by
  have hlast : d'.body.getLast?.any (·.spells "in") = d.body.getLast?.any (·.spells "in") := by
    rw [hbody, List.getLast?_map, Option.any_map]
    rfl
  have hblock : d'.hasBlock = d.hasBlock := by
    rw [hasBlock, hbody, List.any_map]
    rfl
  rw [isStageSetting, isStageSetting, hlast, hblock]

/-- All declarations among some tokens are read wherever the tokens stand, as what becomes of each
of them. -/
theorem readTokens_relocate {source source' : List Char} {g : Declaration → Declaration}
    (hread : ∀ first inner, read source' (Token.relocate f first) (inner.map (Token.relocate f)) =
      (Outcome.relocate f (read source first inner)).map g)
    (hbody : ∀ d, (g d).body = d.body.map (Token.relocate f)) :
    readTokens source' (ts.map (Token.relocate f)) =
      (Outcome.relocate f (readTokens source ts)).map (List.map g) := by
  induction ts using readTokens.induct with
  | case1 =>
    rw [List.map_nil, readTokens, readTokens]
    rfl
  | case2 t ts ht e hsplit =>
    have hword : (t.relocate f).spellsAnyCase "layout" = true := ht
    have hsplit' := splitEnd_relocate f ts t.offset 0
    rw [hsplit] at hsplit'
    rw [List.map_cons, readTokens_stop hword hsplit', readTokens_stop ht hsplit]
    rfl
  | case3 t ts ht inner rest hsplit ih =>
    have hword : (t.relocate f).spellsAnyCase "layout" = true := ht
    have hsplit' := splitEnd_relocate f ts t.offset 0
    rw [hsplit] at hsplit'
    rw [List.map_cons, readTokens_next hword hsplit', readTokens_next ht hsplit]
    -- The declaration is read and then those behind it, and either may fail.
    cases hd : read source t inner with
    | error e =>
      rw [hread, hd]
      rfl
    | ok d =>
      rw [hread, hd, ih]
      cases readTokens source rest with
      | error e => rfl
      | ok ds =>
        simp only [Outcome.relocate_ok, Except.map, bind, Except.bind, pure, Except.pure,
          isStageSetting_of_body (hbody d)]
        cases d.isStageSetting <;> rfl
  | case4 t ts ht ih =>
    rw [Bool.not_eq_true] at ht
    have hword : (t.relocate f).spellsAnyCase "layout" = false := ht
    rw [List.map_cons, readTokens_skip hword, readTokens_skip ht, ih]

end Declaration

end Glint

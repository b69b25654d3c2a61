import Glint.Token

/-!
# Where tokens stand

The tokens of a text stand in it one after the other, each at its own position, with blanks and
preprocessor lines between them. The text from one token to another is therefore a part of the
whole text, and what stands before it and after it is known.

## Main definitions

* `Token.Placed` — tokens stand in a text, in order and apart

## Main results

* `Token.placed_scanFrom` — the tokens of a text stand in it
* `Token.Placed.of_append` — later tokens stand in what follows the earlier ones
* `Token.Placed.exists_text` — the text from one token to another
-/

namespace Glint.Token

open Text

/-- The tokens stand in the text that starts at byte `pos`, in order and apart. -/
inductive Placed : Nat → List Char → List Token → Prop
  | nil {pos : Nat} {cs : List Char} : Placed pos cs []
  | cons {pos : Nat} (gap : List Char) {cs : List Char} {t : Token} {ts : List Token}
    (hoffset : t.offset = pos + byteLength gap) (hrest : Placed t.stop cs ts) :
    Placed pos (gap ++ t.text.toList ++ cs) (t :: ts)

variable {pos : Nat} {cs : List Char} {ts : List Token}

namespace Placed

/-- Tokens stay where they are when text is put before them. -/
theorem skip (gap : List Char) (h : Placed (pos + byteLength gap) cs ts) :
    Placed pos (gap ++ cs) ts := by
  cases h with
  | nil => exact .nil
  | cons gap' hoffset hrest =>
    rw [← List.append_assoc, ← List.append_assoc]
    refine .cons (gap ++ gap') ?_ hrest
    rw [hoffset, byteLength_append, Nat.add_assoc]

/-- A token may stand at the very start of the text. -/
theorem head (kind : TokenKind) (text : List Char)
    (h : Placed (pos + byteLength text) cs ts) :
    Placed pos (text ++ cs) (⟨kind, String.ofList text, pos⟩ :: ts) := by
  have hplaced : Placed pos ([] ++ (String.ofList text).toList ++ cs)
      (⟨kind, String.ofList text, pos⟩ :: ts) := by
    refine .cons (t := ⟨kind, String.ofList text, pos⟩) [] rfl ?_
    rwa [stop, String.toList_ofList]
  rwa [List.nil_append, String.toList_ofList] at hplaced

/-- Later tokens stand in the text that follows the earlier ones. -/
theorem of_append (before : List Token) (h : Placed pos cs (before ++ ts)) :
    ∃ done rest, cs = done ++ rest ∧ Placed (pos + byteLength done) rest ts := by
  induction before generalizing pos cs with
  | nil => exact ⟨[], cs, rfl, h⟩
  | cons t before ih =>
    cases h with
    | @cons _ gap cs _ _ hoffset hrest =>
      obtain ⟨done, rest, rfl, hplaced⟩ := ih hrest
      refine ⟨gap ++ t.text.toList ++ done, rest, (List.append_assoc _ _ _).symm, ?_⟩
      have hstop : pos + byteLength (gap ++ t.text.toList ++ done) = t.stop + byteLength done := by
        rw [stop, hoffset, byteLength_append, byteLength_append]
        omega
      rwa [hstop]

/-- From the start of a token to the end of a later one goes a part of the text, and the tokens
after that stand in what follows. -/
theorem exists_text {first last : Token} {more : List Token}
    (h : Placed pos cs (first :: more ++ ts)) (hlast : (first :: more).getLast? = some last) :
    ∃ gap text rest, cs = gap ++ text ++ rest ∧ pos + byteLength gap = first.offset ∧
      first.offset + byteLength text = last.stop ∧ Placed last.stop rest ts := by
  induction more generalizing pos cs first with
  | nil =>
    cases hlast
    cases h with
    | @cons _ gap rest _ _ hoffset hrest =>
      exact ⟨gap, first.text.toList, rest, rfl, hoffset.symm, rfl, hrest⟩
  | cons t more ih =>
    rw [List.getLast?_cons_cons] at hlast
    cases h with
    | @cons _ gap cs _ _ hoffset hrest =>
      obtain ⟨gap', text, rest, rfl, hgap, htext, hplaced⟩ := ih hrest hlast
      refine ⟨gap, first.text.toList ++ gap' ++ text, rest, ?_, hoffset.symm, ?_, hplaced⟩
      · simp only [List.append_assoc]
      · rw [stop] at hgap
        rw [byteLength_append, byteLength_append]
        omega

end Placed

/-- The tokens of a text stand in it. -/
theorem placed_scanFrom (pos : Nat) (cs : List Char) : Placed pos cs (scanFrom pos cs) := by
  have split_at (p : Char → Bool) (c : Char) (cs : List Char) :
      c :: cs = (c :: cs.takeWhile p) ++ cs.dropWhile p := by
    rw [List.cons_append, List.takeWhile_append_dropWhile]
  fun_induction scanFrom pos cs with
  | case1 pos => exact .nil
  | case2 pos c cs _ ih =>
    rw [split_at isLinePart]
    exact .skip _ ih
  | case3 pos c cs _ _ ih => exact .skip [c] ih
  | case4 pos c cs _ _ _ ih =>
    rw [split_at isIdentPart]
    exact .head .ident _ ih
  | case5 pos c cs _ _ _ _ ih =>
    rw [split_at isNumberPart]
    exact .head .number _ ih
  | case6 pos c cs _ _ _ _ ih => exact .head (.punct c) [c] ih

end Glint.Token

import Glint.Proofs.CommentBytes

/-!
# Stripping a text twice

Where comments are taken out, characters meet that stood apart. They never make up a new
comment: a slash that stays opens no comment, so another character follows it that is neither a
slash nor a star, and that character stays too.

## Main results

* `Comment.not_opens_stripChars` — no comment opens at a plain character of what is left
* `Comment.stripChars_stripChars` — a stripped text is left as it is
* `Comment.strip_strip` — the same for strings, with the absence of comments in their bytes
-/

namespace Glint.Comment

open Text

/-- After a character that opens no comment, none opens when the comments behind it are gone. -/
theorem not_opens_stripChars {c : Char} {cs : List Char} (hplain : ¬ Opens (c :: cs)) :
    ¬ Opens (c :: stripChars cs) := by
  by_cases hc : c = '/'
  · subst hc
    cases cs with
    | nil => exact hplain
    | cons d ds =>
      have hslash : d ≠ '/' := by
        rintro rfl
        exact hplain (.inl ⟨ds, rfl⟩)
      have hstar : d ≠ '*' := by
        rintro rfl
        exact hplain (.inr ⟨ds, rfl⟩)
      -- The next character is no slash, so it is plain and stays next.
      rw [stripChars_text (not_opens_of_ne hslash ds)]
      rintro (⟨rest, hrest⟩ | ⟨rest, hrest⟩)
      · cases hrest
        exact hslash rfl
      · cases hrest
        exact hstar rfl
  · exact not_opens_of_ne hc _

theorem stripChars_stripChars (cs : List Char) : stripChars (stripChars cs) = stripChars cs := by
  induction parts cs with
  | nil => rfl
  | text hplain _ ih =>
    rw [stripChars_text hplain, stripChars_text (not_opens_stripChars hplain), ih]
  | comment hcomment _ ih => rw [stripChars_comment hcomment, ih]
  | unclosed hbody => rw [stripChars_unclosed hbody, stripChars_unclosed hbody]

/-- If the scan does not end in a block comment, no comment opens in what is left. -/
theorem not_pair_infix_stripChars {pos : Nat} {cs : List Char}
    (hend : ∀ start, (pairScan .text pos (utf8 cs)).1 ≠ .block start) :
    ¬ ['/', '/'] <:+: stripChars cs ∧ ¬ ['/', '*'] <:+: stripChars cs := by
  induction parts cs generalizing pos with
  | nil => simp
  | @text c cs hplain _ ih =>
    rw [pairScan_text hplain] at hend
    have hnone := not_or.mp (not_opens_stripChars hplain)
    rw [stripChars_text hplain, List.infix_cons_iff, List.infix_cons_iff]
    exact ⟨not_or_intro hnone.1 (ih hend).1, not_or_intro hnone.2 (ih hend).2⟩
  | comment hcomment _ ih =>
    rw [stripChars_comment hcomment]
    rcases pairScan_comment hcomment pos with hscan | ⟨rfl, -⟩
    · rw [hscan] at hend
      exact ih hend
    · simp
  | unclosed hbody =>
    rw [pairScan_unclosed hbody] at hend
    exact absurd rfl (hend pos)

/-- Stripping a stripped text changes nothing. Unless the scan of the bytes ends inside a block
comment, no comment opens anywhere in the bytes of what is left. -/
theorem strip_strip (source : String) :
    strip (strip source) = strip source ∧
      ((∀ start, (pairScan .text 0 source.toUTF8.data.toList).1 ≠ .block start) →
        ¬ ['/'.toUInt8, '/'.toUInt8] <:+: (strip source).toUTF8.data.toList ∧
          ¬ ['/'.toUInt8, '*'.toUInt8] <:+: (strip source).toUTF8.data.toList) := by
  have hstrip (source : String) : (strip source).toList = stripChars source.toList :=
    String.toList_ofList
  constructor
  · rw [← String.toList_inj, hstrip, hstrip, stripChars_stripChars]
  · intro hend
    rw [toUTF8_eq] at hend
    rw [toUTF8_eq, hstrip, pair_infix_utf8_iff (by decide) (by decide),
      pair_infix_utf8_iff (by decide) (by decide)]
    exact not_pair_infix_stripChars hend

/-- A text whose block comment has a slash after its opening and whose line comment has no end
of line. -/
theorem strip_strip_trailing :
    strip (strip "x/*/ y */z // w") = strip "x/*/ y */z // w" ∧
      ¬ ['/'.toUInt8, '/'.toUInt8] <:+: (strip "x/*/ y */z // w").toUTF8.data.toList ∧
      ¬ ['/'.toUInt8, '*'.toUInt8] <:+: (strip "x/*/ y */z // w").toUTF8.data.toList := by
  have hmode : (pairScan .text 0 "x/*/ y */z // w".toUTF8.data.toList).1 = .line 11 := by
    decide
  have hend : ∀ start, (pairScan .text 0 "x/*/ y */z // w".toUTF8.data.toList).1 ≠
      .block start := by
    intro start
    rw [hmode]
    exact Mode.noConfusion
  exact ⟨(strip_strip _).1, (strip_strip _).2 hend⟩

end Glint.Comment

import Glint.Proofs.Strip

/-!
# Taking the spans of comments out of a text

The spans that the scan finds lie one after the other. A text from which they are taken out
one at a time, the last one first, keeps its start up to the span that is next, so every span
begins and ends at a boundary of the text that is left when its turn comes.

## Main definitions

* `Text.splitBytes?` — the parts of a text at a byte position that is a boundary
* `Comment.removeSpan?` — a text without a span whose ends are boundaries

## Main results

* `Comment.removeSpan?_eq_some_iff` — when a span can be taken out, and what is left
* `Comment.pairwise_spansFrom` — the spans of a text increase and are apart
* `Comment.foldrM_removeSpan?` — the spans can be taken out from the last to the first
-/

namespace Glint.Text

/-- The parts of a text before and after a byte position, if a character ends there. -/
def splitBytes? : Nat → List Char → Option (List Char × List Char)
  | 0, cs => some ([], cs)
  | _ + 1, [] => none
  | n + 1, c :: cs =>
    if c.utf8Size ≤ n + 1 then
      (splitBytes? (n + 1 - c.utf8Size) cs).map fun (before, after) => (c :: before, after)
    else none

theorem splitBytes?_append (before after : List Char) :
    splitBytes? (byteLength before) (before ++ after) = some (before, after) := by
  induction before with
  | nil => cases after <;> rfl
  | cons c cs ih =>
    obtain ⟨n, hn⟩ : ∃ n, byteLength (c :: cs) = n + 1 :=
      Nat.exists_eq_succ_of_ne_zero (by have := c.utf8Size_pos; rw [byteLength_cons]; omega)
    have hle : c.utf8Size ≤ n + 1 := by rw [← hn, byteLength_cons]; omega
    have hrest : n + 1 - c.utf8Size = byteLength cs := by rw [← hn, byteLength_cons]; omega
    rw [hn, List.cons_append, splitBytes?, if_pos hle, hrest, ih]
    rfl

theorem splitBytes?_eq_some_iff {n : Nat} {cs before after : List Char} :
    splitBytes? n cs = some (before, after) ↔ cs = before ++ after ∧ byteLength before = n := by
  constructor
  · intro h
    induction cs generalizing n before with
    | nil =>
      cases n with
      | zero =>
        cases h
        exact ⟨rfl, rfl⟩
      | succ n => cases h
    | cons c cs ih =>
      cases n with
      | zero =>
        cases h
        exact ⟨rfl, rfl⟩
      | succ n =>
        rw [splitBytes?] at h
        split at h
        · rename_i hle
          obtain ⟨⟨before', after'⟩, hsplit, hpair⟩ := Option.map_eq_some_iff.mp h
          cases hpair
          obtain ⟨rfl, hlength⟩ := ih hsplit
          refine ⟨rfl, ?_⟩
          rw [byteLength_cons, hlength]
          omega
        · cases h
  · rintro ⟨rfl, rfl⟩
    exact splitBytes?_append before after

/-- The shorter of two leading parts of a text leads the longer one. -/
theorem exists_eq_append_of_byteLength_le {as bs cs ds : List Char} (h : as ++ bs = cs ++ ds)
    (hle : byteLength as ≤ byteLength cs) : ∃ part, cs = as ++ part ∧ bs = part ++ ds := by
  rcases List.append_eq_append_iff.mp h with ⟨part, hcs, hbs⟩ | ⟨part, has, hds⟩
  · exact ⟨part, hcs, hbs⟩
  · have hpart : part = [] := by
      cases part with
      | nil => rfl
      | cons c part =>
        have := c.utf8Size_pos
        rw [has, byteLength_append, byteLength_cons] at hle
        omega
    subst hpart
    exact ⟨[], by simpa using has.symm, by simpa using hds.symm⟩

end Glint.Text

namespace Glint.Comment

open Text

/-! ### One span -/

/-- A text without the characters of a span, if the span begins and ends where a character
does and does not end before it begins. -/
def removeSpan? (span : Span) (cs : List Char) : Option (List Char) :=
  if span.start ≤ span.stop then
    match splitBytes? span.start cs, splitBytes? span.stop cs with
    | some (before, _), some (_, after) => some (before ++ after)
    | _, _ => none
  else none

theorem removeSpan?_eq_some_iff {span : Span} {cs left : List Char} :
    removeSpan? span cs = some left ↔
      ∃ before part after, cs = before ++ part ++ after ∧ byteLength before = span.start ∧
        byteLength (before ++ part) = span.stop ∧ left = before ++ after := by
  rw [removeSpan?]
  constructor
  · intro h
    split at h
    · rename_i hle
      split at h
      · rename_i before rest upTo after hstart hstop
        rw [splitBytes?_eq_some_iff] at hstart hstop
        obtain ⟨part, rfl, -⟩ :=
          exists_eq_append_of_byteLength_le (hstart.1.symm.trans hstop.1) (by omega)
        cases h
        exact ⟨before, part, after, hstop.1, hstart.2, hstop.2, rfl⟩
      · cases h
    · cases h
  · rintro ⟨before, part, after, rfl, hstart, hstop, rfl⟩
    have hle : span.start ≤ span.stop := by
      rw [← hstart, ← hstop, byteLength_append]
      omega
    rw [if_pos hle, ← hstart, ← hstop, splitBytes?_append, List.append_assoc,
      splitBytes?_append]

/-! ### The spans of a text -/

theorem IsComment.two_le {comment rest : List Char} (h : IsComment comment rest) :
    2 ≤ byteLength comment := by
  cases h with
  | line hbody hend =>
    rw [byteLength_line]
    omega
  | block hbody =>
    rw [byteLength_block]
    omega

theorem spansFrom_bounds {pos : Nat} {cs : List Char} {span : Span}
    (h : span ∈ spansFrom .text pos cs) :
    pos ≤ span.start ∧ span.start + 2 ≤ span.stop ∧ span.stop ≤ pos + byteLength cs := by
  induction parts cs generalizing pos with
  | nil =>
    rw [spansFrom_nil] at h
    cases h
  | @text c cs hplain _ ih =>
    rw [spansFrom_text hplain] at h
    have := ih h
    rw [byteLength_cons]
    omega
  | @comment comment rest hcomment _ ih =>
    rw [spansFrom_comment hcomment] at h
    rw [byteLength_append]
    have htwo := hcomment.two_le
    rcases List.mem_cons.mp h with rfl | h
    · dsimp only
      omega
    · have := ih h
      omega
  | unclosed hbody =>
    rw [spansFrom_unclosed hbody] at h
    cases h

theorem pairwise_spansFrom (pos : Nat) (cs : List Char) :
    (spansFrom .text pos cs).Pairwise fun span span' => span.stop ≤ span'.start := by
  induction parts cs generalizing pos with
  | nil =>
    rw [spansFrom_nil]
    exact .nil
  | text hplain _ ih =>
    rw [spansFrom_text hplain]
    exact ih _
  | comment hcomment _ ih =>
    rw [spansFrom_comment hcomment]
    exact .cons (fun span h => (spansFrom_bounds h).1) (ih _)
  | unclosed hbody =>
    rw [spansFrom_unclosed hbody]
    exact .nil

/-- Behind a part that has been scanned, the spans can be taken out. -/
theorem foldrM_removeSpan?_spansFrom (before cs : List Char) :
    (spansFrom .text (byteLength before) cs).foldrM removeSpan? (before ++ cs) =
      some (before ++ stripChars cs) := by
  induction parts cs generalizing before with
  | nil =>
    rw [spansFrom_nil]
    rfl
  | @text c cs hplain _ ih =>
    have hstep := ih (before ++ [c])
    rw [byteLength_append, List.append_assoc, List.append_assoc, List.singleton_append,
      List.singleton_append] at hstep
    rw [spansFrom_text hplain, stripChars_text hplain]
    exact hstep
  | @comment comment rest hcomment _ ih =>
    have hrest := ih (before ++ comment)
    rw [List.append_assoc] at hrest
    -- When its turn comes, the comment is followed by what stripping leaves of the rest.
    have hremove : removeSpan? ⟨byteLength before, byteLength (before ++ comment)⟩
        (before ++ comment ++ stripChars rest) = some (before ++ stripChars rest) :=
      removeSpan?_eq_some_iff.mpr ⟨before, comment, stripChars rest, rfl, rfl, rfl, rfl⟩
    rw [spansFrom_comment hcomment, ← byteLength_append, List.foldrM_cons, hrest,
      stripChars_comment hcomment]
    exact hremove
  | unclosed hbody =>
    rw [spansFrom_unclosed hbody, stripChars_unclosed hbody]
    rfl

/-- The spans of a text can be taken out one at a time, from the last to the first. -/
theorem foldrM_removeSpan? (cs : List Char) :
    (spans cs).foldrM removeSpan? cs = some (stripChars cs) :=
  foldrM_removeSpan?_spansFrom [] cs

end Glint.Comment

import Glint.Comment
import Mathlib.Data.List.Infix

/-!
# A text taken apart at its comments

Every text is made of plain characters, of comments, and perhaps of a block comment that is
never closed and takes up the rest. What the scan finds and what stripping leaves each follow
one law for each kind of part, so that anything else about comments is an induction on the
parts of a text.

## Main definitions

* `Comment.Opens` — a comment opens at the start of a text
* `Comment.IsComment` — a comment, with the text that follows it
* `Comment.Parts` — a text is made of plain characters and comments

## Main results

* `Comment.parts` — every text is made of such parts
* `Comment.spansFrom_text`, `Comment.spansFrom_comment`, `Comment.spansFrom_unclosed` — what
  the scan finds in each part
* `Comment.stripChars_text`, `Comment.stripChars_comment`, `Comment.stripChars_unclosed` — what
  stripping leaves of each part
-/

namespace Glint.Comment

open Text

variable {c : Char} {body comment rest : List Char}

/-! ### Parts -/

/-- A comment opens at the start of the text. -/
def Opens (cs : List Char) : Prop :=
  ['/', '/'] <+: cs ∨ ['/', '*'] <+: cs

/-- The text is a comment, and `rest` follows it. A line comment goes on to the end of its line,
which stays outside, and a block comment to the first star and slash after its opening. -/
inductive IsComment : List Char → List Char → Prop
  | line {body rest : List Char} (hbody : ∀ c ∈ body, endsLine c = false)
    (hend : ∀ c ∈ rest.head?, endsLine c = true) : IsComment ('/' :: '/' :: body) rest
  | block {body rest : List Char} (hbody : ¬ ['*', '/'] <:+: body) :
    IsComment ('/' :: '*' :: (body ++ ['*', '/'])) rest

/-- The text is made of plain characters and comments. A block comment that has no end takes up
the rest. -/
inductive Parts : List Char → Prop
  | nil : Parts []
  | text {c : Char} {cs : List Char} (hplain : ¬ Opens (c :: cs)) (hcs : Parts cs) :
    Parts (c :: cs)
  | comment {comment rest : List Char} (hcomment : IsComment comment rest) (hrest : Parts rest) :
    Parts (comment ++ rest)
  | unclosed {body : List Char} (hbody : ¬ ['*', '/'] <:+: body) : Parts ('/' :: '*' :: body)

theorem not_pair_prefix_of_ne {α : Type} {x y a : α} {as : List α} (hne : a ≠ x) :
    ¬ [x, y] <+: a :: as := by
  rw [List.cons_prefix_cons]
  exact fun h => hne h.1.symm

theorem not_opens_of_ne (hc : c ≠ '/') (rest : List Char) : ¬ Opens (c :: rest) :=
  not_or_intro (not_pair_prefix_of_ne hc) (not_pair_prefix_of_ne hc)

/-- A text has no end of a block comment, or it has a first one. -/
theorem exists_close (cs : List Char) :
    ¬ ['*', '/'] <:+: cs ∨
      ∃ body rest, cs = body ++ ['*', '/'] ++ rest ∧ ¬ ['*', '/'] <:+: body := by
  induction cs with
  | nil => exact .inl (by simp)
  | cons c cs ih =>
    by_cases hclose : ['*', '/'] <+: c :: cs
    · obtain ⟨rest, hrest⟩ := hclose
      exact .inr ⟨[], rest, hrest.symm, by simp⟩
    · rcases ih with hnone | ⟨body, rest, rfl, hbody⟩
      · refine .inl ?_
        rw [List.infix_cons_iff]
        exact not_or_intro hclose hnone
      · refine .inr ⟨c :: body, rest, rfl, ?_⟩
        rw [List.infix_cons_iff]
        -- An end that starts with the first character would be at the start of the text.
        refine not_or_intro (fun hstart => hclose (hstart.trans ?_)) hbody
        rw [List.append_assoc]
        exact List.prefix_append (c :: body) _

/-- A text has a first line, which its end follows if it has one. -/
theorem exists_lineEnd (cs : List Char) :
    ∃ body rest, cs = body ++ rest ∧ (∀ c ∈ body, endsLine c = false) ∧
      ∀ c ∈ rest.head?, endsLine c = true := by
  refine ⟨cs.takeWhile fun c => !endsLine c, cs.dropWhile fun c => !endsLine c,
    List.takeWhile_append_dropWhile.symm, ?_, ?_⟩
  · intro c hc
    have hnot := List.all_eq_true.mp (List.all_takeWhile (l := cs) (p := fun c => !endsLine c)) c hc
    simpa using hnot
  · intro c hc
    have hhead := List.head?_dropWhile_not (fun c => !endsLine c) cs
    rw [Option.mem_def.mp hc] at hhead
    simpa using hhead

theorem parts (cs : List Char) : Parts cs := by
  induction hlength : cs.length using Nat.strong_induction_on generalizing cs with
  | _ n ih =>
    subst hlength
    by_cases hline : ['/', '/'] <+: cs
    · obtain ⟨text, rfl⟩ := hline
      obtain ⟨body, rest, rfl, hbody, hend⟩ := exists_lineEnd text
      have hrest : Parts rest := by
        refine ih _ ?_ rest rfl
        simp only [List.length_append, List.length_cons]
        omega
      rw [← List.append_assoc]
      exact .comment (.line hbody hend) hrest
    · by_cases hblock : ['/', '*'] <+: cs
      · obtain ⟨text, rfl⟩ := hblock
        rcases exists_close text with hnone | ⟨body, rest, rfl, hbody⟩
        · exact .unclosed hnone
        · have hrest : Parts rest := by
            refine ih _ ?_ rest rfl
            simp only [List.length_append, List.length_cons]
            omega
          rw [← List.append_assoc]
          exact .comment (.block hbody) hrest
      · cases cs with
        | nil => exact .nil
        | cons c cs =>
          exact .text (not_or_intro hline hblock) (ih _ (Nat.lt_succ_self _) cs rfl)

/-! ### What the scan finds -/

@[simp] theorem spansFrom_nil (pos : Nat) : spansFrom .text pos [] = [] := rfl

theorem spansFrom_opensLine (pos : Nat) (cs : List Char) :
    spansFrom .text pos ('/' :: '/' :: cs) = spansFrom (.line pos) (pos + 2) cs := rfl

theorem spansFrom_opensBlock (pos : Nat) (cs : List Char) :
    spansFrom .text pos ('/' :: '*' :: cs) = spansFrom (.block pos) (pos + 2) cs := rfl

/-- The scan passes over a plain character. -/
theorem spansFrom_text (hplain : ¬ Opens (c :: rest)) (pos : Nat) :
    spansFrom .text pos (c :: rest) = spansFrom .text (pos + c.utf8Size) rest := by
  rw [spansFrom]
  · rintro cs rfl rfl
    exact hplain (.inl ⟨cs, rfl⟩)
  · rintro cs rfl rfl
    exact hplain (.inr ⟨cs, rfl⟩)

theorem spansFrom_line_cons (c : Char) (start pos : Nat) (cs : List Char) :
    spansFrom (.line start) pos (c :: cs) =
      if endsLine c then ⟨start, pos⟩ :: spansFrom .text (pos + c.utf8Size) cs
      else spansFrom (.line start) (pos + c.utf8Size) cs := rfl

theorem spansFrom_block_cons (hclose : ¬ ['*', '/'] <+: c :: rest) (start pos : Nat) :
    spansFrom (.block start) pos (c :: rest) =
      spansFrom (.block start) (pos + c.utf8Size) rest := by
  rw [spansFrom]
  rintro cs rfl rfl
  exact hclose ⟨cs, rfl⟩

/-- The end of a line is plain, so the scan goes on with it as with any text. -/
theorem spansFrom_line_end (hend : ∀ c ∈ rest.head?, endsLine c = true) (start pos : Nat) :
    spansFrom (.line start) pos rest = ⟨start, pos⟩ :: spansFrom .text pos rest := by
  cases rest with
  | nil => rfl
  | cons c cs =>
    have hc : endsLine c = true := hend c rfl
    have hslash : c ≠ '/' := by
      rintro rfl
      exact absurd hc (by decide)
    rw [spansFrom_line_cons, if_pos hc, spansFrom_text (not_opens_of_ne hslash cs)]

theorem spansFrom_line (hbody : ∀ c ∈ body, endsLine c = false)
    (hend : ∀ c ∈ rest.head?, endsLine c = true) (start pos : Nat) :
    spansFrom (.line start) pos (body ++ rest) =
      ⟨start, pos + byteLength body⟩ :: spansFrom .text (pos + byteLength body) rest := by
  induction body generalizing pos with
  | nil => exact spansFrom_line_end hend start pos
  | cons c cs ih =>
    rw [List.forall_mem_cons] at hbody
    rw [List.cons_append, spansFrom_line_cons, hbody.1, if_neg Bool.false_ne_true, ih hbody.2,
      byteLength_cons, Nat.add_assoc]

/-- A pair that starts in a list which its first element follows lies in that list. -/
theorem pair_prefix_of_append {α : Type} {x y a : α} {as bs : List α} (hne : x ≠ y)
    (h : [x, y] <+: a :: (as ++ x :: bs)) : [x, y] <+: a :: as := by
  rw [List.cons_prefix_cons] at h ⊢
  refine ⟨h.1, ?_⟩
  cases as with
  | nil => exact absurd (List.cons_prefix_cons.mp h.2).1 (Ne.symm hne)
  | cons b as => exact List.cons_prefix_cons.mpr ⟨(List.cons_prefix_cons.mp h.2).1, as, rfl⟩

theorem spansFrom_block (hbody : ¬ ['*', '/'] <:+: body) (start pos : Nat) (rest : List Char) :
    spansFrom (.block start) pos (body ++ '*' :: '/' :: rest) =
      ⟨start, pos + byteLength body + 2⟩ ::
        spansFrom .text (pos + byteLength body + 2) rest := by
  induction body generalizing pos with
  | nil => rfl
  | cons c cs ih =>
    rw [List.infix_cons_iff, not_or] at hbody
    rw [List.cons_append, spansFrom_block_cons (hbody.1 ∘ pair_prefix_of_append (by decide)),
      ih hbody.2, byteLength_cons, Nat.add_assoc pos]

theorem spansFrom_open (hbody : ¬ ['*', '/'] <:+: body) (start pos : Nat) :
    spansFrom (.block start) pos body = [] := by
  induction body generalizing pos with
  | nil => rfl
  | cons c cs ih =>
    rw [List.infix_cons_iff, not_or] at hbody
    rw [spansFrom_block_cons hbody.1, ih hbody.2]

theorem byteLength_line (body : List Char) :
    byteLength ('/' :: '/' :: body) = 2 + byteLength body := by
  rw [byteLength_cons, byteLength_cons, ← Nat.add_assoc]
  rfl

theorem byteLength_block (body : List Char) :
    byteLength ('/' :: '*' :: (body ++ ['*', '/'])) = 2 + byteLength body + 2 := by
  rw [byteLength_cons, byteLength_cons, byteLength_append, ← Nat.add_assoc, ← Nat.add_assoc]
  rfl

theorem block_append (body rest : List Char) :
    '/' :: '*' :: (body ++ ['*', '/']) ++ rest =
      '/' :: '*' :: (body ++ '*' :: '/' :: rest) := by
  simp

/-- A comment is one span. -/
theorem spansFrom_comment (hcomment : IsComment comment rest) (pos : Nat) :
    spansFrom .text pos (comment ++ rest) =
      ⟨pos, pos + byteLength comment⟩ :: spansFrom .text (pos + byteLength comment) rest := by
  cases hcomment with
  | line hbody hend =>
    rw [List.cons_append, List.cons_append, spansFrom_opensLine, spansFrom_line hbody hend,
      byteLength_line, Nat.add_assoc]
  | block hbody =>
    rw [block_append, spansFrom_opensBlock, spansFrom_block hbody, byteLength_block]
    simp only [Nat.add_assoc]

/-- A block comment without an end has no span. -/
theorem spansFrom_unclosed (hbody : ¬ ['*', '/'] <:+: body) (pos : Nat) :
    spansFrom .text pos ('/' :: '*' :: body) = [] := by
  rw [spansFrom_opensBlock, spansFrom_open hbody]

/-! ### What is left -/

/-- What is left of a text that starts at byte `pos`, of which the part `done` has been
scanned without a comment. -/
def cutScan (pos : Nat) (done rest : List Char) : List Char :=
  cutFrom pos (spansFrom .text (pos + byteLength done) rest) (done ++ rest)

theorem cutScan_text (hplain : ¬ Opens (c :: rest)) (pos : Nat) (done : List Char) :
    cutScan pos done (c :: rest) = cutScan pos (done ++ [c]) rest := by
  rw [cutScan, cutScan, spansFrom_text hplain, byteLength_append, List.append_assoc,
    List.singleton_append, Nat.add_assoc]
  rfl

/-- A comment is cut out, and the scan and the cut go on together. -/
theorem cutScan_comment (hcomment : IsComment comment rest) (pos : Nat) (done : List Char) :
    cutScan pos done (comment ++ rest) =
      done ++ cutScan (pos + byteLength done + byteLength comment) [] rest := by
  have hstop : pos + byteLength done + byteLength comment - pos = byteLength (done ++ comment) := by
    rw [byteLength_append]
    omega
  rw [cutScan, spansFrom_comment hcomment, cutFrom, Nat.add_sub_cancel_left, hstop,
    takeBytes_append, ← List.append_assoc, dropBytes_append]
  rfl

theorem cutScan_unclosed (hbody : ¬ ['*', '/'] <:+: body) (pos : Nat) (done : List Char) :
    cutScan pos done ('/' :: '*' :: body) = done ++ '/' :: '*' :: body := by
  rw [cutScan, spansFrom_unclosed hbody, cutFrom]

/-- What is left of a text does not depend on where it starts. -/
theorem cutScan_eq (pos : Nat) (done cs : List Char) :
    cutScan pos done cs = done ++ stripChars cs := by
  have hleft : ∃ left, ∀ pos done, cutScan pos done cs = done ++ left := by
    induction parts cs with
    | nil =>
      refine ⟨[], ?_⟩
      intro pos done
      rw [cutScan, spansFrom_nil, cutFrom]
    | @text c cs hplain _ ih =>
      obtain ⟨left, hleft⟩ := ih
      refine ⟨c :: left, ?_⟩
      intro pos done
      rw [cutScan_text hplain, hleft, List.append_assoc, List.singleton_append]
    | comment hcomment _ ih =>
      obtain ⟨left, hleft⟩ := ih
      refine ⟨left, ?_⟩
      intro pos done
      rw [cutScan_comment hcomment, hleft, List.nil_append]
    | unclosed hbody => exact ⟨_, fun pos done => cutScan_unclosed hbody pos done⟩
  obtain ⟨left, hleft⟩ := hleft
  have hstrip : stripChars cs = left := hleft 0 []
  rw [hleft, hstrip]

@[simp] theorem stripChars_nil : stripChars [] = [] := rfl

/-- A plain character stays. -/
theorem stripChars_text (hplain : ¬ Opens (c :: rest)) :
    stripChars (c :: rest) = c :: stripChars rest :=
  (cutScan_text hplain 0 []).trans (cutScan_eq 0 [c] rest)

/-- Of a comment nothing is left. -/
theorem stripChars_comment (hcomment : IsComment comment rest) :
    stripChars (comment ++ rest) = stripChars rest :=
  (cutScan_comment hcomment 0 []).trans (cutScan_eq _ [] rest)

/-- A block comment without an end stays. -/
theorem stripChars_unclosed (hbody : ¬ ['*', '/'] <:+: body) :
    stripChars ('/' :: '*' :: body) = '/' :: '*' :: body :=
  cutScan_unclosed hbody 0 []

/-- A text in which no slash stands is left as it is. -/
theorem stripChars_append {plain : List Char} (hplain : '/' ∉ plain) (rest : List Char) :
    stripChars (plain ++ rest) = plain ++ stripChars rest := by
  induction plain with
  | nil => rfl
  | cons c cs ih =>
    rw [List.mem_cons, not_or] at hplain
    rw [List.cons_append, stripChars_text (not_opens_of_ne (Ne.symm hplain.1) _), ih hplain.2,
      List.cons_append]

end Glint.Comment

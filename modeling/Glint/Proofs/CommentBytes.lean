import Glint.Proofs.CommentSpans
import Glint.Proofs.Utf8

/-!
# Comments in the bytes of a text

A text is stripped character by character, but slashes, stars and ends of lines are bytes of
ASCII, which occur in no longer character, so the bytes of a text tell the same. Two readings
of the bytes are given here. One passes over the bytes once, looks at two neighbours at a time
and records the spans of the comments. The other says what stripping is meant to leave: it
drops a comment where it meets one and keeps any other byte.

## Main definitions

* `Comment.pairScan` — the scan of the bytes by pairs of neighbours
* `Comment.removeComments` — the bytes of a text without its comments

## Main results

* `Comment.pairScan_spans` — the scan by pairs finds the spans of the comments
* `Comment.utf8_stripChars` — stripping leaves the bytes outside the comments
* `Comment.strip_exact` — stripping is the removal of comments, by spans that can be taken out
  from the last to the first
-/

namespace Glint.Comment

open Text

/-- A byte that ends a line comment. -/
def endsLineByte (byte : UInt8) : Bool :=
  byte == '\n'.toUInt8 || byte == '\r'.toUInt8

/-- The scan of the bytes of a text from position `pos` on, in a given mode. Each step looks at
a byte and the next one. The result is the mode at the end, with the spans of the comments. -/
def pairScan : Mode → Nat → List UInt8 → Mode × List Span
  | .text, pos, byte :: next :: bytes =>
    if byte = '/'.toUInt8 ∧ next = '*'.toUInt8 then pairScan (.block pos) (pos + 1) (next :: bytes)
    else if byte = '/'.toUInt8 ∧ next = '/'.toUInt8 then
      pairScan (.line pos) (pos + 1) (next :: bytes)
    else pairScan .text (pos + 1) (next :: bytes)
  | .block start, pos, byte :: next :: bytes =>
    -- The star of the opening and a slash after it do not close the comment.
    if byte = '*'.toUInt8 ∧ next = '/'.toUInt8 ∧ 1 < pos - start then
      found ⟨start, pos + 2⟩ (pairScan .text (pos + 2) bytes)
    else pairScan (.block start) (pos + 1) (next :: bytes)
  | .line start, pos, _ :: next :: bytes =>
    if endsLineByte next then found ⟨start, pos + 1⟩ (pairScan .text (pos + 1) (next :: bytes))
    else pairScan (.line start) (pos + 1) (next :: bytes)
  | .line start, pos, bytes => (.line start, [⟨start, pos + bytes.length⟩])
  | mode, _, _ => (mode, [])
where
  /-- Put a span before those that are found later. -/
  found (span : Span) (result : Mode × List Span) : Mode × List Span :=
    (result.1, span :: result.2)

/-- The bytes after the first star and slash, if they occur. -/
def afterClose? : List UInt8 → Option (List UInt8)
  | byte :: next :: bytes =>
    if byte = '*'.toUInt8 ∧ next = '/'.toUInt8 then some bytes else afterClose? (next :: bytes)
  | _ => none

theorem length_of_afterClose? {bytes rest : List UInt8} (h : afterClose? bytes = some rest) :
    rest.length ≤ bytes.length := by
  induction bytes with
  | nil => cases h
  | cons byte bytes ih =>
    cases bytes with
    | nil => cases h
    | cons next bytes =>
      rw [afterClose?] at h
      split at h
      · cases h
        simp only [List.length_cons]
        omega
      · exact Nat.le_succ_of_le (ih h)

/-- The bytes of a text without its comments. A block comment goes on through the first star
and slash after its opening, and is kept with all that follows it if there are none. A line
comment goes on to the end of its line, which is kept. -/
def removeComments : List UInt8 → List UInt8
  | byte :: next :: bytes =>
    if byte = '/'.toUInt8 ∧ next = '*'.toUInt8 then
      match _h : afterClose? bytes with
      | some rest => removeComments rest
      | none => byte :: next :: bytes
    else if byte = '/'.toUInt8 ∧ next = '/'.toUInt8 then
      removeComments (bytes.dropWhile fun byte => !endsLineByte byte)
    else byte :: removeComments (next :: bytes)
  | bytes => bytes
termination_by bytes => bytes.length
decreasing_by
  · have := length_of_afterClose? _h
    simp only [List.length_cons]
    omega
  · have := (List.dropWhile_suffix (l := bytes) fun byte => !endsLineByte byte).length_le
    simp only [List.length_cons]
    omega
  · exact Nat.lt_succ_self _

/-! ### Ends of lines -/

section Lines

variable {body rest : List Char}

theorem endsLine_iff {c : Char} : endsLine c = true ↔ c = '\n' ∨ c = '\r' := by
  simp [endsLine]

theorem endsLineByte_iff {byte : UInt8} :
    endsLineByte byte = true ↔ byte = '\n'.toUInt8 ∨ byte = '\r'.toUInt8 := by
  simp [endsLineByte]

theorem endsLineByte_eq_false (hbody : ∀ c ∈ body, endsLine c = false) :
    ∀ byte ∈ utf8 body, endsLineByte byte = false := by
  intro byte hbyte
  rw [Bool.eq_false_iff]
  intro hends
  rcases endsLineByte_iff.mp hends with rfl | rfl
  · exact absurd (hbody '\n' ((toUInt8_mem_utf8_iff (by decide)).mp hbyte)) (by decide)
  · exact absurd (hbody '\r' ((toUInt8_mem_utf8_iff (by decide)).mp hbyte)) (by decide)

theorem endsLineByte_head (hend : ∀ c ∈ rest.head?, endsLine c = true) :
    ∀ byte ∈ (utf8 rest).head?, endsLineByte byte = true := by
  cases rest with
  | nil =>
    intro byte hbyte
    cases hbyte
  | cons c cs =>
    have hascii : c.toNat < 128 := by
      rcases endsLine_iff.mp (hend c rfl) with rfl | rfl <;> decide
    rw [utf8_cons, utf8EncodeChar_of_ascii hascii]
    rintro byte ⟨⟩
    rcases endsLine_iff.mp (hend c rfl) with rfl | rfl <;> rfl

end Lines

/-! ### Comments in bytes -/

/-- A slash that opens no comment is followed by neither a star nor a slash. -/
theorem not_pair_prefix_of_not_opens {cs : List Char} (hplain : ¬ Opens ('/' :: cs)) :
    ¬ ['/'.toUInt8, '*'.toUInt8] <+: '/'.toUInt8 :: utf8 cs ∧
      ¬ ['/'.toUInt8, '/'.toUInt8] <+: '/'.toUInt8 :: utf8 cs := by
  have hbytes : '/'.toUInt8 :: utf8 cs = utf8 ('/' :: cs) := rfl
  rw [hbytes, pair_prefix_utf8_iff (by decide) (by decide),
    pair_prefix_utf8_iff (by decide) (by decide)]
  exact ⟨fun h => hplain (.inr h), fun h => hplain (.inl h)⟩

theorem not_pair_infix_utf8 {body : List Char} (hbody : ¬ ['*', '/'] <:+: body) :
    ¬ ['*'.toUInt8, '/'.toUInt8] <:+: utf8 body := by
  rwa [pair_infix_utf8_iff (by decide) (by decide)]

theorem utf8_block (body : List Char) :
    utf8 ('/' :: '*' :: (body ++ ['*', '/'])) =
      '/'.toUInt8 :: '*'.toUInt8 :: (utf8 body ++ ['*'.toUInt8, '/'.toUInt8]) := by
  simp [utf8EncodeChar_of_ascii]

/-! ### The scan by pairs -/

section Pairs

variable {byte next : UInt8} {body bytes rest : List UInt8}

theorem pairScan_text_pair (pos : Nat) :
    pairScan .text pos (byte :: next :: bytes) =
      if byte = '/'.toUInt8 ∧ next = '*'.toUInt8 then
        pairScan (.block pos) (pos + 1) (next :: bytes)
      else if byte = '/'.toUInt8 ∧ next = '/'.toUInt8 then
        pairScan (.line pos) (pos + 1) (next :: bytes)
      else pairScan .text (pos + 1) (next :: bytes) := rfl

theorem pairScan_block_pair (start pos : Nat) :
    pairScan (.block start) pos (byte :: next :: bytes) =
      if byte = '*'.toUInt8 ∧ next = '/'.toUInt8 ∧ 1 < pos - start then
        pairScan.found ⟨start, pos + 2⟩ (pairScan .text (pos + 2) bytes)
      else pairScan (.block start) (pos + 1) (next :: bytes) := rfl

theorem pairScan_line_pair (start pos : Nat) :
    pairScan (.line start) pos (byte :: next :: bytes) =
      if endsLineByte next then
        pairScan.found ⟨start, pos + 1⟩ (pairScan .text (pos + 1) (next :: bytes))
      else pairScan (.line start) (pos + 1) (next :: bytes) := rfl

/-- The scan passes over a byte at which no comment opens. -/
theorem pairScan_text_cons (hblock : ¬ ['/'.toUInt8, '*'.toUInt8] <+: byte :: bytes)
    (hline : ¬ ['/'.toUInt8, '/'.toUInt8] <+: byte :: bytes) (pos : Nat) :
    pairScan .text pos (byte :: bytes) = pairScan .text (pos + 1) bytes := by
  cases bytes with
  | nil => rfl
  | cons next bytes =>
    rw [pair_prefix_cons_cons_iff] at hblock hline
    rw [pairScan_text_pair, if_neg hblock, if_neg hline]

theorem pairScan_text_append {plain : List UInt8} (hplain : '/'.toUInt8 ∉ plain) (pos : Nat)
    (bytes : List UInt8) :
    pairScan .text pos (plain ++ bytes) = pairScan .text (pos + plain.length) bytes := by
  induction plain generalizing pos with
  | nil => rfl
  | cons byte plain ih =>
    rw [List.mem_cons, not_or] at hplain
    have hbyte : byte ≠ '/'.toUInt8 := Ne.symm hplain.1
    rw [List.cons_append,
      pairScan_text_cons (not_pair_prefix_of_ne hbyte) (not_pair_prefix_of_ne hbyte),
      ih hplain.2, List.length_cons, Nat.add_comm plain.length 1, Nat.add_assoc]

theorem pairScan_opensBlock (pos : Nat) (bytes : List UInt8) :
    pairScan .text pos ('/'.toUInt8 :: '*'.toUInt8 :: bytes) =
      pairScan (.block pos) (pos + 2) bytes := by
  rw [pairScan_text_pair, if_pos ⟨rfl, rfl⟩]
  cases bytes with
  | nil => rfl
  | cons next bytes =>
    have hguard : ¬ 1 < pos + 1 - pos := by omega
    rw [pairScan_block_pair, if_neg (fun h => hguard h.2.2)]

theorem pairScan_block_cons (hclose : ¬ ['*'.toUInt8, '/'.toUInt8] <+: byte :: bytes)
    (start pos : Nat) :
    pairScan (.block start) pos (byte :: bytes) = pairScan (.block start) (pos + 1) bytes := by
  cases bytes with
  | nil => rfl
  | cons next bytes =>
    rw [pair_prefix_cons_cons_iff] at hclose
    rw [pairScan_block_pair, if_neg (fun h => hclose ⟨h.1, h.2.1⟩)]

theorem pairScan_block (hbody : ¬ ['*'.toUInt8, '/'.toUInt8] <:+: body) {start pos : Nat}
    (hpos : start + 2 ≤ pos) (rest : List UInt8) :
    pairScan (.block start) pos (body ++ '*'.toUInt8 :: '/'.toUInt8 :: rest) =
      pairScan.found ⟨start, pos + body.length + 2⟩
        (pairScan .text (pos + body.length + 2) rest) := by
  induction body generalizing pos with
  | nil =>
    have hguard : 1 < pos - start := by omega
    rw [List.nil_append, pairScan_block_pair, if_pos ⟨rfl, rfl, hguard⟩]
    rfl
  | cons byte body ih =>
    rw [List.infix_cons_iff, not_or] at hbody
    have hlength : pos + (byte :: body).length = pos + 1 + body.length := by
      rw [List.length_cons]
      omega
    rw [List.cons_append, pairScan_block_cons (hbody.1 ∘ pair_prefix_of_append (by decide)),
      ih hbody.2 (by omega), hlength]

theorem pairScan_block_open (hbody : ¬ ['*'.toUInt8, '/'.toUInt8] <:+: body) (start pos : Nat) :
    pairScan (.block start) pos body = (.block start, []) := by
  induction body generalizing pos with
  | nil => rfl
  | cons byte body ih =>
    rw [List.infix_cons_iff, not_or] at hbody
    rw [pairScan_block_cons hbody.1, ih hbody.2]

theorem pairScan_opensLine (pos : Nat) (bytes : List UInt8) :
    pairScan .text pos ('/'.toUInt8 :: '/'.toUInt8 :: bytes) =
      pairScan (.line pos) (pos + 1) ('/'.toUInt8 :: bytes) := by
  rw [pairScan_text_pair, if_neg (fun h => absurd h.2 (by decide)), if_pos ⟨rfl, rfl⟩]

/-- In a line comment the scan is one byte behind: it has looked at a byte when it comes to
it. -/
theorem pairScan_line (hbody : ∀ byte ∈ body, endsLineByte byte = false)
    (hend : ∀ byte ∈ rest.head?, endsLineByte byte = true) (byte : UInt8) (start pos : Nat) :
    pairScan (.line start) pos (byte :: (body ++ rest)) =
      if rest = [] then (.line start, [⟨start, pos + 1 + body.length⟩])
      else pairScan.found ⟨start, pos + 1 + body.length⟩
        (pairScan .text (pos + 1 + body.length) rest) := by
  induction body generalizing byte pos with
  | nil =>
    cases rest with
    | nil => rfl
    | cons next rest =>
      rw [List.nil_append, pairScan_line_pair, if_pos (hend next rfl),
        if_neg (List.cons_ne_nil _ _)]
      rfl
  | cons next body ih =>
    rw [List.forall_mem_cons] at hbody
    have hlength : pos + 1 + (next :: body).length = pos + 1 + 1 + body.length := by
      rw [List.length_cons]
      omega
    rw [List.cons_append, pairScan_line_pair, if_neg (Bool.eq_false_iff.mp hbody.1), ih hbody.2,
      hlength]

end Pairs

section Parts

variable {c : Char} {body comment rest : List Char}

/-- The scan passes over a plain character. -/
theorem pairScan_text (hplain : ¬ Opens (c :: rest)) (pos : Nat) :
    pairScan .text pos (utf8 (c :: rest)) = pairScan .text (pos + c.utf8Size) (utf8 rest) := by
  rw [utf8_cons]
  by_cases hc : c = '/'
  · subst hc
    obtain ⟨hblock, hline⟩ := not_pair_prefix_of_not_opens hplain
    rw [utf8EncodeChar_of_ascii (by decide)]
    exact pairScan_text_cons hblock hline pos
  · have hslash : '/'.toUInt8 ∉ String.utf8EncodeChar c := fun h =>
      hc ((toUInt8_mem_encode_iff (by decide)).mp h)
    rw [pairScan_text_append hslash, String.length_utf8EncodeChar]

/-- A comment is one span. After it the scan is in plain text again, except that a line comment
may go on to the end of the text. -/
theorem pairScan_comment (hcomment : IsComment comment rest) (pos : Nat) :
    pairScan .text pos (utf8 (comment ++ rest)) =
        pairScan.found ⟨pos, pos + byteLength comment⟩
          (pairScan .text (pos + byteLength comment) (utf8 rest)) ∨
      rest = [] ∧ pairScan .text pos (utf8 (comment ++ rest)) =
        (.line pos, [⟨pos, pos + byteLength comment⟩]) := by
  rw [utf8_append]
  cases hcomment with
  | @line body _ hbody hend =>
    have hbytes : utf8 ('/' :: '/' :: body) ++ utf8 rest =
        '/'.toUInt8 :: '/'.toUInt8 :: (utf8 body ++ utf8 rest) := rfl
    have hlength : pos + 1 + 1 + (utf8 body).length = pos + byteLength ('/' :: '/' :: body) := by
      rw [length_utf8, byteLength_line]
      omega
    rw [hbytes, pairScan_opensLine,
      pairScan_line (endsLineByte_eq_false hbody) (endsLineByte_head hend), hlength]
    cases rest with
    | nil => exact .inr ⟨rfl, if_pos utf8_nil⟩
    | cons c cs =>
      have hne : utf8 (c :: cs) ≠ [] :=
        List.append_ne_nil_of_left_ne_nil String.utf8EncodeChar_ne_nil _
      exact .inl (if_neg hne)
  | @block body _ hbody =>
    have hbytes : utf8 ('/' :: '*' :: (body ++ ['*', '/'])) ++ utf8 rest =
        '/'.toUInt8 :: '*'.toUInt8 :: (utf8 body ++ '*'.toUInt8 :: '/'.toUInt8 :: utf8 rest) := by
      rw [utf8_block, List.cons_append, List.cons_append, List.append_assoc]
      rfl
    have hlength : pos + 2 + (utf8 body).length + 2 =
        pos + byteLength ('/' :: '*' :: (body ++ ['*', '/'])) := by
      rw [length_utf8, byteLength_block]
      omega
    rw [hbytes, pairScan_opensBlock, pairScan_block (not_pair_infix_utf8 hbody) (Nat.le_refl _),
      hlength]
    exact .inl rfl

/-- In a block comment without an end the scan stays. -/
theorem pairScan_unclosed (hbody : ¬ ['*', '/'] <:+: body) (pos : Nat) :
    pairScan .text pos (utf8 ('/' :: '*' :: body)) = (.block pos, []) :=
  (pairScan_opensBlock pos _).trans (pairScan_block_open (not_pair_infix_utf8 hbody) _ _)

end Parts

/-- The scan by pairs finds the spans. -/
theorem pairScan_spans (pos : Nat) (cs : List Char) :
    (pairScan .text pos (utf8 cs)).2 = spansFrom .text pos cs := by
  induction parts cs generalizing pos with
  | nil =>
    rw [spansFrom_nil]
    rfl
  | text hplain _ ih => rw [pairScan_text hplain, ih, spansFrom_text hplain]
  | comment hcomment _ ih =>
    rw [spansFrom_comment hcomment, ← ih]
    rcases pairScan_comment hcomment pos with hscan | ⟨rfl, hscan⟩
    · rw [hscan]
      rfl
    · rw [hscan]
      rfl
  | unclosed hbody => rw [pairScan_unclosed hbody, spansFrom_unclosed hbody]

/-! ### The removal of comments -/

section Removal

variable {byte : UInt8} {body bytes rest : List UInt8}

theorem afterClose?_cons (hclose : ¬ ['*'.toUInt8, '/'.toUInt8] <+: byte :: bytes) :
    afterClose? (byte :: bytes) = afterClose? bytes := by
  cases bytes with
  | nil => rfl
  | cons next bytes =>
    rw [pair_prefix_cons_cons_iff] at hclose
    rw [afterClose?, if_neg hclose]

theorem afterClose?_append (hbody : ¬ ['*'.toUInt8, '/'.toUInt8] <:+: body)
    (rest : List UInt8) :
    afterClose? (body ++ '*'.toUInt8 :: '/'.toUInt8 :: rest) = some rest := by
  induction body with
  | nil => rw [List.nil_append, afterClose?, if_pos ⟨rfl, rfl⟩]
  | cons byte body ih =>
    rw [List.infix_cons_iff, not_or] at hbody
    rw [List.cons_append, afterClose?_cons (hbody.1 ∘ pair_prefix_of_append (by decide)),
      ih hbody.2]

theorem afterClose?_eq_none (hbody : ¬ ['*'.toUInt8, '/'.toUInt8] <:+: body) :
    afterClose? body = none := by
  induction body with
  | nil => rfl
  | cons byte body ih =>
    rw [List.infix_cons_iff, not_or] at hbody
    rw [afterClose?_cons hbody.1, ih hbody.2]

@[simp] theorem removeComments_nil : removeComments [] = [] := by
  simp [removeComments]

/-- A byte at which no comment opens is kept. -/
theorem removeComments_cons (hblock : ¬ ['/'.toUInt8, '*'.toUInt8] <+: byte :: bytes)
    (hline : ¬ ['/'.toUInt8, '/'.toUInt8] <+: byte :: bytes) :
    removeComments (byte :: bytes) = byte :: removeComments bytes := by
  cases bytes with
  | nil => simp [removeComments]
  | cons next bytes =>
    rw [pair_prefix_cons_cons_iff] at hblock hline
    rw [removeComments, if_neg hblock, if_neg hline]

theorem removeComments_append {plain : List UInt8} (hplain : '/'.toUInt8 ∉ plain)
    (bytes : List UInt8) : removeComments (plain ++ bytes) = plain ++ removeComments bytes := by
  induction plain with
  | nil => rfl
  | cons byte plain ih =>
    rw [List.mem_cons, not_or] at hplain
    have hbyte : byte ≠ '/'.toUInt8 := Ne.symm hplain.1
    rw [List.cons_append,
      removeComments_cons (not_pair_prefix_of_ne hbyte) (not_pair_prefix_of_ne hbyte),
      ih hplain.2, List.cons_append]

theorem removeComments_block (hbody : ¬ ['*'.toUInt8, '/'.toUInt8] <:+: body)
    (rest : List UInt8) :
    removeComments ('/'.toUInt8 :: '*'.toUInt8 :: (body ++ '*'.toUInt8 :: '/'.toUInt8 :: rest)) =
      removeComments rest := by
  rw [removeComments, if_pos ⟨rfl, rfl⟩, afterClose?_append hbody]

theorem removeComments_unclosed (hbody : ¬ ['*'.toUInt8, '/'.toUInt8] <:+: body) :
    removeComments ('/'.toUInt8 :: '*'.toUInt8 :: body) = '/'.toUInt8 :: '*'.toUInt8 :: body := by
  rw [removeComments, if_pos ⟨rfl, rfl⟩, afterClose?_eq_none hbody]

theorem removeComments_line (hbody : ∀ byte ∈ body, endsLineByte byte = false)
    (hend : ∀ byte ∈ rest.head?, endsLineByte byte = true) :
    removeComments ('/'.toUInt8 :: '/'.toUInt8 :: (body ++ rest)) = removeComments rest := by
  have hdrop : (body ++ rest).dropWhile (fun byte => !endsLineByte byte) = rest := by
    rw [List.dropWhile_append_of_pos (by simpa using hbody)]
    cases rest with
    | nil => rfl
    | cons byte rest => rw [List.dropWhile_cons_of_neg (by simpa using hend byte rfl)]
  rw [removeComments, if_neg (fun h => absurd h.2 (by decide)), if_pos ⟨rfl, rfl⟩, hdrop]

end Removal

/-- Stripping leaves the bytes outside the comments. -/
theorem utf8_stripChars (cs : List Char) : utf8 (stripChars cs) = removeComments (utf8 cs) := by
  induction parts cs with
  | nil =>
    rw [stripChars_nil, utf8_nil, removeComments_nil]
  | @text c cs hplain _ ih =>
    rw [stripChars_text hplain, utf8_cons, ih, utf8_cons]
    by_cases hc : c = '/'
    · subst hc
      obtain ⟨hblock, hline⟩ := not_pair_prefix_of_not_opens hplain
      rw [utf8EncodeChar_of_ascii (by decide)]
      exact (removeComments_cons hblock hline).symm
    · have hslash : '/'.toUInt8 ∉ String.utf8EncodeChar c := fun h =>
        hc ((toUInt8_mem_encode_iff (by decide)).mp h)
      rw [removeComments_append hslash]
  | @comment comment rest hcomment _ ih =>
    rw [stripChars_comment hcomment, ih, utf8_append]
    cases hcomment with
    | @line body _ hbody hend =>
      exact (removeComments_line (endsLineByte_eq_false hbody) (endsLineByte_head hend)).symm
    | @block body _ hbody =>
      rw [utf8_block, List.cons_append, List.cons_append, List.append_assoc]
      exact (removeComments_block (not_pair_infix_utf8 hbody) _).symm
  | @unclosed body hbody =>
    rw [stripChars_unclosed hbody]
    exact (removeComments_unclosed (not_pair_infix_utf8 hbody)).symm

/-! ### Stripping -/

/-- Stripping is the removal of comments, byte for byte. It works by spans, which a scan of the
bytes by pairs of neighbours finds too. They are not empty, increase and are apart, and each
begins and ends at a boundary of the text that is left when it is taken out, from the last span
to the first. -/
theorem strip_exact (source : String) :
    (strip source).toUTF8.data.toList = removeComments source.toUTF8.data.toList ∧
      (pairScan .text 0 source.toUTF8.data.toList).2 = spans source.toList ∧
      (spans source.toList).foldrM removeSpan? source.toList = some (strip source).toList ∧
      (∀ span ∈ spans source.toList, span.start < span.stop) ∧
      (spans source.toList).Pairwise fun span span' => span.stop ≤ span'.start := by
  have hstrip : (strip source).toList = stripChars source.toList := String.toList_ofList
  rw [toUTF8_eq, toUTF8_eq, hstrip]
  refine ⟨utf8_stripChars _, pairScan_spans 0 _, foldrM_removeSpan? _, ?_, pairwise_spansFrom 0 _⟩
  intro span hspan
  have := spansFrom_bounds hspan
  omega

end Glint.Comment

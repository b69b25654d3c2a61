import Glint.Comment
import Glint.Proofs.TokenSeam

/-!
# Every character has its place

The tokens of a text stand apart, each as long as it can be, and what they leave out is white
space and preprocessor lines. This determines the tokens: no other list has these properties.
A text loses nothing by being written as its tokens with single spaces between them, which are
read again as they were.

## Main definitions

* `Token.directives` — the preprocessor lines of a text
* `Token.Covered` — tokens stand apart in a text and leave out what separates them

## Main results

* `Token.covered_scanFrom` — the tokens of a text cover it
* `Token.Covered.unique` — no other tokens do
* `Token.map_scanFrom_intercalate` — tokens with spaces between them are read again
* `Token.scan_exact` — all three, for a whole text
-/

namespace Glint

open Text

/-- The byte position lies in the span. -/
def Comment.Span.Contains (s : Span) (p : Nat) : Prop :=
  s.start ≤ p ∧ p < s.stop

namespace Comment.Span

variable {s : Span} {p : Nat}

theorem not_contains_of_stop_le (h : s.stop ≤ p) : ¬ s.Contains p :=
  fun hp => Nat.not_lt_of_le h hp.2

theorem not_contains_of_lt_start (h : p < s.start) : ¬ s.Contains p :=
  fun hp => Nat.not_lt_of_le hp.1 h

end Comment.Span

namespace Token

/-- The bytes that the token takes up. -/
def span (t : Token) : Comment.Span :=
  ⟨t.offset, t.stop⟩

/-- The preprocessor lines of a text that starts at byte `pos`. Each begins at a hash sign that
lies in no earlier one, and goes on to the next line feed or to the end of the text. -/
def directives (pos : Nat) : List Char → List Comment.Span
  | [] => []
  | c :: cs =>
    if c = '#' then
      ⟨pos, pos + byteLength (c :: cs.takeWhile isLinePart)⟩ ::
        directives (pos + byteLength (c :: cs.takeWhile isLinePart)) (cs.dropWhile isLinePart)
    else directives (pos + c.utf8Size) cs
termination_by cs => cs.length
decreasing_by
  · exact Nat.lt_succ_of_le (List.dropWhile_suffix _).length_le
  · exact Nat.lt_succ_self _

/-- The character at the byte position `p` lies in none of the tokens exactly if it is white space
or belongs to one of the lines. -/
def SkipsAt (p : Nat) (c : Char) (ts : List Token) (lines : List Comment.Span) : Prop :=
  (∀ t ∈ ts, ¬ t.span.Contains p) ↔ isBlank c = true ∨ ∃ line ∈ lines, line.Contains p

/-- The tokens leave out the white space and the lines of the text that starts at byte `pos`, and
nothing else. -/
def Skips (pos : Nat) (cs : List Char) (ts : List Token) (lines : List Comment.Span) : Prop :=
  ∀ before c after, cs = before ++ c :: after → SkipsAt (pos + byteLength before) c ts lines

/-- The tokens stand in the text that starts at byte `pos`, in order and apart, none of them empty
and each as long as it can be, and they leave out the white space and the preprocessor lines. -/
structure Covered (pos : Nat) (cs : List Char) (ts : List Token) : Prop where
  longest : ∀ t ∈ ts, ∃ before after, cs = before ++ t.text.toList ++ after ∧
    t.offset = pos + byteLength before ∧ t.IsLongest after
  nonempty : ∀ t ∈ ts, t.offset < t.stop
  apart : ts.Pairwise fun t t' => t.stop ≤ t'.offset
  skipped : Skips pos cs ts (directives pos cs)

variable {pos : Nat} {cs rest after : List Char} {c : Char} {t : Token} {ts ts' : List Token}

/-! ### Preprocessor lines -/

theorem directives_append {text : List Char} (h : '#' ∉ text) (pos : Nat) (rest : List Char) :
    directives pos (text ++ rest) = directives (pos + byteLength text) rest := by
  induction text generalizing pos with
  | nil => rfl
  | cons c text ih =>
    rw [List.mem_cons, not_or] at h
    rw [List.cons_append, directives, if_neg (Ne.symm h.1), ih h.2, byteLength_cons,
      Nat.add_assoc]

theorem directives_line {line : List Char} (hline : line.all isLinePart = true)
    (hrest : Breaks isLinePart rest) (pos : Nat) :
    directives pos ('#' :: line ++ rest) = ⟨pos, pos + byteLength ('#' :: line)⟩ ::
      directives (pos + byteLength ('#' :: line)) rest := by
  rw [List.cons_append, directives, if_pos rfl, takeWhile_append_of_breaks hline hrest,
    dropWhile_append_of_breaks hline hrest]

theorem le_start_of_mem_directives {s : Comment.Span} (h : s ∈ directives pos cs) :
    pos ≤ s.start := by
  fun_induction directives pos cs with
  | case1 => cases h
  | case2 pos cs ih =>
    rcases List.mem_cons.mp h with rfl | h
    · exact Nat.le_refl _
    · exact Nat.le_trans (Nat.le_add_right _ _) (ih h)
  | case3 pos c cs _ ih => exact Nat.le_trans (Nat.le_add_right _ _) (ih h)

/-! ### What is skipped -/

section SkipsAt

variable {p : Nat} {lines lines' : List Comment.Span}

/-- Tokens and lines that stand before a character have no say in whether it is skipped. -/
theorem skipsAt_append_left (hts : ∀ t ∈ ts, t.stop ≤ p) (hlines : ∀ line ∈ lines, line.stop ≤ p) :
    SkipsAt p c (ts ++ ts') (lines ++ lines') ↔ SkipsAt p c ts' lines' := by
  have hnone : ∀ t ∈ ts, ¬ t.span.Contains p := fun t ht =>
    Comment.Span.not_contains_of_stop_le (hts t ht)
  have hline : (∃ line ∈ lines ++ lines', line.Contains p) ↔ ∃ line ∈ lines', line.Contains p := by
    simp only [List.mem_append, or_and_right, exists_or]
    apply or_iff_right
    intro ⟨line, hmem, hcontains⟩
    exact Comment.Span.not_contains_of_stop_le (hlines line hmem) hcontains
  rw [SkipsAt, SkipsAt, List.forall_mem_append, and_iff_right hnone, hline]

/-- Nor have those that stand behind it. -/
theorem skipsAt_append_right (hts : ∀ t ∈ ts', p < t.offset)
    (hlines : ∀ line ∈ lines', p < line.start) :
    SkipsAt p c (ts ++ ts') (lines ++ lines') ↔ SkipsAt p c ts lines := by
  have hnone : ∀ t ∈ ts', ¬ t.span.Contains p := fun t ht =>
    Comment.Span.not_contains_of_lt_start (hts t ht)
  have hline : (∃ line ∈ lines ++ lines', line.Contains p) ↔ ∃ line ∈ lines, line.Contains p := by
    simp only [List.mem_append, or_and_right, exists_or]
    apply or_iff_left
    intro ⟨line, hmem, hcontains⟩
    exact Comment.Span.not_contains_of_lt_start (hlines line hmem) hcontains
  rw [SkipsAt, SkipsAt, List.forall_mem_append, and_iff_left hnone, hline]

end SkipsAt

namespace Skips

variable {part : List Char} {lines lines' : List Comment.Span}

theorem blank (hc : isBlank c = true) (pos : Nat) : Skips pos [c] [] [] := by
  intro before d after hsplit
  have hd : d ∈ [c] := by
    rw [hsplit]
    exact List.mem_append_right _ List.mem_cons_self
  rw [List.mem_singleton.mp hd]
  exact iff_of_true (List.forall_mem_nil _) (.inl hc)

theorem line (pos : Nat) (part : List Char) :
    Skips pos part [] [⟨pos, pos + byteLength part⟩] := by
  intro before c after hsplit
  have hpos := c.utf8Size_pos
  refine iff_of_true (List.forall_mem_nil _) (.inr ⟨_, List.mem_singleton_self _, ?_⟩)
  rw [hsplit, byteLength_append, byteLength_cons]
  constructor
  · exact Nat.le_add_right _ _
  · dsimp only
    omega

theorem token (hoffset : t.offset = pos) (htext : ∀ c ∈ t.text.toList, isBlank c = false) :
    Skips pos t.text.toList [t] [] := by
  intro before c after hsplit
  have hpos := c.utf8Size_pos
  have hblank : isBlank c = false := by
    apply htext
    rw [hsplit]
    exact List.mem_append_right _ List.mem_cons_self
  have hcontains : t.span.Contains (pos + byteLength before) := by
    constructor
    · rw [span, hoffset]
      exact Nat.le_add_right _ _
    · rw [span, stop, hoffset, hsplit, byteLength_append, byteLength_cons]
      dsimp only
      omega
  apply iff_of_false
  · intro hnone
    exact hnone t (List.mem_singleton_self t) hcontains
  · simp [hblank]

/-- What is skipped of two texts that stand one behind the other. -/
theorem append (h : Skips pos part ts lines) (h' : Skips (pos + byteLength part) rest ts' lines')
    (hts : ∀ t ∈ ts, t.stop ≤ pos + byteLength part)
    (hlines : ∀ line ∈ lines, line.stop ≤ pos + byteLength part)
    (hts' : ∀ t ∈ ts', pos + byteLength part ≤ t.offset)
    (hlines' : ∀ line ∈ lines', pos + byteLength part ≤ line.start) :
    Skips pos (part ++ rest) (ts ++ ts') (lines ++ lines') := by
  have hbehind : ∀ before c after, rest = before ++ c :: after →
      SkipsAt (pos + byteLength (part ++ before)) c (ts ++ ts') (lines ++ lines') := by
    intro before c after hsplit
    rw [byteLength_append, ← Nat.add_assoc, skipsAt_append_left]
    · exact h' before c after hsplit
    · intro t ht
      exact Nat.le_add_right_of_le (hts t ht)
    · intro line hline
      exact Nat.le_add_right_of_le (hlines line hline)
  intro before c after hsplit
  rcases List.append_eq_append_iff.mp hsplit with ⟨more, rfl, hrest⟩ | ⟨more, rfl, hmore⟩
  · exact hbehind more c after hrest
  · -- The character is the first of the second text, or one of the first text.
    cases more with
    | nil =>
      have := hbehind [] c after hmore.symm
      rwa [List.append_nil, List.append_nil] at this
    | cons d more =>
      obtain ⟨rfl, rfl⟩ := List.cons.inj hmore
      have hplace : pos + byteLength before < pos + byteLength (before ++ c :: more) := by
        have hpos := c.utf8Size_pos
        rw [byteLength_append, byteLength_cons]
        omega
      rw [skipsAt_append_right]
      · exact h before c more rfl
      · intro t ht
        exact Nat.lt_of_lt_of_le hplace (hts' t ht)
      · intro line hline
        exact Nat.lt_of_lt_of_le hplace (hlines' line hline)

end Skips

/-! ### Tokens that cover a text -/

namespace Covered

theorem le_offset (h : Covered pos cs ts) (ht : t ∈ ts) : pos ≤ t.offset := by
  obtain ⟨before, _, -, hoffset, -⟩ := h.longest t ht
  rw [hoffset]
  exact Nat.le_add_right _ _

theorem nil (pos : Nat) : Covered pos [] [] where
  longest := List.forall_mem_nil _
  nonempty := List.forall_mem_nil _
  apart := .nil
  skipped := fun before c after hsplit => by simp at hsplit

/-- The tokens of what follows a gap cover it together with the gap, if that has none. -/
theorem gap {gap : List Char} {lines : List Comment.Span}
    (h : Covered (pos + byteLength gap) rest ts) (hgap : Skips pos gap [] lines)
    (hstop : ∀ line ∈ lines, line.stop ≤ pos + byteLength gap)
    (hlines : directives pos (gap ++ rest) = lines ++ directives (pos + byteLength gap) rest) :
    Covered pos (gap ++ rest) ts where
  longest := by
    intro t ht
    obtain ⟨before, after, rfl, hoffset, hlongest⟩ := h.longest t ht
    refine ⟨gap ++ before, after, ?_, ?_, hlongest⟩
    · simp only [List.append_assoc]
    · rw [hoffset, byteLength_append, Nat.add_assoc]
  nonempty := h.nonempty
  apart := h.apart
  skipped := by
    rw [hlines]
    exact hgap.append h.skipped (List.forall_mem_nil _) hstop (fun t => h.le_offset)
      fun line => le_start_of_mem_directives

/-- A token that is as long as it can be covers its text, and those behind it what follows. -/
theorem token (hlongest : t.IsLongest rest) (h : Covered t.stop rest ts) :
    Covered t.offset (t.text.toList ++ rest) (t :: ts) where
  longest := by
    rw [List.forall_mem_cons]
    constructor
    · exact ⟨[], rest, rfl, rfl, hlongest⟩
    · intro t' ht'
      obtain ⟨before, after, rfl, hoffset, hlongest'⟩ := h.longest t' ht'
      refine ⟨t.text.toList ++ before, after, ?_, ?_, hlongest'⟩
      · simp only [List.append_assoc]
      · rw [hoffset, stop, byteLength_append, Nat.add_assoc]
  nonempty := List.forall_mem_cons.mpr ⟨hlongest.offset_lt_stop, h.nonempty⟩
  apart := List.pairwise_cons.mpr ⟨fun _ => h.le_offset, h.apart⟩
  skipped := by
    have hhash : '#' ∉ t.text.toList := fun hmem => (hlongest.separates_none _ hmem).2 rfl
    have htoken : Skips t.offset t.text.toList [t] [] :=
      .token rfl fun c hc => (hlongest.separates_none c hc).1
    rw [directives_append hhash]
    refine htoken.append h.skipped ?_ (List.forall_mem_nil _) (fun t' => h.le_offset)
      fun line => le_start_of_mem_directives
    exact List.forall_mem_singleton.mpr (Nat.le_refl _)

end Covered

/-- The tokens of a text cover it. -/
theorem covered_scanFrom (pos : Nat) (cs : List Char) : Covered pos cs (scanFrom pos cs) := by
  have split_at (p : Char → Bool) (c : Char) (cs : List Char) :
      c :: cs.takeWhile p ++ cs.dropWhile p = c :: cs := by
    rw [List.cons_append, List.takeWhile_append_dropWhile]
  fun_induction scanFrom pos cs with
  | case1 pos => exact .nil pos
  | case2 pos c cs hhash ih =>
    obtain rfl := beq_iff_eq.mp hhash
    have hline : (cs.takeWhile isLinePart).all isLinePart = true := List.all_takeWhile
    have hlines := directives_line hline (breaks_dropWhile isLinePart cs) pos
    rw [← split_at isLinePart '#' cs]
    apply ih.gap (.line pos _) _ hlines
    exact List.forall_mem_singleton.mpr (Nat.le_refl _)
  | case3 pos c cs hhash hblank ih =>
    have hsign : '#' ∉ [c] := by simpa using Ne.symm (by simpa using hhash)
    have hskips : Skips pos [c] [] [] := .blank hblank pos
    exact ih.gap hskips (List.forall_mem_nil _) (directives_append hsign pos cs)
  | case4 pos c cs hhash hblank hstart ih =>
    have hcovered := Covered.token (isLongest_ident hstart cs pos)
      (by rwa [stop, String.toList_ofList])
    rwa [String.toList_ofList, split_at] at hcovered
  | case5 pos c cs hhash hblank hstart hdigit ih =>
    have hcovered := Covered.token (isLongest_number hdigit cs pos)
      (by rwa [stop, String.toList_ofList])
    rwa [String.toList_ofList, split_at] at hcovered
  | case6 pos c cs hhash hblank hstart hdigit ih =>
    rw [beq_iff_eq] at hhash
    rw [Bool.not_eq_true] at hblank hstart hdigit
    have hcovered := Covered.token (isLongest_punct hhash hblank hstart hdigit pos cs)
      (by rwa [stop, String.toList_ofList])
    rwa [String.toList_ofList] at hcovered

/-! ### No other tokens -/

/-- The parts of a text before and behind a byte position. -/
theorem append_inj_of_byteLength {before before' rest' : List Char}
    (h : before ++ rest = before' ++ rest') (hlength : byteLength before = byteLength before') :
    before = before' ∧ rest = rest' := by
  apply List.append_inj h
  apply congrArg List.length
  calc
    before = takeBytes (byteLength before) (before ++ rest) := (takeBytes_append before rest).symm
    _ = takeBytes (byteLength before') (before' ++ rest') := by rw [h, hlength]
    _ = before' := takeBytes_append before' rest'

/-- Where a token starts, no other one does. -/
theorem IsLongest.eq {t' : Token} {after' : List Char} (h : t.IsLongest after)
    (h' : t'.IsLongest after') (htext : t.text.toList ++ after = t'.text.toList ++ after')
    (hoffset : t.offset = t'.offset) : t = t' := by
  have hread : scanFrom t.offset (t.text.toList ++ after) = t :: _ :=
    h.isLexeme t.offset after h.breaks
  have hread' : scanFrom t'.offset (t'.text.toList ++ after') = t' :: _ :=
    h'.isLexeme t'.offset after' h'.breaks
  rw [htext, hoffset, hread'] at hread
  exact (List.cons.inj hread).1.symm

namespace Covered

variable {t' : Token}

/-- A token covers the place where it starts. -/
theorem contains_offset (h : Covered pos cs ts) (ht : t ∈ ts) : t.span.Contains t.offset :=
  ⟨Nat.le_refl _, h.nonempty t ht⟩

/-- Where some tokens of a text have one that starts, all others have one too. -/
theorem exists_contains (h : Covered pos cs ts) (h' : Covered pos cs ts') (ht : t ∈ ts) :
    ∃ t' ∈ ts', t'.span.Contains t.offset := by
  obtain ⟨before, after, hcs, hoffset, hlongest⟩ := h.longest t ht
  cases htext : t.text.toList with
  | nil => exact absurd htext hlongest.toList_ne_nil
  | cons c more =>
    have hsplit : cs = before ++ c :: (more ++ after) := by
      rw [hcs, htext, List.append_assoc, List.cons_append]
    have hskipped := h.skipped before c (more ++ after) hsplit
    have hskipped' := h'.skipped before c (more ++ after) hsplit
    rw [← hoffset] at hskipped hskipped'
    have hsome : ¬ ∀ t' ∈ ts', ¬ t'.span.Contains t.offset := fun hnone =>
      hskipped.mpr (hskipped'.mp hnone) t ht (h.contains_offset ht)
    simpa using hsome

/-- Tokens that start at one place are the same. -/
theorem eq_of_offset_eq (h : Covered pos cs ts) (h' : Covered pos cs ts') (ht : t ∈ ts)
    (ht' : t' ∈ ts') (hoffset : t.offset = t'.offset) : t = t' := by
  obtain ⟨before, after, hcs, hplace, hlongest⟩ := h.longest t ht
  obtain ⟨before', after', hcs', hplace', hlongest'⟩ := h'.longest t' ht'
  rw [List.append_assoc] at hcs hcs'
  have hlength : byteLength before = byteLength before' := by omega
  have hrest := append_inj_of_byteLength (hcs.symm.trans hcs') hlength
  exact hlongest.eq hlongest' hrest.2 hoffset

/-- No token reaches over the start of another one. -/
theorem offset_le_of_contains (h : Covered pos cs ts) (ht : t ∈ ts) (ht' : t' ∈ ts)
    (hcontains : t'.span.Contains t.offset) : t.offset ≤ t'.offset := by
  have hnonempty := h.nonempty t ht
  have hreach : t.offset < t'.stop := hcontains.2
  have hapart := List.pairwise_iff_getElem.mp h.apart
  obtain ⟨i, hi, rfl⟩ := List.getElem_of_mem ht
  obtain ⟨j, hj, rfl⟩ := List.getElem_of_mem ht'
  rcases Nat.lt_trichotomy i j with hij | hij | hji
  · have := hapart i j hi hj hij
    omega
  · subst hij
    exact Nat.le_refl _
  · have := hapart j i hj hi hji
    omega

/-- Each of some tokens that cover a text is one of any others that do. -/
theorem mem (h : Covered pos cs ts) (h' : Covered pos cs ts') (ht : t ∈ ts) : t ∈ ts' := by
  -- The tokens are compared from the start on, those of either list with those of the other one.
  induction hoffset : t.offset using Nat.strongRecOn generalizing t ts ts' with
  | _ n ih =>
    subst hoffset
    obtain ⟨t', ht', hcontains⟩ := h.exists_contains h' ht
    rcases Nat.lt_or_eq_of_le hcontains.1 with hlt | heq
    · have hmem : t' ∈ ts := ih t'.offset hlt h' h ht' rfl
      exact absurd (h.offset_le_of_contains ht hmem hcontains) (Nat.not_le_of_lt hlt)
    · rwa [h.eq_of_offset_eq h' ht ht' heq.symm]

theorem pairwise_offset_lt (h : Covered pos cs ts) :
    ts.Pairwise fun t t' => t.offset < t'.offset := by
  apply h.apart.imp_of_mem
  intro t t' ht _ hstop
  exact Nat.lt_of_lt_of_le (h.nonempty t ht) hstop

theorem nodup (h : Covered pos cs ts) : ts.Nodup := by
  apply h.pairwise_offset_lt.imp
  intro t t' hlt heq
  rw [heq] at hlt
  exact Nat.lt_irrefl _ hlt

/-- A text is covered by one list of tokens only. -/
theorem unique (h : Covered pos cs ts) (h' : Covered pos cs ts') : ts = ts' := by
  have hperm : ts.Perm ts' := (List.perm_ext_iff_of_nodup h.nodup h'.nodup).mpr fun t =>
    ⟨h.mem h', h'.mem h⟩
  apply hperm.eq_of_pairwise _ h.pairwise_offset_lt h'.pairwise_offset_lt
  intro t t' _ _ hlt hlt'
  exact absurd hlt' (Nat.lt_asymm hlt)

end Covered

/-! ### Tokens with spaces between them -/

/-- Tokens that are written with single spaces between them are read again. -/
theorem map_scanFrom_intercalate (hts : ∀ t ∈ ts, t.IsLexeme) (pos : Nat) :
    (scanFrom pos ([' '].intercalate (ts.map fun t => t.text.toList))).map
      (fun t => (t.kind, t.text)) = ts.map fun t => (t.kind, t.text) := by
  induction ts generalizing pos with
  | nil =>
    rw [List.map_nil, List.intercalate_nil, scanFrom]
  | cons t ts ih =>
    obtain ⟨ht, hts⟩ := List.forall_mem_cons.mp hts
    cases ts with
    | nil =>
      have hread := ht pos [] (breaks_nil _)
      rw [List.append_nil] at hread
      rw [List.map_singleton, List.intercalate_singleton, hread, scanFrom]
      rfl
    | cons u ts =>
      have hspace : Breaks isNumberPart (' ' :: [' '].intercalate
          ((u :: ts).map fun t => t.text.toList)) := by
        rintro c ⟨⟩
        decide
      have hread := ht pos _ (breaks_continues hspace t)
      rw [scanFrom_blank (by decide)] at hread
      rw [List.map_cons, List.intercalate_cons_of_ne_nil (by simp), List.append_assoc,
        List.singleton_append, hread, List.map_cons, ih hts]
      rfl

/-- The tokens of a text are the only ones that cover it. Each is the text between the bytes where
it starts and where it ends, and written with single spaces between them they are read again. -/
theorem scan_exact (source : String) :
    (∀ ts, Covered 0 source.toList ts ↔ ts = scan source) ∧
      (∀ t ∈ scan source, slice t.offset t.stop source.toList = t.text.toList) ∧
      (scan (" ".intercalate ((scan source).map text))).map (fun t => (t.kind, t.text)) =
        (scan source).map fun t => (t.kind, t.text) := by
  have hcovered : Covered 0 source.toList (scan source) := covered_scanFrom 0 source.toList
  refine ⟨?_, ?_, ?_⟩
  · intro ts
    constructor
    · intro h
      exact h.unique hcovered
    · intro h
      rwa [h]
  · intro t ht
    obtain ⟨before, after, hsource, hoffset, -⟩ := hcovered.longest t ht
    rw [stop, hoffset, Nat.zero_add, hsource, slice_append]
  · have hlexemes : ∀ t ∈ scan source, t.IsLexeme := by
      intro t ht
      obtain ⟨before, after, -, -, hlongest⟩ := hcovered.longest t ht
      exact hlongest.isLexeme
    have hread := map_scanFrom_intercalate hlexemes 0
    rw [scan, String.toList_intercalate, List.map_map]
    exact hread

end Token

end Glint

import Glint.Proofs.Lexeme
import Glint.Proofs.TokenPlaces

/-!
# Texts joined between tokens

What is read as a token does not depend on what stands before it, and of what follows it only
the next character counts. The tokens of a text are therefore found again wherever the text
stands, at positions that are moved along, and a text put behind another one adds its tokens to
those of the first, if it does not go on with the last of them.

## Main definitions

* `Token.moved` — a token at a position that is moved along
* `Token.continues` — a character that a token would take up
* `Token.IsLexeme`, `Token.IsGap` — a text is read as one token, or passed over, wherever it
  stands
* `Token.IsLongest` — a token goes on as far as characters of its kind do

## Main results

* `Token.exists_of_scanFrom_eq_cons` — the first token of a text, and what stands around it
* `Token.exists_scanFrom_append` — more text leaves the tokens before it
* `Token.exists_rescan` — the text from one token to another is read as the same tokens anywhere
-/

namespace Glint.Token

open Text

/-- The token at the position that it has when the text from `start` on stands at `start'`. -/
def moved (start start' : Nat) (t : Token) : Token :=
  { t with offset := t.offset + start' - start }

theorem moved_self (start' : Nat) (t : Token) :
    t.moved t.offset start' = { t with offset := start' } := by
  rw [moved, Nat.add_sub_cancel_left]

/-- A character that the token would take up if it stood right after it. -/
def continues (t : Token) : Char → Bool :=
  match t.kind with
  | .ident => isIdentPart
  | .number => isNumberPart
  | .punct _ => fun _ => false

/-- The text of the token is read as one token, wherever it stands. -/
def IsLexeme (t : Token) : Prop :=
  ∀ pos rest, Breaks t.continues rest → scanFrom pos (t.text.toList ++ rest) =
    { t with offset := pos } :: scanFrom (pos + byteLength t.text.toList) rest

/-- The text is passed over, wherever it stands. -/
def IsGap (gap : List Char) : Prop :=
  ∀ pos rest, scanFrom pos (gap ++ rest) = scanFrom (pos + byteLength gap) rest

/-- The token, with the text `after` behind it, is as long as it can be. An identifier starts with
a letter or an underscore and a number with a digit, and neither goes on behind its end. Any other
character that separates no tokens is a token by itself. -/
def IsLongest (t : Token) (after : List Char) : Prop :=
  match t.kind with
  | .ident => isIdentText t.text.toList = true ∧ Breaks isIdentPart after
  | .number => isNumberText t.text.toList = true ∧ Breaks isNumberPart after
  | .punct c => t.text.toList = [c] ∧ isBlank c = false ∧ c ≠ '#' ∧ isIdentStart c = false ∧
      c.isDigit = false

variable {pos : Nat} {cs rest gap after : List Char} {c : Char} {t : Token} {ts : List Token}

/-! ### Gaps -/

theorem isGap_nil : IsGap [] := fun _ _ => rfl

theorem IsGap.append {gap' : List Char} (h : IsGap gap) (h' : IsGap gap') : IsGap (gap ++ gap') := by
  intro pos rest
  rw [List.append_assoc, h, h', byteLength_append, Nat.add_assoc]

theorem isGap_blank (hc : isBlank c = true) : IsGap [c] :=
  fun pos rest => scanFrom_blank hc pos rest

/-- A preprocessor line is passed over up to its end. -/
theorem scanFrom_hash {line : List Char} (hline : line.all isLinePart = true)
    (hrest : Breaks isLinePart rest) (pos : Nat) :
    scanFrom pos ('#' :: line ++ rest) = scanFrom (pos + byteLength ('#' :: line)) rest := by
  rw [List.cons_append, scanFrom, if_pos (by decide), takeWhile_append_of_breaks hline hrest,
    dropWhile_append_of_breaks hline hrest]

/-- A preprocessor line without an end takes up the rest of the text. -/
theorem scanFrom_hash_end {line : List Char} (hline : line.all isLinePart = true) (pos : Nat) :
    scanFrom pos ('#' :: line) = [] := by
  have hscan := scanFrom_hash hline (breaks_nil _) pos
  rwa [List.append_nil, scanFrom] at hscan

theorem isGap_directive {line : List Char} (hline : line.all isLinePart = true) :
    IsGap ('#' :: line ++ ['\n']) := by
  intro pos rest
  have hend : Breaks isLinePart ('\n' :: rest) := by
    rintro c ⟨⟩
    rfl
  rw [List.append_assoc, List.singleton_append, scanFrom_hash hline hend,
    scanFrom_blank (by decide), byteLength_append, Nat.add_assoc]
  rfl

/-! ### Texts of one token -/

theorem breaks_dropWhile (p : Char → Bool) (cs : List Char) : Breaks p (cs.dropWhile p) := by
  intro c hc
  have hhead := List.head?_dropWhile_not p cs
  rw [Option.mem_def.mp hc] at hhead
  exact hhead

/-- What ends a number ends any token. -/
theorem breaks_continues (h : Breaks isNumberPart cs) (t : Token) : Breaks t.continues cs := by
  intro c hc
  have hnumber := h c hc
  cases hkind : t.kind with
  | ident =>
    rw [isNumberPart, Bool.or_eq_false_iff] at hnumber
    simpa only [continues, hkind] using hnumber.1
  | number => simpa only [continues, hkind] using hnumber
  | punct d => simp only [continues, hkind]

theorem isLexeme_ident (hc : isIdentStart c = true) (hcs : cs.all isIdentPart = true) (pos : Nat) :
    IsLexeme ⟨.ident, String.ofList (c :: cs), pos⟩ := by
  intro pos' rest hrest
  have hword : isIdentText (String.ofList (c :: cs)).toList = true := by
    rw [String.toList_ofList, isIdentText, hc, hcs, Bool.true_and]
  have hscan := Lexeme.scanFrom_chars (l := .word ⟨String.ofList (c :: cs), hword⟩) hrest pos'
  rwa [Lexeme.token, Lexeme.chars, String.ofList_toList] at hscan

theorem isLexeme_number (hc : c.isDigit = true) (hcs : cs.all isNumberPart = true) (pos : Nat) :
    IsLexeme ⟨.number, String.ofList (c :: cs), pos⟩ := by
  intro pos' rest hrest
  have hnumber : isNumberText (String.ofList (c :: cs)).toList = true := by
    rw [String.toList_ofList, isNumberText, hc, hcs, Bool.true_and]
  have hscan := Lexeme.scanFrom_chars (l := .number ⟨String.ofList (c :: cs), hnumber⟩) hrest pos'
  rwa [Lexeme.token, Lexeme.chars, String.ofList_toList] at hscan

theorem isLexeme_punct (hhash : c ≠ '#') (hblank : isBlank c = false)
    (hstart : isIdentStart c = false) (hdigit : c.isDigit = false) (pos : Nat) :
    IsLexeme ⟨.punct c, String.ofList [c], pos⟩ := by
  intro pos' rest _
  rw [String.toList_ofList, List.singleton_append, scanFrom, beq_false_of_ne hhash, hblank,
    hstart, hdigit]
  rfl

/-! ### Longest tokens -/

theorem isNumberPart_of_mem_identText (h : isIdentText cs = true) (hc : c ∈ cs) :
    isNumberPart c = true := by
  cases cs with
  | nil => cases hc
  | cons d cs =>
    rw [isIdentText, Bool.and_eq_true, List.all_eq_true] at h
    rcases List.mem_cons.mp hc with rfl | hc
    · exact isNumberPart_of_isIdentStart h.1
    · exact isNumberPart_of_isIdentPart (h.2 c hc)

theorem isNumberPart_of_mem_numberText (h : isNumberText cs = true) (hc : c ∈ cs) :
    isNumberPart c = true := by
  cases cs with
  | nil => cases hc
  | cons d cs =>
    rw [isNumberText, Bool.and_eq_true, List.all_eq_true] at h
    rcases List.mem_cons.mp hc with rfl | hc
    · exact isNumberPart_of_isDigit h.1
    · exact h.2 c hc

theorem isLongest_ident (hc : isIdentStart c = true) (cs : List Char) (pos : Nat) :
    IsLongest ⟨.ident, String.ofList (c :: cs.takeWhile isIdentPart), pos⟩
      (cs.dropWhile isIdentPart) := by
  constructor
  · rw [String.toList_ofList, isIdentText, hc, List.all_takeWhile]
    rfl
  · exact breaks_dropWhile isIdentPart cs

theorem isLongest_number (hc : c.isDigit = true) (cs : List Char) (pos : Nat) :
    IsLongest ⟨.number, String.ofList (c :: cs.takeWhile isNumberPart), pos⟩
      (cs.dropWhile isNumberPart) := by
  constructor
  · rw [String.toList_ofList, isNumberText, hc, List.all_takeWhile]
    rfl
  · exact breaks_dropWhile isNumberPart cs

theorem isLongest_punct (hhash : c ≠ '#') (hblank : isBlank c = false)
    (hstart : isIdentStart c = false) (hdigit : c.isDigit = false) (pos : Nat)
    (rest : List Char) : IsLongest ⟨.punct c, String.ofList [c], pos⟩ rest :=
  ⟨String.toList_ofList, hblank, hhash, hstart, hdigit⟩

namespace IsLongest

theorem toList_ne_nil (h : t.IsLongest after) : t.text.toList ≠ [] := by
  intro hnil
  rw [IsLongest, hnil] at h
  cases hkind : t.kind <;> simp [hkind, isIdentText, isNumberText] at h

theorem offset_lt_stop (h : t.IsLongest after) : t.offset < t.stop := by
  cases htext : t.text.toList with
  | nil => exact absurd htext h.toList_ne_nil
  | cons c cs =>
    have hpos := c.utf8Size_pos
    rw [stop, htext, byteLength_cons]
    omega

/-- A token that is as long as it can be is read as one, wherever its text stands. -/
theorem isLexeme (h : t.IsLongest after) : t.IsLexeme := by
  obtain ⟨kind, text, offset⟩ := t
  obtain ⟨cs, rfl⟩ : ∃ cs, text = String.ofList cs := ⟨text.toList, String.ofList_toList.symm⟩
  cases kind with
  | ident =>
    obtain ⟨hident, -⟩ := h
    rw [String.toList_ofList] at hident
    cases cs with
    | nil => cases hident
    | cons c cs =>
      rw [isIdentText, Bool.and_eq_true] at hident
      exact isLexeme_ident hident.1 hident.2 offset
  | number =>
    obtain ⟨hnumber, -⟩ := h
    rw [String.toList_ofList] at hnumber
    cases cs with
    | nil => cases hnumber
    | cons c cs =>
      rw [isNumberText, Bool.and_eq_true] at hnumber
      exact isLexeme_number hnumber.1 hnumber.2 offset
  | punct c =>
    obtain ⟨htext, hblank, hhash, hstart, hdigit⟩ := h
    rw [String.toList_ofList] at htext
    rw [htext]
    exact isLexeme_punct hhash hblank hstart hdigit offset

/-- What stands behind a token that is as long as it can be does not go on with it. -/
theorem breaks (h : t.IsLongest after) : Breaks t.continues after := by
  rw [IsLongest] at h
  cases hkind : t.kind with
  | ident =>
    rw [hkind] at h
    simpa only [continues, hkind] using h.2
  | number =>
    rw [hkind] at h
    simpa only [continues, hkind] using h.2
  | punct c =>
    intro d _
    simp only [continues, hkind]

/-- No character of a token separates tokens. -/
theorem separates_none (h : t.IsLongest after) :
    ∀ c ∈ t.text.toList, isBlank c = false ∧ c ≠ '#' := by
  rw [IsLongest] at h
  cases hkind : t.kind with
  | ident =>
    rw [hkind] at h
    intro c hc
    apply isBlank_eq_false_of_isNumberPart
    exact isNumberPart_of_mem_identText h.1 hc
  | number =>
    rw [hkind] at h
    intro c hc
    apply isBlank_eq_false_of_isNumberPart
    exact isNumberPart_of_mem_numberText h.1 hc
  | punct c =>
    rw [hkind] at h
    rw [h.1, List.forall_mem_singleton]
    exact ⟨h.2.1, h.2.2.1⟩

end IsLongest

/-! ### The first token -/

/-- A text starts with a gap, or with a token that is as long as it can be, or it is a preprocessor
line without an end. -/
theorem lex_cases (c : Char) (cs : List Char) :
    (∃ line, c :: cs = '#' :: line ∧ line.all isLinePart = true) ∨
      (∃ gap rest, c :: cs = gap ++ rest ∧ gap ≠ [] ∧ IsGap gap) ∨
      ∃ kind text rest, c :: cs = text ++ rest ∧ text ≠ [] ∧
        ∀ pos, IsLongest ⟨kind, String.ofList text, pos⟩ rest := by
  have split_at (p : Char → Bool) : c :: cs = (c :: cs.takeWhile p) ++ cs.dropWhile p := by
    rw [List.cons_append, List.takeWhile_append_dropWhile]
  by_cases hhash : c = '#'
  · subst hhash
    have hline : (cs.takeWhile isLinePart).all isLinePart = true := List.all_takeWhile
    cases hdrop : cs.dropWhile isLinePart with
    | nil =>
      refine .inl ⟨_, ?_, hline⟩
      rw [split_at isLinePart, hdrop, List.append_nil]
    | cons d ds =>
      have hd : isLinePart d = false := breaks_dropWhile isLinePart cs d (by rw [hdrop]; rfl)
      obtain rfl : d = '\n' := by simpa [isLinePart] using hd
      have hcs : '#' :: cs = '#' :: cs.takeWhile isLinePart ++ ['\n'] ++ ds := by
        rw [split_at isLinePart, hdrop]
        simp
      exact .inr (.inl ⟨_, ds, hcs, List.cons_ne_nil _ _, isGap_directive hline⟩)
  · cases hblank : isBlank c with
    | true => exact .inr (.inl ⟨[c], cs, rfl, List.cons_ne_nil _ _, isGap_blank hblank⟩)
    | false =>
      refine .inr (.inr ?_)
      cases hstart : isIdentStart c with
      | true =>
        exact ⟨.ident, _, _, split_at isIdentPart, List.cons_ne_nil _ _,
          isLongest_ident hstart cs⟩
      | false =>
        cases hdigit : c.isDigit with
        | true =>
          exact ⟨.number, _, _, split_at isNumberPart, List.cons_ne_nil _ _,
            isLongest_number hdigit cs⟩
        | false =>
          exact ⟨.punct c, [c], cs, rfl, List.cons_ne_nil _ _, fun pos =>
            isLongest_punct hhash hblank hstart hdigit pos cs⟩

/-- The first token of a text: a gap stands before it, and the other tokens are those of what
follows it. -/
theorem exists_of_scanFrom_eq_cons (h : scanFrom pos cs = t :: ts) :
    ∃ gap rest, cs = gap ++ t.text.toList ++ rest ∧ IsGap gap ∧ t.offset = pos + byteLength gap ∧
      t.IsLexeme ∧ t.text.toList ≠ [] ∧ Breaks t.continues rest ∧ ts = scanFrom t.stop rest := by
  induction hlength : cs.length using Nat.strongRecOn generalizing pos cs with
  | _ n ih =>
    subst hlength
    cases cs with
    | nil =>
      rw [scanFrom] at h
      cases h
    | cons c cs =>
      rcases lex_cases c cs with ⟨line, hcs, hline⟩ | ⟨gap, rest, hcs, hne, hgap⟩ |
        ⟨kind, text, rest, hcs, hne, htext⟩
      · rw [hcs, scanFrom_hash_end hline] at h
        cases h
      · have hshorter : rest.length < (c :: cs).length := by
          have := List.length_pos_iff.mpr hne
          rw [hcs, List.length_append]
          omega
        rw [hcs, hgap] at h
        obtain ⟨gap', rest', rfl, hgap', hoffset, hrest⟩ := ih _ hshorter h rfl
        refine ⟨gap ++ gap', rest', ?_, hgap.append hgap', ?_, hrest⟩
        · rw [hcs]
          simp only [List.append_assoc]
        · rw [hoffset, byteLength_append, Nat.add_assoc]
      · have hlexeme := (htext pos).isLexeme
        have hbreaks := (htext pos).breaks
        have hscan := hlexeme pos rest hbreaks
        rw [String.toList_ofList, ← hcs, h] at hscan
        obtain ⟨rfl, rfl⟩ := List.cons.inj hscan
        refine ⟨[], rest, ?_, isGap_nil, rfl, hlexeme, ?_, hbreaks, ?_⟩
        · rw [String.toList_ofList, List.nil_append]
          exact hcs
        · rwa [String.toList_ofList]
        · rw [stop, String.toList_ofList]

/-! ### More text -/

/-- What stands behind some tokens of a text is read as the tokens behind them. -/
theorem exists_of_scanFrom_eq_append {before after : List Token}
    (h : scanFrom pos cs = before ++ after) :
    ∃ done rest, cs = done ++ rest ∧ after = scanFrom (pos + byteLength done) rest := by
  induction before generalizing pos cs with
  | nil => exact ⟨[], cs, rfl, h.symm⟩
  | cons t before ih =>
    obtain ⟨gap, rest, rfl, -, hoffset, -, -, -, hrest⟩ := exists_of_scanFrom_eq_cons h
    obtain ⟨done, rest', rfl, hafter⟩ := ih hrest.symm
    refine ⟨gap ++ t.text.toList ++ done, rest', (List.append_assoc _ _ _).symm, ?_⟩
    rw [hafter, stop, hoffset, byteLength_append, byteLength_append, Nat.add_assoc, Nat.add_assoc,
      Nat.add_assoc]

theorem le_offset_of_placed (h : Placed pos cs ts) : ∀ t ∈ ts, pos ≤ t.offset := by
  induction h with
  | nil => exact List.forall_mem_nil _
  | @cons pos gap cs t ts hoffset _ ih =>
    refine List.forall_mem_cons.mpr ⟨by omega, ?_⟩
    intro t' ht'
    have := ih t' ht'
    rw [stop] at this
    omega

theorem le_offset_of_mem_scanFrom (h : t ∈ scanFrom pos cs) : pos ≤ t.offset :=
  le_offset_of_placed (placed_scanFrom pos cs) t h

theorem breaks_append_iff {p : Char → Bool} (hne : cs ≠ []) : Breaks p (cs ++ rest) ↔ Breaks p cs := by
  cases cs with
  | nil => exact absurd rfl hne
  | cons c cs => rfl

theorem breaks_append {p : Char → Bool} (hcs : Breaks p cs) (hrest : Breaks p rest) :
    Breaks p (cs ++ rest) := by
  cases cs with
  | nil => exact hrest
  | cons c cs => exact hcs

/-- A text that does not go on with the last token adds its tokens to those before it. -/
theorem exists_scanFrom_append (hrest : Breaks isNumberPart rest) (pos : Nat) (cs : List Char) :
    ∃ more, scanFrom pos (cs ++ rest) = scanFrom pos cs ++ more ∧
      ∀ t ∈ more, pos + byteLength cs ≤ t.offset := by
  induction hlength : cs.length using Nat.strongRecOn generalizing pos cs with
  | _ n ih =>
    subst hlength
    cases cs with
    | nil =>
      refine ⟨scanFrom pos rest, by rw [scanFrom]; rfl, ?_⟩
      intro t ht
      exact le_offset_of_mem_scanFrom ht
    | cons c cs =>
      have hshorter {part after : List Char} (hcs : c :: cs = part ++ after) (hne : part ≠ []) :
          after.length < (c :: cs).length := by
        have := List.length_pos_iff.mpr hne
        rw [hcs, List.length_append]
        omega
      rcases lex_cases c cs with ⟨line, hcs, hline⟩ | ⟨gap, after, hcs, hne, hgap⟩ |
        ⟨kind, text, after, hcs, hne, htext⟩
      · -- The text behind a preprocessor line without an end goes on with that line.
        have hmore : (line ++ rest.takeWhile isLinePart).all isLinePart = true := by
          rw [List.all_append, hline, List.all_takeWhile]
          rfl
        have hscan := scanFrom_hash hmore (breaks_dropWhile isLinePart rest) pos
        rw [List.cons_append, List.append_assoc, List.takeWhile_append_dropWhile,
          ← List.cons_append] at hscan
        rw [hcs, scanFrom_hash_end hline, hscan]
        refine ⟨_, rfl, ?_⟩
        intro t ht
        have hle := le_offset_of_mem_scanFrom ht
        simp only [byteLength_cons, byteLength_append] at hle ⊢
        omega
      · obtain ⟨more, hscan, hmore⟩ :=
          ih _ (hshorter hcs hne) (pos + byteLength gap) after rfl
        rw [hcs, List.append_assoc, hgap, hgap, hscan, byteLength_append]
        exact ⟨more, rfl, fun t ht => by have := hmore t ht; omega⟩
      · obtain ⟨more, hscan, hmore⟩ :=
          ih _ (hshorter hcs hne) (pos + byteLength text) after rfl
        have hlexeme := (htext pos).isLexeme
        have hbreaks := (htext pos).breaks
        have halone := hlexeme pos after hbreaks
        have hjoined := hlexeme pos (after ++ rest)
          (breaks_append hbreaks (breaks_continues hrest _))
        rw [String.toList_ofList] at halone hjoined
        rw [hcs, List.append_assoc, halone, hjoined, hscan, byteLength_append]
        exact ⟨more, rfl, fun t ht => by have := hmore t ht; omega⟩

/-! ### The text from one token to another -/

/-- The text from the first to the last of some tokens is read as the same tokens wherever it
stands, and those behind them are the tokens of what follows. -/
theorem exists_rescan {first last : Token} {more after : List Token}
    (h : scanFrom pos cs = first :: more ++ after)
    (hlast : (first :: more).getLast? = some last) :
    ∃ gap text rest, cs = gap ++ text ++ rest ∧ IsGap gap ∧ text ≠ [] ∧
      first.offset = pos + byteLength gap ∧ first.offset ≤ last.offset ∧
      last.stop = first.offset + byteLength text ∧ after = scanFrom last.stop rest ∧
      ∀ pos' rest', Breaks isNumberPart rest' → scanFrom pos' (text ++ rest') =
        (first :: more).map (moved first.offset pos') ++
          scanFrom (pos' + byteLength text) rest' := by
  induction more generalizing pos cs first with
  | nil =>
    cases hlast
    obtain ⟨gap, rest, hcs, hgap, hoffset, hlexeme, hne, -, hafter⟩ := exists_of_scanFrom_eq_cons h
    refine ⟨gap, first.text.toList, rest, hcs, hgap, hne, hoffset, Nat.le_refl _, rfl, hafter, ?_⟩
    intro pos' rest' hrest'
    rw [hlexeme pos' rest' (breaks_continues hrest' first), List.map_singleton, moved_self]
    rfl
  | cons t more ih =>
    obtain ⟨gap, rest, rfl, hgap, hoffset, hlexeme, hne, hbreaks, htail⟩ :=
      exists_of_scanFrom_eq_cons h
    rw [List.getLast?_cons_cons] at hlast
    obtain ⟨gap', text, rest, rfl, hgap', hne', hoffset', hle, hstop, hafter, hscan⟩ :=
      ih htail.symm hlast
    have hstart : first.stop = first.offset + byteLength first.text.toList := rfl
    refine ⟨gap, first.text.toList ++ (gap' ++ text), rest, by simp only [List.append_assoc], hgap,
      by simp [hne], hoffset, by omega, ?_, hafter, ?_⟩
    · rw [byteLength_append, byteLength_append]
      omega
    · intro pos' rest' hrest'
      -- What follows the first token begins as it does in the whole text.
      have hne'' : gap' ++ text ≠ [] := List.append_ne_nil_of_right_ne_nil gap' hne'
      have hbreaks' : Breaks first.continues (gap' ++ text ++ rest') :=
        (breaks_append_iff hne'').mpr ((breaks_append_iff hne'').mp hbreaks)
      have hmoved : (t :: more).map (moved t.offset (pos' + byteLength first.text.toList +
          byteLength gap')) = (t :: more).map (moved first.offset pos') := by
        refine List.map_congr_left ?_
        intro u _
        rw [moved, moved, Token.mk.injEq]
        refine ⟨rfl, rfl, ?_⟩
        omega
      rw [List.append_assoc, hlexeme pos' _ hbreaks', List.append_assoc, hgap', hscan _ _ hrest',
        hmoved, List.map_cons (a := first), moved_self, byteLength_append, byteLength_append,
        Nat.add_assoc, Nat.add_assoc]
      rfl

end Glint.Token

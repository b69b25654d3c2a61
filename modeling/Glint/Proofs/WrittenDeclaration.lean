import Glint.Proofs.Division
import Glint.Proofs.Written

/-!
# Reading a written declaration

The tokens of a written declaration are one as it stands among tokens: they go on to its
semicolon, its qualifier is a list of entries, and what is left is the body.

## Main definitions

* `Written.ReadAs` — a declaration is what a written one is read as

## Main results

* `Written.extent_inner` — a written declaration ends at its semicolon
* `WrittenEntry.isList` — the entries of a written qualifier are a list of entries
* `Written.exists_readTokens` — a written declaration is read
-/

namespace Glint

open Declaration Lexeme Text

variable {place : Nat → Nat} {ts : List Token}

/-! ### Questions about the token of a lexeme -/

section TokenOf

variable (w : Ident) (n : Number) (s : Sign) (p : Nat) (c : Char)

@[simp] theorem isIdent_word : ((word w).token p).isIdent = true := rfl

@[simp] theorem isAnyPunct_number : ((number n).token p).isAnyPunct = false := rfl

@[simp] theorem isPunct_word : ((word w).token p).isPunct c = false := rfl

@[simp] theorem isPunct_sign : ((sign s).token p).isPunct c = decide (s.char = c) := by
  simp [Token.isPunct, token, kind, Bool.beq_eq_decide_eq]

@[simp] theorem text_word : ((word w).token p).text = w.text := String.ofList_toList

@[simp] theorem text_number : ((number n).token p).text = n.text := String.ofList_toList

@[simp] theorem spells_word (keyword : String) :
    ((word w).token p).spells keyword = (w.text == keyword) := by
  rw [Token.spells, isIdent_word, text_word, Bool.true_and]

end TokenOf

/-- A plain lexeme is neither a brace nor a semicolon. -/
theorem isPunct_of_isPlain {l : Lexeme} (h : l.isPlain = true) (p : Nat) :
    (l.token p).isPunct '\x7b' = false ∧ (l.token p).isPunct '\x7d' = false ∧
      (l.token p).isPunct ';' = false := by
  cases l with
  | sign s => cases s <;> first | exact absurd h (by decide) | simp [Sign.char]
  | _ => exact ⟨rfl, rfl, rfl⟩

/-! ### The end of a declaration -/

theorem isPunct_of_mem_tokens {ls : List Lexeme} (h : ∀ l ∈ ls, l.isPlain = true) {t : Token}
    (ht : t ∈ tokens place ls) :
    t.isPunct '\x7b' = false ∧ t.isPunct '\x7d' = false ∧ t.isPunct ';' = false := by
  obtain ⟨l, hl, p, rfl⟩ := exists_of_mem_tokens ht
  exact isPunct_of_isPlain (h l hl) p

theorem WrittenMember.isPlain_of_mem_lexemes {m : WrittenMember} {l : Lexeme}
    (h : l ∈ m.lexemes) : l.isPlain = true := by
  obtain ⟨glslType, name, array?⟩ := m
  rcases array? with - | (count | -) <;>
    simp only [lexemes, arrayLexemes, List.mem_cons, List.not_mem_nil, or_false] at h
  · rcases h with rfl | rfl <;> rfl
  · rcases h with rfl | rfl | rfl | rfl | rfl <;> rfl
  · rcases h with rfl | rfl | rfl | rfl <;> rfl

theorem WrittenEntry.isPlain_of_mem_lexemes {e : WrittenEntry} {l : Lexeme}
    (h : l ∈ e.lexemes) : l.isPlain = true := by
  obtain ⟨key, - | value⟩ := e <;>
    simp only [lexemes, List.mem_cons, List.not_mem_nil, or_false] at h
  · rw [h]
    rfl
  · rcases h with rfl | rfl | rfl <;> rfl

theorem WrittenEntry.isPlain_of_mem_listLexemes {es : List WrittenEntry} {l : Lexeme}
    (h : l ∈ listLexemes es) : l.isPlain = true := by
  induction es using listLexemes.induct with
  | case1 => cases h
  | case2 e => exact isPlain_of_mem_lexemes h
  | case3 e e' es ih =>
    rw [listLexemes, List.mem_append, List.mem_cons] at h
    rcases h with h | rfl | h
    · exact isPlain_of_mem_lexemes h
    · rfl
    · exact ih h

theorem Written.isPlain_of_mem_front {w : Written} {l : Lexeme} (h : l ∈ w.front) :
    l.isPlain = true := by
  cases w with
  | specConstant id glslType name value =>
    simp only [front, List.mem_cons] at h
    rcases h with rfl | rfl | rfl | rfl | h
    · rfl
    · rfl
    · rfl
    · rfl
    · exact isPlain_of_isNumeric (value.isNumeric l h)
  | _ =>
    simp only [front, List.mem_cons, List.not_mem_nil, or_false] at h
    rcases h with rfl | rfl | rfl <;> rfl

/-- The block of a declaration starts at its first brace. -/
theorem Written.isPunct_leftBrace_of_mem_front {w : Written} {t : Token}
    (ht : t ∈ tokens place w.front) : t.isPunct '\x7b' = false :=
  (isPunct_of_mem_tokens (fun _ => isPlain_of_mem_front) ht).1

/-- The semicolons between the braces of a block end no declaration. -/
theorem Written.extent_braces (w : Written) : Extent 0 (tokens place w.braces) := by
  rw [braces]
  cases w.members? with
  | none => exact extent_nil_iff.mpr rfl
  | some ms =>
    change Extent 0 (tokens place
      (.sign .leftBrace :: WrittenMember.listLexemes ms ++ [.sign .rightBrace]))
    rw [List.cons_append, tokens_cons, tokens_append, extent_cons_iff]
    refine ⟨Nat.zero_le _, fun h => absurd h Bool.false_ne_true, ?_⟩
    change Extent 1 _
    apply Extent.append
    · intro t ht
      obtain ⟨l, hl, p, rfl⟩ := exists_of_mem_tokens ht
      obtain ⟨m, -, hl⟩ := List.mem_flatMap.mp hl
      rcases List.mem_append.mp hl with hl | hl
      · obtain ⟨hopen, hclose, -⟩ := isPunct_of_isPlain (WrittenMember.isPlain_of_mem_lexemes hl) p
        exact ⟨hopen, hclose, fun _ => Nat.one_pos⟩
      · rw [List.mem_singleton.mp hl]
        simp [Sign.char]
    · -- The closing brace brings the depth back to zero.
      rw [tokens_cons, tokens_nil, extent_cons_iff]
      exact ⟨Nat.le_refl 1, fun _ => Nat.one_pos, extent_nil_iff.mpr rfl⟩

/-- A written declaration ends at its semicolon. -/
theorem Written.extent_inner (w : Written) : Extent 0 (tokens place w.inner) := by
  -- Everything before the braces leaves the depth at zero.
  have hinner : w.inner =
      (.sign .leftParen :: WrittenEntry.listLexemes w.entries ++ .sign .rightParen :: w.front) ++
        w.braces := by
    simp [inner, body]
  rw [hinner, tokens_append]
  refine Extent.append ?_ w.extent_braces
  have hplain : ∀ l ∈ .sign .leftParen :: WrittenEntry.listLexemes w.entries ++
      .sign .rightParen :: w.front, l.isPlain = true := by
    intro l hl
    rcases List.mem_append.mp hl with hl | hl
    · rcases List.mem_cons.mp hl with rfl | hl
      · rfl
      · exact WrittenEntry.isPlain_of_mem_listLexemes hl
    · rcases List.mem_cons.mp hl with rfl | hl
      · rfl
      · exact isPlain_of_mem_front hl
  intro t ht
  obtain ⟨hopen, hclose, hend⟩ := isPunct_of_mem_tokens hplain ht
  exact ⟨hopen, hclose, by simp [hend]⟩

/-! ### The qualifier -/

namespace WrittenEntry

theorem isEntry (e : WrittenEntry) : IsEntry e.entry (tokens place e.lexemes) := by
  obtain ⟨key, - | value⟩ := e
  · have h : IsEntry _ [(word key).token (place 0)] := .key (isIdent_word _ _)
    simpa [entry, lexemes] using h
  · have h : IsEntry _ [(word key).token (place 0), (sign .equals).token (place 1),
        (number (.ofWord value)).token (place 2)] :=
      .value (isIdent_word _ _) (by simp [Sign.char]) (isAnyPunct_number _ _)
    simpa [entry, lexemes, Number.ofWord] using h

/-- The entries of a written qualifier are a list with its closing parenthesis. -/
theorem isList (es : List WrittenEntry) (p : Nat) :
    IsList (es.map entry) (tokens place (listLexemes es) ++ [(sign .rightParen).token p]) := by
  have hparen : ((sign .rightParen).token p).isPunct ')' = true := by simp [Sign.char]
  induction es using listLexemes.induct generalizing place with
  | case1 => exact .nil hparen
  | case2 e => exact .last e.isEntry hparen
  | case3 e e' es ih =>
    rw [listLexemes, tokens_append, tokens_cons, List.append_assoc, List.cons_append]
    exact .next e.isEntry (by simp [Sign.char]) ih

end WrittenEntry

/-! ### The declaration -/

namespace Written

/-- A declaration is what a written one is read as, wherever its body stands. -/
structure ReadAs (w : Written) (d : Declaration) : Prop where
  text : d.text = w.text
  entries : d.entries = w.entries.map WrittenEntry.entry
  body : ∃ place, d.body = tokens place w.body

/-- A written declaration is one as it stands among its tokens, wherever these stand. -/
theorem exists_found (w : Written) (place : Nat → Nat) (p : Nat) :
    ∃ f : Found, f.tokens = tokens place (.word .layout :: w.inner) ∧
      f.semicolon = (sign .semicolon).token p ∧
      f.entries = w.entries.map WrittenEntry.entry ∧ ∃ bodyAt, f.body = tokens bodyAt w.body := by
  -- The tokens of the qualifier and of the body are told apart, each part where it stands.
  obtain ⟨opening, entriesAt, q, bodyAt, hopening, hinner⟩ :
      ∃ opening entriesAt q bodyAt, opening.isPunct '(' = true ∧
        tokens (fun i => place (i + 1)) w.inner = opening ::
          (tokens entriesAt (WrittenEntry.listLexemes w.entries) ++
            [(sign .rightParen).token q] ++ tokens bodyAt w.body) := by
    simp only [inner, List.cons_append, tokens_cons, tokens_append, List.append_assoc,
      List.nil_append]
    exact ⟨_, _, _, _, by simp [Sign.char], rfl⟩
  have hextent : Extent 0 (tokens (fun i => place (i + 1)) w.inner) := w.extent_inner
  rw [hinner] at hextent
  refine ⟨⟨(word .layout).token (place 0), opening, _, _, _, (sign .semicolon).token p, ?_,
    hopening, WrittenEntry.isList w.entries q, hextent, by simp [Sign.char]⟩, ?_, rfl, rfl,
    bodyAt, rfl⟩
  · simp [Token.spellsAnyCase, Token.sameWord, Ident.layout]
  · rw [tokens_cons, hinner]
    rfl

end Written

theorem Name.text_ne (name : Name) {keyword : String}
    (h : keyword ∈ Item.storageKeywords ++ Item.qualifiers) : name.text ≠ keyword := by
  rintro rfl
  exact name.notReserved h

namespace Written.ReadAs

variable {w : Written} {d : Declaration}

theorem hasBlock (h : w.ReadAs d) : d.hasBlock = w.members?.isSome := by
  obtain ⟨place, hbody⟩ := h.body
  have hfront : (tokens place w.front).any (·.isPunct '\x7b') = false := by
    rw [List.any_eq_false]
    intro t ht
    simp [isPunct_leftBrace_of_mem_front ht]
  rw [Declaration.hasBlock, hbody, Written.body, tokens_append, List.any_append, hfront,
    Bool.false_or, braces]
  cases w.members? <;> simp [Sign.char]

/-- The last lexeme of a declaration without a block is not the keyword `in`. -/
theorem spells_in_of_mem_getLast? {place : Nat → Nat} {t : Token} (hnone : w.members? = none)
    (ht : t ∈ (tokens place w.front).getLast?) : t.spells "in" = false := by
  have hname (name : Name) : (name.text == "in") = false := by
    rw [beq_eq_false_iff_ne]
    exact name.text_ne (by decide)
  cases w with
  | block | pushBlock => cases hnone
  | vertexInput location glslType name | output location? glslType name
  | opaqueUniform set? binding glslType name =>
    obtain rfl : (word name.toIdent).token (place 2) = t := by simpa [front] using ht
    rw [spells_word, hname]
  | specConstant id glslType name value =>
    -- After the name there are only signs and numbers.
    simp only [front, tokens_cons, List.getLast?_cons_cons] at ht
    rcases List.mem_cons.mp (List.mem_of_getLast? ht) with rfl | ht
    · rfl
    · obtain ⟨l, hl, p, rfl⟩ := exists_of_mem_tokens ht
      have hnumeric := value.isNumeric l hl
      cases l with
      | word w => cases hnumeric
      | _ => rfl

theorem isStageSetting (h : w.ReadAs d) : d.isStageSetting = false := by
  rw [Declaration.isStageSetting, h.hasBlock]
  cases hmembers : w.members? with
  | some ms => simp
  | none =>
    obtain ⟨place, hbody⟩ := h.body
    rw [hbody, Written.body, braces, hmembers, List.append_nil]
    cases hlast : (tokens place w.front).getLast? with
    | none => rfl
    | some t => simp [spells_in_of_mem_getLast? hmembers (t := t) hlast]

end Written.ReadAs

/-- A written declaration at some position of a text is read, and the reading goes on after
its semicolon. -/
theorem Written.exists_readTokens (w : Written) (before after : List Char) :
    ∃ d, w.ReadAs d ∧
      Declaration.readTokens (before ++ w.chars ++ ';' :: after)
          (Token.scanFrom (byteLength before) (w.chars ++ ';' :: after)) =
        (Declaration.readTokens (before ++ w.chars ++ ';' :: after)
          (Token.scanFrom (byteLength (before ++ w.chars ++ [';'])) after)).map (d :: ·) := by
  have hrest : Breaks isNumberPart (';' :: after) := by
    rintro c ⟨⟩
    rfl
  obtain ⟨place, hplace, hscan, hlast⟩ :=
    exists_scanFrom_write (.word .layout :: w.inner) hrest (byteLength before)
  have hsemi : Token.scanFrom (byteLength before + byteLength w.chars) (';' :: after) =
      (sign .semicolon).token (byteLength before + byteLength w.chars) ::
        Token.scanFrom (byteLength (before ++ w.chars ++ [';'])) after := by
    rw [byteLength_append, byteLength_append]
    exact scanFrom_chars (l := .sign .semicolon) (fun _ _ => rfl) _
  obtain ⟨f, htokens, hsemicolon, hentries, hbody⟩ :=
    w.exists_found place (byteLength before + byteLength w.chars)
  rw [← htokens] at hscan hlast
  have hfirst : f.first.offset = byteLength before := by
    obtain ⟨hfirst, -⟩ := List.cons.inj htokens
    rw [hfirst]
    exact hplace
  have hstop : f.last.stop = byteLength before + byteLength w.chars :=
    hlast f.last f.getLast?_tokens
  have htext : (f.declaration (before ++ w.chars ++ ';' :: after)).text = w.text := by
    rw [Found.declaration, hfirst, hstop, slice_append]
    rfl
  have hread : w.ReadAs (f.declaration (before ++ w.chars ++ ';' :: after)) :=
    ⟨htext, hentries, hbody⟩
  refine ⟨_, hread, ?_⟩
  have hkept : f.isKept = true := by
    rw [f.isKept_eq, hread.isStageSetting]
    rfl
  have hchars : w.chars = write (.word .layout :: w.inner) := rfl
  rw [← hchars, hsemi, ← hsemicolon] at hscan
  rw [hscan, f.readTokens_append, hkept]
  rfl

end Glint

import Glint.Proofs.Extent
import Glint.Proofs.TokenPlaces

/-!
# The division of a shader into declarations

The tokens of a shader divide into layout declarations and the stretches between them, in which
the word `layout` does not occur. Where such a division exists the shader is read, and the
declarations are those of the division, without the settings of the whole stage. Where none
exists reading fails.

## Main definitions

* `Declaration.Found` — a declaration as it stands among the tokens
* `Declaration.Division` — the tokens divide into some declarations and stretches between them

## Main results

* `Declaration.readTokens_eq_ok_iff` — which tokens are read, and as what
* `Declaration.Division.exact` — the declarations of a division are balanced and stand apart
* `Declaration.readAll_exact` — both facts, for the tokens of a text
-/

namespace Glint.Declaration

open Text

/-- A declaration as it stands among the tokens: the word `layout`, a list of entries in
parentheses and a body, up to the first semicolon outside braces. -/
structure Found where
  first : Token
  opening : Token
  inside : List Token
  entries : List LayoutEntry
  body : List Token
  semicolon : Token
  hfirst : first.spellsAnyCase "layout" = true
  hopening : opening.isPunct '(' = true
  hinside : IsList entries inside
  hextent : Extent 0 (opening :: (inside ++ body))
  hsemicolon : semicolon.isPunct ';' = true

namespace Found

/-- The tokens between the first one and the semicolon. -/
def inner (f : Found) : List Token :=
  f.opening :: (f.inside ++ f.body)

/-- The tokens up to the semicolon. -/
def tokens (f : Found) : List Token :=
  f.first :: f.inner

/-- The last token before the semicolon. -/
def last (f : Found) : Token :=
  f.tokens.getLast (List.cons_ne_nil _ _)

/-- What is read: the text goes from the first token to the end of the last one. -/
def declaration (source : List Char) (f : Found) : Declaration :=
  { offset := f.first.offset
    text := String.ofList (slice f.first.offset f.last.stop source)
    entries := f.entries
    body := f.body }

/-- The body has a brace, or it does not end in the keyword `in`. -/
def isKept (f : Found) : Bool :=
  f.body.any (·.isPunct '{') || !f.body.getLast?.any (·.spells "in")

theorem isKept_eq (source : List Char) (f : Found) :
    f.isKept = !(f.declaration source).isStageSetting := by
  rw [isKept, isStageSetting, Bool.not_and, Bool.not_not, Bool.or_comm]
  rfl

end Found

/-- The tokens divide into the declarations, in order, and stretches without the word
`layout`. -/
inductive Division : List Token → List Found → Prop
  | last {gap : List Token} (hgap : ∀ t ∈ gap, t.spellsAnyCase "layout" = false) :
    Division gap []
  | next (gap : List Token) (hgap : ∀ t ∈ gap, t.spellsAnyCase "layout" = false) (f : Found)
    {ts : List Token} {fs : List Found} (hrest : Division ts fs) :
    Division (gap ++ f.tokens ++ f.semicolon :: ts) (f :: fs)

variable {source : List Char} {t : Token} {ts : List Token} {fs : List Found}

/-- A division goes on when a token is put before it. -/
theorem Division.cons (ht : t.spellsAnyCase "layout" = false) (h : Division ts fs) :
    Division (t :: ts) fs := by
  cases h with
  | last hgap => exact .last (List.forall_mem_cons.mpr ⟨ht, hgap⟩)
  | @next gap hgap f ts fs hrest =>
    exact .next (t :: gap) (List.forall_mem_cons.mpr ⟨ht, hgap⟩) f hrest

/-! ### Reading a division -/

theorem readTokens_layout (ht : t.spellsAnyCase "layout" = true) :
    readTokens source (t :: ts) = do
      let (inner, rest) ← splitEnd t.offset 0 ts
      let d ← read source t inner
      let ds ← readTokens source rest
      return if d.isStageSetting then ds else d :: ds := by
  rw [readTokens, if_pos ht]
  split
  · rename_i e hsplit
    rw [hsplit]
    rfl
  · rename_i inner rest hsplit
    rw [hsplit]
    rfl

theorem readTokens_stop (ht : t.spellsAnyCase "layout" = true) {e : ReflectError}
    (hsplit : splitEnd t.offset 0 ts = .error e) : readTokens source (t :: ts) = .error e := by
  rw [readTokens_layout ht, hsplit]
  rfl

theorem readTokens_next (ht : t.spellsAnyCase "layout" = true) {inner rest : List Token}
    (hsplit : splitEnd t.offset 0 ts = .ok (inner, rest)) :
    readTokens source (t :: ts) = do
      let d ← read source t inner
      let ds ← readTokens source rest
      return if d.isStageSetting then ds else d :: ds := by
  rw [readTokens_layout ht, hsplit]
  rfl

theorem readTokens_skip (ht : t.spellsAnyCase "layout" = false) :
    readTokens source (t :: ts) = readTokens source ts := by
  rw [readTokens, ht, if_neg Bool.false_ne_true]

theorem readTokens_append {gap : List Token}
    (hgap : ∀ t ∈ gap, t.spellsAnyCase "layout" = false) (ts : List Token) :
    readTokens source (gap ++ ts) = readTokens source ts := by
  induction gap with
  | nil => rfl
  | cons t gap ih =>
    rw [List.forall_mem_cons] at hgap
    rw [List.cons_append, readTokens_skip hgap.1, ih hgap.2]

namespace Found

theorem getLast?_tokens (f : Found) : f.tokens.getLast? = some f.last :=
  List.getLast?_eq_some_getLast _

theorem getLast?_inner (f : Found) : f.inner.getLast? = some f.last := by
  rw [← getLast?_tokens, tokens, inner, List.getLast?_cons_cons]

/-- The search for the semicolon ends at the one that follows. -/
theorem splitEnd_inner (f : Found) (start : Nat) (ts : List Token) :
    splitEnd start 0 (f.inner ++ f.semicolon :: ts) = .ok (f.inner, ts) :=
  splitEnd_eq_ok_iff.mpr ⟨f.semicolon, rfl, f.hsemicolon, f.hextent⟩

theorem read_inner (f : Found) (source : List Char) :
    read source f.first f.inner = .ok (f.declaration source) := by
  rw [read_eq_ok_iff, f.getLast?_inner]
  exact ⟨f.opening, f.inside, f.entries, f.body, rfl, f.hopening, f.hinside, rfl⟩

/-- A declaration is read, and the reading goes on after its semicolon. -/
theorem readTokens_append (f : Found) (source : List Char) (ts : List Token) :
    readTokens source (f.tokens ++ f.semicolon :: ts) =
      (readTokens source ts).map fun ds =>
        if f.isKept then f.declaration source :: ds else ds := by
  rw [tokens, List.cons_append, readTokens_layout f.hfirst, splitEnd_inner]
  simp only [bind, Except.bind, f.read_inner, f.isKept_eq source, Bool.not_eq_true']
  cases readTokens source ts with
  | error e => rfl
  | ok ds => cases (f.declaration source).isStageSetting <;> rfl

end Found

/-- Whatever is read as a declaration is one as it stands among the tokens. -/
theorem exists_found {start : Nat} {inner rest : List Token} {d : Declaration}
    (ht : t.spellsAnyCase "layout" = true) (hsplit : splitEnd start 0 ts = .ok (inner, rest))
    (hread : read source t inner = .ok d) :
    ∃ f : Found, t :: ts = f.tokens ++ f.semicolon :: rest := by
  obtain ⟨semicolon, rfl, hsemicolon, hextent⟩ := splitEnd_eq_ok_iff.mp hsplit
  obtain ⟨opening, inside, entries, body, rfl, hopening, hinside, -⟩ := read_eq_ok_iff.mp hread
  exact ⟨⟨t, opening, inside, entries, body, semicolon, ht, hopening, hinside, hextent,
    hsemicolon⟩, rfl⟩

/-- A division of the tokens is read as its declarations. -/
theorem Division.readTokens (h : Division ts fs) (source : List Char) :
    Declaration.readTokens source ts =
      .ok ((fs.filter Found.isKept).map (·.declaration source)) := by
  induction h with
  | @last gap hgap =>
    rw [← List.append_nil gap, readTokens_append hgap, Declaration.readTokens]
    rfl
  | @next gap hgap f ts fs _ ih =>
    rw [List.append_assoc, readTokens_append hgap, f.readTokens_append, ih, List.filter_cons]
    cases f.isKept <;> rfl

/-- Tokens that are read have a division. -/
theorem exists_division {ds : List Declaration} (h : readTokens source ts = .ok ds) :
    ∃ fs, Division ts fs := by
  induction ts using readTokens.induct generalizing ds with
  | case1 => exact ⟨[], .last (List.forall_mem_nil _)⟩
  | case2 t ts ht e hsplit =>
    rw [readTokens_stop ht hsplit] at h
    cases h
  | case3 t ts ht inner rest hsplit ih =>
    rw [readTokens_next ht hsplit] at h
    obtain ⟨d, hread, h⟩ := Outcome.bind_eq_ok.mp h
    obtain ⟨ds', hrest, -⟩ := Outcome.bind_eq_ok.mp h
    obtain ⟨f, hf⟩ := exists_found ht hsplit hread
    obtain ⟨fs, hfs⟩ := ih hrest
    rw [hf]
    exact ⟨f :: fs, .next [] (List.forall_mem_nil _) f hfs⟩
  | case4 t ts ht ih =>
    rw [Bool.not_eq_true] at ht
    rw [readTokens_skip ht] at h
    obtain ⟨fs, hfs⟩ := ih h
    exact ⟨fs, hfs.cons ht⟩

/-- Tokens are read exactly if they have a division, as the declarations that it keeps. -/
theorem readTokens_eq_ok_iff {ds : List Declaration} :
    readTokens source ts = .ok ds ↔
      ∃ fs, Division ts fs ∧ ds = (fs.filter Found.isKept).map (·.declaration source) := by
  constructor
  · intro h
    obtain ⟨fs, hfs⟩ := exists_division h
    rw [hfs.readTokens] at h
    exact ⟨fs, hfs, (Except.ok.inj h).symm⟩
  · rintro ⟨fs, hfs, rfl⟩
    exact hfs.readTokens source

/-! ### The declarations of a division -/

namespace Found

/-- A declaration in a text: its braces are balanced and lie in its body, its semicolons lie
within braces, and its text goes from the position of its first token to the end of its
last one. -/
structure Exact (source : List Char) (f : Found) : Prop where
  braces : openings f.tokens = closings f.tokens
  openings_body : openings f.body = openings f.tokens
  closings_body : closings f.body = closings f.tokens
  semicolons : ∀ before t, before ++ [t] <+: f.tokens → t.isPunct ';' = true →
    closings before < openings before
  text : ∃ before after, source = before ++ (f.declaration source).text.toList ++ after ∧
    byteLength before = f.first.offset ∧
    f.first.offset + byteLength (f.declaration source).text.toList = f.last.stop

theorem isPunct_first (f : Found) (c : Char) : f.first.isPunct c = false := by
  have hident := f.hfirst
  rw [Token.spellsAnyCase, Bool.and_eq_true] at hident
  exact Token.isPunct_of_isIdent hident.1 c

/-- The word before the qualifier leaves the depth at zero. -/
theorem extent_tokens (f : Found) : Extent 0 f.tokens := by
  have hopenings : openings [f.first] = 0 := openings_eq_zero (by simp [f.isPunct_first])
  have hclosings : closings [f.first] = 0 := closings_eq_zero (by simp [f.isPunct_first])
  rw [tokens, extent_cons_iff, hopenings, hclosings, f.isPunct_first]
  exact ⟨Nat.le_refl _, fun h => absurd h Bool.false_ne_true, f.hextent⟩

/-- No brace stands before the body. -/
theorem isPunct_qualifier (f : Found) {c : Char} (hparen : c ≠ '(') (hsign : c ≠ '=')
    (hcomma : c ≠ ',') (hclose : c ≠ ')') :
    ∀ t ∈ f.first :: f.opening :: f.inside, t.isPunct c = false := by
  intro t ht
  rcases List.mem_cons.mp ht with rfl | ht
  · exact f.isPunct_first c
  · rcases List.mem_cons.mp ht with rfl | ht
    · exact Token.isPunct_eq_false f.hopening hparen.symm
    · exact f.hinside.isPunct_eq_false hsign hcomma hclose t ht

theorem tokens_eq (f : Found) : f.tokens = (f.first :: f.opening :: f.inside) ++ f.body := rfl

/-- A declaration whose text is known to stand in the source is exact. -/
theorem exact_of_append (f : Found) {before text : List Char}
    (hfirst : byteLength before = f.first.offset)
    (hlast : f.first.offset + byteLength text = f.last.stop) (after : List Char) :
    f.Exact (before ++ text ++ after) where
  braces := by
    have := f.extent_tokens.closed
    omega
  openings_body := by
    have hqualifier := openings_eq_zero
      (f.isPunct_qualifier (c := '{') (by decide) (by decide) (by decide) (by decide))
    rw [tokens_eq, openings_append, hqualifier, Nat.zero_add]
  closings_body := by
    have hqualifier := closings_eq_zero
      (f.isPunct_qualifier (c := '}') (by decide) (by decide) (by decide) (by decide))
    rw [tokens_eq, closings_append, hqualifier, Nat.zero_add]
  semicolons := by
    intro before t hbefore hsemicolon
    have := f.extent_tokens.inside before t hbefore hsemicolon
    omega
  text := by
    have htext : (f.declaration (before ++ text ++ after)).text.toList = text := by
      rw [declaration, String.toList_ofList, ← hlast, ← hfirst, slice_append]
    rw [htext]
    exact ⟨before, after, rfl, hfirst, hlast⟩

end Found

/-- A declaration takes up a part of the text, and the tokens behind its semicolon stand in what
follows. -/
theorem Found.exists_placed (f : Found) {gap : List Token} {before rest : List Char}
    (h : Token.Placed (byteLength before) rest (gap ++ f.tokens ++ f.semicolon :: ts)) :
    ∃ skipped text ending later, rest = skipped ++ text ++ ending ++ later ∧
      byteLength (before ++ skipped) = f.first.offset ∧
      f.first.offset + byteLength text = f.last.stop ∧
      Token.Placed (byteLength (before ++ skipped ++ text ++ ending)) later ts := by
  rw [List.append_assoc] at h
  obtain ⟨passed, _, rfl, htokens⟩ := h.of_append gap
  obtain ⟨blank, text, _, rfl, hfirst, hlast, hsemicolon⟩ :=
    htokens.exists_text f.getLast?_tokens
  obtain ⟨ending, later, rfl, hlater⟩ := hsemicolon.of_append [f.semicolon]
  have hstart : byteLength (before ++ (passed ++ blank)) = f.first.offset := by
    rw [← List.append_assoc, byteLength_append, byteLength_append]
    exact hfirst
  refine ⟨passed ++ blank, text, ending, later, by simp, hstart, hlast, ?_⟩
  rwa [byteLength_append, byteLength_append, hstart, hlast]

/-- The declarations of a division are exact and stand apart, behind the text before them. -/
theorem Division.exact (h : Division ts fs) {before rest : List Char}
    (hplaced : Token.Placed (byteLength before) rest ts) :
    (∀ f ∈ fs, f.Exact (before ++ rest) ∧ byteLength before ≤ f.first.offset) ∧
      fs.Pairwise fun f f' => f.last.stop ≤ f'.first.offset := by
  induction h generalizing before rest with
  | last => exact ⟨List.forall_mem_nil _, .nil⟩
  | next gap _ f _ ih =>
    obtain ⟨skipped, text, ending, later, rfl, hfirst, hlast, hlater⟩ := f.exists_placed hplaced
    obtain ⟨hexact, hapart⟩ := ih hlater
    have hf := f.exact_of_append hfirst hlast (ending ++ later)
    have hbefore : byteLength before ≤ f.first.offset := by
      rw [← hfirst, byteLength_append]
      omega
    -- The later declarations stand behind the semicolon.
    have hbehind : f.last.stop ≤ byteLength (before ++ skipped ++ text ++ ending) := by
      rw [byteLength_append, byteLength_append, hfirst, hlast]
      omega
    simp only [List.append_assoc] at hf hexact hbehind ⊢
    constructor
    · rw [List.forall_mem_cons]
      refine ⟨⟨hf, hbefore⟩, ?_⟩
      intro f' hf'
      obtain ⟨hexact', hoffset⟩ := hexact f' hf'
      exact ⟨hexact', by omega⟩
    · refine List.pairwise_cons.mpr ⟨?_, hapart⟩
      intro f' hf'
      exact Nat.le_trans hbehind (hexact f' hf').2

/-- A text without comments is read exactly if its tokens have a division, as the declarations
that it keeps. Every declaration of a division has as many opening as closing braces, all in its
body, has no semicolon outside braces, and takes up the text from its first token to its last
one, and no two of them overlap. -/
theorem readAll_exact (source : String) :
    (∀ ds, readAll source = .ok ds ↔
      ∃ fs, Division (Token.scan source) fs ∧
        ds = (fs.filter Found.isKept).map (·.declaration source.toList)) ∧
    ∀ fs, Division (Token.scan source) fs →
      (∀ f ∈ fs, f.Exact source.toList) ∧
        fs.Pairwise fun f f' => f.last.stop ≤ f'.first.offset := by
  constructor
  · intro ds
    exact readTokens_eq_ok_iff
  · intro fs hfs
    have hplaced : Token.Placed (byteLength []) source.toList (Token.scan source) :=
      Token.placed_scanFrom 0 source.toList
    obtain ⟨hexact, hapart⟩ := hfs.exact hplaced
    exact ⟨fun f hf => (hexact f hf).1, hapart⟩

/-- A shader with a setting of the whole stage and a block. -/
def nested : String :=
  "layout(local_size_x = 8) in; layout(binding = 1,) buffer Data \x7b vec4 layout; \x7d data;"

/-- A setting of the stage, and a declaration with a comma behind its last entry and the word
`layout` between its braces. -/
theorem readAll_exact_nested :
    ∃ fs, Division (Token.scan nested) fs ∧ (fs.filter Found.isKept).length = 1 ∧
      ∀ f ∈ fs, f.Exact nested.toList := by
  have hlength : (readAll nested).toOption.map List.length = some 1 := by decide +kernel
  cases hread : readAll nested with
  | error e =>
    rw [hread] at hlength
    cases hlength
  | ok ds =>
    rw [hread] at hlength
    obtain ⟨fs, hfs, rfl⟩ := ((readAll_exact nested).1 ds).mp hread
    have hone : (fs.filter Found.isKept).length = 1 := by
      simpa [Except.toOption] using hlength
    exact ⟨fs, hfs, hone, ((readAll_exact nested).2 fs hfs).1⟩

end Glint.Declaration

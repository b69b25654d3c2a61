import Glint.Proofs.Division
import Glint.Proofs.StripTwice
import Glint.Proofs.TokenSeam
import Glint.Proofs.Unplaced

/-!
# The declarations of a shader by themselves

The texts of the declarations of a shader, each with a semicolon and on a line of its own, make
up a shader that has the same declarations at other positions. What stood between them, comments
and preprocessor lines as well as settings of the stage, has no part in the interface.

## Main definitions

* `Declaration.listing` — the texts of declarations, one after the other
* `Declaration.Found.moved` — a declaration at a position that is moved along

## Main results

* `Declaration.Division.exists_listing` — the listed texts divide into the same declarations
* `Declaration.exists_readAll_listing` — they are read as the same declarations
* `Interface.ofText_listing` — a shader and the listing of its declarations have one interface
-/

namespace Glint

open Text

/-! ### No comment opens in a listing -/

/-- A text in which no comment opens stays up to a semicolon behind it. -/
theorem Comment.stripChars_append_semicolon {text : List Char} (hline : ¬ ['/', '/'] <:+: text)
    (hblock : ¬ ['/', '*'] <:+: text) (rest : List Char) :
    stripChars (text ++ ';' :: rest) = text ++ ';' :: stripChars rest := by
  induction text with
  | nil => exact stripChars_text (not_opens_of_ne (by decide) rest)
  | cons c cs ih =>
    have hplain : ¬ Opens (c :: (cs ++ ';' :: rest)) := by
      cases cs with
      | nil => simp [Opens, List.cons_prefix_cons]
      | cons d ds =>
        rintro (h | h)
        · refine hline (List.IsPrefix.isInfix ?_)
          simpa only [List.cons_append, pair_prefix_cons_cons_iff] using h
        · refine hblock (List.IsPrefix.isInfix ?_)
          simpa only [List.cons_append, pair_prefix_cons_cons_iff] using h
    rw [List.cons_append, stripChars_text hplain,
      ih (fun h => hline (List.infix_cons h)) fun h => hblock (List.infix_cons h), List.cons_append]

namespace Declaration

/-- The texts of declarations, each followed by a semicolon and the end of the line. -/
def listing (ds : List Declaration) : List Char :=
  ds.flatMap fun d => d.text.toList ++ [';', '\n']

theorem listing_cons (d : Declaration) (ds : List Declaration) :
    listing (d :: ds) = d.text.toList ++ ';' :: '\n' :: listing ds := by
  rw [listing, List.flatMap_cons, List.append_assoc]
  rfl

/-- Only the texts of declarations are listed. -/
theorem listing_eq_of_map_text_eq {ds ds' : List Declaration}
    (h : ds'.map Declaration.text = ds.map Declaration.text) : listing ds' = listing ds := by
  have hmap (ds : List Declaration) :
      listing ds = (ds.map Declaration.text).flatMap fun text => text.toList ++ [';', '\n'] := by
    rw [List.flatMap_map]
    rfl
  rw [hmap, hmap, h]

/-- There are no comments in a listing if none opens in the texts that it lists. -/
theorem stripChars_listing {ds : List Declaration}
    (h : ∀ d ∈ ds, ¬ ['/', '/'] <:+: d.text.toList ∧ ¬ ['/', '*'] <:+: d.text.toList) :
    Comment.stripChars (listing ds) = listing ds := by
  induction ds with
  | nil => rfl
  | cons d ds ih =>
    obtain ⟨⟨hline, hblock⟩, hds⟩ := List.forall_mem_cons.mp h
    rw [listing_cons, Comment.stripChars_append_semicolon hline hblock,
      Comment.stripChars_text (Comment.not_opens_of_ne (by decide) _), ih hds]

/-! ### Declarations at other positions -/

section Moved

variable {start start' : Nat} {ts : List Token}

theorem IsEntry.map_moved {entry : LayoutEntry} (h : IsEntry entry ts) :
    IsEntry entry (ts.map (Token.moved start start')) := by
  cases h with
  | @key key hkey => exact @IsEntry.key (key.moved start start') hkey
  | @value key sign value hkey hsign hvalue =>
    exact @IsEntry.value (key.moved start start') (sign.moved start start')
      (value.moved start start') hkey hsign hvalue

theorem IsList.map_moved {entries : List LayoutEntry} (h : IsList entries ts) :
    IsList entries (ts.map (Token.moved start start')) := by
  induction h with
  | nil hclose => exact .nil hclose
  | last hentry hclose =>
    rw [List.map_append]
    exact .last hentry.map_moved hclose
  | next hentry hcomma _ ih =>
    rw [List.map_append]
    exact .next hentry.map_moved hcomma ih

theorem extent_map_moved {depth : Nat} :
    Extent depth (ts.map (Token.moved start start')) ↔ Extent depth ts := by
  induction ts generalizing depth with
  | nil => rfl
  | cons t ts ih =>
    rw [List.map_cons, extent_cons_iff, extent_cons_iff, ih]
    rfl

end Moved

namespace Found

/-- The declaration at the position that it has when the text from `start` on stands at
`start'`, with a semicolon right behind it. -/
def moved (start start' : Nat) (f : Found) : Found where
  first := f.first.moved start start'
  opening := f.opening.moved start start'
  inside := f.inside.map (Token.moved start start')
  entries := f.entries
  body := f.body.map (Token.moved start start')
  semicolon := ⟨.punct ';', ";", (f.last.moved start start').stop⟩
  hfirst := f.hfirst
  hopening := f.hopening
  hinside := f.hinside.map_moved
  hextent := by
    have h : Extent 0 ((f.opening :: (f.inside ++ f.body)).map (Token.moved start start')) :=
      extent_map_moved.mpr f.hextent
    rwa [List.map_cons, List.map_append] at h
  hsemicolon := rfl

variable (start start' : Nat) (f : Found)

theorem tokens_moved : (f.moved start start').tokens = f.tokens.map (Token.moved start start') := by
  rw [tokens, tokens, inner, inner, List.map_cons, List.map_cons, List.map_append]
  rfl

theorem last_moved : (f.moved start start').last = f.last.moved start start' := by
  have hlast := (f.moved start start').getLast?_tokens
  rw [tokens_moved, List.getLast?_map, f.getLast?_tokens] at hlast
  exact (Option.some.inj hlast).symm

theorem isKept_moved : (f.moved start start').isKept = f.isKept := by
  have hlast : (f.moved start start').body.getLast?.any (·.spells "in") =
      f.body.getLast?.any (·.spells "in") := by
    rw [moved, List.getLast?_map, Option.any_map]
    rfl
  have hblock : (f.moved start start').body.any (·.isPunct '{') = f.body.any (·.isPunct '{') := by
    rw [moved, List.any_map]
    rfl
  rw [isKept, isKept, hlast, hblock]

end Found

/-! ### The listing is read -/

/-- The text is read as the tokens of the declaration, wherever it stands. -/
structure Found.IsText (f : Found) (text : List Char) : Prop where
  first_le : f.first.offset ≤ f.last.offset
  stop_eq : f.last.stop = f.first.offset + byteLength text
  scan : ∀ pos rest, Breaks isNumberPart rest → Token.scanFrom pos (text ++ rest) =
    f.tokens.map (Token.moved f.first.offset pos) ++ Token.scanFrom (pos + byteLength text) rest

/-- A declaration among the tokens of a text has a text of its own, and what stands behind its
semicolon is read as the tokens behind it. -/
theorem Found.exists_isText {f : Found} {gap ts : List Token} {before cs : List Char}
    (h : Token.scanFrom (byteLength before) cs = gap ++ f.tokens ++ f.semicolon :: ts) :
    ∃ skipped text ending rest, cs = skipped ++ text ++ ending ++ rest ∧ f.IsText text ∧
      (f.declaration (before ++ cs)).text = String.ofList text ∧
      ts = Token.scanFrom (byteLength (before ++ skipped ++ text ++ ending)) rest := by
  rw [List.append_assoc] at h
  obtain ⟨passed, cs, rfl, hscan⟩ := Token.exists_of_scanFrom_eq_append h
  obtain ⟨blank, text, cs, rfl, -, -, hfirst, hle, hlast, hafter, hrescan⟩ :=
    Token.exists_rescan hscan.symm f.getLast?_tokens
  obtain ⟨blank', rest, rfl, -, hoffset, -, -, -, hts⟩ :=
    Token.exists_of_scanFrom_eq_cons hafter.symm
  have hstart : byteLength (before ++ passed ++ blank) = f.first.offset := by
    rw [hfirst, byteLength_append, byteLength_append]
  refine ⟨passed ++ blank, text, blank' ++ f.semicolon.text.toList, rest, by simp,
    ⟨hle, hlast, hrescan⟩, ?_, ?_⟩
  · rw [declaration, hlast, ← hstart]
    have hslice := slice_append (before ++ passed ++ blank) text
      (blank' ++ f.semicolon.text.toList ++ rest)
    simp only [List.append_assoc] at hslice ⊢
    rw [hslice]
  · rw [hts, Token.stop, hoffset, hlast, ← hstart]
    simp only [byteLength_append, Nat.add_assoc]

namespace Found.IsText

variable {f : Found} {text : List Char}

theorem stop_last_moved (h : f.IsText text) (pos : Nat) :
    (f.last.moved f.first.offset pos).stop = pos + byteLength text := by
  have hstop := h.stop_eq
  have hle := h.first_le
  have hmoved : (f.last.moved f.first.offset pos).stop =
      f.last.offset + pos - f.first.offset + byteLength f.last.text.toList := rfl
  rw [Token.stop] at hstop
  omega

/-- With a semicolon and the end of the line behind it, the text is read as a declaration. -/
theorem scan_semicolon (h : f.IsText text) (pos : Nat) (rest : List Char) :
    Token.scanFrom pos (text ++ ';' :: '\n' :: rest) =
      (f.moved f.first.offset pos).tokens ++ (f.moved f.first.offset pos).semicolon ::
        Token.scanFrom (pos + byteLength (text ++ [';', '\n'])) rest := by
  have hbreaks : Breaks isNumberPart (';' :: '\n' :: rest) := by
    rintro c ⟨⟩
    rfl
  -- The semicolon is read as one token, and the end of the line is passed over.
  have hsemicolon := Token.isLexeme_punct (c := ';') (by decide) (by decide) (by decide)
    (by decide) 0 (pos + byteLength text) ('\n' :: rest) (by rintro c -; rfl)
  have hline : isBlank '\n' = true := by decide
  rw [String.toList_ofList, List.singleton_append, Token.scanFrom_blank hline] at hsemicolon
  rw [h.scan pos _ hbreaks, hsemicolon, tokens_moved, byteLength_append, ← Nat.add_assoc]
  have hplace : (f.moved f.first.offset pos).semicolon = ⟨.punct ';', ";", pos + byteLength text⟩ := by
    rw [moved, h.stop_last_moved]
  rw [hplace]
  rfl

/-- Wherever the text stands, it is that of the declaration. -/
theorem unplaced_declaration (h : f.IsText text) {source : List Char}
    (hsource : (f.declaration source).text = String.ofList text) (done rest : List Char) :
    ((f.moved f.first.offset (byteLength done)).declaration (done ++ (text ++ rest))).unplaced =
      (f.declaration source).unplaced := by
  have hslice := slice_append done text rest
  rw [List.append_assoc] at hslice
  have hfirst : (f.moved f.first.offset (byteLength done)).first.offset = byteLength done :=
    Nat.add_sub_cancel_left _ _
  have htext : ((f.moved f.first.offset (byteLength done)).declaration
      (done ++ (text ++ rest))).text = (f.declaration source).text := by
    rw [hsource, declaration, hfirst, last_moved, h.stop_last_moved, hslice]
  have hbody : (f.body.map (Token.moved f.first.offset (byteLength done))).map Token.unplaced =
      f.body.map Token.unplaced := by
    rw [List.map_map]
    rfl
  rw [unplaced, unplaced, Declaration.mk.injEq]
  exact ⟨rfl, htext, rfl, hbody⟩

end Found.IsText

/-- The declarations that a division keeps are those of their listing, at other positions. -/
theorem Division.exists_listing {ts : List Token} {fs : List Found} (h : Division ts fs)
    {before cs : List Char} (hts : Token.scanFrom (byteLength before) cs = ts)
    (done : List Char) :
    ∃ fs', Division (Token.scanFrom (byteLength done)
        (listing ((fs.filter Found.isKept).map (·.declaration (before ++ cs))))) fs' ∧
      (∀ f ∈ fs', f.isKept = true) ∧
      fs'.map (fun f => (f.declaration (done ++
          listing ((fs.filter Found.isKept).map (·.declaration (before ++ cs))))).unplaced) =
        (fs.filter Found.isKept).map fun f => (f.declaration (before ++ cs)).unplaced := by
  induction h generalizing before cs done with
  | last hgap =>
    refine ⟨[], ?_, List.forall_mem_nil _, rfl⟩
    rw [List.filter_nil, List.map_nil, listing, List.flatMap_nil, Token.scanFrom]
    exact .last (List.forall_mem_nil _)
  | next gap hgap f hrest ih =>
    obtain ⟨skipped, text, ending, rest, rfl, htext, hsource, hafter⟩ := Found.exists_isText hts
    have hcs : before ++ (skipped ++ text ++ ending ++ rest) =
        before ++ skipped ++ text ++ ending ++ rest := by
      simp only [List.append_assoc]
    rw [hcs] at hsource ⊢
    cases hkept : f.isKept with
    | false =>
      obtain ⟨fs', hfs', hall, hsame⟩ := ih hafter.symm done
      rw [List.filter_cons_of_neg (by simp [hkept])]
      exact ⟨fs', hfs', hall, hsame⟩
    | true =>
      obtain ⟨fs', hfs', hall, hsame⟩ := ih hafter.symm (done ++ (text ++ [';', '\n']))
      rw [List.filter_cons_of_pos hkept, List.map_cons, listing_cons, hsource,
        String.toList_ofList, htext.scan_semicolon, ← byteLength_append]
      refine ⟨f.moved f.first.offset (byteLength done) :: fs', ?_, ?_, ?_⟩
      · exact .next [] (List.forall_mem_nil _) _ hfs'
      · exact List.forall_mem_cons.mpr ⟨(f.isKept_moved _ _).trans hkept, hall⟩
      · rw [List.map_cons, List.map_cons, htext.unplaced_declaration hsource, ← hsame]
        simp

/-- What is read of a text in which no comment opens is read of its listing too, at other
positions. -/
theorem exists_readAll_listing {source : List Char} {ds : List Declaration}
    (hread : readAll (String.ofList source) = .ok ds) (hline : ¬ ['/', '/'] <:+: source)
    (hblock : ¬ ['/', '*'] <:+: source) :
    ∃ ds', readAll (Comment.strip (String.ofList (listing ds))) = .ok ds' ∧
      ds'.map Declaration.unplaced = ds.map Declaration.unplaced := by
  rw [readAll, Token.scan, String.toList_ofList] at hread
  obtain ⟨fs, hfs, rfl⟩ := readTokens_eq_ok_iff.mp hread
  have hplaced : Token.Placed (byteLength []) source (Token.scanFrom 0 source) :=
    Token.placed_scanFrom 0 source
  have hexact := (hfs.exact hplaced).1
  have hstrip : Comment.stripChars
      (listing ((fs.filter Found.isKept).map (·.declaration source))) =
        listing ((fs.filter Found.isKept).map (·.declaration source)) := by
    refine stripChars_listing ?_
    intro d hd
    obtain ⟨f, hf, rfl⟩ := List.mem_map.mp hd
    obtain ⟨before, after, hsource, -, -⟩ := (hexact f (List.mem_of_mem_filter hf)).1.text
    have hinfix : (f.declaration source).text.toList <:+: source := ⟨before, after, hsource.symm⟩
    exact ⟨fun h => hline (h.trans hinfix), fun h => hblock (h.trans hinfix)⟩
  have hwhole : Token.scanFrom (byteLength []) source = Token.scanFrom 0 source := rfl
  obtain ⟨fs', hfs', hall, hsame⟩ := hfs.exists_listing hwhole []
  refine ⟨fs'.map (·.declaration (listing ((fs.filter Found.isKept).map (·.declaration source)))),
    ?_, ?_⟩
  · rw [Comment.strip, String.toList_ofList, hstrip, readAll, Token.scan, String.toList_ofList]
    refine readTokens_eq_ok_iff.mpr ⟨fs', hfs', ?_⟩
    rw [List.filter_eq_self.mpr hall]
  · rw [List.map_map, List.map_map]
    exact hsame

end Declaration

/-! ### Interfaces -/

/-- The shader with the listing of some declarations for its text. -/
def ShaderText.ofListing (source : ShaderText) (ds : List Declaration) : ShaderText :=
  { source with text := String.ofList (Declaration.listing ds) }

/-- No block comment of the shader is left without an end. -/
def ShaderText.IsClosed (source : ShaderText) : Prop :=
  ∀ start, (Comment.pairScan .text 0 source.text.toUTF8.data.toList).1 ≠ .block start

namespace Interface

open Outcome (unplace)

/-- The interface of a shader depends on the positions of its declarations in errors only. -/
theorem unplace_ofText (env : TypeEnv) (source : ShaderText) {ds : List Declaration}
    (hread : Declaration.readAll (Comment.strip source.text) = .ok ds) :
    unplace (ofText env source) =
      ((ds.map Declaration.unplaced).foldlM (Collected.addDeclaration env source.stage)
        .empty).map (ofCollected source.name source.stage) := by
  rw [ofText, hread, Collected.foldlM_unplaced, ← Outcome.unplace_map]
  apply congrArg
  simp only [bind, Except.bind]
  cases List.foldlM (Collected.addDeclaration env source.stage) .empty ds <;> rfl

/-- The listing of the declarations of a shader has its interface, or is refused with the same
error at another position. -/
theorem unplace_ofText_listing (env : TypeEnv) (source : ShaderText) {ds : List Declaration}
    (hclosed : source.IsClosed)
    (hread : Declaration.readAll (Comment.strip source.text) = .ok ds) :
    unplace (ofText env (source.ofListing ds)) = unplace (ofText env source) := by
  have hend : ∀ start, (Comment.pairScan .text 0 (utf8 source.text.toList)).1 ≠ .block start := by
    rw [← toUTF8_eq]
    exact hclosed
  obtain ⟨hline, hblock⟩ := Comment.not_pair_infix_stripChars hend
  obtain ⟨ds', hread', hsame⟩ := Declaration.exists_readAll_listing hread hline hblock
  rw [unplace_ofText env (source.ofListing ds) hread', unplace_ofText env source hread, hsame]
  rfl

/-- The texts of the declarations of a shader, each with a semicolon and on a line of its own,
make up a shader that has the same interface, or is refused with the same error at another
position. All shaders with these declarations and no unclosed comment are alike in this, so
whatever else stands in a shader has no part in its interface. -/
theorem ofText_listing (env : TypeEnv) (source : ShaderText) {ds : List Declaration}
    (hclosed : source.IsClosed)
    (hread : Declaration.readAll (Comment.strip source.text) = .ok ds) :
    (∀ i, ofText env source = .ok i → ofText env (source.ofListing ds) = .ok i) ∧
    (∀ e, ofText env source = .error e →
      ∃ e', ofText env (source.ofListing ds) = .error e' ∧ e'.unplaced = e.unplaced) ∧
    ∀ source' : ShaderText, source'.name = source.name → source'.stage = source.stage →
      source'.IsClosed → ∀ ds', Declaration.readAll (Comment.strip source'.text) = .ok ds' →
        ds'.map Declaration.text = ds.map Declaration.text →
        unplace (ofText env source') = unplace (ofText env source) := by
  have hlisting := unplace_ofText_listing env source hclosed hread
  refine ⟨?_, ?_, ?_⟩
  · intro i hi
    rw [hi] at hlisting
    exact Outcome.unplace_eq_ok.mp hlisting
  · intro e he
    rw [he] at hlisting
    exact Outcome.unplace_eq_error.mp hlisting
  · rintro ⟨name, stage, text⟩ rfl rfl hclosed' ds' hread' htexts
    rw [← hlisting, ← unplace_ofText_listing env _ hclosed' hread', ShaderText.ofListing,
      ShaderText.ofListing, Declaration.listing_eq_of_map_text_eq htexts]

/-- A fragment shader with a comment and a preprocessor line within a declaration, and with a
setting of the stage and a call around it. -/
def hue : ShaderText :=
  ⟨"hue.frag", .fragment,
    "layout(flat) in; layout(location = 0) /* tint */ out\n#if 1\nvec4 hue /; main();"⟩

/-- The listing keeps the preprocessor line, but not the comment. -/
theorem ofText_listing_hue :
    hue.IsClosed ∧ ∃ ds, Declaration.readAll (Comment.strip hue.text) = .ok ds ∧
      String.ofList (Declaration.listing ds) = "layout(location = 0)  out\n#if 1\nvec4 hue /;\n" ∧
      ∀ i, ofText .glsl hue = .ok i → ofText .glsl (hue.ofListing ds) = .ok i := by
  have hclosed : hue.IsClosed := by
    have hmode : (Comment.pairScan .text 0 hue.text.toUTF8.data.toList).1 = .text := by
      decide +kernel
    intro start
    rw [hmode]
    exact Comment.Mode.noConfusion
  have hlisting : (Declaration.readAll (Comment.strip hue.text)).map
      (fun ds => String.ofList (Declaration.listing ds)) =
        .ok "layout(location = 0)  out\n#if 1\nvec4 hue /;\n" := by
    decide +kernel
  obtain ⟨ds, hread, htext⟩ := Outcome.map_eq_ok.mp hlisting
  exact ⟨hclosed, ds, hread, htext, (ofText_listing .glsl hue hclosed hread).1⟩

end Interface

end Glint

import Glint.Proofs.CommentSeam
import Glint.Proofs.Division
import Glint.Proofs.HiddenItem
import Glint.Proofs.TokenSeam

/-!
# Behind an unclosed block comment

A block comment without an end is no comment: its opening and all that follows stay in the
text. The opening is read as two punctuation characters, and the declarations behind it are read
like any others. A shader with such an opening has the interface of the text before it only if
they declare nothing that an interface would show.

## Main definitions

* `ShaderText.upTo` — a shader text cut at a byte position
* `Interface.itemsOf` — what the declarations of a shader declare

## Main results

* `Comment.exists_unclosed` — what stands around an opening without an end
* `Interface.exists_readAll_unclosed` — what stands before it is read, and then what stands
  behind it
* `Interface.ofText_unclosed_iff` — when nothing behind it is reported
-/

namespace Glint.Comment

open Text

variable {comment cs rest : List Char} {pos start : Nat}

/-- If the scan ends in a block comment, the text before its opening and the rest are stripped
apart, and the rest stays. -/
theorem exists_unclosed (h : (pairScan .text pos (utf8 cs)).1 = .block start) :
    ∃ before body, cs = before ++ '/' :: '*' :: body ∧ start = pos + byteLength before ∧
      stripChars cs = stripChars before ++ '/' :: '*' :: body := by
  induction parts cs generalizing pos with
  | nil => cases h
  | @text c cs hplain _ ih =>
    rw [pairScan_text hplain] at h
    obtain ⟨before, body, rfl, hstart, hstrip⟩ := ih h
    have hbefore : ¬ Opens (c :: before) := fun hopens => hplain (hopens.append _)
    refine ⟨c :: before, body, rfl, ?_, ?_⟩
    · rw [hstart, byteLength_cons, Nat.add_assoc]
    · rw [stripChars_text hplain, stripChars_text hbefore, hstrip, List.cons_append]
  | @comment comment cs hcomment _ ih =>
    rcases pairScan_comment hcomment pos with hscan | ⟨-, hscan⟩
    · rw [hscan] at h
      obtain ⟨before, body, rfl, hstart, hstrip⟩ := ih h
      refine ⟨comment ++ before, body, (List.append_assoc _ _ _).symm, ?_, ?_⟩
      · rw [hstart, byteLength_append, Nat.add_assoc]
      · rw [stripChars_comment hcomment, stripChars_comment hcomment.of_append, hstrip]
    · rw [hscan] at h
      cases h
  | @unclosed body hbody =>
    rw [pairScan_unclosed hbody] at h
    cases h
    exact ⟨[], body, rfl, rfl, stripChars_unclosed hbody⟩

end Glint.Comment

namespace Glint

open Text

/-! ### Declarations in a longer text -/

namespace Declaration

variable {source : List Char} {ts : List Token} {fs : List Found}

/-- The declarations of a division are read, and the reading goes on behind it. -/
theorem Division.readTokens_append (h : Division ts fs) (source : List Char) (more : List Token) :
    Declaration.readTokens source (ts ++ more) = (Declaration.readTokens source more).map
      ((fs.filter Found.isKept).map (·.declaration source) ++ ·) := by
  induction h with
  | @last gap hgap =>
    rw [Declaration.readTokens_append hgap]
    cases Declaration.readTokens source more <;> rfl
  | @next gap hgap f ts fs _ ih =>
    rw [List.append_assoc, List.append_assoc, Declaration.readTokens_append hgap, List.cons_append,
      f.readTokens_append, ih, List.filter_cons]
    cases Declaration.readTokens source more with
    | error e => rfl
    | ok ds => cases f.isKept <;> rfl

/-- A declaration stays the same when text is put behind. -/
theorem Found.declaration_append {f : Found} (h : f.Exact source) (more : List Char) :
    f.declaration (source ++ more) = f.declaration source := by
  obtain ⟨before, after, hsource, hfirst, hlast⟩ := h.text
  generalize hd : f.declaration source = d at hsource hlast ⊢
  have htext : slice f.first.offset f.last.stop (source ++ more) = d.text.toList := by
    rw [hsource, ← hlast, ← hfirst, List.append_assoc (before ++ _), slice_append]
  rw [declaration, htext, String.ofList_toList, ← hd]
  rfl

/-- Declarations that are read from a text are read from a longer one too, before those of the
tokens that are added. -/
theorem readTokens_append_of_readAll {source : String} {ds : List Declaration}
    (h : readAll source = .ok ds) (rest : List Char) (more : List Token) :
    readTokens (source.toList ++ rest) (Token.scan source ++ more) =
      (readTokens (source.toList ++ rest) more).map (ds ++ ·) := by
  obtain ⟨fs, hfs, rfl⟩ := readTokens_eq_ok_iff.mp h
  have hplaced : Token.Placed (byteLength []) source.toList (Token.scan source) :=
    Token.placed_scanFrom 0 source.toList
  have hsame : (fs.filter Found.isKept).map (·.declaration (source.toList ++ rest)) =
      (fs.filter Found.isKept).map (·.declaration source.toList) := by
    apply List.map_congr_left
    intro f hf
    exact Found.declaration_append ((hfs.exact hplaced).1 f (List.mem_of_mem_filter hf)).1 rest
  rw [hfs.readTokens_append, hsame]

end Declaration

/-! ### What is reported -/

/-- A shader text cut at a byte position. -/
def ShaderText.upTo (p : Nat) (source : ShaderText) : ShaderText :=
  { source with text := String.ofList (takeBytes p source.text.toList) }

namespace Interface

open Comment

/-- What the declarations of a shader declare, in order. -/
def itemsOf (env : TypeEnv) (source : ShaderText) : Except ReflectError (List Item) := do
  let ds ← Declaration.readAll (strip source.text)
  ds.mapM (Item.ofDeclaration env)

variable {source : ShaderText} {p : Nat}

/-- What stands before an opening without an end is read by itself, and more declarations may
be read behind it. -/
theorem exists_readAll_unclosed
    (hopen : (pairScan .text 0 source.text.toUTF8.data.toList).1 = .block p)
    {ds all : List Declaration}
    (hbefore : Declaration.readAll (strip (source.upTo p).text) = .ok ds)
    (hall : Declaration.readAll (strip source.text) = .ok all) : ∃ later, all = ds ++ later := by
  rw [toUTF8_eq] at hopen
  obtain ⟨before, body, htext, rfl, hstrip⟩ := exists_unclosed hopen
  have hcut : strip (source.upTo (0 + byteLength before)).text =
      String.ofList (stripChars before) := by
    rw [ShaderText.upTo, strip, String.toList_ofList, htext, Nat.zero_add, takeBytes_append]
  have hwhole : (strip source.text).toList = stripChars before ++ '/' :: '*' :: body := by
    rw [strip, String.toList_ofList, hstrip]
  have hbreak : Breaks isNumberPart ('/' :: '*' :: body) := by
    rintro c ⟨⟩
    rfl
  obtain ⟨more, hscan, -⟩ := Token.exists_scanFrom_append hbreak 0 (stripChars before)
  have hmore := Declaration.readTokens_append_of_readAll hbefore ('/' :: '*' :: body) more
  rw [hcut, Token.scan, String.toList_ofList, ← hscan, ← hwhole] at hmore
  rw [Declaration.readAll, Token.scan, hmore] at hall
  obtain ⟨later, -, rfl⟩ := Outcome.map_eq_ok.mp hall
  exact ⟨later, rfl⟩

/-- A shader with an unclosed block comment is refused or has the interface of the text before
the opening exactly if it is refused, or its items are those before the opening and more that
are hidden behind them. -/
theorem ofText_unclosed_iff (env : TypeEnv) (source : ShaderText) {p : Nat}
    (hopen : (pairScan .text 0 source.text.toUTF8.data.toList).1 = .block p) :
    ((∃ e, ofText env source = .error e) ∨
        ∃ i, ofText env source = .ok i ∧ ofText env (source.upTo p) = .ok i) ↔
      (∃ e, ofText env source = .error e) ∨
        ∃ items more, itemsOf env (source.upTo p) = .ok items ∧
          itemsOf env source = .ok (items ++ more) ∧
          ∀ item ∈ more, item.IsHidden env source.stage items := by
  cases hsource : ofText env source with
  | error e => exact ⟨fun _ => .inl ⟨e, rfl⟩, fun _ => .inl ⟨e, rfl⟩⟩
  | ok i =>
    obtain ⟨all, c', hall, hc', rfl⟩ := ofText_eq_ok_iff.mp hsource
    constructor
    · rintro (⟨e, he⟩ | ⟨i, hi, hbefore⟩)
      · cases he
      · cases hi
        obtain ⟨ds, c, hds, hc, hsame⟩ := ofText_eq_ok_iff.mp hbefore
        obtain ⟨later, rfl⟩ := exists_readAll_unclosed hopen hds hall
        obtain ⟨both, hboth, -⟩ := collecting_of_foldlM hc'
        obtain ⟨items, more, hitems, hmore, rfl⟩ := Item.mapM_ofDeclaration_append.mp hboth
        have hrun : ds.foldlM (Collected.addDeclaration env source.stage) .empty = .ok c := hc
        rw [List.foldlM_append, hrun] at hc'
        refine .inr ⟨items, more, ?_, ?_, (ofCollected_eq_iff hrun hc' hitems hmore).mp hsame⟩
        · exact Outcome.bind_eq_ok.mpr ⟨ds, hds, hitems⟩
        · exact Outcome.bind_eq_ok.mpr ⟨ds ++ later, hall, hboth⟩
    · rintro (⟨e, he⟩ | ⟨items, more, hitems, hboth, hhidden⟩)
      · cases he
      · obtain ⟨ds, hds, hitems⟩ := Outcome.bind_eq_ok.mp hitems
        obtain ⟨later, rfl⟩ := exists_readAll_unclosed hopen hds hall
        obtain ⟨all, hall', hboth⟩ := Outcome.bind_eq_ok.mp hboth
        obtain rfl : ds ++ later = all := Except.ok.inj (hall.symm.trans hall')
        obtain ⟨items', more', hitems', hmore, hparts⟩ := Item.mapM_ofDeclaration_append.mp hboth
        -- The first of the items are those before the opening.
        obtain rfl : items = items' := Except.ok.inj (hitems.symm.trans hitems')
        obtain rfl : more = more' := List.append_cancel_left hparts
        rw [List.foldlM_append] at hc'
        obtain ⟨c, hc, hlater⟩ := Outcome.bind_eq_ok.mp hc'
        refine .inr ⟨_, rfl, ofText_eq_ok_iff.mpr ⟨ds, c, hds, hc, ?_⟩⟩
        exact (ofCollected_eq_iff hc hlater hitems hmore).mpr hhidden

/-- A fragment shader with an input behind an unclosed opening. -/
def remark : ShaderText :=
  ⟨"lit.frag", .fragment,
    "layout(location = 0) out vec4 color; /* layout(location = 1) in vec2 uv;"⟩

theorem ofText_unclosed_iff_remark :
    (pairScan .text 0 remark.text.toUTF8.data.toList).1 = .block 37 ∧
      ((∃ e, ofText .glsl remark = .error e) ∨
        ∃ i, ofText .glsl remark = .ok i ∧ ofText .glsl (remark.upTo 37) = .ok i) := by
  have hopen : (pairScan .text 0 remark.text.toUTF8.data.toList).1 = .block 37 := by
    decide +kernel
  have hitems : itemsOf .glsl (remark.upTo 37) =
      .ok [.output (some 0) "layout(location = 0) out vec4 color"] := by
    decide +kernel
  have hboth : itemsOf .glsl remark =
      .ok ([.output (some 0) "layout(location = 0) out vec4 color"] ++
        [.vertexInput 1 "vec2" "uv"]) := by
    decide +kernel
  refine ⟨hopen, (ofText_unclosed_iff .glsl remark hopen).mpr (.inr ⟨_, _, hitems, hboth, ?_⟩)⟩
  decide

/-- A fragment shader whose second output stands behind an unclosed opening. -/
def glow : ShaderText :=
  ⟨"lit.frag", .fragment,
    "layout(location = 0) out vec4 color; /* layout(location = 1) out vec4 glow;"⟩

/-- The output behind the opening is reported, and the text before the opening has one output
only: the shader is not refused, nor does it have the interface of that text. -/
theorem ofText_glow :
    (pairScan .text 0 glow.text.toUTF8.data.toList).1 = .block 37 ∧
      (ofText .glsl glow).toOption.map (·.outputs) =
        some [⟨some 0, "layout(location = 0) out vec4 color"⟩,
          ⟨some 1, "layout(location = 1) out vec4 glow"⟩] ∧
      ¬ ((∃ e, ofText .glsl glow = .error e) ∨
        ∃ i, ofText .glsl glow = .ok i ∧ ofText .glsl (glow.upTo 37) = .ok i) := by
  have hglow : (ofText .glsl glow).toOption.map (·.outputs) =
      some [⟨some 0, "layout(location = 0) out vec4 color"⟩,
        ⟨some 1, "layout(location = 1) out vec4 glow"⟩] := by
    decide +kernel
  have hbefore : (ofText .glsl (glow.upTo 37)).toOption.map (·.outputs) =
      some [⟨some 0, "layout(location = 0) out vec4 color"⟩] := by
    decide +kernel
  refine ⟨by decide +kernel, hglow, ?_⟩
  rintro (⟨e, he⟩ | ⟨i, hi, hi'⟩)
  · rw [he] at hglow
    cases hglow
  · rw [hi] at hglow
    rw [hi', hglow] at hbefore
    cases hbefore

end Interface

end Glint

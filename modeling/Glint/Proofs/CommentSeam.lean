import Glint.Interface
import Glint.Proofs.CommentBytes

/-!
# Texts joined outside comments

Where the scan of a text ends outside any comment, the text and what is put behind it are
stripped apart from each other. Only a slash at the seam could open a comment that neither of
them has. So it makes no difference whether a comment stands at the seam, and a line comment
there takes away what it says and leaves the end of its line. The interface of a shader is read
from what is left, positions of errors included, so it does not depend on comments.

## Main results

* `Comment.stripChars_append_of_outside` — the texts on both sides of a seam are stripped apart
* `Interface.ofText_eq_of_strip_eq` — an interface depends on what is left of the text
* `Interface.ofText_insert_comment` — a comment at a seam changes no interface and no error
-/

namespace Glint.Comment

open Text

variable {c : Char} {comment body cs rest : List Char} {pos : Nat}

/-! ### Openings and comments with other text behind them -/

/-- What opens a comment does so whatever follows. -/
theorem Opens.append (h : Opens cs) (rest : List Char) : Opens (cs ++ rest) :=
  h.imp (·.trans (List.prefix_append cs rest)) (·.trans (List.prefix_append cs rest))

/-- If a text does not end in a slash, more text does not make a comment open at its start. -/
theorem not_opens_append (hplain : ¬ Opens (c :: cs)) (hlast : (c :: cs).getLast? ≠ some '/')
    (rest : List Char) : ¬ Opens (c :: cs ++ rest) := by
  cases cs with
  | nil =>
    have hc : c ≠ '/' := fun h => hlast (h ▸ rfl)
    exact not_opens_of_ne hc rest
  | cons d ds =>
    -- The two characters that decide are those of the first text.
    simpa only [Opens, List.cons_append, pair_prefix_cons_cons_iff] using hplain

/-- A comment stays one when the text behind it is cut short. -/
theorem IsComment.of_append {rest' : List Char} (h : IsComment comment (rest ++ rest')) :
    IsComment comment rest := by
  cases h with
  | line hbody hend =>
    refine .line hbody ?_
    intro c hc
    exact hend c (List.mem_head?_append_of_mem_head? hc)
  | block hbody => exact .block hbody

/-- In a line comment that goes on to the end of the text the scan stays. -/
theorem pairScan_line_open (hbody : ∀ c ∈ body, endsLine c = false) (pos : Nat) :
    (pairScan .text pos (utf8 ('/' :: '/' :: body))).1 = .line pos := by
  have hnone : ∀ byte ∈ ([] : List UInt8).head?, endsLineByte byte = true := by rintro byte ⟨⟩
  have hscan := pairScan_line (endsLineByte_eq_false hbody) hnone '/'.toUInt8 pos (pos + 1)
  rw [if_pos rfl, List.append_nil] at hscan
  have hbytes : utf8 ('/' :: '/' :: body) = '/'.toUInt8 :: '/'.toUInt8 :: utf8 body := rfl
  rw [hbytes, pairScan_opensLine, hscan]

/-- A comment after which the scan ends outside comments stays one when text is put behind. -/
theorem IsComment.append (h : IsComment comment rest)
    (hend : (pairScan .text pos (utf8 (comment ++ rest))).1 = .text) (rest' : List Char) :
    IsComment comment (rest ++ rest') := by
  cases h with
  | line hbody hbreak =>
    refine .line hbody ?_
    cases rest with
    | nil =>
      rw [List.append_nil, pairScan_line_open hbody] at hend
      cases hend
    | cons c cs => exact hbreak
  | block hbody => exact .block hbody

/-! ### The seam -/

/-- A text whose scan ends outside comments is stripped apart from what follows it, unless a
slash stands at its end. -/
theorem stripChars_append_of_outside
    (hend : (pairScan .text pos (utf8 cs)).1 = .text) (hlast : cs.getLast? ≠ some '/')
    (rest : List Char) : stripChars (cs ++ rest) = stripChars cs ++ stripChars rest := by
  induction parts cs generalizing pos with
  | nil => rfl
  | @text c cs hplain _ ih =>
    have htail : cs.getLast? ≠ some '/' := by
      cases cs with
      | nil => simp
      | cons d ds => simpa only [List.getLast?_cons_cons] using hlast
    have hjoined : ¬ Opens (c :: (cs ++ rest)) := not_opens_append hplain hlast rest
    rw [pairScan_text hplain] at hend
    rw [List.cons_append, stripChars_text hjoined, stripChars_text hplain, ih hend htail,
      List.cons_append]
  | @comment comment cs hcomment _ ih =>
    have hjoined := hcomment.append hend rest
    have htail : cs.getLast? ≠ some '/' := by
      intro h
      exact hlast (List.mem_getLast?_append_of_mem_getLast? h)
    rw [List.append_assoc, stripChars_comment hjoined, stripChars_comment hcomment]
    rcases pairScan_comment hcomment pos with hscan | ⟨-, hscan⟩
    · rw [hscan] at hend
      exact ih hend htail
    · rw [hscan] at hend
      cases hend
  | unclosed hbody =>
    rw [pairScan_unclosed hbody] at hend
    cases hend

end Glint.Comment

namespace Glint.Interface

open Comment Text

/-- The interface of a shader, or the error, depends on what is left of its text. -/
theorem ofText_eq_of_strip_eq {text text' : String} (h : strip text = strip text') (env : TypeEnv)
    (name : String) (stage : Stage) :
    ofText env ⟨name, stage, text⟩ = ofText env ⟨name, stage, text'⟩ := by
  rw [ofText, ofText, h]

/-- Behind a text whose scan ends outside comments, and which does not end in a slash, a block
comment may stand or not, and a line comment may stand before the end of a line or not: the
interface is the same, and so is the error. -/
theorem ofText_insert_comment (env : TypeEnv) (name : String) (stage : Stage) (a b : String)
    (hend : (pairScan .text 0 a.toUTF8.data.toList).1 = .text)
    (hlast : a.toList.getLast? ≠ some '/') :
    (∀ c : String, ¬ ['*', '/'] <:+: c.toList →
      ofText env ⟨name, stage, a ++ "/*" ++ c ++ "*/" ++ b⟩ = ofText env ⟨name, stage, a ++ b⟩) ∧
    ∀ c : String, '\n' ∉ c.toList → '\r' ∉ c.toList →
      ofText env ⟨name, stage, a ++ "//" ++ c ++ "\n" ++ b⟩ =
        ofText env ⟨name, stage, a ++ "\n" ++ b⟩ := by
  rw [toUTF8_eq] at hend
  have hseam := fun rest => stripChars_append_of_outside hend hlast rest
  constructor
  · intro c hc
    have hcomment : IsComment ('/' :: '*' :: (c.toList ++ ['*', '/'])) b.toList := .block hc
    have hstrip : strip (a ++ "/*" ++ c ++ "*/" ++ b) = strip (a ++ b) := by
      rw [strip, strip]
      have htext : (a ++ "/*" ++ c ++ "*/" ++ b).toList =
          a.toList ++ ('/' :: '*' :: (c.toList ++ ['*', '/']) ++ b.toList) := by
        simp [String.toList_append]
      rw [htext, String.toList_append, hseam, hseam, stripChars_comment hcomment]
    exact ofText_eq_of_strip_eq hstrip env name stage
  · intro c hline hreturn
    have hbody : ∀ d ∈ c.toList, endsLine d = false := by
      intro d hd
      rw [Bool.eq_false_iff, ne_eq, endsLine_iff]
      rintro (rfl | rfl)
      · exact hline hd
      · exact hreturn hd
    have hbreak : ∀ d ∈ ('\n' :: b.toList).head?, endsLine d = true := by
      rintro d ⟨⟩
      rfl
    have hstrip : strip (a ++ "//" ++ c ++ "\n" ++ b) = strip (a ++ "\n" ++ b) := by
      rw [strip, strip]
      have htext : (a ++ "//" ++ c ++ "\n" ++ b).toList =
          a.toList ++ ('/' :: '/' :: c.toList ++ '\n' :: b.toList) := by
        simp [String.toList_append]
      have htext' : (a ++ "\n" ++ b).toList = a.toList ++ '\n' :: b.toList := by
        simp [String.toList_append]
      rw [htext, htext', hseam, hseam, stripChars_comment (.line hbody hbreak)]
    exact ofText_eq_of_strip_eq hstrip env name stage

/-- A shader cut inside a declaration, behind a closed comment. The block comment at the cut
holds a declaration and the start of another comment, and a slash and a star stand at its ends;
the line comment holds the start of a block comment. -/
theorem ofText_insert_comment_inside :
    ofText .glsl ⟨"lit.frag", .fragment, "layout(location = 0) /* hdr */ " ++ "/*" ++
        "/ layout(location = 1) in vec4 a; // /* *" ++ "*/" ++ "out vec4 color; /"⟩ =
      ofText .glsl ⟨"lit.frag", .fragment,
        "layout(location = 0) /* hdr */ " ++ "out vec4 color; /"⟩ ∧
    ofText .glsl ⟨"lit.frag", .fragment, "layout(location = 0) /* hdr */ " ++ "//" ++
        " /* until the line ends" ++ "\n" ++ "out vec4 color; /"⟩ =
      ofText .glsl ⟨"lit.frag", .fragment,
        "layout(location = 0) /* hdr */ " ++ "\n" ++ "out vec4 color; /"⟩ := by
  obtain ⟨hblock, hline⟩ := ofText_insert_comment .glsl "lit.frag" .fragment
    "layout(location = 0) /* hdr */ " "out vec4 color; /" (by decide) (by decide)
  exact ⟨hblock _ (by decide), hline _ (by decide) (by decide)⟩

end Glint.Interface

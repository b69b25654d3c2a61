import Glint.Text.Bytes

/-!
# Comments

Shader text has two kinds of comment. A line comment starts with two slashes
and ends before the next line feed or carriage return. A block comment starts
with a slash and a star and ends with the first star and slash after those two
characters. A block comment that is never closed is not taken for a comment: it
stays in the text, together with all that follows it.

A scan finds the byte spans of the comments, in order and apart from each other;
the text is then put together from what lies between them.

## Main definitions

* `Comment.Span` — a half-open range of byte positions
* `Comment.spans` — the spans of the comments of a text, in order
* `Comment.cutFrom` — a text without some spans
* `Comment.strip` — a text without its comments
-/

namespace Glint.Comment

open Text

/-- The byte positions from `start` up to, but not including, `stop`. -/
structure Span where
  start : Nat
  stop : Nat
  deriving DecidableEq, Repr

/-- What the scan is reading: plain text, or a comment that began at a byte position. -/
inductive Mode
  | text
  | line (start : Nat)
  | block (start : Nat)
  deriving DecidableEq, Repr

/-- A character that ends a line comment. -/
def endsLine (c : Char) : Bool :=
  c == '\n' || c == '\r'

/-- The spans of the comments in a text that starts at byte `pos`, read in a given mode. -/
def spansFrom : Mode → Nat → List Char → List Span
  | .text, _, [] => []
  | .line start, pos, [] => [⟨start, pos⟩]
  | .block _, _, [] => []
  -- Both characters of an opening are passed, so a slash, a star and a slash open a block
  -- comment without closing it.
  | .text, pos, '/' :: '/' :: cs => spansFrom (.line pos) (pos + 2) cs
  | .text, pos, '/' :: '*' :: cs => spansFrom (.block pos) (pos + 2) cs
  | .text, pos, c :: cs => spansFrom .text (pos + c.utf8Size) cs
  | .line start, pos, c :: cs =>
    -- The end of the line stays in the text.
    if endsLine c then ⟨start, pos⟩ :: spansFrom .text (pos + c.utf8Size) cs
    else spansFrom (.line start) (pos + c.utf8Size) cs
  | .block start, pos, '*' :: '/' :: cs => ⟨start, pos + 2⟩ :: spansFrom .text (pos + 2) cs
  | .block start, pos, c :: cs => spansFrom (.block start) (pos + c.utf8Size) cs

/-- The spans of the comments of a text, in order. -/
def spans (cs : List Char) : List Span :=
  spansFrom .text 0 cs

/-- A text that starts at byte `pos`, without some spans given in order. -/
def cutFrom (pos : Nat) : List Span → List Char → List Char
  | [], cs => cs
  | span :: spans, cs =>
    takeBytes (span.start - pos) cs ++
      cutFrom span.stop spans (dropBytes (span.stop - pos) cs)

/-- The characters of a text without its comments. -/
def stripChars (cs : List Char) : List Char :=
  cutFrom 0 (spans cs) cs

/-- A text without its comments. -/
def strip (source : String) : String :=
  String.ofList (stripChars source.toList)

end Glint.Comment

import Glint.Text.Bytes
import Glint.Text.Blank

/-!
# Tokens

Shader text is read as identifiers, numbers and single punctuation characters.
White space separates tokens. A hash sign begins a preprocessor line, which is
skipped up to the next line feed wherever the sign stands. A number goes on
through letters, underscores and points, so `1.5e2f` is one token.

## Main definitions

* `Token` — a token with its text and the byte position where it starts
* `Token.scan` — the tokens of a text
* `Token.spells`, `Token.spellsAnyCase`, `Token.isPunct` — tests on a single token
-/

namespace Glint

open Text

/-- The three kinds of token. -/
inductive TokenKind
  | ident
  | number
  | punct (c : Char)
  deriving DecidableEq, Repr

/-- A token of a shader text: its kind, its text and the byte position of its start. -/
structure Token where
  kind : TokenKind
  text : String
  offset : Nat
  deriving DecidableEq, Repr

namespace Token

/-- The byte position after the token. -/
def stop (t : Token) : Nat :=
  t.offset + byteLength t.text.toList

/-- The token is an identifier. -/
def isIdent (t : Token) : Bool :=
  t.kind == .ident

/-- The token is the punctuation character `c`. -/
def isPunct (t : Token) (c : Char) : Bool :=
  t.kind == .punct c

/-- The token is a punctuation character. -/
def isAnyPunct (t : Token) : Bool :=
  match t.kind with
  | .punct _ => true
  | _ => false

/-- The token is the identifier `word`, written exactly so. -/
def spells (t : Token) (word : String) : Bool :=
  t.isIdent && t.text == word

/-- Two texts are equal when the case of ASCII letters is disregarded. -/
def sameWord (a b : String) : Bool :=
  a.toList.map Char.toLower == b.toList.map Char.toLower

/-- The token is the identifier `word`, in upper or lower case. -/
def spellsAnyCase (t : Token) (word : String) : Bool :=
  t.isIdent && sameWord t.text word

/-- The token is one of the given identifiers. -/
def isOneOf (t : Token) (words : List String) : Bool :=
  words.any t.spells

end Token

/-- A character that can start an identifier. -/
def isIdentStart (c : Char) : Bool :=
  c.isAlpha || c == '_'

/-- A character that continues an identifier. -/
def isIdentPart (c : Char) : Bool :=
  c.isAlphanum || c == '_'

/-- A character that continues a number. -/
def isNumberPart (c : Char) : Bool :=
  isIdentPart c || c == '.'

/-- A character of a preprocessor line. -/
def isLinePart (c : Char) : Bool :=
  c != '\n'

private theorem length_dropWhile_le (p : Char → Bool) (cs : List Char) :
    (cs.dropWhile p).length ≤ cs.length :=
  (List.dropWhile_suffix p).length_le

/-- The tokens of a text that starts at byte `pos`. -/
def Token.scanFrom (pos : Nat) : List Char → List Token
  | [] => []
  | c :: cs =>
    -- A preprocessor line leaves its line feed to the blanks.
    if c == '#' then
      scanFrom (pos + byteLength (c :: cs.takeWhile isLinePart)) (cs.dropWhile isLinePart)
    else if isBlank c then
      scanFrom (pos + c.utf8Size) cs
    else if isIdentStart c then
      ⟨.ident, String.ofList (c :: cs.takeWhile isIdentPart), pos⟩ ::
        scanFrom (pos + byteLength (c :: cs.takeWhile isIdentPart)) (cs.dropWhile isIdentPart)
    else if c.isDigit then
      ⟨.number, String.ofList (c :: cs.takeWhile isNumberPart), pos⟩ ::
        scanFrom (pos + byteLength (c :: cs.takeWhile isNumberPart)) (cs.dropWhile isNumberPart)
    else
      ⟨.punct c, String.ofList [c], pos⟩ :: scanFrom (pos + c.utf8Size) cs
termination_by cs => cs.length
decreasing_by
  all_goals simp only [List.length_cons]
  all_goals first
    | exact Nat.lt_succ_self _
    | exact Nat.lt_succ_of_le (length_dropWhile_le _ _)

/-- The tokens of a text. -/
def Token.scan (source : String) : List Token :=
  Token.scanFrom 0 source.toList

end Glint

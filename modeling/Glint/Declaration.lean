import Glint.Error
import Glint.Token

/-!
# Layout declarations

A layout declaration begins at the word `layout`, in upper or lower case, and
runs to the first semicolon outside the braces that it opens. After the word
stands a qualifier in parentheses, a list of keys some of which have values;
the tokens that follow the qualifier are the body. All other tokens of a shader
are passed over.

A declaration without braces whose body ends in the keyword `in` is a setting of
the whole stage, such as the size of a work group. It declares nothing and is
left out.

## Main definitions

* `Declaration` — a layout declaration with its entries and its body
* `Declaration.word?`, `Declaration.word` — the number given to a key
* `Declaration.splitEnd` — the tokens of a declaration and those after it
* `Declaration.readAll` — the layout declarations of a shader text, in order

## Main results

* `Declaration.length_of_splitEnd` — what follows a declaration is shorter
-/

namespace Glint

/-- One entry of a layout qualifier: a key, and its value if it has one. -/
structure LayoutEntry where
  key : String
  value? : Option String
  deriving DecidableEq, Repr

/-- A layout declaration: the byte position of its start, its text up to the semicolon,
the entries of its qualifier and the tokens after the qualifier. -/
structure Declaration where
  offset : Nat
  text : String
  entries : List LayoutEntry
  body : List Token
  deriving DecidableEq, Repr

namespace Declaration

/-! ### Questions about a declaration -/

/-- The first entry with a key, in upper or lower case. -/
def entry? (d : Declaration) (key : String) : Option LayoutEntry :=
  d.entries.find? fun entry => Token.sameWord entry.key key

/-- The number given to a key, if the key is present. -/
def word? (d : Declaration) (key : String) : Except ReflectError (Option UInt32) :=
  match d.entry? key with
  | none => .ok none
  | some entry =>
    match entry.value?.bind fun value => Text.decimal? value.toList with
    | some word => .ok (some word)
    | none => .error (.malformed d.offset (.qualifierNotInteger key))

/-- The number given to a key that has to be present. -/
def word (d : Declaration) (key : String) : Except ReflectError UInt32 :=
  match d.word? key with
  | .ok (some word) => .ok word
  | .ok none => .error (.malformed d.offset (.qualifierMissing key))
  | .error e => .error e

/-- The body opens a brace. -/
def hasBlock (d : Declaration) : Bool :=
  d.body.any (·.isPunct '{')

/-- The declaration is a setting of the whole stage. -/
def isStageSetting (d : Declaration) : Bool :=
  d.body.getLast?.any (·.spells "in") && !d.hasBlock

/-! ### Reading the qualifier -/

/-- The entries of a qualifier after its opening parenthesis, and the tokens after the
closing one. An error at the end of the declaration is reported at `last`. -/
def readEntries (last : Nat) : List Token → Except ReflectError (List LayoutEntry × List Token)
  | [] => .error (.malformed last .unclosedQualifier)
  | key :: ts =>
    if key.isPunct ')' then .ok ([], ts)
    else if !key.isIdent then .error (.malformed key.offset .missingQualifierName)
    else
      match ts with
      | [] => .error (.malformed last .unclosedQualifier)
      | sign :: ts =>
        if sign.isPunct '=' then
          match ts with
          | [] => .error (.malformed key.offset .missingQualifierValue)
          | value :: ts =>
            if value.isAnyPunct then .error (.malformed key.offset .missingQualifierValue)
            else
              match ts with
              | [] => .error (.malformed last .unclosedQualifier)
              | next :: ts => readNext ⟨key.text, some value.text⟩ next ts (readEntries last ts)
        else readNext ⟨key.text, none⟩ sign ts (readEntries last ts)
where
  /-- What follows an entry: a comma and more entries, or the closing parenthesis. -/
  readNext (entry : LayoutEntry) (next : Token) (ts : List Token)
      (more : Except ReflectError (List LayoutEntry × List Token)) :
      Except ReflectError (List LayoutEntry × List Token) :=
    -- More entries may be none: a comma may stand before the closing parenthesis.
    if next.isPunct ',' then more.map fun (entries, rest) => (entry :: entries, rest)
    else if next.isPunct ')' then .ok ([entry], ts)
    else .error (.malformed next.offset .missingQualifierSeparator)

/-- The declaration that consists of the word `layout` and the tokens up to its semicolon. -/
def read (source : List Char) (first : Token) (inner : List Token) :
    Except ReflectError Declaration :=
  let last := inner.getLast?.getD first
  match inner with
  | [] => .error (.malformed last.offset .missingQualifier)
  | t :: ts =>
    if t.isPunct '(' then
      (readEntries last.offset ts).map fun (entries, body) =>
        { offset := first.offset
          text := String.ofList (Text.slice first.offset last.stop source)
          entries := entries
          body := body }
    else .error (.malformed last.offset .missingQualifier)

/-! ### Finding the declarations -/

/-- The tokens before the semicolon that ends a declaration and those after it, where
`depth` braces are open. The declaration starts at byte `start`. -/
def splitEnd (start : Nat) (depth : Nat) :
    List Token → Except ReflectError (List Token × List Token)
  | [] => .error (.malformed start .unterminated)
  | t :: ts =>
    if t.isPunct '{' then prepend t (splitEnd start (depth + 1) ts)
    else if t.isPunct '}' then
      -- The declaration may only close braces that it opened.
      if depth = 0 then .error (.malformed t.offset .unbalancedBrace)
      else prepend t (splitEnd start (depth - 1) ts)
    else if t.isPunct ';' && depth == 0 then .ok ([], ts)
    else prepend t (splitEnd start depth ts)
where
  /-- Put a token before the first part of a split. -/
  prepend (t : Token) (split : Except ReflectError (List Token × List Token)) :
      Except ReflectError (List Token × List Token) :=
    split.map fun (inner, rest) => (t :: inner, rest)

theorem splitEnd.prepend_eq_ok {t : Token} {inner rest : List Token}
    {split : Except ReflectError (List Token × List Token)}
    (h : splitEnd.prepend t split = .ok (inner, rest)) :
    ∃ inner', split = .ok (inner', rest) ∧ inner = t :: inner' := by
  cases split with
  | error e => cases h
  | ok parts =>
    cases h
    exact ⟨parts.1, rfl, rfl⟩

/-- The tokens of a declaration, its semicolon and the tokens after it are the tokens that
were split. -/
theorem length_of_splitEnd {start depth : Nat} {ts inner rest : List Token}
    (h : splitEnd start depth ts = .ok (inner, rest)) :
    inner.length + 1 + rest.length = ts.length := by
  induction ts generalizing depth inner with
  | nil => cases h
  | cons t ts ih =>
    rw [splitEnd] at h
    split at h
    · obtain ⟨inner', h', rfl⟩ := splitEnd.prepend_eq_ok h
      have := ih h'
      simp only [List.length_cons]
      omega
    · split at h
      · split at h
        · cases h
        · obtain ⟨inner', h', rfl⟩ := splitEnd.prepend_eq_ok h
          have := ih h'
          simp only [List.length_cons]
          omega
      · split at h
        · cases h
          simp
          omega
        · obtain ⟨inner', h', rfl⟩ := splitEnd.prepend_eq_ok h
          have := ih h'
          simp only [List.length_cons]
          omega

/-- The layout declarations among the tokens of a text, in order. -/
def readTokens (source : List Char) : List Token → Except ReflectError (List Declaration)
  | [] => .ok []
  | t :: ts =>
    if t.spellsAnyCase "layout" then
      match _h : splitEnd t.offset 0 ts with
      | .error e => .error e
      | .ok (inner, rest) => do
        let d ← read source t inner
        let ds ← readTokens source rest
        return if d.isStageSetting then ds else d :: ds
    else readTokens source ts
termination_by ts => ts.length
decreasing_by
  · have := length_of_splitEnd _h
    simp only [List.length_cons]
    omega
  · exact Nat.lt_succ_self _

/-- The layout declarations of a text without comments, in order. -/
def readAll (source : String) : Except ReflectError (List Declaration) :=
  readTokens source.toList (Token.scan source)

end Declaration

end Glint

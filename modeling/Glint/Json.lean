/-!
# JSON values

The values that records are written as. An object keeps its fields in the order in
which they were written. A number is kept as it is written: an integer, and how
many of its digits stand after the point.

## Main definitions

* `Json` — JSON values
* `Json.field?` — a field of an object
* `Json.pretty` — the text of a value, indented by two spaces a level
-/

namespace Glint

/-- A JSON value. -/
inductive Json
  | null
  | bool (value : Bool)
  | number (digits : Int) (decimals : Nat)
  | string (text : String)
  | array (items : List Json)
  | object (fields : List (String × Json))
  deriving Repr, Inhabited

namespace Json

/-- An integer. -/
def ofNat (n : Nat) : Json :=
  .number n 0

/-- The first field of an object with a given name. -/
def field? : Json → String → Option Json
  | .object fields, key => fields.lookup key
  | _, _ => none

/-! ### The text of a value -/

/-- A digit of a hexadecimal escape. -/
def hexDigit (n : Nat) : Char :=
  Nat.digitChar (n % 16)

/-- A character inside a string. Quotes, backslashes and control characters are escaped. -/
def escapeChar (c : Char) : List Char :=
  if c = '"' then ['\\', '"']
  else if c = '\\' then ['\\', '\\']
  else if c = '\x08' then ['\\', 'b']
  else if c = '\t' then ['\\', 't']
  else if c = '\n' then ['\\', 'n']
  else if c = '\x0c' then ['\\', 'f']
  else if c = '\r' then ['\\', 'r']
  -- The other control characters have no letter of their own.
  else if c.toNat < 0x20 then ['\\', 'u', '0', '0', hexDigit (c.toNat / 16), hexDigit c.toNat]
  else [c]

/-- A string between quotes. -/
def quote (text : String) : String :=
  String.ofList ('"' :: text.toList.flatMap escapeChar ++ ['"'])

/-- A number with its point. -/
def numberText (digits : Int) (decimals : Nat) : String :=
  let sign := if digits < 0 then "-" else ""
  let magnitude := (toString digits.natAbs).toList
  let padded := List.replicate (decimals + 1 - magnitude.length) '0' ++ magnitude
  let whole := padded.take (padded.length - decimals)
  let fraction := padded.drop (padded.length - decimals)
  sign ++ String.ofList (if decimals = 0 then whole else whole ++ '.' :: fraction)

/-- A new line at a level of indentation. -/
def newline (level : Nat) : String :=
  String.ofList ('\n' :: List.replicate (2 * level) ' ')

/-- Parts between brackets: each on a line of its own one level further in, or nothing if
there are none. -/
def bracket (level : Nat) (opening closing : String) : List String → String
  | [] => opening ++ closing
  | parts =>
    opening ++ newline (level + 1) ++ ("," ++ newline (level + 1)).intercalate parts ++
      newline level ++ closing

mutual

/-- The text of a value at a level of indentation. -/
def textAt (level : Nat) : Json → String
  | .null => "null"
  | .bool value => if value then "true" else "false"
  | .number digits decimals => numberText digits decimals
  | .string text => quote text
  | .array items => bracket level "[" "]" (itemTexts (level + 1) items)
  | .object fields => bracket level "\x7b" "\x7d" (fieldTexts (level + 1) fields)

/-- The texts of the items of an array. -/
def itemTexts (level : Nat) : List Json → List String
  | [] => []
  | item :: items => textAt level item :: itemTexts level items

/-- The texts of the fields of an object. -/
def fieldTexts (level : Nat) : List (String × Json) → List String
  | [] => []
  | (key, value) :: fields => (quote key ++ ": " ++ textAt level value) :: fieldTexts level fields

end

/-- The text of a value, indented by two spaces a level. -/
def pretty (value : Json) : String :=
  textAt 0 value

end Json

end Glint

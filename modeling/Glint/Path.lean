import Glint.Text.Split

/-!
# Paths

A path is a text whose names are separated by slashes. Empty names and single
points have no meaning inside a path, so a trailing slash does not change which
file a path means, while two points stand for the directory above.

## Main definitions

* `Path.fileName?`, `Path.stem?`, `Path.extension?` — the last name of a path and its parts
* `Path.join`, `Path.joinAll` — a path continued by others
* `Path.below?` — what remains of a path below a directory
* `Path.steps`, `Path.names` — the names that a path goes through, and those that lead to a file
* `Path.above`, `Path.resolve` — the directories that names go through, and where they lead
-/

namespace Glint.Path

open Text

/-- The pieces of a path between its slashes. -/
def pieces (path : String) : List (List Char) :=
  splitWhere (· == '/') path.toList

/-- A piece without meaning: nothing, or a single point. -/
def isIdle (piece : List Char) : Bool :=
  piece == [] || piece == ['.']

/-- The piece for the directory above. -/
def isParent (piece : List Char) : Bool :=
  piece == ['.', '.']

/-- The path starts at the root. -/
def isAbsolute (path : String) : Bool :=
  path.toList.head? == some '/'

/-! ### The last name -/

/-- The last name of a path, if it is not the directory above. -/
def fileName? (path : String) : Option String :=
  match (pieces path).reverse.dropWhile isIdle with
  | [] => none
  | piece :: _ => if isParent piece then none else some (String.ofList piece)

/-- The parts of a name before and after its last point. A name has no extension if it has
no point, or only one that starts it. -/
def splitName (name : String) : String × Option String :=
  match splitLast? (· == '.') name.toList with
  -- A point that starts the name belongs to the stem.
  | some (before@(_ :: _), after) => (String.ofList before, some (String.ofList after))
  | some ([], _) | none => (name, none)

/-- The last name of a path without its extension. -/
def stem? (path : String) : Option String :=
  (fileName? path).map fun name => (splitName name).1

/-- The extension of the last name of a path. -/
def extension? (path : String) : Option String :=
  (fileName? path).bind fun name => (splitName name).2

/-! ### Joining -/

/-- A path continued by another. An absolute path replaces the one before it. -/
def join (base path : String) : String :=
  if isAbsolute path then path
  else
    match base.toList.getLast? with
    | none | some '/' => base ++ path
    | some _ => base ++ "/" ++ path

/-- Paths joined one after the other. -/
def joinAll (paths : List String) : String :=
  paths.foldl join ""

/-! ### Below a directory -/

/-- The pieces of a path after those that name a directory. -/
def dropNames? : List (List Char) → List (List Char) → Option (List (List Char))
  | [], path => some path
  | _ :: _, [] => none
  | name :: names, piece :: path =>
    if isIdle piece then dropNames? (name :: names) path
    else if piece = name then dropNames? names path
    else none

/-- The pieces of a path without idle ones at its ends. -/
def trimPieces (path : List (List Char)) : List (List Char) :=
  ((path.dropWhile isIdle).reverse.dropWhile isIdle).reverse

/-- What remains of an absolute path below an absolute directory. -/
def below? (base path : String) : Option String :=
  if isAbsolute base && isAbsolute path then
    (dropNames? ((pieces base).filter fun piece => !isIdle piece) (pieces path)).map fun rest =>
      String.ofList (['/'].intercalate (trimPieces rest))
  else none

/-! ### Names that lead to a file -/

/-- The names that a path goes through. For an absolute path the first of them is the root. -/
def steps (path : String) : List String :=
  (if isAbsolute path then ["/"] else []) ++
    ((pieces path).filter fun piece => piece != []).map String.ofList

/-- The names that lead to the file at a path. A slash at the end stands for the directory
itself. -/
def names (path : String) : List String :=
  steps path ++ if path.toList.getLast? == some '/' then ["."] else []

/-- Names without the single points at their end. -/
def trimPoints (names : List String) : List String :=
  (names.reverse.dropWhile (· == ".")).reverse

/-- Names that go one step further each, from the directory `dir` on. -/
def onward (dir : List String) : List String → List (List String)
  | [] => []
  | name :: rest => (dir ++ [name]) :: onward (dir ++ [name]) rest

/-- The directories that names go through, from the last one back. -/
def above (names : List String) : List (List String) :=
  ((onward [] (trimPoints names)).dropLast.filter fun dir => dir.getLast? != some ".").reverse

/-- A name that leads somewhere from every directory. -/
def isFixed (name : String) : Bool :=
  name == "." || name == ".." || name == "/"

/-- The directory above. -/
def up (dir : List String) : List String :=
  if dir = ["/"] then dir
  else if dir.all (· == "..") then dir ++ [".."]
  else dir.dropLast

/-- Follow one name from a directory. -/
def follow (dir : List String) (name : String) : List String :=
  if name = "." then dir else if name = ".." then up dir else dir ++ [name]

/-- Where the names of a path lead to from the working directory. -/
def resolve (names : List String) : List String :=
  names.foldl follow []

end Glint.Path

import Glint.Path

/-!
# Files and directories

The part of a file system that a build reads and writes, as the names that lead
from the working directory to each file and directory.

## Main definitions

* `FileTree` — files and directories by the names that lead to them
* `FileTree.find`, `FileTree.list`, `FileTree.readText` — look at a tree
* `FileTree.makeDirectory`, `FileTree.writeText` — change a tree
* `FileTree.changes` — what one tree has that another has not
-/

namespace Glint

/-- The ways in which a file operation fails. -/
inductive FileFailure
  | notFound
  | fileExists
  | notDirectory
  | isDirectory
  | nameTooLong
  | invalidName
  | invalidText
  deriving DecidableEq, Repr

/-- The wording of a failure. -/
def FileFailure.message : FileFailure → String
  | notFound => "No such file or directory (os error 2)"
  | fileExists => "File exists (os error 17)"
  | notDirectory => "Not a directory (os error 20)"
  | isDirectory => "Is a directory (os error 21)"
  | nameTooLong => "File name too long (os error 36)"
  | invalidName => "file name contained an unexpected NUL byte"
  | invalidText => "stream did not contain valid UTF-8"

/-- A file with its bytes, or a directory. -/
inductive FileNode
  | file (contents : ByteArray)
  | directory

instance : DecidableEq FileNode
  | .file a, .file b =>
    match ByteArray.instDecidableEq a b with
    | .isTrue h => .isTrue (congrArg FileNode.file h)
    | .isFalse h => .isFalse fun h' => h (FileNode.file.inj h')
  | .file _, .directory => .isFalse nofun
  | .directory, .file _ => .isFalse nofun
  | .directory, .directory => .isTrue rfl

/-- Files and directories by the names that lead to them. -/
structure FileTree where
  nodes : List (List String × FileNode)

namespace FileTree

/-- The tree with nothing in the working directory. -/
def empty : FileTree :=
  ⟨[]⟩

/-- The number of bytes that a name may have. -/
def maxNameLength : Nat :=
  255

/-- Follow names from the directory `dir`. -/
def findFrom (tree : FileTree) (dir : List String) : List String → Except FileFailure FileNode
  | [] => .ok .directory
  | name :: rest =>
    if Path.isFixed name then findFrom tree (Path.follow dir name) rest
    else if maxNameLength < name.utf8ByteSize then .error .nameTooLong
    else
      match tree.nodes.lookup (dir ++ [name]) with
      | none => .error .notFound
      | some (.file contents) =>
        -- A file leads no further.
        if rest.isEmpty then .ok (.file contents) else .error .notDirectory
      | some .directory => findFrom tree (dir ++ [name]) rest

/-- The file or directory that names lead to. No name holds the character of code zero. -/
def find (tree : FileTree) (names : List String) : Except FileFailure FileNode :=
  if names.any fun name => name.toList.contains '\x00' then .error .invalidName
  else findFrom tree [] names

/-- The name of a node in the directory `dir`, if it stands there. -/
def nameIn? (dir : List String) (node : List String × FileNode) : Option String :=
  match node.1.getLast? with
  | some name => if node.1 = dir ++ [name] then some name else none
  | none => none

/-- The names in the directory that a path leads to. -/
def list (tree : FileTree) (names : List String) : Except FileFailure (List String) :=
  match tree.find names with
  | .ok .directory => .ok (tree.nodes.filterMap (nameIn? (Path.resolve names)))
  | .ok (.file _) => .error .notDirectory
  | .error failure => .error failure

/-- The text of the file that a path leads to. -/
def readText (tree : FileTree) (names : List String) : Except FileFailure String :=
  match tree.find names with
  | .ok (.file contents) =>
    match String.fromUTF8? contents with
    | some text => .ok text
    | none => .error .invalidText
  | .ok .directory => .error .isDirectory
  | .error failure => .error failure

/-- Put a node where some names lead to, in place of the one that is there. -/
def put (names : List String) (node : FileNode) :
    List (List String × FileNode) → List (List String × FileNode)
  | [] => [(names, node)]
  | old :: others => if old.1 = names then (names, node) :: others else old :: put names node others

/-- Put a node into a directory that is there. -/
def add (tree : FileTree) (names : List String) (node : FileNode) : Except FileFailure FileTree :=
  match tree.find names.dropLast with
  | .error failure => .error failure
  | .ok _ => .ok ⟨put (Path.resolve names) node tree.nodes⟩

/-- Make a directory inside another, unless it is there already. -/
def makeStep (tree : FileTree) (names : List String) : Except FileFailure FileTree :=
  match tree.find names with
  | .ok .directory => .ok tree
  | .ok (.file _) => .error .fileExists
  | .error .notFound => tree.add names .directory
  | .error failure => .error failure

/-- Make the first of some directories, each of which stands inside the next. Those that it
needs are made before it, and stay when the making of a later one fails. -/
def makeFrom (tree : FileTree) : List (List String) → FileTree × Option FileFailure
  | [] => (tree, none)
  | names :: above =>
    match tree.makeStep names with
    | .ok made => (made, none)
    | .error .notFound =>
      match makeFrom tree above with
      | (made, some failure) => (made, some failure)
      | (made, none) =>
        match made.makeStep names with
        | .ok whole => (whole, none)
        | .error failure => (made, some failure)
    | .error failure => (tree, some failure)

/-- Make the directory that names lead to, with all those that they go through. A single point
at the end names a directory that has to be there already, since it is not made. -/
def makeDirectory (tree : FileTree) (names : List String) : FileTree × Option FileFailure :=
  makeFrom tree (names :: Path.above names)

/-- Write a text to a file in a directory that exists. -/
def writeText (tree : FileTree) (names : List String) (text : String) :
    Except FileFailure FileTree :=
  match tree.find names with
  | .ok .directory => .error .isDirectory
  | .ok (.file _) | .error .notFound => tree.add names (.file text.toUTF8)
  | .error failure => .error failure

/-- The nodes that a tree has and another has not. -/
def changes (tree before : FileTree) : List (List String × FileNode) :=
  tree.nodes.filter fun node => !before.nodes.contains node

end FileTree

end Glint

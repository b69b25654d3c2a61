import Glint.CommandLine

/-!
# The program

Reads the part of the file system that a run looks at, runs the command on it, and
writes the directories and files that the run adds.
-/

namespace Glint.Main

/-- What stands where names lead to, with the contents of a file left out. -/
def findNode? (names : List String) : IO (Option FileNode) := do
  match ← (IO.FS.realPath (Path.joinAll names)).toBaseIO with
  | .ok path => return some (if ← path.isDir then .directory else .file .empty)
  | .error _ => return none

/-- Add what stands on the way to a directory. -/
def readWay (tree : FileTree) (dir : String) : IO FileTree := do
  let mut nodes := tree.nodes
  for names in (Path.steps dir :: Path.above (Path.steps dir)).reverse do
    if let some node ← findNode? names then
      nodes := FileTree.put (Path.resolve names) node nodes
  return ⟨nodes⟩

/-- The directory, or the shader file, at a directory entry. -/
def readNode? (entry : IO.FS.DirEntry) : IO (Option FileNode) := do
  if ← entry.path.isDir then return some .directory
  -- Other files do not matter to a run, so they are not read.
  if (Stage.ofPath? entry.fileName).isNone then return none
  return some (.file (← IO.FS.readBinFile entry.path))

/-- Add the directories and the shader files in a directory, if it is there. -/
def readEntries (tree : FileTree) (dir : String) : IO FileTree := do
  let .ok root ← (IO.FS.realPath dir).toBaseIO | return tree
  unless ← root.isDir do return tree
  let mut nodes := tree.nodes
  for entry in ← root.readDir do
    if let some node ← readNode? entry then
      nodes := FileTree.put (Path.resolve (Path.steps dir) ++ [entry.fileName]) node nodes
  return ⟨nodes⟩

/-- The tree that a run starts from. -/
def readTree (config : BuildConfig) : IO FileTree := do
  let mut tree := FileTree.empty
  for dir in [config.output, config.source] do
    tree ← readEntries (← readWay tree dir) dir
  return tree

/-- Write a directory or a file. -/
def writeNode (names : List String) (node : FileNode) : IO Unit :=
  let path := Path.joinAll names
  match node with
  | .directory => IO.FS.createDirAll path
  | .file contents => IO.FS.writeBinFile path contents

/-- The variables of the environment that the command looks at. -/
def readEnvironment : IO (String → Option String) := do
  let names := ["SHADERS_SOURCE_DIR", "REFLECTION_OUTPUT_DIR"]
  let values ← names.mapM fun name => IO.getEnv name
  return fun name => ((names.zip values).lookup name).join

end Glint.Main

/-- Build the reports of the source directory. -/
def main : IO UInt32 := do
  let env ← Glint.Main.readEnvironment
  let tree ← Glint.Main.readTree (Glint.CommandLine.config env)
  let outcome := Glint.CommandLine.run env tree
  for (names, node) in outcome.tree.changes tree do
    Glint.Main.writeNode names node
  IO.eprint outcome.errors
  return outcome.code

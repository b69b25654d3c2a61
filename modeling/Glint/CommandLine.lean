import Glint.Build

/-!
# The command line

The command builds the reports of one directory into another. Both are taken from
the environment, and have a default when they are not set or empty.

## Main definitions

* `CommandLine.config` — the directories that the environment names
* `CommandLine.run` — the exit code, the messages and the files of a run
-/

namespace Glint.CommandLine

/-- The directory that a variable of the environment names, or a default if it is not set or
empty. -/
def directory (env : String → Option String) (name fallback : String) : String :=
  match env name with
  | some dir => if dir.isEmpty then fallback else dir
  | none => fallback

/-- The directories that the environment names. -/
def config (env : String → Option String) : BuildConfig :=
  { source := directory env "SHADERS_SOURCE_DIR" (Path.joinAll ["shaders", "source"])
    output := directory env "REFLECTION_OUTPUT_DIR" (Path.joinAll ["shaders", "reflected"]) }

/-- What a run leaves: the exit code, the text of the error stream and the files. -/
structure Outcome where
  code : UInt32
  errors : String
  tree : FileTree

/-- Run the command in an environment. -/
def run (env : String → Option String) (tree : FileTree) : Outcome :=
  let result := Build.run (config env) tree
  match result.error? with
  | none => ⟨0, "", result.tree⟩
  | some error => ⟨1, "Error: " ++ error.message ++ "\n", result.tree⟩

end Glint.CommandLine

import Glint.Record
import Glint.ShaderFile

/-!
# Building the reports of a directory

The shader files of a directory that share a stem make up a pipeline. A build
reads each pipeline in the order of the stems, and within it the files in pipeline
order, and writes one report for it, named by the stem. The first error ends the
build; the reports written before it stay.

## Main definitions

* `ShaderGroup` — the shader files with one stem
* `ShaderGroup.ofNames` — the groups of the files of a directory
* `Report.ofGroup` — the report of a group
* `Build.run` — write the reports of a directory
-/

namespace Glint

/-- A shader file of a directory, by its stage and its name. -/
structure ShaderEntry where
  stage : Stage
  name : String
  deriving DecidableEq, Repr

/-- The shader files of a directory that share a stem, in pipeline order. -/
structure ShaderGroup where
  stem : String
  entries : List ShaderEntry
  deriving DecidableEq, Repr

/-- The entry comes before another: by its stage, then by its name. -/
def ShaderEntry.before (a b : ShaderEntry) : Bool :=
  a.stage.rank < b.stage.rank || a.stage.rank == b.stage.rank && a.name < b.name

namespace ShaderGroup

/-- Put an entry in its place among others. -/
def insertEntry (new : ShaderEntry) : List ShaderEntry → List ShaderEntry
  | [] => [new]
  | old :: others => if old.before new then old :: insertEntry new others else new :: old :: others

/-- Put an entry into the group of its stem, in a list of groups in ascending order. -/
def insert (stem : String) (new : ShaderEntry) : List ShaderGroup → List ShaderGroup
  | [] => [⟨stem, [new]⟩]
  | group :: groups =>
    if group.stem = stem then ⟨stem, insertEntry new group.entries⟩ :: groups
    else if stem < group.stem then ⟨stem, [new]⟩ :: group :: groups
    else group :: insert stem new groups

/-- Put the file with a given name into its group, if it is a shader file. -/
def insertName (groups : List ShaderGroup) (name : String) : List ShaderGroup :=
  match Stage.ofPath? name, Path.stem? name with
  | some stage, some stem => insert stem ⟨stage, name⟩ groups
  | _, _ => groups

/-- The groups of the shader files among the names of a directory, by ascending stems. -/
def ofNames (names : List String) : List ShaderGroup :=
  names.foldl insertName []

end ShaderGroup

/-- What stops a build. -/
inductive BuildError
  | load (error : LoadError)
  | shader (path : String) (error : ReflectError)
  | pipeline (name : String) (error : ReflectError)
  deriving DecidableEq, Repr

/-- The wording of an error. -/
def BuildError.message : BuildError → String
  | load error => error.message
  | shader path error => path ++ ": " ++ error.message
  | pipeline name error => "pipeline '" ++ name ++ "': " ++ error.message

/-- The failure of a file operation that stops a build. -/
def BuildError.ofFailure (failure : FileFailure) : BuildError :=
  .load (.file failure)

/-- The interface of the shader file at a path. -/
def Interface.ofFile (tree : FileTree) (path : String) : Except BuildError Interface := do
  let source ← (ShaderText.load tree path).mapError .load
  (Interface.ofText .glsl source).mapError (.shader path)

/-- The report of a group of shader files in the directory `dir`. -/
def Report.ofGroup (tree : FileTree) (dir : String) (group : ShaderGroup) :
    Except BuildError Report := do
  let shaders ← group.entries.mapM fun entry => Interface.ofFile tree (Path.join dir entry.name)
  let pipeline ← (Pipeline.ofInterfaces (fun _ => false) shaders).mapError (.pipeline group.stem)
  return ⟨group.stem, shaders, pipeline⟩

/-- The text of a report. -/
def Report.text (report : Report) : String :=
  (Record.toJson report).pretty

/-- The directory that a build reads and the directory that it writes. -/
structure BuildConfig where
  source : String
  output : String
  deriving DecidableEq, Repr

/-- What a build leaves: the files, the paths that it wrote in order, and what stopped it. -/
structure BuildResult where
  tree : FileTree
  written : List String
  error? : Option BuildError

namespace Build

/-- The path of the report of a group. -/
def reportPath (config : BuildConfig) (group : ShaderGroup) : String :=
  Path.join config.output (group.stem ++ ".json")

/-- Write the report of a group. -/
def writeGroup (config : BuildConfig) (tree : FileTree) (group : ShaderGroup) :
    Except BuildError FileTree := do
  let report ← Report.ofGroup tree config.source group
  (tree.writeText (Path.names (reportPath config group)) report.text).mapError .ofFailure

/-- Write the reports of groups until one fails. -/
def writeGroups (config : BuildConfig) (tree : FileTree) : List ShaderGroup → BuildResult
  | [] => ⟨tree, [], none⟩
  | group :: groups =>
    match writeGroup config tree group with
    | .error error => ⟨tree, [], some error⟩
    | .ok tree =>
      let result := writeGroups config tree groups
      { result with written := reportPath config group :: result.written }

/-- Write the reports of the source directory. The output directory is made once the source
directory has been listed. -/
def run (config : BuildConfig) (tree : FileTree) : BuildResult :=
  match tree.list (Path.names config.source) with
  | .error failure => ⟨tree, [], some (.ofFailure failure)⟩
  | .ok names =>
    -- Nothing is made when the source directory cannot be listed.
    match tree.makeDirectory (Path.steps config.output) with
    | (made, some failure) => ⟨made, [], some (.ofFailure failure)⟩
    | (made, none) => writeGroups config made (ShaderGroup.ofNames names)

end Build

end Glint

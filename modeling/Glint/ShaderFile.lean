import Glint.FileTree
import Glint.Interface
import Glint.Text.Quoted

/-!
# Shader files

The extension of a file tells the stage of its shader, and a file whose extension
is that of no stage is no shader file. The same rule decides which files a build
reads and which changes of files matter to it.

## Main definitions

* `Stage.ofPath?` — the stage of a shader file
* `ShaderText.load` — read a shader file
* `FileEvent.changesShader` — the event changes a shader file
-/

namespace Glint

/-- The stage of the shader file at a path. -/
def Stage.ofPath? (path : String) : Option Stage :=
  (Path.extension? path).bind Stage.ofExtension?

/-- What stops the reading of a shader file. -/
inductive LoadError
  | unknownStage (extension : String)
  | file (failure : FileFailure)
  deriving DecidableEq, Repr

/-- The wording of an error. -/
def LoadError.message : LoadError → String
  | unknownStage extension => "no shader stage for file extension: " ++ Text.quoted extension
  | file failure => failure.message

/-- Read the shader file at a path. The extension is looked at before the file is. -/
def ShaderText.load (tree : FileTree) (path : String) : Except LoadError ShaderText :=
  match Stage.ofPath? path with
  | none => .error (.unknownStage ((Path.extension? path).getD ""))
  | some stage =>
    match tree.readText (Path.names path) with
    | .ok text => .ok ⟨(Path.fileName? path).getD "", stage, text⟩
    | .error failure => .error (.file failure)

/-- What happened to a file. -/
inductive FileEventKind
  | create
  | modify
  | remove
  | access
  | any
  | other
  deriving DecidableEq, Repr

namespace FileEventKind

/-- The name of a kind of event. -/
def name : FileEventKind → String
  | .create => "create"
  | .modify => "modify"
  | .remove => "remove"
  | .access => "access"
  | .any => "any"
  | .other => "other"

/-- The kind of event with a given name. -/
def ofName? (text : String) : Option FileEventKind :=
  [.create, .modify, .remove, .access, .any, .other].find? (·.name == text)

/-- An event of this kind leaves other contents in a directory. -/
def isChange : FileEventKind → Bool
  | .create | .modify | .remove => true
  | .access | .any | .other => false

end FileEventKind

/-- An event with the paths of the files that it concerns. -/
structure FileEvent where
  kind : FileEventKind
  paths : List String
  deriving DecidableEq, Repr

/-- The event changes a shader file. -/
def FileEvent.changesShader (event : FileEvent) : Bool :=
  event.kind.isChange && event.paths.any fun path => (Stage.ofPath? path).isSome

end Glint

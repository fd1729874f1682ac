import UnitFiles.FileTree
import UnitFiles.Text.Letters

/-! What a unit is loaded from: files, a working directory and the variables of the environment. -/
namespace UnitFiles
open Text

structure Host where
  tree : FileTree
  workingDirectory : String
  environment : List (String × String)
deriving DecidableEq, Repr

inductive SearchRoot
  | configuration
  | workingDirectory
  | home (sub : String)
  | path (dir : String)
deriving DecidableEq, Repr

namespace Host

def readText (h : Host) (path : String) : Except ReadFault String :=
  match h.tree.locate h.workingDirectory path with
  | .error fault => .error fault
  | .ok place =>
    match h.tree.node? place with
    | none => .error .notFound
    | some .directory => .error .isADirectory
    | some (.file content) =>
      match String.fromUTF8? ⟨content.toArray⟩ with
      | some text => .ok text
      | none => .error .invalidData

def list (h : Host) : Listing := fun dir =>
  match h.tree.locate h.workingDirectory dir with
  | .error fault => .error fault
  | .ok place =>
    match h.tree.node? place with
    | none => .error .notFound
    | some (.file _) => .error .notADirectory
    | some .directory => .ok (h.tree.entries place)

/-- Of variables with the same name the last one counts. -/
def valueOf? (h : Host) (name : String) : Option String :=
  (h.environment.reverse.find? fun v => v.1 == name).map Prod.snd

/-- An empty variable names no home. -/
def home? (h : Host) : Option String := (h.valueOf? "HOME").filter (· ≠ "")

def directoryName (appName : String) : String :=
  .ofList ((words appName.toList).flatMap lower)

/-- Where applications keep their configuration. A variable with a relative path is ignored. -/
def configurationRoot? (h : Host) : Option String :=
  match h.home?, h.valueOf? "XDG_CONFIG_HOME" with
  | none, _ => none
  | some home, none => some (subPath home ".config")
  | some home, some dir =>
    some (if dir.toList.head? = some '/' then dir else subPath home ".config")

def expand? (h : Host) (appName : String) : SearchRoot → Option String
  | .configuration => h.configurationRoot?.map fun root => subPath root (directoryName appName)
  | .workingDirectory => some h.workingDirectory
  | .home sub => h.home?.map fun home => subPath home sub
  | .path dir => some dir

def expand (h : Host) (appName : String) (paths : List SearchRoot) : List String :=
  paths.filterMap (h.expand? appName)

end Host
end UnitFiles

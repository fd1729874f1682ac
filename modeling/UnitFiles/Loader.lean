import UnitFiles.Host
import UnitFiles.Layers

/-! Loading units from files. -/
namespace UnitFiles
open Text

namespace Host

def readSource (h : Host) (path : String) : Except Error SourceText :=
  match h.readText path with
  | .ok text => .ok ⟨path, text⟩
  | .error fault => .error (.unreadable path fault)

def readDocument (h : Host) (path : String) : Except Error Document :=
  h.readSource path >>= fun s => Format.read s.path s.text

def readDropIns (h : Host) (unit : String) (roots : List String) : Except Error (List Document) :=
  match DropIns.find h.list unit roots with
  | .error e => .error e
  | .ok paths => mapAll (fun path => acceptDropIn path (h.readDocument path)) paths

/-- The files of a directory with some ending, in the order of their names. With a spec every one
of them is checked and gets its defaults. -/
def readDocuments (h : Host) (dir ending : String) (spec : Option FileSpec) :
    Except Error (List Document) :=
  match h.list dir with
  | .error fault => .error (.unreadable dir fault)
  | .ok entries =>
    let wanted := entries.filter fun e =>
      !e.isDirectory && (dropEnd? ending.toList e.name.toList).isSome
    mapAll load (Keyed.ofList (wanted.map fun e => (e.name, subPath dir e.name)))
where
  load (found : String × String) : Except Error Document :=
    within found.1 (h.readDocument found.2 >>= fun d =>
      match spec with
      | none => .ok d
      | some spec => spec.validate d)

end Host

/-- How a unit is loaded. Without a lead of its own the variables start with the name of the
application in capitals. -/
structure Loader where
  spec : FileSpec
  appName : Option String := none
  besideUnit : Bool := true
  searchRoots : List SearchRoot := []
  lead : Option String := none
  usesVariables : Bool := true
  specifiers : Option Specifiers := none
  strict : Bool := false

namespace Loader

def setSearchRoots (l : Loader) (paths : List SearchRoot) : Loader :=
  { l with besideUnit := false, searchRoots := paths }

def addSearchRoot (l : Loader) (path : SearchRoot) : Loader :=
  { l with searchRoots := l.searchRoots ++ [path] }

def addSpecifier (l : Loader) (c : Char) (text : String) : Loader :=
  { l with specifiers := some ((l.specifiers.getD .empty).insert c text) }

def leadInUse (l : Loader) : Option String :=
  if l.usesVariables then l.lead <|> l.appName.map capitals else none

/-- The directory of the unit and then the search paths. Without the name of an application there is
no directory for its configuration. -/
def roots (l : Loader) (h : Host) (unitPath : String) : List String :=
  let beside := if l.besideUnit then [.ofList (directory unitPath.toList)] else []
  match l.appName with
  | some appName => beside ++ h.expand appName l.searchRoots
  | none => beside ++ h.expand "" (l.searchRoots.filter (· ≠ .configuration))

/-- The instance of the unit is known as `i`, unless `i` stands for something else. -/
def specifiersFor (l : Loader) (unitPath : String) : Option Specifiers :=
  l.specifiers.map fun t =>
    if t.contains 'i' then t
    else match instanceName? unitPath with
      | some name => t.insert 'i' name
      | none => t

def sources (l : Loader) (h : Host) (unitPath : String) : Except Error Sources :=
  match fileName? unitPath.toList with
  | none => .error (.namesNoFile unitPath)
  | some name =>
    match DropIns.find h.list (.ofList name) (l.roots h unitPath) with
    | .error e => .error e
    | .ok paths =>
      match mapAll h.readSource paths with
      | .error e => .error e
      | .ok dropIns =>
        (h.readSource unitPath).map fun unit =>
          ⟨unit, dropIns, h.environment, l.leadInUse, l.specifiersFor unitPath⟩

def load (l : Loader) (h : Host) (unitPath : String) : Except Error Document :=
  l.sources h unitPath >>= fun s => s.resolve l.spec

end Loader
end UnitFiles

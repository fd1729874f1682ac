import UnitFiles.DropIns
import UnitFiles.Text.Blank

/-! A tree of files and directories, and how a path leads through it. -/
namespace UnitFiles

/-- The names from a place up to the root, which has none. -/
abbrev Place := List String

inductive Node
  | directory
  | file (content : List UInt8)
deriving DecidableEq, Repr

structure FileTree where
  nodes : List (Place × Node)
deriving DecidableEq, Repr

namespace FileTree

def empty : FileTree := ⟨[]⟩

def node? (t : FileTree) : Place → Option Node
  | [] => some .directory
  | place => (t.nodes.find? fun n => n.1 == place).map Prod.snd

def makeDirectory (t : FileTree) : Place → FileTree
  | [] => t
  | name :: up =>
    let t := t.makeDirectory up
    if (t.node? (name :: up)).isSome then t else ⟨t.nodes ++ [(name :: up, .directory)]⟩

def writeFile (t : FileTree) (place : Place) (content : List UInt8) : FileTree :=
  let t := t.makeDirectory place.tail
  ⟨(t.nodes.filter fun n => n.1 != place) ++ [(place, .file content)]⟩

def longestName : Nat := 255

/-- The place that names lead to, starting from another place. Two dots lead one place up, and every
name but the last must stand for a directory, even if nothing but slashes and dots follows it. -/
def follow (t : FileTree) (start : Place) : List String → Except ReadFault Place
  | [] => .ok start
  | name :: rest =>
    match t.node? start with
    | none => .error .notFound
    | some (.file _) => .error .notADirectory
    | some .directory =>
      if name = "" || name = "." then t.follow start rest
      else if name = ".." then t.follow start.tail rest
      else if longestName < name.utf8ByteSize then .error .invalidFilename
      else if (t.node? (name :: start)).isNone then .error .notFound
      else t.follow (name :: start) rest

def entryIn? (place : Place) (n : Place × Node) : Option DirectoryEntry :=
  match n.1 with
  | [] => none
  | name :: up => if up = place then some ⟨name, n.2 = .directory⟩ else none

def entries (t : FileTree) (place : Place) : List DirectoryEntry :=
  t.nodes.filterMap (entryIn? place)

/-- The place of a path. A path that does not start with a slash starts at the place of the working
directory, the empty path leads nowhere, and no path holds a NUL. -/
def locate (t : FileTree) (workingDirectory path : String) : Except ReadFault Place :=
  if path.toList.contains '\x00' then .error .invalidInput
  else if path = "" then .error .notFound
  else if path.toList.head? = some '/' then t.follow [] (names path)
  else t.follow [] (names workingDirectory ++ names path)
where
  names (path : String) : List String := (Text.splitAll '/' path.toList).map String.ofList

end FileTree
end UnitFiles

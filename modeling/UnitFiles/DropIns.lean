import UnitFiles.Error
import UnitFiles.Keyed
import UnitFiles.Text.Path

/-! Where the drop-ins of a unit are looked for, and which of them count. -/
namespace UnitFiles
open Text

structure DirectoryEntry where
  name : String
  isDirectory : Bool
deriving DecidableEq, Repr

abbrev Listing := String → Except ReadFault (List DirectoryEntry)

namespace DropIns

/-- The beginnings of a name that end in a dash, the shortest first. -/
def dashedStarts : List Char → List (List Char)
  | [] => []
  | c :: rest =>
    let longer := (dashedStarts rest).map (c :: ·)
    if c = '-' then ['-'] :: longer else longer

/-- The names of the directories for a unit, the most general first: one for its extension, one for
each beginning of its name that ends in a dash, and one for itself. A dot at the end of a name is no
extension. -/
def directoryNames (unit : List Char) : List (List Char) :=
  let (name, extension) := match splitLast '.' unit with
    | some (name, rest) => (name, '.' :: rest)
    | none => (unit, [])
  let general := if 1 < extension.length then [extension.drop 1] else []
  (general ++ (dashedStarts name).map (· ++ extension) ++ [unit]).map (· ++ ['.', 'd'])

/-- The directories for a unit under a root, in increasing order of precedence. -/
def directories (unit root : String) : List String :=
  (directoryNames unit.toList).map fun name => .ofList (joinPath root.toList name)

def isDropIn (e : DirectoryEntry) : Bool :=
  !e.isDirectory && (dropEnd? ['.', 'c', 'o', 'n', 'f'] e.name.toList).isSome

/-- Takes the drop-ins of a directory in, each in place of an earlier one of its name. -/
def add (found : Keyed String) (dir : String) (entries : List DirectoryEntry) : Keyed String :=
  (entries.filter isDropIn).foldl (fun found e => Keyed.put e.name (subPath dir e.name) found) found

/-- Goes through directories in increasing order of precedence. Those that do not exist are passed
over; any other that cannot be listed ends the search. -/
def search (list : Listing) (found : Keyed String) : List String → Except Error (Keyed String)
  | [] => .ok found
  | dir :: rest =>
    match list dir with
    | .ok entries => search list (add found dir entries) rest
    | .error .notFound => search list found rest
    | .error fault => .error (.unreadable dir fault)

def find (list : Listing) (unit : String) (roots : List String) : Except Error (List String) :=
  (search list [] (roots.flatMap (directories unit))).map fun found => found.map Prod.snd

end DropIns
end UnitFiles

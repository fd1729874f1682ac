import UnitFiles.Text.Blank

/-! Paths as text, with slashes between their parts. -/
namespace UnitFiles.Text

def joinPath (a b : List Char) : List Char :=
  if b.head? = some '/' then b
  else if a.isEmpty || a.getLast? == some '/' then a ++ b
  else a ++ '/' :: b

/-- Empty parts and single dots lead nowhere. -/
def isIdle (part : List Char) : Bool := part.isEmpty || part == ['.']

def dropIdleEnd (parts : List (List Char)) : List (List Char) :=
  (parts.reverse.dropWhile isIdle).reverse

/-- The last part of a path that is neither empty nor a single dot, if it is not two dots. -/
def fileName? (path : List Char) : Option (List Char) :=
  match (dropIdleEnd (splitAll '/' path)).getLast? with
  | some part => if part = ['.', '.'] then none else some part
  | none => none

/-- The directory of a path with a file name. A slash or a dot that the path starts with stays, and
the directory of a mere name is empty. -/
def directory (path : List Char) : List Char :=
  match splitAll '/' path with
  | [] => []
  | lead :: body =>
    let named := dropIdleEnd body
    let kept := dropIdleEnd named.dropLast
    if isIdle lead then
      if kept.isEmpty then (if lead.isEmpty then ['/'] else lead) else join ['/'] (lead :: kept)
    else if named.isEmpty then []
    else join ['/'] (lead :: kept)

def splitLast (c : Char) (s : List Char) : Option (List Char × List Char) :=
  (splitFirst c s.reverse).map fun p => (p.2.reverse, p.1.reverse)

/-- A file name without its last extension. A dot in front starts no extension. -/
def stem (name : List Char) : List Char :=
  match splitLast '.' name with
  | some ([], _) => name
  | some (before, _) => before
  | none => name

def fileStem? (path : List Char) : Option (List Char) := (fileName? path).map stem

def subPath (dir name : String) : String := .ofList (joinPath dir.toList name.toList)

end UnitFiles.Text

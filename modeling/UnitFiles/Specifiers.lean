import UnitFiles.Document
import UnitFiles.Text.Path

/-! Specifiers: a percent sign and a character in a value stand for some other text. -/
namespace UnitFiles

structure Specifiers where
  table : List (Char × String)
deriving DecidableEq, Repr

namespace Specifiers

def empty : Specifiers := ⟨[]⟩

def insert (t : Specifiers) (c : Char) (text : String) : Specifiers :=
  ⟨(c, text) :: t.table.filter fun p => p.1 != c⟩

def ofList (pairs : List (Char × String)) : Specifiers :=
  pairs.foldl (fun t p => t.insert p.1 p.2) empty

def get? (t : Specifiers) (c : Char) : Option String :=
  (t.table.find? fun p => p.1 == c).map Prod.snd

def contains (t : Specifiers) (c : Char) : Bool := (t.get? c).isSome

def unknown (c : Char) : Error := .unknownSpecifier (.ofList ['%', c])

def get (t : Specifiers) (c : Char) : Except Error String := orError (unknown c) (t.get? c)

/-- Goes through a text once, from left to right. Two percent signs stand for one, and one at the
end stays. -/
def replaceChars (t : Specifiers) : List Char → Except Error (List Char)
  | [] => .ok []
  | ['%'] => .ok ['%']
  | '%' :: c :: rest =>
    if c = '%' then (replaceChars t rest).map ('%' :: ·)
    else
      match t.get? c with
      | none => .error (unknown c)
      | some text => (replaceChars t rest).map (text.toList ++ ·)
  | c :: rest => (replaceChars t rest).map (c :: ·)

def replace (t : Specifiers) (text : String) : Except Error String :=
  (t.replaceChars text.toList).map String.ofList

def replaceEntry (t : Specifiers) (e : Entry) : Except Error Entry :=
  (within e.name (t.replace e.value)).map fun value => { e with value := value }

def replaceSection (t : Specifiers) (s : Section) : Except Error Section :=
  (within s.name (mapAll t.replaceEntry s.entries)).map fun entries => { s with entries := entries }

def replaceAll (t : Specifiers) (d : Document) : Except Error Document :=
  (mapAll t.replaceSection d.sections).map fun sections => { d with sections := sections }

end Specifiers

/-- The instance in the name of a unit made from a template: `config-1` in
`my-webserver@config-1.service`. -/
def instanceName? (path : String) : Option String :=
  (Text.fileStem? path.toList).bind fun stem =>
    (Text.splitFirst '@' stem).map fun p => .ofList p.2

end UnitFiles

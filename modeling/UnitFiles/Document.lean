import UnitFiles.Value

/-! Documents: sections with a name, made of options with a name and a value. All values are text.
Names are compared without regard to letter case. The order of the options counts, because a name
that is repeated holds a list. -/
namespace UnitFiles
open Text

structure Entry where
  name : String
  value : String
deriving DecidableEq, Repr

structure Section where
  name : String
  entries : List Entry
deriving DecidableEq, Repr

/-- A unit file, a drop-in or the settings taken from the environment. -/
structure Document where
  path : String
  sections : List Section
deriving DecidableEq, Repr

namespace Section

def values (s : Section) (name : String) : List String :=
  (s.entries.filter fun e => sameName e.name name).map Entry.value

def has (s : Section) (name : String) : Bool := s.entries.any fun e => sameName e.name name

def push (s : Section) (name value : String) : Section :=
  { s with entries := s.entries ++ [⟨name, value⟩] }

def remove (s : Section) (name : String) : Section :=
  { s with entries := s.entries.filter fun e => !sameName e.name name }

def single (s : Section) (name : String) : Except Error String :=
  match s.values name with
  | [] => .error (.context name .optionNotSet)
  | [value] => .ok value
  | _ => .error (.context name .optionAllowedOnce)

def read {α : Type} (parse : String → Except Error α) (s : Section) (name : String) :
    Except Error α :=
  s.single name >>= fun raw => within name (parse raw)

end Section

namespace Document

def get? (d : Document) (name : String) : Option Section :=
  d.sections.find? fun s => sameName s.name name

def sectionsNamed (d : Document) (name : String) : List Section :=
  d.sections.filter fun s => sameName s.name name

def has (d : Document) (name : String) : Bool := d.sections.any fun s => sameName s.name name

/-- The document with the first section of a name changed. -/
def modify (d : Document) (name : String) (change : Section → Section) : Document :=
  { d with sections := go d.sections }
where
  go : List Section → List Section
    | [] => []
    | s :: rest => if sameName s.name name then change s :: rest else s :: go rest

end Document
end UnitFiles

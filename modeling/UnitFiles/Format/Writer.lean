import UnitFiles.Document
import UnitFiles.Text.Blank

/-! Writing unit files. -/
namespace UnitFiles.Format
open Text

/-- A value that would be read as going on in the next line. -/
structure UnfinishedValue where
  sectionName : String
  optionName : String
deriving DecidableEq, Repr

def UnfinishedValue.text (v : UnfinishedValue) : String :=
  v.sectionName ++ ": " ++ v.optionName ++ ": value ends with a backslash"

def endsUnfinished (value : String) : Bool := value.toList.getLast? == some '\\'

def firstUnfinished? : List Section → Option UnfinishedValue
  | [] => none
  | s :: rest =>
    match s.entries.find? fun e => endsUnfinished e.value with
    | some e => some ⟨s.name, e.name⟩
    | none => firstUnfinished? rest

/-- The lines of a value after the first are indented and announced by a backslash. -/
def continued (value : List Char) : List Char :=
  value.flatMap fun c => if c = '\n' then ['\\', '\n', '\t'] else [c]

def writeEntry (e : Entry) : List Char :=
  e.name.toList ++ '=' :: ' ' :: continued e.value.toList ++ ['\n']

def writeSection (s : Section) : List Char :=
  '[' :: s.name.toList ++ ']' :: '\n' :: s.entries.flatMap writeEntry

def write (sections : List Section) : Except UnfinishedValue String :=
  match firstUnfinished? sections with
  | some v => .error v
  | none => .ok (.ofList (join ['\n'] (sections.map writeSection)))

end UnitFiles.Format

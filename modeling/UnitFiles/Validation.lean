import UnitFiles.Spec.Basic

/-! Checking documents against their specs, and filling in defaults. -/
namespace UnitFiles
open Text

/-- The options with one name, in any spelling. -/
structure Group where
  first : Entry
  more : List Entry
deriving DecidableEq, Repr

namespace Group

def entries (g : Group) : List Entry := g.first :: g.more

def values (g : Group) : List String := g.entries.map Entry.value

def add (groups : Keyed Group) (e : Entry) : Keyed Group :=
  match Keyed.get? (fold e.name) groups with
  | none => Keyed.put (fold e.name) ⟨e, []⟩ groups
  | some g => Keyed.put (fold e.name) { g with more := g.more ++ [e] } groups

def ofEntries (entries : List Entry) : Keyed Group := entries.foldl add []

end Group

def checkAll {α : Type} (check : α → Except Error Unit) : List α → Except Error Unit
  | [] => .ok ()
  | a :: rest =>
    match check a with
    | .ok _ => checkAll check rest
    | .error e => .error e

namespace OptionSpec

def checkValue (o : OptionSpec) (value : String) : Except Error Unit :=
  if o.required && value = "" then .error .optionRequired else o.type.check value

/-- The values of an option: at most one unless it is a list, and at least one if required. -/
def checkValues (o : OptionSpec) (values : List String) : Except Error Unit :=
  if 1 < values.length && !o.type.isList then .error .optionAllowedOnce
  else if o.required && values.isEmpty then .error .optionRequired
  else checkAll o.checkValue values

end OptionSpec

namespace SectionSpec

def checkGroup (spec : SectionSpec) (g : Group) : Except Error Unit :=
  match spec.get? g.first.name with
  | none => .error (.context g.first.name .optionNotExists)
  | some o => within o.name (o.checkValues g.values)

def firstMissing? (spec : SectionSpec) (groups : Keyed Group) : Option OptionSpec :=
  spec.options.find? fun o => o.required && (Keyed.get? (fold o.name) groups).isNone

/-- The options of a section. Groups are checked in the order of their names, so that the first
error does not depend on the order of differently named options. -/
def checkEntries (spec : SectionSpec) (entries : List Entry) : Except Error Unit :=
  let groups := Group.ofEntries entries
  match checkAll (fun p => spec.checkGroup p.2) groups with
  | .error e => .error e
  | .ok _ =>
    match spec.firstMissing? groups with
    | some o => .error (.context o.name .optionRequired)
    | none => .ok ()

/-- Puts in the default of one option, unless it is required or has a value. -/
def addDefault (entries : List Entry) (o : OptionSpec) : List Entry :=
  if o.required || o.default = "" then entries
  else if entries.any fun e => sameName e.name o.name then entries
  else entries ++ [⟨o.name, o.default⟩]

def withDefaults (spec : SectionSpec) (entries : List Entry) : List Entry :=
  spec.options.foldl addDefault entries

def prepare (spec : SectionSpec) (s : Section) : Except Error Section :=
  match spec.checkEntries s.entries with
  | .error e => .error e
  | .ok _ => .ok { s with entries := spec.withDefaults s.entries }

end SectionSpec

namespace FileSpec

def prepareSection (spec : FileSpec) (s : Section) : Except Error Section :=
  match spec.get? s.name with
  | none => .error (.context s.name .unknownSection)
  | some options => within s.name (options.prepare s)

def validate (spec : FileSpec) (d : Document) : Except Error Document :=
  (mapAll spec.prepareSection d.sections).map fun sections => { d with sections := sections }

end FileSpec
end UnitFiles

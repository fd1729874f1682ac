import UnitFiles.Validation

/-! Merging drop-ins. A drop-in replaces the values of an option; to a list it adds, unless its
first value is empty, which clears the list. -/
namespace UnitFiles
open Text

def Section.mergeGroup (target : Section) (o : OptionSpec) (name : String) (g : Group) : Section :=
  let clears := o.type.isList && g.first.value = ""
  let kept := if o.type.isList && !clears then target else target.remove name
  let added := if clears then g.more else g.entries
  { kept with entries := kept.entries ++ added }

/-- Merges groups one after the other. At an unknown option it stops with what is merged so far. -/
def Section.mergeGroups (spec : SectionSpec) (target : Section) :
    List (String × Group) → Section × Option Error
  | [] => (target, none)
  | (name, g) :: rest =>
    match spec.get? name with
    | none => (target, some (.context name .optionNotExists))
    | some o => mergeGroups spec (target.mergeGroup o name g) rest

/-- Merges one section of a drop-in into its target, option by option in the order of names. -/
def Section.merge (spec : SectionSpec) (target dropIn : Section) : Section × Option Error :=
  target.mergeGroups spec (Group.ofEntries dropIn.entries)

namespace FileSpec

def mergeInto (spec : FileSpec) (sections : List Section) (dropIn : Section) :
    Except Error (List Section) :=
  let name := fold dropIn.name
  match sections.filter fun s => sameName s.name name with
  | [] => .error (.context name .dropInSectionNotExists)
  | [target] =>
    match spec.get? name with
    | none => .error (.context name .dropInSectionNotAllowed)
    | some options =>
      match target.merge options dropIn with
      | (_, some e) => .error (.context name e)
      | (merged, none) => .ok (sections.map fun s => if sameName s.name name then merged else s)
  | _ => .error (.context name .dropInSectionNotAllowed)

/-- Merges sections one after the other; later ones see what earlier ones did. -/
def mergeAll (spec : FileSpec) (sections : List Section) :
    List Section → Except Error (List Section)
  | [] => .ok sections
  | dropIn :: rest =>
    match spec.mergeInto sections dropIn with
    | .error e => .error e
    | .ok sections => spec.mergeAll sections rest

def mergeDropIns (spec : FileSpec) (d : Document) (dropIns : List Document) :
    Except Error Document :=
  (spec.mergeAll d.sections (dropIns.flatMap Document.sections)).map
    fun sections => { d with sections := sections }

end FileSpec
end UnitFiles

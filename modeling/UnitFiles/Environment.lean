import UnitFiles.Spec.Basic
import UnitFiles.Text.ShellWords

/-! Settings in environment variables named `LEAD_SECTION_OPTION` or `LEAD_SECTION_INDEX_OPTION`,
where the index tells apart sections of the same name. -/
namespace UnitFiles.Environment
open Text

/-- The text after the given start, compared without regard to the case of ASCII letters. -/
def afterLead? : List Char → List Char → Option (List Char) := dropStartBy? Char.toLower

/-- A section index of at most 64 bits, with an optional plus sign. -/
def readIndex? (s : List Char) : Option Nat :=
  let digits := match s with
    | '+' :: rest => rest
    | s => s
  if digits.isEmpty || !digits.all Char.isDigit then none
  else
    let n := Nat.ofDigitChars 10 digits 0
    if n < 18_446_744_073_709_551_616 then some n else none

/-- The option that a variable sets: the lowercase section name, the index of the section among
those of that name, and the name of the option. -/
structure Address where
  sectionName : String
  index : Nat
  optionName : String
deriving DecidableEq, Repr

/-- The address in the parts of a name. A number is an index only if more parts follow. -/
def Address.ofParts? : List (List Char) → Option Address
  | name :: second :: rest =>
    let sectionName := String.ofList (lower name)
    let plain : Address := ⟨sectionName, 0, .ofList (join ['_'] (second :: rest))⟩
    match readIndex? second, rest with
    | some index, _ :: _ => some ⟨sectionName, index, .ofList (join ['_'] rest)⟩
    | _, _ => some plain
  | _ => none

def Address.ofName? (lead name : String) : Option Address :=
  match afterLead? lead.toList name.toList with
  | some ('_' :: rest) => Address.ofParts? (splitAll '_' rest)
  | _ => none

structure Setting where
  sectionName : String
  index : Nat
  source : String
  entries : List Entry
deriving DecidableEq, Repr

/-- The values in the text of a variable. That of a list is split into words. -/
def valuesOf (o : OptionSpec) (name text : String) : Except Error (List String) :=
  if o.type.isList then
    orError (.invalidVariable name .unbalancedQuotes) (shellWords? text)
  else .ok [text]

/-- The setting of one variable. Variables without the lead and those of sections that the spec
does not know have none. -/
def Setting.ofVariable (lead : String) (spec : FileSpec) (name text : String) :
    Except Error (Option Setting) :=
  match Address.ofName? lead name with
  | none => .ok none
  | some a =>
    match spec.get? a.sectionName with
    | none => .ok none
    | some options =>
      match options.get? a.optionName with
      | none => .error (.context name (.context a.optionName .optionNotExists))
      | some o =>
        (valuesOf o name text).map fun values =>
          some ⟨a.sectionName, a.index, name, values.map fun v => ⟨o.name, v⟩⟩

def settings (lead : String) (spec : FileSpec) :
    List (String × String) → Except Error (List Setting)
  | [] => .ok []
  | (name, text) :: rest =>
    match Setting.ofVariable lead spec name text with
    | .error e => .error e
    | .ok none => settings lead spec rest
    | .ok (some s) => (settings lead spec rest).map (s :: ·)

def Setting.before (s t : Setting) : Bool :=
  s.sectionName < t.sectionName || (s.sectionName = t.sectionName && s.index < t.index)

/-- Adds a setting to those of other sections, in order. Settings of the same section become one,
under the first of their variables. -/
def addSetting (s : Setting) : List Setting → List Setting
  | [] => [s]
  | t :: rest =>
    if s.sectionName = t.sectionName && s.index = t.index then
      { t with entries := t.entries ++ s.entries } :: rest
    else if s.before t then s :: t :: rest
    else t :: addSetting s rest

/-- The first setting whose index is not the next one of its section. The indexes of each section
start from 0. -/
def firstGap? (current : String) (next : Nat) : List Setting → Option Error
  | [] => none
  | s :: rest =>
    let expected := if s.sectionName = current then next else 0
    if s.index = expected then firstGap? s.sectionName (expected + 1) rest
    else some (.invalidVariable s.source (.skipsIndex s.sectionName s.index expected))

def Setting.toSection (s : Setting) : Section := ⟨s.sectionName, s.entries⟩

/-- The document that the variables make up. The order in which they are given has no effect; of
variables with the same name the last one counts. -/
def read (lead : String) (environment : List (String × String)) (spec : FileSpec) :
    Except Error Document :=
  match settings lead spec (Keyed.ofList environment) with
  | .error e => .error e
  | .ok found =>
    let ordered := found.foldl (fun all s => addSetting s all) []
    match firstGap? "" 0 ordered with
    | some e => .error e
    | none => .ok ⟨"<env:" ++ lead ++ ">", ordered.map Setting.toSection⟩

end UnitFiles.Environment

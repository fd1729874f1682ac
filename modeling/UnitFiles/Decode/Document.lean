import UnitFiles.Decode.Section

/-! Decoding documents. The fields of a record are the names of sections. -/
namespace UnitFiles

def specsFor (spec : FileSpec) : List String → Except Error (List (String × SectionSpec))
  | [] => .ok []
  | name :: rest =>
    match spec.get? name with
    | none => .error (.context name .unknownSection)
    | some s => (specsFor spec rest).map ((name, s) :: ·)

/-- The names of the sections, each once and as it is first written. -/
def Document.names (d : Document) : List String :=
  go [] d.sections
where
  go (seen : List String) : List Section → List String
    | [] => []
    | s :: rest =>
      if seen.any fun n => Text.sameName n s.name then go seen rest
      else s.name :: go (s.name :: seen) rest

def Document.slots (d : Document) (strict : Bool) (specs : List (String × SectionSpec)) :
    List Slot :=
  specs.map fun p =>
    let found := d.sectionsNamed p.1
    ⟨p.1, sectionsAs strict p.2 found, wholeSections strict p.2 found⟩

/-- The sections that are fields of a record. Each field has to be a section that the spec knows,
whether or not the document has it. -/
def documentAsRecord (strict : Bool) (spec : FileSpec) (d : Document) (fields : List Field) :
    Except Error Decoded :=
  match specsFor spec (fields.map Prod.fst) with
  | .error e => .error e
  | .ok specs =>
    decodeRecord (fun name =>
      if d.has name then
        (specs.lookup name).map fun s => sectionsAs strict s (d.sectionsNamed name)
      else none) fields

def documentAsMap (strict : Bool) (spec : FileSpec) (d : Document) (s : Shape) :
    Except Error Decoded :=
  match specsFor spec d.names with
  | .error e => .error e
  | .ok specs => decodeSlots (d.slots strict specs) s

def entryShape : Shape :=
  .record [("name", .text, .required), ("value", .text, .required)]

def sectionShape : Shape :=
  .record [("name", .text, .required), ("options", .seq entryShape, .default (.seq []))]

def optionTypeShape : Shape :=
  .refined .text fun d =>
    match d with
    | .text name =>
      match OptionType.ofNameOrEmpty? name with
      | some _ => .ok d
      | none => .error (.message (Error.unknownOptionType name).text)
    | d => .ok d

def optionSpecShape : Shape :=
  .record [("name", .text, .required), ("aliases", .seq .text, .default (.seq [])),
    ("description", .text, .default (.text "")),
    ("type", optionTypeShape, .default (.text "string")),
    ("required", .bool, .default (.bool false)), ("default", .text, .default (.text "")),
    ("internal", .bool, .default (.bool false)), ("annotation", .map .any, .default (.map []))]

namespace Decoded

def field? (d : Decoded) (name : String) : Option Decoded :=
  match d with
  | .record fields => fields.lookup name
  | _ => none

def textOr (d : Decoded) (name : String) : String :=
  match d.field? name with
  | some (.text s) => s
  | _ => ""

def flagOr (d : Decoded) (name : String) : Bool :=
  match d.field? name with
  | some (.bool b) => b
  | _ => false

def itemsOr (d : Decoded) (name : String) : List Decoded :=
  match d.field? name with
  | some (.seq items) => items
  | _ => []

def texts (items : List Decoded) : List String :=
  items.filterMap fun
    | .text s => some s
    | _ => none

def toOptionSpec (d : Decoded) : OptionSpec where
  name := d.textOr "name"
  aliases := texts (d.itemsOr "aliases")
  description := d.textOr "description"
  type := (OptionType.ofNameOrEmpty? (d.textOr "type")).getD .string
  required := d.flagOr "required"
  default := d.textOr "default"
  internal := d.flagOr "internal"

def toSection (d : Decoded) : Section where
  name := d.textOr "name"
  entries := (d.itemsOr "options").map fun e => ⟨e.textOr "name", e.textOr "value"⟩

end Decoded

/-- A document that spells out a section and its specs. -/
def decodeSpelledOut (strict : Bool) (spec : FileSpec) (d : Document) : Except Error Decoded :=
  (documentAsRecord strict spec d
    [("section", sectionShape, .required), ("spec", .seq optionSpecShape, .required)]).map fun r =>
      .raw ⟨((r.field? "section").getD .absent).toSection,
        ⟨(r.itemsOr "spec").map Decoded.toOptionSpec⟩⟩

def documentAs (strict : Bool) (spec : FileSpec) (d : Document) : Shape → Except Error Decoded
  | .option s => (documentAs strict spec d s).map .present
  | .newtype s => (documentAs strict spec d s).map .newtype
  | .adapted s adapt => adapt (documentAs strict spec d s)
  | .record fields => documentAsRecord strict spec d fields
  | .raw => decodeSpelledOut strict spec d
  | s => documentAsMap strict spec d s

/-- A missing field of a document is a section that should be there. -/
def asMissingSection {α : Type} : Except Error α → Except Error α
  | .error (.missingField name) => .error (.missingSection name)
  | r => r

/-- A failure with the words of a remembered one stands for it, in its own place. -/
def replaceCause (remembered : Error) : Error → Error
  | .context place cause => .context place (replaceCause remembered cause)
  | .message text => if text = remembered.text then remembered else .message text
  | e => e

namespace FileSpec

/-- Decodes a document. The last failure of a function in the shape is remembered; where another
function passed it over, a later failure in the same words is taken for it. -/
def decodePast (passedOver? : Option Error) (spec : FileSpec) (strict : Bool) (d : Document)
    (s : Shape) : Except Error Decoded :=
  let r := documentAs strict spec d s
  asMissingSection (match passedOver? with
    | some e => r.mapError (replaceCause e)
    | none => r)

/-- Decodes a document, with no failure to be remembered: for shapes that pass none over. -/
def decode (spec : FileSpec) (strict : Bool) (d : Document) (s : Shape) : Except Error Decoded :=
  spec.decodePast none strict d s

theorem decode_eq (spec : FileSpec) (strict : Bool) (d : Document) (s : Shape) :
    spec.decode strict d s = asMissingSection (documentAs strict spec d s) := rfl

end FileSpec

namespace SectionSpec

def declaredShape : Shape :=
  .record [("Name", .text, .default (.text "")), ("Aliases", .seq .text, .default (.seq [])),
    ("Description", .text, .default (.text "")), ("Required", .bool, .default (.bool false)),
    ("Default", .text, .default (.text "")), ("Internal", .bool, .default (.bool false))]

end SectionSpec

/-- The option spec that a section declares. Its type is looked at only if the specs of the section
know a type. -/
def OptionSpec.ofSection (spec : SectionSpec) (s : Section) : Except Error OptionSpec :=
  match sectionAs false spec s SectionSpec.declaredShape with
  | .error e => .error e
  | .ok d =>
    let declared : OptionSpec := {
      name := d.textOr "Name"
      aliases := Decoded.texts (d.itemsOr "Aliases")
      description := d.textOr "Description"
      required := d.flagOr "Required"
      default := d.textOr "Default"
      internal := d.flagOr "Internal" }
    match spec.has "type", s.values "Type" with
    | true, [raw] =>
      (within "Type" (orError (.unknownOptionType raw) (OptionType.ofName? raw))).map fun t =>
        { declared with type := t }
    | _, _ => .ok declared

end UnitFiles

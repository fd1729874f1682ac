import UnitFiles.Decode.Value

/-! Decoding sections. A record takes its fields by option name or alias; a map, and whatever is
read as a map, takes every option that is set under the name of its spec. In strict mode a field
without a spec is refused, and so is a map, whose fields are not known. -/
namespace UnitFiles

/-- The field that a strict record or map cannot have. -/
def firstStray? (spec : SectionSpec) (fields : List Field) : Option String :=
  (fields.find? fun f => (spec.find? f.1).isNone).map fun f => f.1

/-- The values of the option that a field stands for. A field is there when the option has a value,
or when values are expected because the option is required or a list. -/
def presentValues? (spec : SectionSpec) (s : Section) (name : String) :
    Option (OptionType × List String) :=
  (spec.find? name).bind fun o =>
    let values := s.values o.name
    if values.isEmpty && !o.required && !o.type.isList then none else some (o.type, values)

/-- Decodes the fields that are there, in order. No two have the same name. -/
def decodeFields (decode : String → Option (Shape → Except Error Decoded)) (seen : List String) :
    List Field → Except Error (List (String × Decoded))
  | [] => .ok []
  | (name, s, _) :: rest =>
    match decode name with
    | none => decodeFields decode seen rest
    | some decodeIt =>
      if seen.contains name then .error (.duplicateField name)
      else
        match within name (decodeIt s) with
        | .error e => .error e
        | .ok v => (decodeFields decode (name :: seen) rest).map ((name, v) :: ·)

def decodeRecord (decode : String → Option (Shape → Except Error Decoded)) (fields : List Field) :
    Except Error Decoded :=
  match decodeFields decode [] fields with
  | .error e => .error e
  | .ok found => (settle fields found).map .record

def Section.slots (s : Section) (spec : SectionSpec) : List Slot :=
  (spec.options.filter fun o => s.has o.name).map fun o =>
    ⟨o.name, valuesAs o.type (s.values o.name), valueOfType o.type (s.values o.name)⟩

def sectionAsMap (strict : Bool) (spec : SectionSpec) (sec : Section) (s : Shape) :
    Except Error Decoded :=
  if strict then .error (.context sec.name (.unknownField "*"))
  else asMissingOption (decodeSlots (sec.slots spec) s)

def wholeSection (strict : Bool) (spec : SectionSpec) (sec : Section) : Except Error Decoded :=
  if strict then .error (.context sec.name (.unknownField "*")) else wholeMap (sec.slots spec)

/-- A section with its specs, handed on as text. -/
def handOver (spec : SectionSpec) (sec : Section) : Except Error Decoded :=
  orError (.message "the section cannot be handed on")
    ((DescribedSection.ofText? (DescribedSection.mk sec spec).toText).map .raw)

def sectionAsRecord (strict : Bool) (spec : SectionSpec) (sec : Section) (fields : List Field) :
    Except Error Decoded :=
  match strict, firstStray? spec fields with
  | true, some name => .error (.unknownField name)
  | _, _ =>
    asMissingOption (decodeRecord
      (fun name => (presentValues? spec sec name).map fun p => valuesAs p.1 p.2) fields)

def sectionAs (strict : Bool) (spec : SectionSpec) (sec : Section) :
    Shape → Except Error Decoded
  | .option s => (sectionAs strict spec sec s).map .present
  | .newtype s => (sectionAs strict spec sec s).map .newtype
  | .adapted s adapt => adapt (sectionAs strict spec sec s)
  | .ignored => .ok .ignored
  | .raw => handOver spec sec
  | .record fields => sectionAsRecord strict spec sec fields
  | s => sectionAsMap strict spec sec s

def onlySection : List Section → Except Error Section
  | [s] => .ok s
  | sections => .error (.sectionCount sections.length)

def sectionsAsItems (strict : Bool) (spec : SectionSpec) (shapes : List Shape)
    (sections : List Section) (whole : String) : Except Error (List Decoded) :=
  decodeItems whole 0 (shapes.map fun s sec => sectionAs strict spec sec s) sections

def sectionsAsSeq (strict : Bool) (spec : SectionSpec) (sections : List Section) :
    Shape → Except Error Decoded
  | .seq s => (mapAll (fun sec => sectionAs strict spec sec s) sections).map .seq
  | .any =>
    (mapAll (wholeSection strict spec) sections).map fun items =>
      .dynamic (Decoded.seq items).toJson
  | .ignored => .ok .ignored
  | .tuple shapes =>
    (sectionsAsItems strict spec shapes sections (Shape.tuple shapes).expected).map .tuple
  | .tupleStruct shapes =>
    (sectionsAsItems strict spec shapes sections (Shape.tupleStruct shapes).expected).map .tuple
  | s => .error (.invalidType "sequence" s.expected)

/-- The typed value of all sections with one name: one section is a map, several are a sequence. -/
def wholeSections (strict : Bool) (spec : SectionSpec) :
    List Section → Except Error Decoded
  | [sec] => wholeSection strict spec sec
  | sections => (mapAll (wholeSection strict spec) sections).map .seq

/-- Decodes all sections with one name. Records, maps and wrappers need exactly one. -/
def sectionsAs (strict : Bool) (spec : SectionSpec) (sections : List Section) :
    Shape → Except Error Decoded
  | .option s =>
    if sections.isEmpty then .ok .absent
    else (sectionsAs strict spec sections s).map .present
  | .adapted s adapt => adapt (sectionsAs strict spec sections s)
  | .record fields => onlySection sections >>= fun sec => sectionAs strict spec sec (.record fields)
  | .map s => onlySection sections >>= fun sec => sectionAs strict spec sec (.map s)
  | .flat lead parts tail =>
    onlySection sections >>= fun sec => sectionAs strict spec sec (.flat lead parts tail)
  | .newtype s => onlySection sections >>= fun sec => sectionAs strict spec sec (.newtype s)
  | .raw => onlySection sections >>= fun sec => sectionAs strict spec sec .raw
  | .seq s => sectionsAsSeq strict spec sections (.seq s)
  | .tuple shapes => sectionsAsSeq strict spec sections (.tuple shapes)
  | s =>
    match sections with
    | [sec] => sectionAsMap strict spec sec s
    | sections => sectionsAsSeq strict spec sections s

end UnitFiles

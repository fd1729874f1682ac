import UnitFiles.Decode.Content

/-! Decoding the values of one option. The type of the option decides how their text is read, and
which shapes they can have. -/
namespace UnitFiles
open Number

def onlyValue : List String → Except Error String
  | [] => .error .optionRequired
  | [value] => .ok value
  | _ => .error .optionAllowedOnce

def expectValue (expected : String) (accepted : List Scalar) (type : OptionType)
    (values : List String) : Except Error String :=
  if accepted.contains type.scalar then onlyValue values
  else .error (.typeMismatch expected type)

/-- The types whose values are kept as text. -/
def textTypes : List Scalar := [.string, .duration]

def typedScalar (type : OptionType) (values : List String) : Except Error Decoded :=
  onlyValue values >>= fun raw =>
    match type.scalar with
    | .bool => (readBool raw).map .bool
    | .int => (readInt raw).map .int
    | .float => (readFloat raw).map .double
    | .string => .ok (.text raw)
    | .duration => .ok (.text raw)

/-- The typed value of an option: a sequence if it is a list. -/
def valueOfType (type : OptionType) (values : List String) : Except Error Decoded :=
  if type.isList then (mapAll (fun v => typedScalar type.element [v]) values).map .seq
  else typedScalar type values

mutual

def valuesAs (type : OptionType) (values : List String) : Shape → Except Error Decoded
  | .bool => do return .bool (← readBool (← expectValue "bool" [.bool] type values))
  | .int k =>
    if k.width = 128 then .error (.unsupported k.name)
    else do toInt k (← readInt (← expectValue "integer" [.int] type values))
  | .double => do return .double (← readFloat (← expectValue "float" [.float] type values))
  | .single => do
    return .single ((← readFloat (← expectValue "float" [.float] type values)).convert _)
  | .char => do toChar (← expectValue "string" textTypes type values)
  | .text => do return .text (← expectValue "string" textTypes type values)
  | .identifier => do return .text (← expectValue "string" textTypes type values)
  | .bytes => do return .bytes (← expectValue "bytes" textTypes type values).toUTF8.toList
  | .unit => .ok .unit
  | .unitStruct => .ok .unit
  | .any => (valueOfType type values).map fun v => .dynamic v.toJson
  | .ignored => .ok .ignored
  | .raw => .error (.typeMismatch "struct" type)
  | .choice names => do toVariant names (← expectValue "enum" textTypes type values)
  | .option s => if values.isEmpty then .ok .absent else (valuesAs type values s).map .present
  | .newtype s => (valuesAs type values s).map .newtype
  | .seq s =>
    if type.isList then (mapAll (fun v => valuesAs type.element [v] s) values).map .seq
    else .error (.typeMismatch "sequence" type)
  | .map _ => .error (.typeMismatch "map" type)
  | .tuple shapes =>
    if type.isList then
      (decodeItems (Shape.tuple shapes).expected 0 (valuesAsEach type.element shapes) values).map
        .tuple
    else .error (.typeMismatch "sequence" type)
  | .tupleStruct shapes =>
    if type.isList then
      (decodeItems (Shape.tupleStruct shapes).expected 0 (valuesAsEach type.element shapes)
        values).map .tuple
    else .error (.typeMismatch "sequence" type)
  | .record _ => .error (.typeMismatch "struct" type)
  | .flat _ _ _ => .error (.typeMismatch "map" type)
  | .adapted s adapt => adapt (valuesAs type values s)

def valuesAsEach (type : OptionType) : List Shape → List (String → Except Error Decoded)
  | [] => []
  | s :: rest => (fun value => valuesAs type [value] s) :: valuesAsEach type rest

end

def readable? (s : Section) (o : OptionSpec) : Option Json :=
  let values := s.values o.name
  if values.isEmpty then none
  else (valueOfType o.type values).toOption.map Decoded.toJson

namespace SectionSpec

/-- The value of an option by name, if it has a spec, is set and can be read. -/
def value? (spec : SectionSpec) (s : Section) (name : String) : Option Json :=
  (spec.get? name).bind (readable? s)

/-- All options that are set and can be read, under the names of their specs. -/
def valueMap (spec : SectionSpec) (s : Section) : Keyed Json :=
  Keyed.ofList (spec.options.filterMap fun o => (readable? s o).map fun v => (o.name, v))

end SectionSpec
end UnitFiles

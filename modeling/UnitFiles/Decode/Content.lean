import UnitFiles.Decode.Shape

/-! Decoding from values that are already typed. A flat record reads its section or document into
such values first, and then takes its fields out of them. -/
namespace UnitFiles
open Number

namespace Decoded

/-- The text of a number with a point even if it is whole. -/
def pointedText (x : Double) : String :=
  if x.isFinite && !x.plain.toList.contains '.' then x.plain ++ ".0" else x.plain

/-- How messages call a value of the wrong kind. -/
def found : Decoded → String
  | bool b => "boolean " ++ Error.marked (toString b)
  | int n => "integer " ++ Error.marked (integerText n)
  | double x => "floating point " ++ Error.marked (pointedText x)
  | single x => "floating point " ++ Error.marked (pointedText (x.convert Number.double))
  | text s => "string " ++ Text.quoted s
  | bytes _ => "byte array"
  | duration d => "string " ++ Text.quoted d.text
  | variant _ => "enum"
  | unit => "unit value"
  | ignored => "unit value"
  | dynamic _ => "map"
  | raw _ => "newtype struct"
  | absent => "Option value"
  | present _ => "Option value"
  | newtype _ => "newtype struct"
  | seq _ => "sequence"
  | tuple _ => "sequence"
  | map _ => "map"
  | record _ => "map"

mutual

def toJson : Decoded → Json
  | bool b => .bool b
  | int n => .int n
  | double x => .ofDouble x
  | single x => .ofDouble (x.convert Number.double)
  | text s => .text s
  | bytes bs => .array (bs.map fun b => .int b.toNat)
  | duration d => .text d.text
  | variant name => .text name
  | unit => .null
  | ignored => .null
  | dynamic v => v
  | raw r => r.toJson
  | absent => .null
  | present v => v.toJson
  | newtype v => v.toJson
  | seq items => .array (toJsons items)
  | tuple items => .array (toJsons items)
  | map entries => .ofFields (toJsonFields entries)
  | record fields => .ofFields (toJsonFields fields)

def toJsons : List Decoded → List Json
  | [] => []
  | v :: rest => v.toJson :: toJsons rest

def toJsonFields : List (String × Decoded) → List (String × Json)
  | [] => []
  | (name, v) :: rest => (name, v.toJson) :: toJsonFields rest

end

end Decoded

def mismatch (s : Shape) (v : Decoded) : Except Error Decoded :=
  .error (.invalidType v.found s.expected)

/-- Goes through entries in order, and sorts out those that are fields from the others. A field is
there once. -/
def visit (fields : List (String × Except Error Decoded)) (seen : List String) :
    List (String × Except Error Decoded) →
      Except Error (List (String × Decoded) × List (String × Decoded))
  | [] => .ok ([], [])
  | (key, whole) :: rest =>
    match fields.lookup key with
    | some r =>
      if seen.contains key then .error (.duplicateField key)
      else
        match r with
        | .error e => .error e
        | .ok v => (visit fields (key :: seen) rest).map fun p => ((key, v) :: p.1, p.2)
    | none =>
      match whole with
      | .error e => .error e
      | .ok v => (visit fields seen rest).map fun p => (p.1, (key, v) :: p.2)

def takeFields (fields : List Field) (decoded : List (String × Except Error Decoded))
    (entries : List (String × Decoded)) : Except Error (List (String × Decoded)) :=
  match visit decoded [] (entries.map fun p => (p.1, .ok p.2)) with
  | .error e => .error e
  | .ok (found, _) => settle fields found

/-- A unit; an empty map stands for one too. -/
def toUnit : Decoded → Except Error Decoded
  | .unit => .ok .unit
  | .map [] => .ok .unit
  | v => mismatch .unit v

mutual

def contentAs (v : Decoded) : Shape → Except Error Decoded
  | .bool =>
    match v with
    | .bool b => .ok (.bool b)
    | v => mismatch .bool v
  | .int k =>
    match v with
    | .int n => toInt k n
    | v => mismatch (.int k) v
  | .double =>
    match v with
    | .double x => .ok (.double x)
    | .int n => .ok (.double (.ofInt _ n))
    | v => mismatch .double v
  | .single =>
    match v with
    | .double x => .ok (.single (x.convert Number.single))
    | .int n => .ok (.single (.ofInt _ n))
    | v => mismatch .single v
  | .char =>
    match v with
    | .text s => toChar s
    | v => mismatch .char v
  | .text =>
    match v with
    | .text s => .ok (.text s)
    | v => mismatch .text v
  | .identifier =>
    match v with
    | .text s => .ok (.text s)
    | v => mismatch .identifier v
  | .bytes =>
    match v with
    | .text s => .ok (.bytes s.toUTF8.toList)
    | v => mismatch .bytes v
  | .unit => toUnit v
  | .unitStruct =>
    match v with
    | .unit => .ok .unit
    | .map [] => .ok .unit
    | .seq [] => .ok .unit
    | v => mismatch .unitStruct v
  | .any => .ok (.dynamic v.toJson)
  | .ignored => .ok .ignored
  | .raw => mismatch .raw v
  | .choice names =>
    match v with
    | .text s => toVariant names s
    | .map [(name, inner)] =>
      match toVariant names name with
      | .error e => .error e
      | .ok chosen => (toUnit inner).map fun _ => chosen
    | .map _ => .error (.invalidValue "map" "map with a single key")
    | v => .error (.invalidType v.found "string or map")
  | .option s =>
    match v with
    | .absent => .ok .absent
    | .unit => .ok .absent
    | .present v => (contentAs v s).map .present
    | v => (contentAs v s).map .present
  | .newtype s => (contentAs v s).map .newtype
  | .seq s =>
    match v with
    | .seq items => (mapAll (fun item => contentAs item s) items).map .seq
    | v => mismatch (.seq s) v
  | .map s =>
    match v with
    | .map entries =>
      (mapAll (fun p => (contentAs p.2 s).map fun d => (p.1, d)) entries).map fun found =>
        .map (Keyed.ofList found)
    | v => mismatch (.map s) v
  | .tuple shapes =>
    match v with
    | .seq items =>
      (decodeItems (Shape.tuple shapes).expected 0 (contentAsEach shapes) items).map .tuple
    | v => mismatch (.tuple shapes) v
  | .tupleStruct shapes =>
    match v with
    | .seq items =>
      (decodeItems (Shape.tupleStruct shapes).expected 0 (contentAsEach shapes) items).map .tuple
    | v => mismatch (.tupleStruct shapes) v
  | .record fields =>
    match v with
    | .map entries => (takeFields fields (contentAsFields entries fields) entries).map .record
    | .seq items => (contentAsPositions 0 items fields).map .record
    | v => mismatch (.record fields) v
  | .flat lead parts tail =>
    match v with
    | .map entries =>
      match visit (contentAsFields entries lead ++ contentAsFields entries tail) []
          (entries.map fun p => (p.1, .ok p.2)) with
      | .error e => .error e
      | .ok (found, rest) =>
        match settle lead found, settle tail found with
        | .error e, _ => .error e
        | _, .error e => .error e
        | .ok lead, .ok tail =>
          (decodeParts rest parts).map fun inner => .map (lead ++ inner ++ tail)
    | v => mismatch (.flat lead parts tail) v
  | .adapted s adapt => adapt (contentAs v s)

def contentAsEach : List Shape → List (Decoded → Except Error Decoded)
  | [] => []
  | s :: rest => (fun v => contentAs v s) :: contentAsEach rest

def contentAsFields (entries : List (String × Decoded)) :
    List (String × Shape × Missing) → List (String × Except Error Decoded)
  | [] => []
  | (name, s, _) :: rest =>
    match entries.lookup name with
    | some v => (name, contentAs v s) :: contentAsFields entries rest
    | none => contentAsFields entries rest

def contentAsPositions (n : Nat) (items : List Decoded) :
    List (String × Shape × Missing) → Except Error (List (String × Decoded))
  | [] =>
    if items.isEmpty then .ok []
    else .error (.invalidLength (n + items.length) (elementsText n))
  | (name, s, missing) :: rest =>
    match items with
    | [] =>
      match missing with
      | .default v => (contentAsPositions (n + 1) [] rest).map ((name, v) :: ·)
      | .omitted => contentAsPositions (n + 1) [] rest
      | .required => .error (.invalidLength n "struct Record")
    | v :: items =>
      match contentAs v s with
      | .error e => .error e
      | .ok d => (contentAsPositions (n + 1) items rest).map ((name, d) :: ·)

/-- The fields that the parts of a flat record add to it. A record leaves the entries with other
names to the parts behind it, a map leaves all of them. -/
def decodeParts (entries : List (String × Decoded)) :
    List (Part Shape) → Except Error (List (String × Decoded))
  | [] => .ok []
  | .record fields :: rest =>
    let names := fields.map Prod.fst
    let own := entries.filter fun p => names.contains p.1
    match takeFields fields (contentAsFields own fields) own with
    | .error e => .error e
    | .ok values =>
      (decodeParts (entries.filter fun p => !names.contains p.1) rest).map (values ++ ·)
  | .map s :: rest =>
    match mapAll (fun p => (contentAs p.2 s).map fun d => (p.1, d)) entries with
    | .error e => .error e
    | .ok found => (decodeParts entries rest).map (Keyed.ofList found ++ ·)

end

/-- A key of what is decoded: what stands under it, as a given shape and as a typed value. -/
structure Slot where
  key : String
  typed : Shape → Except Error Decoded
  whole : Except Error Decoded

/-- Decodes a flat record. Own fields are decoded as they come, everything else is kept as typed
values for the parts. -/
def decodeFlat (slots : List Slot) (lead : List Field) (parts : List (Part Shape))
    (tail : List Field) : Except Error Decoded :=
  let own := (lead ++ tail).filterMap fun f =>
    (slots.find? fun slot => slot.key == f.1).map fun slot =>
      (f.1, within f.1 (slot.typed f.2.1))
  match visit own [] (slots.map fun slot => (slot.key, within slot.key slot.whole)) with
  | .error e => .error e
  | .ok (found, rest) =>
    match settle lead found, settle tail found with
    | .error e, _ => .error e
    | _, .error e => .error e
    | .ok lead, .ok tail =>
      (decodeParts rest parts).map fun inner => .map (lead ++ inner ++ tail)

/-- Decodes a map; of keys that are the same the last one counts. -/
def decodeMap (slots : List Slot) (s : Shape) : Except Error Decoded :=
  (mapAll (fun slot => (within slot.key (slot.typed s)).map fun v => (slot.key, v)) slots).map
    fun found => .map (Keyed.ofList found)

def wholeMap (slots : List Slot) : Except Error Decoded :=
  (mapAll (fun slot => (within slot.key slot.whole).map fun v => (slot.key, v)) slots).map .map

def decodeSlots (slots : List Slot) : Shape → Except Error Decoded
  | .any => (wholeMap slots).map fun v => .dynamic v.toJson
  | .ignored => (decodeMap slots .ignored).map fun _ => .ignored
  | .map s => decodeMap slots s
  | .flat lead parts tail => decodeFlat slots lead parts tail
  | s => .error (.invalidType "map" s.expected)

end UnitFiles

import UnitFiles.Decode.Document
import UnitFiles.Encode

/-! Records that documents of common kinds are decoded into and encoded from: an application with
log files, timers, mounts, and options declared by plugins. -/
namespace UnitFiles

mutual

def Json.toDatum : Json → Datum
  | .null => .unit
  | .bool b => .bool b
  | .int n => .int n
  | .float x => .double x
  | .text s => .text s
  | .array items => .seq (Json.toData items)
  | .object fields => .map (Json.toDataFields fields)

def Json.toData : List Json → List Datum
  | [] => []
  | v :: rest => v.toDatum :: Json.toData rest

def Json.toDataFields : List (String × Json) → List (Datum × Datum)
  | [] => []
  | (name, v) :: rest => (.text name, v.toDatum) :: Json.toDataFields rest

end

mutual

def Decoded.toDatum : Decoded → Datum
  | .bool b => .bool b
  | .int n => .int n
  | .double x => .double x
  | .single x => .single x
  | .text s => .text s
  | .bytes _ => .bytes
  | .duration d => .text d.text
  | .variant name => .variant name
  | .unit => .unit
  | .ignored => .unit
  | .dynamic v => v.toDatum
  | .raw r => r.toJson.toDatum
  | .absent => .absent
  | .present v => .present v.toDatum
  | .newtype v => .newtype v.toDatum
  | .seq items => .seq (Decoded.toData items)
  | .tuple items => .tuple (Decoded.toData items)
  | .map entries => .map (Decoded.toDataEntries entries)
  | .record fields => .record (Decoded.toDataFields fields)

def Decoded.toData : List Decoded → List Datum
  | [] => []
  | v :: rest => v.toDatum :: Decoded.toData rest

def Decoded.toDataEntries : List (String × Decoded) → List (Datum × Datum)
  | [] => []
  | (name, v) :: rest => (.text name, v.toDatum) :: Decoded.toDataEntries rest

def Decoded.toDataFields : List (String × Decoded) → List (String × Datum)
  | [] => []
  | (name, v) :: rest => (name, v.toDatum) :: Decoded.toDataFields rest

end

namespace Shape

def toDuration : Decoded → Except Error Decoded
  | .text s => ((readDuration s).mapError fun e => .message e.text).map .duration
  | d => .ok d

def duration : Shape := refined text toDuration

def durationOption : Shape :=
  refined (option text) fun d =>
    match d with
    | .present v => (toDuration v).map .present
    | d => .ok d

def durationList : Shape :=
  refined (seq text) fun d =>
    match d with
    | .seq items => (mapAll toDuration items).map .seq
    | d => .ok d

def i64 : Shape := int ⟨true, 64⟩

def u64 : Shape := int ⟨false, 64⟩

def u8 : Shape := int ⟨false, 8⟩

end Shape

def needed (name : String) (s : Shape) : Field := (name, s, .required)

def orFalse (name : String) : Field := (name, .bool, .default (.bool false))

def orEmptyText (name : String) : Field := (name, .text, .default (.text ""))

def orNone (name : String) (s : Shape) : Field := (name, s, .default .absent)

def orZero (name : String) (s : Shape) : Field := (name, s, .default (.int 0))

def orEmptyList (name : String) (s : Shape) : Field := (name, s, .default (.seq []))

namespace Records

def mode : Shape := .choice ["fast", "slow"]

def globalFields : List Field :=
  [orFalse "Verbose", orNone "Workers" (.option .i64), orEmptyText "Name",
    orNone "Mode" (.option mode)]

def logFile : Shape :=
  .record [needed "Path" .text, orEmptyList "Fields" (.seq .text), orFalse "Rotate",
    orNone "MaxAge" .durationOption, orZero "MaxSize" .u64]

def appFields : List Field :=
  [needed "Global" (.record globalFields), orEmptyList "LogFile" (.seq logFile)]

def combined : Shape :=
  .flat [] [.record [needed "Path" .text], .record [orZero "MaxSize" .u64, orFalse "Rotate"]]
    [orNone "Level" (.option .text)]

def nested : Shape := .flat [] [.record appFields] []

def split : Shape := .flat [orNone "Global" (.option (.record globalFields))] [.map .any] []

def timer : Shape :=
  .record [needed "Every" .duration, orNone "After" .durationOption,
    orEmptyList "Steps" .durationList]

def readMount (r : DescribedSection) : Except Error Decoded :=
  (sectionAs false r.spec r.content (.record [needed "What" .text])).map fun d =>
    .record [("what", .text (d.textOr "What")),
      ("options", .text (String.intercalate "," (r.content.values "Options")))]

def mount : Shape := .hook readMount

def pluginOption : Shape :=
  .hook fun r => (OptionSpec.ofSection r.spec r.content).map fun o =>
    .record (o.toFields.map fun p => (p.1, .dynamic p.2))

/-- The number of mounts; none if one of them cannot be read. -/
def mountCount : Shape :=
  .adapted (.seq mount) fun r =>
    match r with
    | .ok (.seq items) => .ok (.int items.length)
    | _ => .ok (.int 0)

/-- A note that fails with its own text. -/
def note : Shape :=
  .record [("Fail", .refined .text fun d => .error (.message (match d with
    | .text s => s
    | _ => "")), .default (.text "")), orZero "Level" .u8]

end Records

inductive RecordKind
  | appConfig
  | flat
  | nested
  | split
  | timers
  | mounts
  | oneMount
  | plugin
  | onePlugin
  | lenient
deriving DecidableEq, Repr

namespace RecordKind
open Records

def name : RecordKind → String
  | appConfig => "AppConfig"
  | flat => "Flat"
  | nested => "Nested"
  | split => "Split"
  | timers => "Timers"
  | mounts => "Mounts"
  | oneMount => "OneMount"
  | plugin => "Plugin"
  | onePlugin => "OnePlugin"
  | lenient => "Lenient"

def all : List RecordKind :=
  [appConfig, flat, nested, split, timers, mounts, oneMount, plugin, onePlugin, lenient]

def ofName? (name : String) : Option RecordKind := all.find? fun k => k.name = name

def shape : RecordKind → Shape
  | appConfig => .record appFields
  | flat => .record [needed "LogFile" combined]
  | nested => Records.nested
  | split => Records.split
  | timers => .record [needed "Timer" (.seq timer)]
  | mounts => .record [needed "Mount" (.seq mount)]
  | oneMount => .record [needed "Mount" mount]
  | plugin => .record [needed "Option" (.seq pluginOption)]
  | onePlugin => .record [needed "Option" pluginOption]
  | lenient => .record [needed "Mount" mountCount, orNone "Note" (.option note)]

/-- The failure that a record passes over while it is decoded: that of the mounts it counts. -/
def passedOver? (k : RecordKind) (spec : FileSpec) (d : Document) : Option Error :=
  if k = lenient then
    (spec.get? "Mount").bind fun options =>
      match sectionsAs false options (d.sectionsNamed "Mount") (.seq mount) with
      | .error e => some e
      | .ok _ => none
  else none

def decode (k : RecordKind) (spec : FileSpec) (strict : Bool) (d : Document) :
    Except Error Decoded :=
  spec.decodePast (k.passedOver? spec d) strict d k.shape

end RecordKind
end UnitFiles

import UnitFiles.Document
import UnitFiles.Number.Shortest

/-! Encoding records: their fields become sections, and the fields of those become options. An
option that holds a zero value (false, zero or no text) is left out, unless it stands in a list or
is marked as set. -/
namespace UnitFiles
open Number

/-- A value to be encoded. A `variant` has a name only, one with data is an `enumData`. The values
of a `keyless` map lack their keys. -/
inductive Datum
  | bool (b : Bool)
  | int (n : Int)
  | wide (signed : Bool)
  | double (x : Double)
  | single (x : Single)
  | char (c : Char)
  | text (s : String)
  | bytes
  | absent
  | present (v : Datum)
  | unit
  | variant (name : String)
  | enumData
  | newtype (v : Datum)
  | seq (items : List Datum)
  | tuple (items : List Datum)
  | tupleStruct (items : List Datum)
  | map (entries : List (Datum × Datum))
  | record (fields : List (String × Datum))
  | keyless (values : List Datum)
deriving Inhabited

namespace Datum

def largestInt : Int := 9_223_372_036_854_775_807

def wideError (signed : Bool) : Error := .unsupported (if signed then "i128" else "u128")

def key : Datum → Except Error String
  | .text s => .ok s
  | .char c => .ok (.ofList [c])
  | .variant name => .ok name
  | .newtype v => v.key
  | .present v => v.key
  | .wide signed => .error (wideError signed)
  | _ => .error (.notEncodable "a non-string map key")

/-- One value of an option, unless it is left out for being zero. -/
def scalarEntry (skipZero : Bool) (name value : String) (isZero : Bool) :
    Except Error (List Entry) :=
  .ok (if isZero && skipZero then [] else [⟨name, value⟩])

mutual

def entries (name : String) (skipZero : Bool) : Datum → Except Error (List Entry)
  | .bool b => scalarEntry skipZero name (toString b) !b
  | .int n =>
    if largestInt < n then .error (.invalidNumber (integerText n))
    else scalarEntry skipZero name (integerText n) (n == 0)
  | .wide signed => .error (wideError signed)
  | .double x => scalarEntry skipZero name x.plain x.isZero
  | .single x => scalarEntry skipZero name x.plain x.isZero
  | .char c => scalarEntry skipZero name (.ofList [c]) false
  | .text s => scalarEntry skipZero name s s.isEmpty
  | .bytes => .error (.notEncodable "bytes")
  | .absent => .ok []
  | .present v => entries name false v
  | .unit => .ok []
  | .variant v => scalarEntry skipZero name v false
  | .enumData => .error (.notEncodable "an enum with data")
  | .newtype v => entries name skipZero v
  | .seq items => entriesOfItems name items
  | .tuple items => entriesOfItems name items
  | .tupleStruct items => entriesOfItems name items
  | .map _ => .error (.notEncodable "a nested record")
  | .record _ => .error (.notEncodable "a nested record")
  | .keyless _ => .error (.notEncodable "a nested record")

/-- The values of a list, none of which is left out. -/
def entriesOfItems (name : String) : List Datum → Except Error (List Entry)
  | [] => .ok []
  | v :: rest =>
    match entries name false v with
    | .error e => .error e
    | .ok first => (entriesOfItems name rest).map (first ++ ·)

end

/-- What the pairs of a map or a record give together. The keys of a record are its names. -/
def ofPairs {κ α : Type} (key : κ → Except Error String)
    (encode : String → Datum → Except Error (List α)) : List (κ × Datum) → Except Error (List α)
  | [] => .ok []
  | (k, v) :: rest =>
    match key k with
    | .error e => .error e
    | .ok name =>
      match within name (encode name v) with
      | .error e => .error e
      | .ok first => (ofPairs key encode rest).map (first ++ ·)

def sectionOfPairs {κ : Type} (key : κ → Except Error String) (includeZero : Bool) (name : String)
    (pairs : List (κ × Datum)) : Except Error (List Section) :=
  (ofPairs key (fun option v => v.entries option !includeZero) pairs).map fun es => [⟨name, es⟩]

mutual

def sections (includeZero : Bool) (name : String) : Datum → Except Error (List Section)
  | .wide signed => .error (wideError signed)
  | .absent => .ok []
  | .present v => sections includeZero name v
  | .unit => .ok []
  | .enumData => .error (.notEncodable "an enum section")
  | .newtype v => sections includeZero name v
  | .seq items => sectionsOfItems includeZero name items
  | .tuple items => sectionsOfItems includeZero name items
  | .tupleStruct _ => .error (.notEncodable "a tuple section")
  | .map entries => sectionOfPairs key includeZero name entries
  | .record fields => sectionOfPairs .ok includeZero name fields
  | .keyless [] => .ok [⟨name, []⟩]
  | .keyless _ => .error .valueWithoutKey
  | _ => .error (.notEncodable "a section that is not a record")

def sectionsOfItems (includeZero : Bool) (name : String) :
    List Datum → Except Error (List Section)
  | [] => .ok []
  | v :: rest =>
    match sections includeZero name v with
    | .error e => .error e
    | .ok first => (sectionsOfItems includeZero name rest).map (first ++ ·)

end

def encode (includeZero : Bool) : Datum → Except Error (List Section)
  | .wide signed => .error (wideError signed)
  | .present v => v.encode includeZero
  | .newtype v => v.encode includeZero
  | .enumData => .error (.notEncodable "a top-level enum")
  | .seq _ => .error (.notEncodable "a top-level sequence")
  | .tuple _ => .error (.notEncodable "a top-level tuple")
  | .tupleStruct _ => .error (.notEncodable "a top-level tuple")
  | .map entries => ofPairs key (sections includeZero) entries
  | .record fields => ofPairs .ok (sections includeZero) fields
  | .keyless [] => .ok []
  | .keyless _ => .error .valueWithoutKey
  | _ => .error (.notEncodable "a value outside of a section")

end Datum
end UnitFiles

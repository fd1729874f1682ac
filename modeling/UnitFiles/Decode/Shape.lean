import UnitFiles.Spec.Reader

/-! What a document can be decoded into: shapes, and the values that have them. -/
namespace UnitFiles
open Number

inductive Decoded
  | bool (b : Bool)
  | int (n : Int)
  | double (x : Double)
  | single (x : Single)
  | text (s : String)
  | bytes (bytes : List UInt8)
  | duration (d : Duration)
  | variant (name : String)
  | unit
  | ignored
  | dynamic (v : Json)
  | raw (r : DescribedSection)
  | absent
  | present (v : Decoded)
  | newtype (v : Decoded)
  | seq (items : List Decoded)
  | tuple (items : List Decoded)
  | map (entries : List (String × Decoded))
  | record (fields : List (String × Decoded))
deriving Inhabited

structure IntKind where
  signed : Bool
  width : Nat
deriving DecidableEq, Repr

def IntKind.name (k : IntKind) : String := (if k.signed then "i" else "u") ++ toString k.width

def IntKind.fits (k : IntKind) (n : Int) : Bool :=
  if k.signed then -(Nat.pow 2 (k.width - 1) : Int) ≤ n && n < Nat.pow 2 (k.width - 1)
  else 0 ≤ n && n < Nat.pow 2 k.width

/-- What becomes of a field that is not there: a failure, nothing, or a default. An optional field
that is not there is none rather than a failure. -/
inductive Missing
  | required
  | omitted
  | default (v : Decoded)

/-- A part of a flat record: a record whose fields are taken out of what is left, or a map of all
that is left. -/
inductive Part (α : Type)
  | record (fields : List (String × α × Missing))
  | map (s : α)

/-- What is to be decoded. A flat shape is a record with the fields of its parts beside its own; of
those, `lead` come before the parts and `tail` after them. An adapted shape passes what was decoded
on to a function, failures included. -/
inductive Shape
  | bool
  | int (k : IntKind)
  | double
  | single
  | char
  | text
  | identifier
  | unit
  | unitStruct
  | bytes
  | any
  | ignored
  | raw
  | choice (names : List String)
  | option (s : Shape)
  | newtype (s : Shape)
  | seq (s : Shape)
  | map (s : Shape)
  | tuple (items : List Shape)
  | tupleStruct (items : List Shape)
  | record (fields : List (String × Shape × Missing))
  | flat (lead : List (String × Shape × Missing)) (parts : List (Part Shape))
      (tail : List (String × Shape × Missing))
  | adapted (s : Shape) (adapt : Except Error Decoded → Except Error Decoded)
deriving Inhabited

abbrev Field := String × Shape × Missing

namespace Shape

def expected : Shape → String
  | bool => "a boolean"
  | int k => k.name
  | double => "f64"
  | single => "f32"
  | char => "a character"
  | text => "a string"
  | identifier => "an identifier"
  | unit => "unit"
  | unitStruct => "unit struct Nothing"
  | bytes => "a byte array"
  | any => "any value"
  | ignored => "anything at all"
  | raw => "a unit file section"
  | choice _ => "enum Choice"
  | option _ => "option"
  | newtype _ => "tuple struct Wrapper"
  | seq _ => "a sequence"
  | map _ => "a map"
  | tuple items => "a tuple of size " ++ toString items.length
  | tupleStruct items => "tuple struct Pair with " ++ toString items.length ++ " elements"
  | record _ => "struct Record"
  | flat _ _ _ => "struct Record"
  | adapted s _ => s.expected

def isOption : Shape → Bool
  | option _ => true
  | _ => false

/-- Passes on what was decoded when it was decoded. -/
def refined (s : Shape) (refine : Decoded → Except Error Decoded) : Shape :=
  adapted s fun r => r.bind refine

def hook (decode : DescribedSection → Except Error Decoded) : Shape :=
  refined raw fun d =>
    match d with
    | .raw r => decode r
    | _ => .error (.invalidType "newtype struct" "a unit file section")

end Shape

def elementsText (n : Nat) : String :=
  toString n ++ (if n = 1 then " element" else " elements") ++ " in sequence"

/-- The elements of a tuple, each decoded in its own way; `n` are already there. -/
def decodeItems {α : Type} (whole : String) (n : Nat) :
    List (α → Except Error Decoded) → List α → Except Error (List Decoded)
  | [], [] => .ok []
  | [], items => .error (.invalidLength (n + items.length) (elementsText n))
  | _ :: _, [] => .error (.invalidLength n whole)
  | decode :: rest, item :: items =>
    match decode item with
    | .error e => .error e
    | .ok d => (decodeItems whole (n + 1) rest items).map (d :: ·)

def settleField (f : Field) (found : Option Decoded) : Except Error (List (String × Decoded)) :=
  match found, f.2.2 with
  | some v, _ => .ok [(f.1, v)]
  | none, .default v => .ok [(f.1, v)]
  | none, .omitted => .ok []
  | none, .required =>
    if f.2.1.isOption then .ok [(f.1, .absent)] else .error (.missingField f.1)

def settle (fields : List Field) (found : List (String × Decoded)) :
    Except Error (List (String × Decoded)) :=
  (mapAll (fun f => settleField f (found.lookup f.1)) fields).map List.flatten

/-- A missing field of a section is an option that should be set. -/
def asMissingOption {α : Type} : Except Error α → Except Error α
  | .error (.missingField name) => .error (.context name .optionRequired)
  | r => r

/-- A character from a text that holds nothing else. -/
def toChar (s : String) : Except Error Decoded :=
  if s.length = 1 then .ok (.text s)
  else .error (.invalidValue ("string " ++ Text.quoted s) Shape.char.expected)

def toInt (k : IntKind) (n : Int) : Except Error Decoded :=
  if k.fits n then .ok (.int n)
  else .error (.invalidValue ("integer " ++ Error.marked (integerText n)) k.name)

def toVariant (names : List String) (s : String) : Except Error Decoded :=
  if names.contains s then .ok (.variant s) else .error (.unknownVariant s names)

end UnitFiles

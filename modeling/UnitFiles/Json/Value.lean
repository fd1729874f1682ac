import UnitFiles.Keyed
import UnitFiles.Number.Shortest

/-! Dynamic values, and their text. -/
namespace UnitFiles
open Number

/-- A dynamic value. The fields of an object are in the order of their names; a number is whole or
a finite floating point number. -/
inductive Json
  | null
  | bool (b : Bool)
  | int (n : Int)
  | float (x : Double)
  | text (s : String)
  | array (items : List Json)
  | object (fields : List (String × Json))
deriving Inhabited

namespace Json

/-- What is no finite number has no value. -/
def ofDouble (x : Double) : Json := if x.isFinite then float x else null

def ofFields (fields : List (String × Json)) : Json := object (Keyed.ofList fields)

def field? (name : String) : Json → Option Json
  | object fields => Keyed.get? name fields
  | _ => none

def hexDigits4 (n : Nat) : List Char :=
  let digits := Nat.toDigits 16 n
  List.replicate (4 - digits.length) '0' ++ digits

/-- Quotation marks, backslashes and control characters are escaped, all else stands for itself. -/
def escape (c : Char) : List Char :=
  if c = '"' then ['\\', '"']
  else if c = '\\' then ['\\', '\\']
  else if c = '\n' then ['\\', 'n']
  else if c = '\r' then ['\\', 'r']
  else if c = '\t' then ['\\', 't']
  else if c = '\x08' then ['\\', 'b']
  else if c = '\x0c' then ['\\', 'f']
  else if c.toNat < 0x20 then '\\' :: 'u' :: hexDigits4 c.toNat
  else [c]

def renderText (s : String) : List Char := '"' :: s.toList.flatMap escape ++ ['"']

def renderInt (n : Int) : List Char :=
  if n < 0 then '-' :: Nat.toDigits 10 n.natAbs else Nat.toDigits 10 n.natAbs

def renderDouble (x : Double) : List Char :=
  if x.isFinite then (x.text .dynamic).toList
  else ['n', 'u', 'l', 'l']

mutual

def render : Json → List Char
  | null => ['n', 'u', 'l', 'l']
  | bool true => ['t', 'r', 'u', 'e']
  | bool false => ['f', 'a', 'l', 's', 'e']
  | int n => renderInt n
  | float x => renderDouble x
  | text s => renderText s
  | array items => '[' :: renderItems items ++ [']']
  | object fields => '\x7b' :: renderFields fields ++ ['\x7d']

def renderItems : List Json → List Char
  | [] => []
  | [item] => render item
  | item :: rest => render item ++ ',' :: renderItems rest

def renderFields : List (String × Json) → List Char
  | [] => []
  | [(name, value)] => renderText name ++ ':' :: render value
  | (name, value) :: rest => renderText name ++ ':' :: render value ++ ',' :: renderFields rest

end

end Json
end UnitFiles

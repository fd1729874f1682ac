import UnitFiles.Duration
import UnitFiles.Error
import UnitFiles.Number.Integer
import UnitFiles.Number.Decimal
import UnitFiles.Text.Letters

/-! The text of an option value as a value of its type. -/
namespace UnitFiles
open Text Number

/-- Either word list may be spelled in any letter case. -/
def trueWords : List String := ["1", "yes", "y", "true", "t", "on"]

def falseWords : List String := ["0", "no", "n", "false", "f", "off"]

def isWord (words : List String) (raw : String) : Bool :=
  words.any fun word => sameAscii raw.toList word.toList

def orError {α : Type} (e : Error) : Option α → Except Error α
  | some a => .ok a
  | none => .error e

def readBool (raw : String) : Except Error Bool :=
  if isWord trueWords raw then .ok true
  else if isWord falseWords raw then .ok false
  else .error (.invalidBoolean raw)

def readInt (raw : String) : Except Error Int :=
  orError (.invalidNumber raw) (readInteger? raw.toList)

def readFloat (raw : String) : Except Error Double :=
  orError (.invalidFloat raw) (Binary.read? double raw.toList)

def readDuration (raw : String) : Except Error Duration :=
  orError (.invalidDuration raw) (Duration.read? raw.toList)

/-- Whether one value is well-formed for the type of its option. Every text is a string. -/
def OptionType.check (t : OptionType) (raw : String) : Except Error Unit :=
  match t.scalar with
  | .string => .ok ()
  | .bool => (readBool raw).map fun _ => ()
  | .int => (readInt raw).map fun _ => ()
  | .float => (readFloat raw).map fun _ => ()
  | .duration => (readDuration raw).map fun _ => ()

end UnitFiles

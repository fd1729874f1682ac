import UnitFiles.OptionType
import UnitFiles.Text.Quoted

/-! What can go wrong, and how it is worded. -/
namespace UnitFiles
open Text

inductive ReadFault
  | notFound
  | notADirectory
  | isADirectory
  | invalidData
  | permissionDenied
  | invalidInput
  | invalidFilename
  | other
deriving DecidableEq, Repr

def ReadFault.name : ReadFault → String
  | notFound => "NotFound"
  | notADirectory => "NotADirectory"
  | isADirectory => "IsADirectory"
  | invalidData => "InvalidData"
  | permissionDenied => "PermissionDenied"
  | invalidInput => "InvalidInput"
  | invalidFilename => "InvalidFilename"
  | other => "Other"

inductive LineFault
  | unterminatedHeader
  | emptySectionName
  | noEqualsSign
  | emptyOptionName
  | outsideSection
deriving DecidableEq, Repr

def LineFault.message : LineFault → String
  | unterminatedHeader => "unterminated section header"
  | emptySectionName => "empty section name"
  | noEqualsSign => "expected Key=Value"
  | emptyOptionName => "missing option name"
  | outsideSection => "option outside of a section"

inductive VariableFault
  | unbalancedQuotes
  | skipsIndex (sectionName : String) (found expected : Nat)
deriving DecidableEq, Repr

def VariableFault.message : VariableFault → String
  | unbalancedQuotes => "unbalanced quotes in list value"
  | skipsIndex name found expected =>
    "index " ++ toString found ++ " for section " ++ name ++ " skips index " ++ toString expected

/-- A key of a spec file that no option spec has; the line is 0 when it was not found. -/
structure UnknownKey where
  key : String
  path : String
  line : Nat
deriving DecidableEq, Repr

def UnknownKey.message (k : UnknownKey) : String :=
  "unknown key '" ++ k.key ++ "' in " ++ k.path ++ " (line " ++ toString k.line ++ ")"

/-- A failure. A context says where it happened and may be repeated. -/
inductive Error
  | optionRequired
  | optionAllowedOnce
  | optionNotExists
  | optionNotSet
  | unknownSection
  | invalidBoolean (value : String)
  | invalidNumber (value : String)
  | invalidFloat (value : String)
  | invalidDuration (value : String)
  | noSections
  | dropInSectionNotExists
  | dropInSectionNotAllowed
  | noOptions
  | unknownOptionType (name : String)
  | missingSection (name : String)
  | missingField (name : String)
  | sectionCount (count : Nat)
  | unknownField (name : String)
  | typeMismatch (expected : String) (found : OptionType)
  | unknownSpecifier (specifier : String)
  | invalidVariable (name : String) (fault : VariableFault)
  | badLine (path : String) (line : Nat) (fault : LineFault)
  | unknownKeys (keys : List UnknownKey)
  | malformedSpecs (path : String)
  | malformedJson
  | unreadable (path : String) (fault : ReadFault)
  | invalidType (found expected : String)
  | invalidValue (found expected : String)
  | invalidLength (length : Nat) (expected : String)
  | unknownVariant (name : String) (variants : List String)
  | duplicateField (name : String)
  | unsupported (kind : String)
  | notEncodable (what : String)
  | valueWithoutKey
  | namesNoFile (path : String)
  | message (text : String)
  | context (place : String) (cause : Error)
deriving DecidableEq, Repr, Inhabited

namespace Error

def root : Error → Error
  | context _ cause => cause.root
  | e => e

def marked (name : String) : String := "`" ++ name ++ "`"

def oneOf : List String → String
  | [] => "there are no variants"
  | [a] => "expected " ++ marked a
  | [a, b] => "expected " ++ marked a ++ " or " ++ marked b
  | names => "expected one of " ++ String.intercalate ", " (names.map marked)

def text : Error → String
  | optionRequired => "option is required"
  | optionAllowedOnce => "option is only allowed once"
  | optionNotExists => "option does not exist"
  | optionNotSet => "option is not set"
  | unknownSection => "unknown section"
  | invalidBoolean value => "invalid boolean value " ++ quoted value
  | invalidNumber value => "invalid number " ++ quoted value
  | invalidFloat value => "invalid floating point number " ++ quoted value
  | invalidDuration value => "invalid duration " ++ quoted value
  | noSections => "file does not contain any sections"
  | dropInSectionNotExists => "section defined in drop-in does not exist"
  | dropInSectionNotAllowed => "drop-ins not allowed for not-unique sections"
  | noOptions => "no options defined"
  | unknownOptionType name => "unknown option type " ++ quoted name
  | missingSection name => "required section " ++ quoted name ++ " is missing"
  | missingField name => "required field " ++ marked name ++ " is missing"
  | sectionCount count => "invalid number of sections, expected 1 but got " ++ toString count
  | unknownField name => "no option specification for field " ++ marked name
  | typeMismatch expected found =>
    "cannot decode option of type " ++ found.name ++ " into " ++ expected
  | unknownSpecifier specifier => "unknown specifier " ++ specifier
  | invalidVariable name fault =>
    "invalid environment variable " ++ name ++ ": " ++ fault.message
  | badLine path line fault => path ++ ":" ++ toString line ++ ": " ++ fault.message
  | unknownKeys _ => "unknown keys in spec file"
  | malformedSpecs path => "failed to parse " ++ path
  | malformedJson => "failed to parse spec"
  | unreadable path fault => "failed to read " ++ path ++ ": " ++ fault.name
  | invalidType found expected => "invalid type: " ++ found ++ ", expected " ++ expected
  | invalidValue found expected => "invalid value: " ++ found ++ ", expected " ++ expected
  | invalidLength length expected =>
    "invalid length " ++ toString length ++ ", expected " ++ expected
  | unknownVariant name variants => "unknown variant " ++ marked name ++ ", " ++ oneOf variants
  | duplicateField name => "duplicate field " ++ marked name
  | unsupported kind => kind ++ " is not supported"
  | notEncodable what => what ++ " cannot be encoded here"
  | valueWithoutKey => "map value without key"
  | namesNoFile path => path ++ " does not name a file"
  | message text => text
  | context place cause => place ++ ": " ++ cause.text

end Error

def within {α : Type} (place : String) (result : Except Error α) : Except Error α :=
  result.mapError (.context place)

/-- Applies a function to each element, up to the first failure. -/
def mapAll {α β : Type} (f : α → Except Error β) : List α → Except Error (List β)
  | [] => .ok []
  | a :: rest =>
    match f a with
    | .error e => .error e
    | .ok b => (mapAll f rest).map (b :: ·)

end UnitFiles

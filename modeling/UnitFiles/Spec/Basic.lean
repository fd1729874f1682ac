import UnitFiles.Document
import UnitFiles.Json.Value

/-! Specs: which sections a document may have and which options they allow. -/
namespace UnitFiles
open Text

/-- What is known of one option. The default of a required option is never put in. -/
structure OptionSpec where
  name : String
  aliases : List String := []
  description : String := ""
  type : OptionType := .string
  required : Bool := false
  default : String := ""
  internal : Bool := false
  annotations : Keyed Json := []
deriving Inhabited

structure SectionSpec where
  options : List OptionSpec
deriving Inhabited

structure FileSpec where
  sections : Keyed SectionSpec
deriving Inhabited

namespace OptionSpec

def annotate (o : OptionSpec) (key : String) (value : Json) : OptionSpec :=
  { o with annotations := Keyed.put key value o.annotations }

/-- The mark of an option whose value is not to be shown. -/
def secretKey : String := "unitconf/secret"

def secretAnnotations : Keyed Json := [(secretKey, .bool true)]

def isAnnotated (o : OptionSpec) (key : String) : Bool := (Keyed.get? key o.annotations).isSome

def holdsSecret (o : OptionSpec) : Bool := o.isAnnotated secretKey

end OptionSpec

namespace SectionSpec

def get? (s : SectionSpec) (name : String) : Option OptionSpec :=
  s.options.find? fun o => sameName o.name name

def has (s : SectionSpec) (name : String) : Bool := (s.get? name).isSome

/-- The first option with a name, or else with an alias. -/
def find? (s : SectionSpec) (name : String) : Option OptionSpec :=
  s.get? name <|> s.options.find? fun o => o.aliases.any fun a => sameName a name

def describingOptions : SectionSpec where
  options := [
    { name := "Name", required := true },
    { name := "Aliases", type := .stringList },
    { name := "Description" },
    { name := "Type", default := "string" },
    { name := "Required", type := .bool },
    { name := "Default" },
    { name := "Internal", type := .bool }]

end SectionSpec

namespace FileSpec

def empty : FileSpec := ⟨[]⟩

/-- Names are kept in lowercase; a later section of the same name replaces an earlier one. -/
def insert (spec : FileSpec) (name : String) (s : SectionSpec) : FileSpec :=
  ⟨Keyed.put (fold name) s spec.sections⟩

def ofList (sections : List (String × SectionSpec)) : FileSpec :=
  sections.foldl (fun spec p => spec.insert p.1 p.2) empty

/-- The section under the lowercase name, or else the first one whose name is the same. -/
def get? (spec : FileSpec) (name : String) : Option SectionSpec :=
  Keyed.get? (fold name) spec.sections <|>
    (spec.sections.find? fun p => sameName p.1 name).map Prod.snd

/-- Brings names to lowercase. A section without options is refused. -/
def normalized (spec : FileSpec) : Except Error FileSpec :=
  go empty spec.sections
where
  go (out : FileSpec) : List (String × SectionSpec) → Except Error FileSpec
    | [] => .ok out
    | (name, s) :: rest =>
      if s.options.isEmpty then .error (.context name .noOptions) else go (out.insert name s) rest

end FileSpec
end UnitFiles

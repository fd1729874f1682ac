/-! The types of option values. -/
namespace UnitFiles

inductive Scalar
  | string
  | bool
  | int
  | float
  | duration
deriving DecidableEq, Repr

/-- The type of an option. An option of a list type takes any number of values, another one at
most one. There is no list of truth values. -/
inductive OptionType
  | string
  | stringList
  | bool
  | int
  | intList
  | float
  | floatList
  | duration
  | durationList
deriving DecidableEq, Repr, Inhabited

namespace OptionType

def all : List OptionType :=
  [string, stringList, bool, int, intList, float, floatList, duration, durationList]

def isList : OptionType → Bool
  | stringList | intList | floatList | durationList => true
  | _ => false

def scalar : OptionType → Scalar
  | string | stringList => .string
  | bool => .bool
  | int | intList => .int
  | float | floatList => .float
  | duration | durationList => .duration

def element : OptionType → OptionType
  | stringList => string
  | intList => int
  | floatList => float
  | durationList => duration
  | t => t

def name : OptionType → String
  | string => "string"
  | stringList => "[]string"
  | bool => "bool"
  | int => "int"
  | intList => "[]int"
  | float => "float"
  | floatList => "[]float"
  | duration => "duration"
  | durationList => "[]duration"

def ofName? (name : String) : Option OptionType := all.find? (·.name = name)

/-- The empty name stands for the default type. -/
def ofNameOrEmpty? (name : String) : Option OptionType :=
  if name = "" then some string else ofName? name

@[simp] theorem scalar_element (t : OptionType) : t.element.scalar = t.scalar := by
  cases t <;> rfl

theorem ofName?_name (t : OptionType) : ofName? t.name = some t := by
  cases t <;> decide

end OptionType
end UnitFiles

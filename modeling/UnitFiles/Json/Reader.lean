import UnitFiles.Json.Token

/-! Reading dynamic values from text. -/
namespace UnitFiles.Json

/-- A text taken apart, before it is known whether all of it has a value. -/
inductive Tree
  | null
  | bool (b : Bool)
  | number (value : Option Numeral)
  | text (value : Option String)
  | array (items : List Tree)
  | object (fields : List (Option String × Tree))
deriving Inhabited

mutual

def takeTree : Nat → List Token → Option (Tree × List Token)
  | 0, _ => none
  | fuel + 1, tokens =>
    match tokens with
    | .null :: rest => some (.null, rest)
    | .bool b :: rest => some (.bool b, rest)
    | .number n :: rest => some (.number n, rest)
    | .text s :: rest => some (.text s, rest)
    | .leftBracket :: .rightBracket :: rest => some (.array [], rest)
    | .leftBracket :: rest => (takeItems fuel rest).map fun p => (.array p.1, p.2)
    | .leftBrace :: .rightBrace :: rest => some (.object [], rest)
    | .leftBrace :: rest => (takeFields fuel rest).map fun p => (.object p.1, p.2)
    | _ => none

def takeItems : Nat → List Token → Option (List Tree × List Token)
  | 0, _ => none
  | fuel + 1, tokens =>
    match takeTree fuel tokens with
    | some (item, .comma :: rest) =>
      (takeItems fuel rest).map fun p => (item :: p.1, p.2)
    | some (item, .rightBracket :: rest) => some ([item], rest)
    | _ => none

def takeFields : Nat → List Token → Option (List (Option String × Tree) × List Token)
  | 0, _ => none
  | fuel + 1, tokens =>
    match tokens with
    | .text name :: .colon :: rest =>
      match takeTree fuel rest with
      | some (value, .comma :: rest) =>
        (takeFields fuel rest).map fun p => ((name, value) :: p.1, p.2)
      | some (value, .rightBrace :: rest) => some ([(name, value)], rest)
      | _ => none
    | _ => none

end

def tree? (s : String) : Option Tree :=
  (tokens? s.toList).bind fun tokens =>
    match takeTree (2 * tokens.length + 1) tokens with
    | some (tree, []) => some tree
    | _ => none

mutual

/-- The value of a tree whose arrays and objects are nested at most `depth` deep. -/
def Tree.value? : Nat → Tree → Option Json
  | _, .null => some .null
  | _, .bool b => some (.bool b)
  | _, .number n => n.map fun
    | .int n => .int n
    | .float x => ofDouble x
  | _, .text s => s.map .text
  | 0, .array _ => none
  | 0, .object _ => none
  | depth + 1, .array items => (valueItems? depth items).map .array
  | depth + 1, .object fields => (valueFields? depth fields).map ofFields

def valueItems? : Nat → List Tree → Option (List Json)
  | _, [] => some []
  | depth, item :: rest =>
    (item.value? depth).bind fun v => (valueItems? depth rest).map (v :: ·)

def valueFields? : Nat → List (Option String × Tree) → Option (List (String × Json))
  | _, [] => some []
  | depth, (name, value) :: rest =>
    name.bind fun n => (value.value? depth).bind fun v =>
      (valueFields? depth rest).map ((n, v) :: ·)

end

def depthLimit : Nat := 127

def parse? (s : String) : Option Json := (tree? s).bind (Tree.value? depthLimit)

end UnitFiles.Json

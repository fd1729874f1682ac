import UnitFiles.Toml.Text

/-! Reading spec files. -/
namespace UnitFiles.Toml
open Text

def takeDateOrNumber (s : List Char) : Taken Toml :=
  match takeDatetime s with
  | some (stamp, rest) => some (.datetime stamp, rest)
  | none => takeNumber s

mutual

/-- A value with at most `depth` levels of arrays and inline tables. -/
def takeValue : Nat → Nat → List Char → Taken Toml
  | 0, _, _ => none
  | _ + 1, _, [] => none
  | fuel + 1, depth, c :: rest =>
    if c = '"' || c = '\x27' then (takeText (c :: rest)).map fun p => (.text p.1, p.2)
    else if c = '[' then
      if depth = 0 then none
      else (takeItems fuel (depth - 1) rest).map fun p => (.array p.1, p.2)
    else if c = '\x7b' then
      if depth = 0 then none
      else
        match skipBlanks rest with
        | '\x7d' :: rest => some (.table .inline [], rest)
        | rest => (takeAssignments fuel (depth - 1) [] rest).map fun p => (.table .inline p.1, p.2)
    else if c = '+' || c = '-' || c.isDigit then takeDateOrNumber (c :: rest)
    else if c = 't' then (dropStart? ['r', 'u', 'e'] rest).map fun r => (.bool true, r)
    else if c = 'f' then (dropStart? ['a', 'l', 's', 'e'] rest).map fun r => (.bool false, r)
    else if c = 'i' || c = 'n' then takeDecimal (c :: rest)
    else none

def takeItems : Nat → Nat → List Char → Taken (List Toml)
  | 0, _, _ => none
  | fuel + 1, depth, s =>
    match skipLines (s.length + 1) s with
    | none => none
    | some (']' :: rest) => some ([], rest)
    | some s =>
      match takeValue fuel depth s with
      | none => none
      | some (v, rest) =>
        match skipLines (rest.length + 1) rest with
        | some (',' :: rest) => (takeItems fuel depth rest).map fun p => (v :: p.1, p.2)
        | some (']' :: rest) => some ([v], rest)
        | _ => none

def takeAssignments : Nat → Nat → Fields → List Char → Taken Fields
  | 0, _, _, _ => none
  | fuel + 1, depth, fields, s =>
    match takeKey s with
    | some ((path, key), '=' :: rest) =>
      match takeValue fuel depth (skipBlanks rest) with
      | none => none
      | some (v, rest) =>
        match insertKey path key v fields with
        | none => none
        | some fields =>
          match skipBlanks rest with
          | ',' :: rest => takeAssignments fuel depth fields rest
          | '\x7d' :: rest => some (fields, rest)
          | _ => none
    | _ => none

end

def takeStatement (s : List Char) : Taken Statement :=
  match s with
  | '[' :: '[' :: rest =>
    match takeKey rest with
    | some ((path, key), ']' :: ']' :: rest) =>
      (endLine? rest).map fun next => (.item path key, next)
    | _ => none
  | '[' :: rest =>
    match takeKey rest with
    | some ((path, key), ']' :: rest) => (endLine? rest).map fun next => (.table path key, next)
    | _ => none
  | _ =>
    match takeKey s with
    | some ((path, key), '=' :: rest) =>
      (takeValue (2 * s.length + 2) nestingLimit (skipBlanks rest)).bind fun (v, rest) =>
        (endLine? rest).map fun next => (.assign path key v, next)
    | _ => none

/-- All statements of a text. The fuel bounds the number of lines. -/
def takeStatements : Nat → List Char → Option (List Statement)
  | 0, _ => none
  | fuel + 1, s =>
    match skipBlanks s with
    | [] => some []
    | c :: rest =>
      if c = '#' || c = '\n' || c = '\r' then
        (endLine? (c :: rest)).bind fun next => takeStatements fuel next
      else
        (takeStatement (c :: rest)).bind fun (statement, next) =>
          (takeStatements fuel next).map (statement :: ·)

def skipMark : List Char → List Char
  | '\ufeff' :: rest => rest
  | s => s

def read? (text : String) : Option Fields :=
  let s := skipMark text.toList
  (takeStatements (s.length + 2) s).bind fun statements => execute [] [] statements

end UnitFiles.Toml

import UnitFiles.Toml.Value
import UnitFiles.Number.Integer

/-! The words of spec files: keys, strings, numbers, dates and times, comments. -/
namespace UnitFiles.Toml
open Number

abbrev Taken (α : Type) := Option (α × List Char)

def isTomlBlank (c : Char) : Bool := c == ' ' || c == '\t'

def skipBlanks (s : List Char) : List Char := s.dropWhile isTomlBlank

/-- The characters of comments and of strings, quotation marks and backslashes apart. -/
def isTextChar (c : Char) : Bool := c == '\t' || (0x20 ≤ c.toNat && c.toNat != 0x7F)

def afterNewline? : List Char → Option (List Char)
  | '\n' :: rest => some rest
  | '\r' :: '\n' :: rest => some rest
  | _ => none

def skipComment : List Char → List Char
  | '#' :: rest => rest.dropWhile isTextChar
  | s => s

/-- The next line, when this one holds nothing more than blanks and a comment. -/
def endLine? (s : List Char) : Option (List Char) :=
  match skipComment (skipBlanks s) with
  | [] => some []
  | s => afterNewline? s

/-- Skips blanks, line breaks and comments; a comment ends with its line. The fuel bounds the number
of lines. -/
def skipLines : Nat → List Char → Option (List Char)
  | 0, s => some s
  | fuel + 1, s =>
    match skipBlanks s with
    | '#' :: rest =>
      (afterNewline? (rest.dropWhile isTextChar)).bind fun next => skipLines fuel next
    | s =>
      match afterNewline? s with
      | some next => skipLines fuel next
      | none => some s

def takeCodePoint (count : Nat) (s : List Char) : Taken Char :=
  let digits := s.take count
  if digits.length = count && digits.all (isDigitOf 16) then
    let n := ofDigits 16 digits
    if h : n.isValidChar then some (Char.ofNatAux n h, s.drop count) else none
  else none

def takeEscape : List Char → Taken Char
  | 'b' :: rest => some ('\x08', rest)
  | 'f' :: rest => some ('\x0c', rest)
  | 'n' :: rest => some ('\n', rest)
  | 'r' :: rest => some ('\r', rest)
  | 't' :: rest => some ('\t', rest)
  | '"' :: rest => some ('"', rest)
  | '\\' :: rest => some ('\\', rest)
  | 'u' :: rest => takeCodePoint 4 rest
  | 'U' :: rest => takeCodePoint 8 rest
  | _ => none

def takeBasic : Nat → List Char → Taken (List Char)
  | 0, _ => none
  | _, [] => none
  | _, '"' :: rest => some ([], rest)
  | fuel + 1, '\\' :: rest =>
    (takeEscape rest).bind fun e => (takeBasic fuel e.2).map fun p => (e.1 :: p.1, p.2)
  | fuel + 1, c :: rest =>
    if isTextChar c then (takeBasic fuel rest).map fun p => (c :: p.1, p.2) else none

/-- A string up to its closing single quote. Nothing is escaped in it. -/
def takeLiteral : List Char → Taken (List Char)
  | [] => none
  | c :: rest =>
    if c = '\x27' then some ([], rest)
    else if isTextChar c then (takeLiteral rest).map fun p => (c :: p.1, p.2)
    else none

/-- The quotes that end a string of several lines: three, after at most two that belong to it. -/
def closingQuotes? (quote : Char) (s : List Char) : Taken (List Char) :=
  let n := (s.takeWhile (· == quote)).length
  if 3 ≤ n && n ≤ 5 then some (List.replicate (n - 3) quote, s.drop n) else none

def startsWithThree (quote : Char) : List Char → Bool
  | a :: b :: c :: _ => a == quote && b == quote && c == quote
  | _ => false

/-- Skips the blanks and line breaks that a backslash at the end of a line takes with it. The fuel
bounds the number of lines. -/
def skipBlankLines : Nat → List Char → List Char
  | 0, s => s
  | fuel + 1, s =>
    match afterNewline? (skipBlanks s) with
    | some next => skipBlankLines fuel next
    | none => skipBlanks s

/-- A string of several lines. With escapes, a backslash at the end of a line joins the next text
to it. The fuel bounds the length. -/
def takeMultiline (quote : Char) (escapes : Bool) : Nat → List Char → Taken (List Char)
  | 0, _ => none
  | _, [] => none
  | fuel + 1, c :: rest =>
    if startsWithThree quote (c :: rest) then closingQuotes? quote (c :: rest)
    else if escapes && c = '\\' then
      match afterNewline? (skipBlanks rest) with
      | some next =>
        takeMultiline quote escapes fuel (skipBlankLines (next.length + 1) next)
      | none =>
        (takeEscape rest).bind fun e =>
          (takeMultiline quote escapes fuel e.2).map fun p => (e.1 :: p.1, p.2)
    else
      match afterNewline? (c :: rest) with
      | some next => (takeMultiline quote escapes fuel next).map fun p => ('\n' :: p.1, p.2)
      | none =>
        if isTextChar c then
          (takeMultiline quote escapes fuel rest).map fun p => (c :: p.1, p.2)
        else none

def skipFirstNewline (s : List Char) : List Char := (afterNewline? s).getD s

def takeText (s : List Char) : Taken String :=
  let fuel := s.length + 1
  let found : Taken (List Char) := match s with
    | '"' :: '"' :: '"' :: rest => takeMultiline '"' true fuel (skipFirstNewline rest)
    | '"' :: rest => takeBasic fuel rest
    | '\x27' :: '\x27' :: '\x27' :: rest => takeMultiline '\x27' false fuel (skipFirstNewline rest)
    | '\x27' :: rest => takeLiteral rest
    | _ => none
  found.map fun p => (.ofList p.1, p.2)

def isBareKeyChar (c : Char) : Bool := c.isAlphanum || c == '_' || c == '-'

def takeSimpleKey (s : List Char) : Taken String :=
  match s with
  | '"' :: rest => (takeBasic (s.length + 1) rest).map fun p => (.ofList p.1, p.2)
  | '\x27' :: rest => (takeLiteral rest).map fun p => (.ofList p.1, p.2)
  | _ =>
    let key := s.takeWhile isBareKeyChar
    if key.isEmpty then none else some (.ofList key, s.dropWhile isBareKeyChar)

def takeKeys : Nat → List Char → Taken (List String)
  | 0, _ => none
  | fuel + 1, s =>
    (takeSimpleKey (skipBlanks s)).bind fun (key, rest) =>
      match skipBlanks rest with
      | '.' :: rest => (takeKeys fuel rest).map fun p => (key :: p.1, p.2)
      | rest => some ([key], rest)

def nestingLimit : Nat := 79

/-- A key, as the path in front of it and its last part. -/
def takeKey (s : List Char) : Taken (List String × String) :=
  (takeKeys nestingLimit s).bind fun (keys, rest) =>
    keys.getLast?.map fun key => ((keys.dropLast, key), rest)

def takeGrouped (base : Nat) : List Char → Taken (List Char)
  | [] => none
  | c :: rest =>
    if isDigitOf base c then
      match rest with
      | '_' :: rest => (takeGrouped base rest).map fun p => (c :: p.1, p.2)
      | d :: more =>
        if isDigitOf base d then (takeGrouped base (d :: more)).map fun p => (c :: p.1, p.2)
        else some ([c], d :: more)
      | [] => some ([c], [])
    else none

def takeWhole (s : List Char) : Taken (List Char) :=
  match s with
  | '0' :: rest => some (['0'], rest)
  | _ => takeGrouped 10 s

def takePower (s : List Char) : Option (Option Int × List Char) :=
  match s with
  | c :: rest =>
    if c = 'e' || c = 'E' then
      let signed := takeSign rest
      (takeGrouped 10 signed.2).map fun (digits, rest) =>
        let n : Int := Nat.ofDigitChars 10 digits 0
        (some (if signed.1 then -n else n), rest)
    else some (none, s)
  | [] => some (none, [])

def toFloat? (negative : Bool) (digits : List Char) (e : Int) : Option Toml :=
  let x := Binary.ofDecimal double negative (Nat.ofDigitChars 10 digits 0) e
  if x.isFinite || negative then some (.float x) else none

def toInt? (negative : Bool) (n : Nat) : Option Toml :=
  if negative then if n ≤ 9_223_372_036_854_775_808 then some (.int (-(n : Int))) else none
  else if n < 9_223_372_036_854_775_808 then some (.int n) else none

def takeBased (base : Nat) (s : List Char) : Taken Toml :=
  (takeGrouped base s).bind fun (digits, rest) =>
    (toInt? false (ofDigits base digits)).map fun v => (v, rest)

def takeDecimal (s : List Char) : Taken Toml :=
  let signed := takeSign s
  let word (x : Double) (rest : List Char) : Taken Toml :=
    some (.float { x with negative := signed.1 }, rest)
  match signed.2 with
  | 'i' :: 'n' :: 'f' :: rest => word ⟨false, double.infinity⟩ rest
  | 'n' :: 'a' :: 'n' :: rest => word (.nan double) rest
  | s =>
    (takeWhole s).bind fun (whole, rest) =>
      match rest with
      | '.' :: rest =>
        (takeGrouped 10 rest).bind fun (fraction, rest) =>
          (takePower rest).bind fun (e, rest) =>
            (toFloat? signed.1 (whole ++ fraction) (e.getD 0 - fraction.length)).map
              fun v => (v, rest)
      | rest =>
        (takePower rest).bind fun (e, rest) =>
          match e with
          | some e => (toFloat? signed.1 whole e).map fun v => (v, rest)
          | none => (toInt? signed.1 (Nat.ofDigitChars 10 whole 0)).map fun v => (v, rest)

def takeNumber (s : List Char) : Taken Toml :=
  match s with
  | '0' :: 'x' :: rest => takeBased 16 rest
  | '0' :: 'o' :: rest => takeBased 8 rest
  | '0' :: 'b' :: rest => takeBased 2 rest
  | _ => takeDecimal s

def takeField (count low high : Nat) (s : List Char) : Taken (List Char) :=
  let digits := s.take count
  let n := Nat.ofDigitChars 10 digits 0
  if digits.length = count && digits.all Char.isDigit && low ≤ n && n ≤ high then
    some (digits, s.drop count)
  else none

def takeChar (c : Char) : List Char → Taken (List Char)
  | d :: rest => if d = c then some ([c], rest) else none
  | [] => none

def Taken.then (first : Taken (List Char)) (next : List Char → Taken (List Char)) :
    Taken (List Char) :=
  first.bind fun (a, rest) => (next rest).map fun (b, rest) => (a ++ b, rest)

def isLeap (year : Nat) : Bool := year % 4 == 0 && (year % 100 != 0 || year % 400 == 0)

def daysIn (year month : Nat) : Nat :=
  if month = 2 then if isLeap year then 29 else 28
  else if month = 4 || month = 6 || month = 9 || month = 11 then 30
  else 31

def takeDate (s : List Char) : Taken (List Char) :=
  (takeField 4 0 9999 s).bind fun (year, rest) =>
    ((takeChar '-' rest).then (takeField 2 1 12)).bind fun (month, rest) =>
      let last := daysIn (Nat.ofDigitChars 10 year 0) (Nat.ofDigitChars 10 (month.drop 1) 0)
      ((takeChar '-' rest).then (takeField 2 1 last)).map fun (day, rest) =>
        (year ++ month ++ day, rest)

/-- The fraction of a second, cut off after nine digits and without zeros at its end. -/
def secondFraction (digits : List Char) : List Char :=
  let kept := ((digits.take 9).reverse.dropWhile (· == '0')).reverse
  if kept.isEmpty then [] else '.' :: kept

def takeTime (s : List Char) : Taken (List Char) :=
  let clock := (((takeField 2 0 23 s).then (takeChar ':')).then (takeField 2 0 59)).then
    (takeChar ':')
  (clock.then (takeField 2 0 60)).bind fun (time, rest) =>
    match rest with
    | '.' :: more =>
      let digits := more.takeWhile Char.isDigit
      if digits.isEmpty then some (time, rest)
      else some (time ++ secondFraction digits, more.dropWhile Char.isDigit)
    | _ => some (time, rest)

/-- The distance from universal time, if there is one. No distance has the sign plus. -/
def takeOffset (s : List Char) : Taken (List Char) :=
  match s with
  | 'Z' :: rest => some (['Z'], rest)
  | 'z' :: rest => some (['Z'], rest)
  | c :: rest =>
    if c = '+' || c = '-' then
      (((takeField 2 0 23 rest).then (takeChar ':')).then (takeField 2 0 59)).map
        fun (offset, rest) =>
          ((if offset.all fun d => d == '0' || d == ':' then '+' else c) :: offset, rest)
    else some ([], s)
  | [] => some ([], [])

def isDateDelimiter (c : Char) : Bool := c == 'T' || c == 't' || c == ' '

def takeDatetime (s : List Char) : Taken String :=
  let found : Taken (List Char) :=
    match takeDate s with
    | none => takeTime s
    | some (date, rest) =>
      match rest with
      | c :: more =>
        if isDateDelimiter c then
          match takeTime more with
          | none => some (date, rest)
          | some (time, rest) =>
            (takeOffset rest).map fun (offset, rest) => (date ++ 'T' :: time ++ offset, rest)
        else some (date, rest)
      | [] => some (date, [])
  found.map fun p => (.ofList p.1, p.2)

end UnitFiles.Toml

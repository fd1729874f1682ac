import UnitFiles.Json.Value
import UnitFiles.Number.Integer
import UnitFiles.Text.Blank

/-! The tokens of dynamic values as text. A string or a number can be well-formed and yet have no
value: an escape may be one half of a pair, or a number too large. -/
namespace UnitFiles.Json
open Number Text

inductive Numeral
  | int (n : Int)
  | float (x : Double)
deriving DecidableEq

inductive Token
  | leftBrace
  | rightBrace
  | leftBracket
  | rightBracket
  | colon
  | comma
  | null
  | bool (b : Bool)
  | number (value : Option Numeral)
  | text (value : Option String)
deriving DecidableEq

/-- Takes digits into a significand while it fits in 64 bits. -/
def absorb (significand : Nat) : List Char → Nat × List Char
  | [] => (significand, [])
  | d :: rest =>
    let next := significand * 10 + (d.toNat - '0'.toNat)
    if next < 18_446_744_073_709_551_616 then absorb next rest else (significand, d :: rest)

def powerOfTen (e : Nat) : Double := .ofDecimal double false 1 e

def shrink (x : Double) (e : Nat) : Double :=
  if e ≤ 308 then x.div (powerOfTen e)
  else if x.isZero then x
  else shrink (x.div (powerOfTen 308)) (e - 308)
termination_by e

/-- A significand times a power of ten, rounded once for the significand, once for the power and
once for each product or quotient. What is too large has no value. -/
def scale? (significand : Nat) (e : Int) : Option Double :=
  let x := Binary.ofNat double significand
  if e < 0 then some (shrink x (-e).toNat)
  else if e ≤ 308 then
    let y := x.mul (powerOfTen e.toNat)
    if y.isFinite then some y else none
  else if x.isZero then some x
  else none

structure NumberText where
  negative : Bool
  whole : List Char
  fraction : Option (List Char)
  exponent : Option (Bool × List Char)

/-- The value of an exponent; beyond 31 bits it counts as endless. -/
def exponentValue? (digits : List Char) : Option Nat :=
  let n := Nat.ofDigitChars 10 digits 0
  if n < 2_147_483_648 then some n else none

/-- A whole number keeps its exact value when it fits in 64 bits. Minus zero, and what does not fit,
become floating point numbers. -/
def NumberText.value? (t : NumberText) : Option Numeral :=
  let whole := absorb 0 t.whole
  let signed (x : Double) : Numeral := .float (if t.negative then x.neg else x)
  let dropped : Int := whole.2.length
  match t.fraction, t.exponent with
  | none, none =>
    if whole.2.isEmpty then
      if !t.negative then some (.int whole.1)
      else if 0 < whole.1 && whole.1 ≤ 9_223_372_036_854_775_808 then some (.int (-(whole.1 : Int)))
      else some (signed (.ofNat double whole.1))
    else (scale? whole.1 dropped).map signed
  | fraction, exponent =>
    let digits := fraction.getD []
    let all := absorb whole.1 digits
    let start := dropped - ((digits.length - all.2.length : Nat) : Int)
    match exponent with
    | none => (scale? all.1 start).map signed
    | some (negative, e) =>
      match exponentValue? e with
      | some n => (scale? all.1 (if negative then start - n else start + n)).map signed
      | none => if all.1 = 0 || negative then some (signed ⟨false, 0⟩) else none

def takeFractionDigits : List Char → Option (Option (List Char) × List Char)
  | '.' :: rest =>
    let digits := rest.takeWhile Char.isDigit
    if digits.isEmpty then none else some (some digits, rest.dropWhile Char.isDigit)
  | s => some (none, s)

def takeExponent : List Char → Option (Option (Bool × List Char) × List Char)
  | [] => some (none, [])
  | c :: rest =>
    if c = 'e' || c = 'E' then
      let signed : Bool × List Char := match rest with
        | '-' :: r => (true, r)
        | '+' :: r => (false, r)
        | r => (false, r)
      let digits := signed.2.takeWhile Char.isDigit
      if digits.isEmpty then none
      else some (some (signed.1, digits), signed.2.dropWhile Char.isDigit)
    else some (none, c :: rest)

/-- A number at the start of a text. Its whole part has no needless zero in front. -/
def takeNumber (s : List Char) : Option (NumberText × List Char) :=
  let signed : Bool × List Char := match s with
    | '-' :: r => (true, r)
    | r => (false, r)
  let whole := signed.2.takeWhile Char.isDigit
  if whole.isEmpty || (whole.head? == some '0' && 1 < whole.length) then none
  else
    (takeFractionDigits (signed.2.dropWhile Char.isDigit)).bind fun (fraction, r) =>
      (takeExponent r).map fun (exponent, r) => (⟨signed.1, whole, fraction, exponent⟩, r)

inductive Piece
  | char (c : Char)
  | unit (n : Nat)
deriving DecidableEq

def hexUnit? (a b c d : Char) : Option Nat :=
  if [a, b, c, d].all (isDigitOf 16) then some (ofDigits 16 [a, b, c, d]) else none

def escaped? : Char → Option Char
  | '"' => some '"'
  | '\\' => some '\\'
  | '/' => some '/'
  | 'b' => some '\x08'
  | 'f' => some '\x0c'
  | 'n' => some '\n'
  | 'r' => some '\r'
  | 't' => some '\t'
  | _ => none

def takePieces : List Char → Option (List Piece × List Char)
  | [] => none
  | '"' :: rest => some ([], rest)
  | '\\' :: 'u' :: a :: b :: c :: d :: rest =>
    match hexUnit? a b c d with
    | some n => (takePieces rest).map fun p => (.unit n :: p.1, p.2)
    | none => none
  | '\\' :: c :: rest =>
    match escaped? c with
    | some e => (takePieces rest).map fun p => (.char e :: p.1, p.2)
    | none => none
  | c :: rest =>
    if c.toNat < 0x20 || c = '\\' then none
    else (takePieces rest).map fun p => (.char c :: p.1, p.2)

/-- The characters of a string. Two code units may form one character; one half alone is none. -/
def ofPieces? : List Piece → Option (List Char)
  | [] => some []
  | .char c :: rest => (ofPieces? rest).map (c :: ·)
  | .unit n :: .unit m :: rest =>
    if 0xD800 ≤ n && n ≤ 0xDBFF then
      if 0xDC00 ≤ m && m ≤ 0xDFFF then
        (ofPieces? rest).map
          (Char.ofNat (0x10000 + (n - 0xD800) * 0x400 + (m - 0xDC00)) :: ·)
      else none
    else if 0xDC00 ≤ n && n ≤ 0xDFFF then none
    else (ofPieces? (.unit m :: rest)).map (Char.ofNat n :: ·)
  | .unit n :: rest =>
    if 0xD800 ≤ n && n ≤ 0xDFFF then none
    else (ofPieces? rest).map (Char.ofNat n :: ·)

def isSpace (c : Char) : Bool := c == ' ' || c == '\n' || c == '\t' || c == '\r'

def takeToken : List Char → Option (Token × List Char)
  | [] => none
  | c :: rest =>
    if c = '\x7b' then some (.leftBrace, rest)
    else if c = '\x7d' then some (.rightBrace, rest)
    else if c = '[' then some (.leftBracket, rest)
    else if c = ']' then some (.rightBracket, rest)
    else if c = ':' then some (.colon, rest)
    else if c = ',' then some (.comma, rest)
    else if c = '"' then
      (takePieces rest).map fun p => (.text ((ofPieces? p.1).map String.ofList), p.2)
    else if c = 'n' then (dropStart? ['u', 'l', 'l'] rest).map fun r => (.null, r)
    else if c = 't' then (dropStart? ['r', 'u', 'e'] rest).map fun r => (.bool true, r)
    else if c = 'f' then (dropStart? ['a', 'l', 's', 'e'] rest).map fun r => (.bool false, r)
    else (takeNumber (c :: rest)).map fun p => (.number p.1.value?, p.2)

def tokensWithin : Nat → List Char → Option (List Token)
  | fuel, s =>
    match fuel, s.dropWhile isSpace with
    | _, [] => some []
    | 0, _ :: _ => none
    | fuel + 1, c :: rest =>
      (takeToken (c :: rest)).bind fun p => (tokensWithin fuel p.2).map (p.1 :: ·)

def tokens? (s : List Char) : Option (List Token) := tokensWithin s.length s

end UnitFiles.Json

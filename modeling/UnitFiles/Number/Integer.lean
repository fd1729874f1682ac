import UnitFiles.Text.Blank
import UnitFiles.Number.Decimal
import UnitFiles.Number.Word

/-! Whole numbers as option values: decimal, or with a mark for base sixteen, eight or two, and
with single underscores between the digits. A leading zero alone also marks base eight. -/
namespace UnitFiles.Number

/-- The base that the start of an unsigned number announces, and the digits after the mark. -/
def splitBase : List Char → Nat × List Char
  | '0' :: 'x' :: digits => (16, digits)
  | '0' :: 'X' :: digits => (16, digits)
  | '0' :: 'o' :: digits => (8, digits)
  | '0' :: 'O' :: digits => (8, digits)
  | '0' :: 'b' :: digits => (2, digits)
  | '0' :: 'B' :: digits => (2, digits)
  | '0' :: digit :: digits => (8, digit :: digits)
  | digits => (10, digits)

def digitValue? (c : Char) : Option Nat :=
  if c.isDigit then some (c.toNat - '0'.toNat)
  else if c.isLower then some (c.toNat - 'a'.toNat + 10)
  else if c.isUpper then some (c.toNat - 'A'.toNat + 10)
  else none

def isDigitOf (base : Nat) (c : Char) : Bool :=
  match digitValue? c with
  | some d => d < base
  | none => false

def ofDigits (base : Nat) (digits : List Char) : Nat :=
  digits.foldl (fun n c => n * base + (digitValue? c).getD 0) 0

def hasDoubleUnderscore : List Char → Bool
  | '_' :: '_' :: _ => true
  | _ :: rest => hasDoubleUnderscore rest
  | [] => false

/-- Underscores stand between digits, or between the mark of a base and the first digit. -/
def underscoresFit (base : Nat) (digits : List Char) : Bool :=
  !(base == 10 && digits.head? == some '_') && digits.getLast? != some '_' &&
    !hasDoubleUnderscore digits

def readGrouped? (base : Nat) (digits : List Char) : Option Nat :=
  let plain := digits.filter (· != '_')
  if underscoresFit base digits && !plain.isEmpty && plain.all (isDigitOf base) then
    some (ofDigits base plain)
  else none

/-- A magnitude and its sign as one number of 64 bits. Negation wraps around, so that the word
`2 ^ 63`, which is its own negation, stands for the least number. -/
def ofMagnitude? (negative : Bool) (magnitude : BitVec 64) : Option Int :=
  if negative then
    if magnitude ≤ 9_223_372_036_854_775_808 then some (-magnitude).toInt else none
  else if magnitude < 9_223_372_036_854_775_808 then some magnitude.toInt
  else none

/-- A whole number from `-2 ^ 63` to `2 ^ 63 - 1`. Its magnitude is read as an unsigned word. -/
def readInteger? (s : List Char) : Option Int :=
  let signed := takeSign s
  let based := splitBase signed.2
  (readGrouped? based.1 based.2).bind fun value =>
    (word? 64 value).bind (ofMagnitude? signed.1)

def integerText (n : Int) : String :=
  String.ofList (if n < 0 then '-' :: Nat.toDigits 10 n.natAbs else Nat.toDigits 10 n.natAbs)

end UnitFiles.Number

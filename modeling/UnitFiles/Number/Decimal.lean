import UnitFiles.Number.Binary

/-! Reading floating point numbers: digits with an optional point and an optional power of ten. -/
namespace UnitFiles.Number

def takeDigits (s : List Char) : List Char × List Char :=
  (s.takeWhile Char.isDigit, s.dropWhile Char.isDigit)

def takeSign : List Char → Bool × List Char
  | '-' :: rest => (true, rest)
  | '+' :: rest => (false, rest)
  | s => (false, s)

def readExponent? : List Char → Option Int
  | [] => some 0
  | c :: rest =>
    if c = 'e' || c = 'E' then
      let signed := takeSign rest
      if signed.2.isEmpty || !signed.2.all Char.isDigit then none
      else
        let n : Int := Nat.ofDigitChars 10 signed.2 0
        some (if signed.1 then -n else n)
    else none

/-- Digits, perhaps with a point among them or at either end, and perhaps with an exponent. -/
def readUnsigned? (f : Format) (negative : Bool) (s : List Char) : Option (Binary f) :=
  let whole := takeDigits s
  let fraction := match whole.2 with
    | '.' :: rest => takeDigits rest
    | rest => ([], rest)
  let digits := whole.1 ++ fraction.1
  if digits.isEmpty then none
  else (readExponent? fraction.2).map fun e =>
    .ofDecimal f negative (Nat.ofDigitChars 10 digits 0) (e - fraction.1.length)

/-- A number, an infinity or a NaN with an optional sign; the words may be in any letter case. -/
def Binary.read? (f : Format) (s : List Char) : Option (Binary f) :=
  let signed := takeSign s
  let word := String.ofList (signed.2.map Char.toLower)
  if word = "inf" || word = "infinity" then some ⟨signed.1, f.infinity⟩
  else if word = "nan" then some { Binary.nan f with negative := signed.1 }
  else readUnsigned? f signed.1 signed.2

end UnitFiles.Number

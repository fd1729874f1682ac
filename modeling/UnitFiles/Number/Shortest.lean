import UnitFiles.Number.Binary

/-! The shortest decimal text of a binary number: the fewest digits that are read back as the same
number, and of those with the fewest digits the nearest. Where two are equally near, the style of
writing decides. -/
namespace UnitFiles.Number

structure Scientific where
  digits : Nat
  exponent : Int
deriving DecidableEq, Repr

/-- Which of two equally near decimals is taken: the larger one, or the one with an even last
digit. -/
inductive Tie
  | up
  | even
deriving DecidableEq, Repr

def Tie.takesUpper (tie : Tie) (below : Nat) : Bool :=
  match tie with
  | .up => true
  | .even => below % 2 == 1

/-- The point of the decimal grid `10 ^ k` nearest to `value` among its two neighbours that lie
between `low` and `high`, all three counted in units of `2 ^ q`. -/
def gridPoint? (tie : Tie) (value low high : Nat) (closed : Bool) (q k : Int) : Option Nat :=
  let decimalUnit := Nat.pow 10 k.toNat * Nat.pow 2 (-q).toNat
  let binaryUnit := Nat.pow 2 q.toNat * Nat.pow 10 (-k).toNat
  let inside (n : Nat) : Bool :=
    let x := n * decimalUnit
    if closed then low * binaryUnit ≤ x && x ≤ high * binaryUnit
    else low * binaryUnit < x && x < high * binaryUnit
  let below := value * binaryUnit / decimalUnit
  let above := below + 1
  let middle := (below + above) * decimalUnit
  let twice := 2 * value * binaryUnit
  if inside below then
    if inside above && (middle < twice || (middle == twice && tie.takesUpper below)) then some above
    else some below
  else if inside above then some above
  else none

/-- The first of the grids `10 ^ k`, `10 ^ (k - 1)`, … with a point in the interval. -/
def firstGridPoint (tie : Tie) (value low high : Nat) (closed : Bool) (q : Int) :
    Nat → Int → Scientific
  | 0, k => ⟨value, k⟩
  | steps + 1, k =>
    match gridPoint? tie value low high closed q k with
    | some n => ⟨n, k⟩
    | none => firstGridPoint tie value low high closed q steps (k - 1)

/-- The shortest digits of a finite number other than zero. The interval of the reals that round to
it reaches half way to its neighbours, and holds its ends when the significand is even. -/
def Binary.shortest {f : Format} (tie : Tie) (x : Binary f) : Scientific :=
  let c := x.significand
  let e := x.exponent
  let gapBelow := if c = f.hidden && f.leastExponent < e then 1 else 2
  let start := ((c.log2 : Int) + 1 + e) * 30103 / 100000 + 1
  firstGridPoint tie (4 * c) (4 * c - gapBelow) (4 * c + 2) (c % 2 == 0) (e - 2) 24 start

def zeros (n : Nat) : List Char := List.replicate n '0'

def pointed (digits : List Char) (whole : Nat) : List Char :=
  digits.take whole ++ '.' :: digits.drop whole

/-- All digits written out, without an exponent; a whole number has no point. -/
def Scientific.positional (s : Scientific) : List Char :=
  let digits := Nat.toDigits 10 s.digits
  let whole := (digits.length : Int) + s.exponent
  if 0 ≤ s.exponent then digits ++ zeros s.exponent.toNat
  else if 0 < whole then pointed digits whole.toNat
  else '0' :: '.' :: zeros (-whole).toNat ++ digits

/-- Positional between a hundred thousandth and ten to the sixteenth, always with a point; with an
exponent elsewhere. -/
def Scientific.compact (s : Scientific) : List Char :=
  let digits := Nat.toDigits 10 s.digits
  let whole := (digits.length : Int) + s.exponent
  if 0 ≤ s.exponent && whole ≤ 16 then digits ++ zeros s.exponent.toNat ++ ['.', '0']
  else if 0 < whole && whole ≤ 16 then pointed digits whole.toNat
  else if -5 < whole && whole ≤ 0 then '0' :: '.' :: zeros (-whole).toNat ++ digits
  else
    (if digits.length = 1 then digits else pointed digits 1) ++
      'e' :: (toString (whole - 1)).toList

structure Style where
  tie : Tie
  form : Scientific → List Char
  zero : List Char

/-- Option values are written positionally, and the larger of two equally near decimals is taken. -/
def Style.plain : Style := ⟨.up, Scientific.positional, ['0']⟩

/-- Dynamic values are written in compact form, and a tie goes to the even digit. -/
def Style.dynamic : Style := ⟨.even, Scientific.compact, ['0', '.', '0']⟩

def Binary.text {f : Format} (style : Style) (x : Binary f) : String :=
  if x.isNan then "NaN"
  else
    let body :=
      if x.isInfinite then "inf".toList
      else if x.isZero then style.zero
      else style.form (x.shortest style.tie)
    String.ofList (if x.negative then '-' :: body else body)

def Binary.plain {f : Format} (x : Binary f) : String := x.text .plain

end UnitFiles.Number

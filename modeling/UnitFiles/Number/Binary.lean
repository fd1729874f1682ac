/-! Binary floating point numbers, and the rounding of exact fractions to them. All arithmetic is
exact arithmetic on natural numbers followed by one rounding. -/
namespace UnitFiles.Number

structure Format where
  precision : Nat
  exponentBits : Nat

def double : Format := ⟨53, 11⟩

def single : Format := ⟨24, 8⟩

def Format.hidden (f : Format) : Nat := Nat.pow 2 (f.precision - 1)

/-- The magnitude of an infinity; larger ones are not numbers. -/
def Format.infinity (f : Format) : Nat := (Nat.pow 2 f.exponentBits - 1) * f.hidden

/-- The exponent of the unit in which the smallest numbers are counted. -/
def Format.leastExponent (f : Format) : Int :=
  3 - (Nat.pow 2 (f.exponentBits - 1) : Int) - f.precision

/-- A number of the given format: its sign, and its exponent and fraction bits read as one number.
Numbers of one sign are ordered as their magnitudes are. -/
structure Binary (f : Format) where
  negative : Bool
  magnitude : Nat
deriving DecidableEq, Repr

abbrev Double := Binary double

abbrev Single := Binary single

namespace Binary
variable {f : Format}

def isNan (x : Binary f) : Bool := f.infinity < x.magnitude

def isInfinite (x : Binary f) : Bool := x.magnitude == f.infinity

def isFinite (x : Binary f) : Bool := x.magnitude < f.infinity

def isZero (x : Binary f) : Bool := x.magnitude == 0

def nan (f : Format) : Binary f := ⟨false, f.infinity + f.hidden / 2⟩

def neg (x : Binary f) : Binary f := ⟨!x.negative, x.magnitude⟩

def bits (x : Binary f) : Nat :=
  (if x.negative then Nat.pow 2 f.exponentBits * f.hidden else 0) + x.magnitude

def ofBits (f : Format) (n : Nat) : Binary f :=
  let signBit := Nat.pow 2 f.exponentBits * f.hidden
  ⟨signBit ≤ n, n % signBit⟩

/-- A finite number is its significand times two to its exponent. -/
def significand (x : Binary f) : Nat :=
  if x.magnitude < f.hidden then x.magnitude else f.hidden + x.magnitude % f.hidden

def exponent (x : Binary f) : Int :=
  f.leastExponent + ((x.magnitude / f.hidden - 1 : Nat) : Int)

end Binary

def descale (num den : Nat) (k : Int) : Nat × Nat :=
  if 0 ≤ k then (num, den * Nat.pow 2 k.toNat) else (num * Nat.pow 2 (-k).toNat, den)

/-- The nearest whole number; a half goes to the even neighbour. -/
def divNearest (num den : Nat) : Nat :=
  let q := num / den
  let r := 2 * (num % den)
  if den < r || (r == den && q % 2 == 1) then q + 1 else q

/-- The magnitude nearest to `num / den * 2 ^ e`; what is too large becomes infinite. -/
def nearestMagnitude (f : Format) (num den : Nat) (e : Int) : Nat :=
  if num = 0 then 0
  else
    let top : Int := (num.log2 : Int) - (den.log2 : Int) + e
    let high := max (top - ((f.precision - 1 : Nat) : Int)) f.leastExponent
    let atHigh := descale num den (high - e)
    let low := max (high - 1) f.leastExponent
    let unit := if atHigh.1 / atHigh.2 < f.hidden then low else high
    let scaled := descale num den (unit - e)
    min f.infinity
      (divNearest scaled.1 scaled.2 + (unit - f.leastExponent).toNat * f.hidden)

namespace Binary
variable {f : Format}

def ofNat (f : Format) (n : Nat) : Binary f := ⟨false, nearestMagnitude f n 1 0⟩

def ofInt (f : Format) (n : Int) : Binary f := ⟨n < 0, nearestMagnitude f n.natAbs 1 0⟩

/-- The number nearest to `digits * 10 ^ e`. Powers of ten far outside the range of the format are
not computed. -/
def ofDecimal (f : Format) (negative : Bool) (digits : Nat) (e : Int) : Binary f :=
  let size : Int := (Nat.toDigits 10 digits).length + e
  if digits = 0 || size < -400 then ⟨negative, 0⟩
  else if 400 < size then ⟨negative, f.infinity⟩
  else if 0 ≤ e then ⟨negative, nearestMagnitude f (digits * Nat.pow 10 e.toNat) 1 0⟩
  else ⟨negative, nearestMagnitude f digits (Nat.pow 10 (-e).toNat) 0⟩

def mul (x y : Binary f) : Binary f :=
  ⟨x.negative != y.negative,
    nearestMagnitude f (x.significand * y.significand) 1 (x.exponent + y.exponent)⟩

def div (x y : Binary f) : Binary f :=
  ⟨x.negative != y.negative,
    nearestMagnitude f x.significand y.significand (x.exponent - y.exponent)⟩

def convert (g : Format) (x : Binary f) : Binary g :=
  if x.isNan then nan g
  else if x.isInfinite then ⟨x.negative, g.infinity⟩
  else ⟨x.negative, nearestMagnitude g x.significand 1 x.exponent⟩

end Binary

end UnitFiles.Number

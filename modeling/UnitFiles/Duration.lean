import UnitFiles.Number.Decimal
import UnitFiles.Number.Word

/-! Lengths of time, written as numbers with units: `10h6s`, `1.5m`, `300ms`. -/
namespace UnitFiles

/-- A length of time in nanoseconds. Its whole seconds fit in 64 bits. -/
structure Duration where
  nanoseconds : Nat
  bound : nanoseconds < 18_446_744_073_709_551_616 * 1_000_000_000 := by decide
deriving DecidableEq, Repr

namespace Duration
open Number

def zero : Duration := { nanoseconds := 0 }

def seconds (d : Duration) : Nat := d.nanoseconds / 1_000_000_000

def subsecond (d : Duration) : Nat := d.nanoseconds % 1_000_000_000

def ofNanoseconds? (n : Nat) : Option Duration :=
  if h : n < 18_446_744_073_709_551_616 * 1_000_000_000 then some ⟨n, h⟩ else none

/-- Nanoseconds are counted in words of 128 bits while they are added up. -/
abbrev Count := BitVec 128

/-- The nanoseconds in one unit. The micro sign and the letter mu are both accepted. -/
def unitNanoseconds? (unit : List Char) : Option Count :=
  if unit = ['n', 's'] then some 1
  else if unit = ['u', 's'] || unit = ['\u00b5', 's'] || unit = ['\u03bc', 's'] then some 1_000
  else if unit = ['m', 's'] then some 1_000_000
  else if unit = ['s'] then some 1_000_000_000
  else if unit = ['m'] then some 60_000_000_000
  else if unit = ['h'] then some 3_600_000_000_000
  else none

def startsNumber (c : Char) : Bool := c == '.' || c.isDigit

def takeFraction : List Char → List Char × List Char
  | '.' :: rest => takeDigits rest
  | s => ([], s)

/-- A fraction with one more digit: what stands over the line, and the power of ten below it. -/
def addDigit (fraction : Count × Count) (digit : Char) : Count × Count :=
  (fraction.1 * 10 + BitVec.ofNat 128 (digit.toNat - '0'.toNat), fraction.2 * 10)

/-- The share of a unit that the digits after the point stand for, cut off to nanoseconds. Digits
after the eighteenth are not looked at, so that none of the products wraps around. -/
def shareOf (unit : Count) (digits : List Char) : Count :=
  let fraction := (digits.take 18).foldl addDigit (0, 1)
  fraction.1 * unit / fraction.2

structure Component where
  whole : List Char
  fraction : List Char
  unit : Count
deriving DecidableEq, Repr

def takeComponent? (s : List Char) : Option (Component × List Char) :=
  let whole := takeDigits s
  let fraction := takeFraction whole.2
  if whole.1.isEmpty && fraction.1.isEmpty then none
  else
    (unitNanoseconds? (fraction.2.takeWhile (!startsNumber ·))).map fun unit =>
      (⟨whole.1, fraction.1, unit⟩, fraction.2.dropWhile (!startsNumber ·))

def Component.addTo? (c : Component) (total : Count) : Option Count :=
  (word? 128 (Nat.ofDigitChars 10 c.whole 0)).bind fun whole =>
    (mulWords? whole c.unit).bind fun n =>
      (addWords? total n).bind fun sum => addWords? sum (shareOf c.unit c.fraction)

theorem takeDigits_length (s : List Char) :
    (takeDigits s).1.length + (takeDigits s).2.length = s.length := by
  rw [← List.length_append, takeDigits, List.takeWhile_append_dropWhile]

theorem takeFraction_length (s : List Char) :
    (takeFraction s).1.length + (takeFraction s).2.length ≤ s.length := by
  unfold takeFraction
  split
  · rw [takeDigits_length]; simp
  · simp

/-- Each round takes at least one digit. -/
theorem takeComponent?_shorter {s rest : List Char} {c : Component}
    (h : takeComponent? s = some (c, rest)) : rest.length < s.length := by
  have hw := takeDigits_length s
  have hf := takeFraction_length (takeDigits s).2
  simp only [takeComponent?] at h
  split at h
  · simp at h
  · rename_i hne
    obtain ⟨_, _, hu⟩ := Option.map_eq_some_iff.1 h
    have hr : rest.length ≤ (takeFraction (takeDigits s).2).2.length := by
      rw [← (Prod.mk.inj hu).2]; exact (List.dropWhile_sublist _).length_le
    have hpos : 0 < (takeDigits s).1.length ∨ 0 < (takeFraction (takeDigits s).2).1.length := by
      simp only [Bool.and_eq_true, List.isEmpty_iff] at hne
      by_cases hemp : (takeDigits s).1 = []
      · exact .inr (List.length_pos_iff.2 fun hfr => hne ⟨hemp, hfr⟩)
      · exact .inl (List.length_pos_iff.2 hemp)
    omega

def sumFrom? (total : Count) (s : List Char) : Option Count :=
  if s.isEmpty then some total
  else
    match _h : takeComponent? s with
    | none => none
    | some (c, rest) => (c.addTo? total).bind fun total => sumFrom? total rest
termination_by s.length
decreasing_by exact takeComponent?_shorter _h

/-- A duration has no sign, so that a minus fits zero only. -/
def read? (s : List Char) : Option Duration :=
  let signed := takeSign s
  if signed.2 = ['0'] then some zero
  else if signed.2.isEmpty then none
  else (sumFrom? 0 signed.2).bind fun total =>
    if signed.1 && total != 0 then none else ofNanoseconds? total.toNat

def component (n : Nat) (unit : Char) : List Char :=
  if n = 0 then [] else Nat.toDigits 10 n ++ [unit]

/-- Nine digits after the point, without the zeros at the end. -/
def fractionDigits (nanoseconds : Nat) : List Char :=
  let digits := Nat.toDigits 10 nanoseconds
  let padded := List.replicate (9 - digits.length) '0' ++ digits
  (padded.reverse.dropWhile (· == '0')).reverse

/-- Hours, minutes and seconds, such as `1h30m` or `1m0.5s`; `0s` for no time at all. -/
def text (d : Duration) : String :=
  if d.nanoseconds = 0 then "0s"
  else
    let total := d.seconds
    let head := component (total / 3600) 'h' ++ component (total % 3600 / 60) 'm'
    let tail :=
      if d.subsecond = 0 then component (total % 60) 's'
      else Nat.toDigits 10 (total % 60) ++ '.' :: fractionDigits d.subsecond ++ ['s']
    String.ofList (head ++ tail)

end Duration
end UnitFiles

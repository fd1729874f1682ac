import UnitFiles.Text.CaseTables

/-! Letter case of whole texts, and the comparison of names without regard to it. -/
namespace UnitFiles.Text

def lowerChar (c : Char) : List Char :=
  let n := c.toNat
  if n < 0x80 then [c.toLower]
  else if n = 0x130 then ['i', '\u0307']
  else match lowercaseRuns.find? (·.covers n) with
    | some run => [Char.ofNat (run.apply n)]
    | none => [c]

def upperChar (c : Char) : List Char :=
  let n := c.toNat
  if n < 0x80 then [c.toUpper]
  else match uppercaseExpansions.find? (·.1 == n) with
    | some expansion => expansion.2.map Char.ofNat
    | none => match uppercaseRuns.find? (·.covers n) with
      | some run => [Char.ofNat (run.apply n)]
      | none => [c]

def isCased (c : Char) : Bool := inRanges casedRanges c.toNat

def isCaseIgnorable (c : Char) : Bool := inRanges caseIgnorableRanges c.toNat

/-- The first character that is not passed over is a cased one. -/
def startsCased (s : List Char) : Bool :=
  match s.dropWhile isCaseIgnorable with
  | [] => false
  | c :: _ => isCased c

/-- The lowercase form of a text that follows the characters `before`, nearest first. A capital
sigma at the end of a word takes its final form. -/
def lowerAfter (before : List Char) : List Char → List Char
  | [] => []
  | c :: rest =>
    (if c = 'Σ' then [if startsCased before && !startsCased rest then 'ς' else 'σ']
      else lowerChar c) ++ lowerAfter (c :: before) rest

def lower (s : List Char) : List Char := lowerAfter [] s

def upper (s : List Char) : List Char := s.flatMap upperChar

def isAscii (s : List Char) : Bool := s.all (·.toNat < 0x80)

def sameAscii : List Char → List Char → Bool
  | [], [] => true
  | a :: as, b :: bs => a.toLower == b.toLower && sameAscii as bs
  | _, _ => false

def fold (name : String) : String := String.ofList (lower name.toList)

/-- Names are the same when their lowercase forms are; two ASCII names are compared letter by
letter, without looking at the tables. -/
def sameName (a b : String) : Bool :=
  let a := a.toList
  let b := b.toList
  if isAscii a && isAscii b then sameAscii a b else lower a == lower b

def capitals (name : String) : String := String.ofList (upper name.toList)

end UnitFiles.Text

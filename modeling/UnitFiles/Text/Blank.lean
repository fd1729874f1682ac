/-! Blank characters, and text without the blanks at its ends. -/
namespace UnitFiles.Text

/-- The White_Space characters of Unicode. -/
def isBlank (c : Char) : Bool :=
  let n := c.toNat
  (0x09 ≤ n && n ≤ 0x0D) || n == 0x20 || n == 0x85 || n == 0xA0 || n == 0x1680 ||
    (0x2000 ≤ n && n ≤ 0x200A) || n == 0x2028 || n == 0x2029 || n == 0x202F || n == 0x205F ||
    n == 0x3000

def trimStart (s : List Char) : List Char := s.dropWhile isBlank

def trimEnd (s : List Char) : List Char := (s.reverse.dropWhile isBlank).reverse

def trim (s : List Char) : List Char := trimEnd (trimStart s)

def splitFirst (c : Char) : List Char → Option (List Char × List Char)
  | [] => none
  | x :: rest =>
    if x = c then some ([], rest)
    else (splitFirst c rest).map fun p => (x :: p.1, p.2)

/-- The pieces between the separators `c`; a text without one is its own only piece. -/
def splitAll (c : Char) : List Char → List (List Char)
  | [] => [[]]
  | x :: rest =>
    if x = c then [] :: splitAll c rest
    else match splitAll c rest with
      | [] => [[x]]
      | piece :: pieces => (x :: piece) :: pieces

def words (s : List Char) : List (List Char) :=
  (splitAll ' ' (s.map fun c => if isBlank c then ' ' else c)).filter fun word => !word.isEmpty

/-- The text after a start whose characters have the same images as those of the given one. -/
def dropStartBy? (f : Char → Char) : List Char → List Char → Option (List Char)
  | [], s => some s
  | _ :: _, [] => none
  | p :: ps, c :: cs => if f p = f c then dropStartBy? f ps cs else none

def dropStart? : List Char → List Char → Option (List Char) := dropStartBy? id

def dropEnd? (e s : List Char) : Option (List Char) :=
  (dropStart? e.reverse s.reverse).map List.reverse

def join (sep : List Char) : List (List Char) → List Char
  | [] => []
  | [piece] => piece
  | piece :: pieces => piece ++ sep ++ join sep pieces

end UnitFiles.Text

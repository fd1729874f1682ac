/-! The lines of a text. -/
namespace UnitFiles.Text

/-- The lines of a text, each ended by a newline; the last one may lack its newline. -/
def lines : List Char → List (List Char)
  | [] => []
  | '\n' :: rest => [] :: lines rest
  | c :: rest =>
    match lines rest with
    | [] => [[c]]
    | line :: more => (c :: line) :: more

def unlines : List (List Char) → List Char
  | [] => []
  | line :: more => line ++ '\n' :: unlines more

end UnitFiles.Text

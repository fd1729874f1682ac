/-! Splitting a text into words as a shell does: blanks part the words, quotes and backslashes keep
characters together, and a `#` at the start of a word opens a comment up to the end of the line. -/
namespace UnitFiles.Text

/-- Where the reader stands: between words, in a comment, or in a word, plain or quoted, perhaps
right after a backslash. -/
inductive ShellState
  | between
  | comment
  | plain
  | plainEscape
  | single
  | double
  | doubleEscape
deriving DecidableEq

def isShellBlank (c : Char) : Bool := c == ' ' || c == '\t' || c == '\n'

def shellStep : ShellState → Char → ShellState × List Char × Bool
  | .between, c =>
    if isShellBlank c then (.between, [], false)
    else if c = '#' then (.comment, [], false)
    else plainStep c
  | .comment, c => (if c = '\n' then .between else .comment, [], false)
  | .plain, c => if isShellBlank c then (.between, [], true) else plainStep c
  | .plainEscape, c => (.plain, if c = '\n' then [] else [c], false)
  | .single, c => if c = '\x27' then (.plain, [], false) else (.single, [c], false)
  | .double, c =>
    if c = '\\' then (.doubleEscape, [], false)
    else if c = '"' then (.plain, [], false)
    else (.double, [c], false)
  | .doubleEscape, c =>
    if c = '$' || c = '\x60' || c = '"' || c = '\\' then (.double, [c], false)
    else if c = '\n' then (.double, [], false)
    else (.double, ['\\', c], false)
where
  /-- An unquoted character of a word. -/
  plainStep (c : Char) : ShellState × List Char × Bool :=
    if c = '"' then (.double, [], false)
    else if c = '\x27' then (.single, [], false)
    else if c = '\\' then (.plainEscape, [], false)
    else (.plain, [c], false)

/-- Goes on from a state, with the word read so far. An open quote or a backslash at the end is no
split. -/
def shellFrom (state : ShellState) (word : List Char) : List Char → Option (List (List Char))
  | [] =>
    match state with
    | .between => some []
    | .comment => some []
    | .plain => some [word]
    | _ => none
  | c :: rest =>
    let (next, added, ended) := shellStep state c
    if ended then (shellFrom next [] rest).map (word :: ·)
    else shellFrom next (word ++ added) rest

def shellWords? (s : String) : Option (List String) :=
  (shellFrom .between [] s.toList).map fun words => words.map String.ofList

end UnitFiles.Text

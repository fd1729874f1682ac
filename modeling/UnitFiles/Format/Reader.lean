import UnitFiles.Document
import UnitFiles.Text.Blank
import UnitFiles.Text.Lines

/-! Reading unit files. A line is blank, a comment, a section header in brackets or an option
`Name=Value`. A value that ends in a backslash goes on in the next line. -/
namespace UnitFiles.Format
open Text

/-- What one line says, when it does not continue a value. -/
inductive Line
  | nothing
  | header (name : List Char)
  | option (name value : List Char)
deriving DecidableEq

def Line.ofTrimmed (line : List Char) : Except LineFault Line :=
  match line with
  | [] => .ok .nothing
  | '#' :: _ => .ok .nothing
  | ';' :: _ => .ok .nothing
  | '[' :: rest =>
    match dropEnd? [']'] rest with
    | none => .error .unterminatedHeader
    | some name =>
      if (trim name).isEmpty then .error .emptySectionName else .ok (.header (trim name))
  | line =>
    match splitFirst '=' line with
    | none => .error .noEqualsSign
    | some (name, value) =>
      if (trim name).isEmpty then .error .emptyOptionName
      else .ok (.option (trim name) (trim value))

def pushLast (name value : String) : List Section → List Section
  | [] => []
  | [s] => [s.push name value]
  | s :: rest => s :: pushLast name value rest

/-- What has been read so far: the sections, and the name and value of an option whose value goes
on in the next line. -/
structure Progress where
  sections : List Section
  pending : Option (List Char × List Char)
deriving DecidableEq

/-- Takes note of a value: with a backslash at its end it is not finished. -/
def Progress.settle (p : Progress) (name value : List Char) : Progress :=
  match dropEnd? ['\\'] value with
  | some head => { p with pending := some (name, head) }
  | none => ⟨pushLast (.ofList name) (.ofList value) p.sections, none⟩

def Progress.step (p : Progress) (line : List Char) : Except LineFault Progress :=
  match p.pending with
  | some (name, head) => .ok (p.settle name (head ++ '\n' :: trim line))
  | none =>
    match Line.ofTrimmed (trim line) with
    | .error fault => .error fault
    | .ok .nothing => .ok p
    | .ok (.header name) => .ok ⟨p.sections ++ [⟨.ofList name, []⟩], none⟩
    | .ok (.option name value) =>
      if p.sections.isEmpty then .error .outsideSection else .ok (p.settle name value)

/-- The sections read; a value that was to go on ends with the text. -/
def Progress.finish (p : Progress) : List Section :=
  match p.pending with
  | some (name, head) => pushLast (.ofList name) (.ofList head) p.sections
  | none => p.sections

/-- Reads lines, the first of which has the number `n`. A failure tells the line it is on. -/
def readLines (n : Nat) (p : Progress) : List (List Char) → Except (Nat × LineFault) Progress
  | [] => .ok p
  | line :: rest =>
    match p.step line with
    | .error fault => .error (n, fault)
    | .ok p => readLines (n + 1) p rest

def read (path text : String) : Except Error Document :=
  match readLines 1 ⟨[], none⟩ (lines text.toList) with
  | .error (n, fault) => .error (.badLine path n fault)
  | .ok p =>
    if p.finish.isEmpty then .error .noSections else .ok ⟨path, p.finish⟩

end UnitFiles.Format

import UnitFiles.Decode.Document
import UnitFiles.Format.Reader
import UnitFiles.Format.Writer
import UnitFiles.Merge
import UnitFiles.Specifiers

/-! Changing a document step by step. -/
namespace UnitFiles
open Number

inductive SectionStep
  | push (name value : String)
  | remove (name : String)
  | values (name : String)
  | has (name : String)
  | text (name : String)
  | bool (name : String)
  | int (name : String)
  | float (name : String)
  | duration (name : String)
deriving DecidableEq, Repr

inductive Step
  | validate
  | merge (dropIns : List Document)
  | mergeText (path text : String)
  | replaceSpecifiers (t : Specifiers)
  | append (s : Section)
  | write
  | reread
  | decode (shape : Shape)
  | has (name : String)
  | sectionsNamed (name : String)
  | inFirst (name : String) (step : SectionStep)

inductive Reply
  | done
  | noSection
  | bool (b : Bool)
  | int (n : Int)
  | float (x : Double)
  | duration (d : Duration)
  | text (s : String)
  | texts (all : List String)
  | sections (all : List Section)
  | decoded (d : Decoded)

inductive StepFault
  | failed (e : Error)
  | unfinished (v : Format.UnfinishedValue)

def SectionStep.run (s : Section) : SectionStep → Except Error (Reply × Section)
  | push name value => .ok (.done, s.push name value)
  | remove name => .ok (.done, s.remove name)
  | values name => .ok (.texts (s.values name), s)
  | has name => .ok (.bool (s.has name), s)
  | text name => (s.single name).map fun v => (.text v, s)
  | bool name => (s.read readBool name).map fun v => (.bool v, s)
  | int name => (s.read readInt name).map fun v => (.int v, s)
  | float name => (s.read readFloat name).map fun v => (.float v, s)
  | duration name => (s.read readDuration name).map fun v => (.duration v, s)

namespace Step

def change (result : Except Error Document) : Except StepFault (Reply × Document) :=
  match result with
  | .ok d => .ok (.done, d)
  | .error e => .error (.failed e)

def run (spec : FileSpec) (d : Document) : Step → Except StepFault (Reply × Document)
  | validate => change (spec.validate d)
  | merge dropIns => change (spec.mergeDropIns d dropIns)
  | mergeText path text =>
    change (Format.read path text >>= fun dropIn => spec.mergeDropIns d [dropIn])
  | replaceSpecifiers t => change (t.replaceAll d)
  | append s => .ok (.done, { d with sections := d.sections ++ [s] })
  | write =>
    match Format.write d.sections with
    | .ok text => .ok (.text text, d)
    | .error v => .error (.unfinished v)
  | reread =>
    match Format.write d.sections with
    | .ok text => change (Format.read d.path text)
    | .error v => .error (.unfinished v)
  | decode shape =>
    match spec.decode false d shape with
    | .ok v => .ok (.decoded v, d)
    | .error e => .error (.failed e)
  | has name => .ok (.bool (d.has name), d)
  | sectionsNamed name => .ok (.sections (d.sectionsNamed name), d)
  | inFirst name step =>
    match d.get? name with
    | none => .ok (.noSection, d)
    | some s =>
      match step.run s with
      | .ok (reply, s) => .ok (reply, d.modify name fun _ => s)
      | .error e => .error (.failed e)

/-- Takes steps one after the other. A step that fails leaves the document alone. Each step comes
with its outcome and the document after it. -/
def runAll (spec : FileSpec) (d : Document) :
    List Step → List (Except StepFault Reply × Document)
  | [] => []
  | step :: rest =>
    match step.run spec d with
    | .ok (reply, d) => (.ok reply, d) :: runAll spec d rest
    | .error fault => (.error fault, d) :: runAll spec d rest

end Step
end UnitFiles

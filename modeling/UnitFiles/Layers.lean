import UnitFiles.Environment
import UnitFiles.Format.Reader
import UnitFiles.Merge
import UnitFiles.Specifiers

/-! Layers: a unit and what is laid over it. Drop-ins come first, in order, then the settings of
the environment. -/
namespace UnitFiles

structure SourceText where
  path : String
  text : String
deriving DecidableEq, Repr

/-- Everything that goes into a unit. Without a lead the variables are left aside, and without
specifiers percent signs stand for themselves. -/
structure Sources where
  unit : SourceText
  dropIns : List SourceText
  environment : List (String × String)
  lead : Option String
  specifiers : Option Specifiers
deriving DecidableEq, Repr

/-- A drop-in without any section has no effect; any other failure names the drop-in. -/
def acceptDropIn (path : String) : Except Error Document → Except Error Document
  | .ok d => .ok d
  | .error .noSections => .ok ⟨path, []⟩
  | .error e => .error (.context path e)

def SourceText.readDropIn (s : SourceText) : Except Error Document :=
  acceptDropIn s.path (Format.read s.path s.text)

structure Layers where
  base : Document
  overlays : List Document
deriving DecidableEq, Repr

namespace Layers

def replaceOverlay (t : Specifiers) (d : Document) : Except Error Document :=
  within d.path (t.replaceAll d)

def replaceAll (t : Specifiers) (l : Layers) : Except Error Layers :=
  match t.replaceAll l.base with
  | .error e => .error e
  | .ok base => (mapAll (replaceOverlay t) l.overlays).map (Layers.mk base)

/-- One valid document. The unit gets its defaults before anything is merged, so that a drop-in
adds to the default of a list and a required option is set by the unit itself. -/
def flatten (spec : FileSpec) (l : Layers) : Except Error Document :=
  match spec.validate l.base with
  | .error e => .error e
  | .ok base =>
    match spec.mergeDropIns base l.overlays with
    | .error e => .error e
    | .ok merged => spec.validate merged

end Layers

namespace Sources

def environmentLayer (spec : FileSpec) (s : Sources) : Except Error (List Document) :=
  match s.lead with
  | none => .ok []
  | some lead =>
    (Environment.read lead s.environment spec).map fun d => if d.sections.isEmpty then [] else [d]

def read (spec : FileSpec) (s : Sources) : Except Error Layers :=
  match Format.read s.unit.path s.unit.text with
  | .error e => .error e
  | .ok base =>
    match mapAll SourceText.readDropIn s.dropIns with
    | .error e => .error e
    | .ok dropIns => (s.environmentLayer spec).map fun last => ⟨base, dropIns ++ last⟩

def layers (spec : FileSpec) (s : Sources) : Except Error Layers :=
  match s.read spec, s.specifiers with
  | .error e, _ => .error e
  | .ok l, none => .ok l
  | .ok l, some t => l.replaceAll t

def resolve (spec : FileSpec) (s : Sources) : Except Error Document :=
  match s.layers spec with
  | .error e => .error e
  | .ok l => l.flatten spec

end Sources
end UnitFiles

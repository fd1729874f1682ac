import UnitFiles.Json.Reader
import UnitFiles.Spec.Basic
import UnitFiles.Text.Lines
import UnitFiles.Toml.Reader

/-! Specs as dynamic values, and as text in either of two formats. -/
namespace UnitFiles
open Text Json

namespace Json.Tree

def text? : Tree → Option String
  | .text s => s
  | _ => none

def bool? : Tree → Option Bool
  | .bool b => some b
  | _ => none

def items? : Tree → Option (List Tree)
  | .array items => some items
  | _ => none

def readAll {α β : Type} (read : α → Option β) : List α → Option (List β)
  | [] => some []
  | a :: rest => (read a).bind fun b => (readAll read rest).map (b :: ·)

def names? {α : Type} : List (Option String × α) → Option (List (String × α)) :=
  readAll fun p => p.1.map fun name => (name, p.2)

/-- The fields of a record, given as an object or as an array in the order of the fields. A field is
given once. Whether an array may be too long depends on the format. -/
def record? (names : List String) (exact : Bool) : Tree → Option (List (String × Tree))
  | .object fields =>
    (names? fields).bind fun fields =>
      let known := (fields.map Prod.fst).filter names.contains
      if known.Nodup then some fields else none
  | .array items =>
    if exact && names.length < items.length then none else some (names.zip items)
  | _ => none

def field? {α : Type} (fields : List (String × Tree)) (name : String) (read : Tree → Option α) :
    Option α :=
  (fields.lookup name).bind read

/-- A field that may be missing, but not unreadable. -/
def fieldOr {α : Type} (fields : List (String × Tree)) (name : String) (start : α)
    (read : Tree → Option α) : Option α :=
  match fields.lookup name with
  | none => some start
  | some t => read t

end Json.Tree

open Json.Tree

namespace OptionSpec

def fieldNames : List String :=
  ["name", "aliases", "description", "type", "required", "default", "internal", "annotation"]

/-- An option spec in a tree. The values of annotations are at most `depth` deep. -/
def ofTree? (depth : Nat) (exact : Bool) (t : Tree) : Option OptionSpec := do
  let fields ← t.record? fieldNames exact
  let name ← field? fields "name" text?
  let aliases ← fieldOr fields "aliases" [] fun t => t.items?.bind (readAll text?)
  let description ← fieldOr fields "description" "" text?
  let type ← fieldOr fields "type" .string fun t => t.text?.bind OptionType.ofNameOrEmpty?
  let required ← fieldOr fields "required" false bool?
  let default ← fieldOr fields "default" "" text?
  let internal ← fieldOr fields "internal" false bool?
  let annotations ← fieldOr fields "annotation" [] fun t =>
    match t with
    | .object entries => (valueFields? depth entries).map Keyed.ofList
    | _ => none
  return { name, aliases, description, type, required, default, internal, annotations }

/-- Fields that hold their default are left out, except for the name and the type. -/
def toFields (o : OptionSpec) : List (String × Json) :=
  [("name", .text o.name)] ++
  (if o.aliases.isEmpty then [] else [("aliases", .array (o.aliases.map .text))]) ++
  (if o.description = "" then [] else [("description", .text o.description)]) ++
  [("type", .text o.type.name)] ++
  (if o.required then [("required", .bool true)] else []) ++
  (if o.default = "" then [] else [("default", .text o.default)]) ++
  (if o.internal then [("internal", .bool true)] else []) ++
  (if o.annotations.isEmpty then [] else [("annotation", .object o.annotations)])

def toJson (o : OptionSpec) : Json := .object o.toFields

end OptionSpec

namespace SectionSpec

def ofTree? (depth : Nat) (exact : Bool) (t : Tree) : Option SectionSpec :=
  t.items?.bind fun items => (readAll (OptionSpec.ofTree? depth exact) items).map SectionSpec.mk

def toJson (s : SectionSpec) : Json := .array (s.options.map OptionSpec.toJson)

end SectionSpec

namespace FileSpec

/-- A spec in a tree; of sections with exactly the same name the last one counts. -/
def ofTree? (depth : Nat) (exact : Bool) : Tree → Option FileSpec
  | .object fields =>
    (readAll (fun p => p.1.bind fun name =>
      (SectionSpec.ofTree? depth exact p.2).map fun s => (name, s)) fields).map
        fun sections => ⟨Keyed.ofList sections⟩
  | _ => none

def toJson (spec : FileSpec) : Json := .object (spec.sections.map fun p => (p.1, p.2.toJson))

def annotationDepth : Nat := depthLimit - 4

def ofJsonText (text : String) : Except Error FileSpec :=
  match (tree? text).bind (ofTree? annotationDepth true) with
  | none => .error .malformedJson
  | some spec => spec.normalized

end FileSpec

namespace Toml

def strayKeys : Toml → List String
  | .table _ fields => (fields.map Prod.fst).filter fun key => !OptionSpec.fieldNames.contains key
  | _ => []

def strayFrom (sectionName : String) (n : Nat) : List Toml → List String
  | [] => []
  | item :: rest =>
    (strayKeys item).map (fun key => sectionName ++ "." ++ toString n ++ "." ++ key) ++
      strayFrom sectionName (n + 1) rest

def stray (fields : Fields) : List String :=
  fields.flatMap fun p =>
    match p.2 with
    | .array items => strayFrom p.1 0 items
    | .tables items => strayFrom p.1 0 items
    | _ => []

/-- The table that an array header names, without the blanks and quotation marks around it. -/
def headerName? (line : List Char) : Option (List Char) :=
  (dropStart? ['[', '['] line).bind fun rest =>
    (dropEnd? [']', ']'] rest).map fun name =>
      ((trim name).reverse.dropWhile (· == '"')).reverse.dropWhile (· == '"')

def assigns (key line : List Char) : Bool :=
  match dropStart? key line with
  | some rest => (trimStart rest).head? == some '='
  | none => false

/-- The number of the line that assigns a key in the table of a name that comes after `index`
others, and 0 if there is none. `passed` counts the tables of that name so far, and `inside` tells
whether the last header was that of the table. -/
def lineIn (name key : List Char) (index passed : Nat) (inside : Bool) (n : Nat) :
    List (List Char) → Nat
  | [] => 0
  | line :: rest =>
    let line := trim line
    match headerName? line with
    | some header =>
      if header = name then lineIn name key index (passed + 1) (passed == index) (n + 1) rest
      else lineIn name key index passed false (n + 1) rest
    | none =>
      if inside && assigns key line then n
      else lineIn name key index passed inside (n + 1) rest

/-- The number of the line of an unknown key written as section, index and key with dots between
them; 0 if it is not found, which holds for all keys with more dots. -/
def lineOf (text key : String) : Nat :=
  match splitAll '.' key.toList with
  | [name, index, last] =>
    if index.isEmpty || !index.all Char.isDigit then 0
    else
      lineIn name last (Nat.ofDigitChars 10 index 0) 0 false 1 (lines text.toList)
  | _ => 0

end Toml

def FileSpec.ofToml (path text : String) : Except Error FileSpec :=
  match Toml.read? text with
  | none => .error (.malformedSpecs path)
  | some fields =>
    match FileSpec.ofTree? text.length false (Toml.table .explicit fields).toTree with
    | none => .error (.malformedSpecs path)
    | some spec =>
      if (Toml.stray fields).isEmpty then spec.normalized
      else .error (.unknownKeys ((Toml.stray fields).map fun key =>
        ⟨key, path, Toml.lineOf text key⟩))

structure DescribedSection where
  content : Section
  spec : SectionSpec

namespace DescribedSection

def nameValue? (t : Tree) : Option Entry := do
  let fields ← t.record? ["name", "value"] true
  let name ← field? fields "name" text?
  let value ← field? fields "value" text?
  return ⟨name, value⟩

def section? (t : Tree) : Option Section := do
  let fields ← t.record? ["name", "options"] true
  let name ← field? fields "name" text?
  let entries ← fieldOr fields "options" [] fun t => t.items?.bind (readAll nameValue?)
  return ⟨name, entries⟩

def ofTree? (t : Tree) : Option DescribedSection := do
  let fields ← t.record? ["section", "spec"] true
  let content ← field? fields "section" section?
  let spec ← field? fields "spec" (SectionSpec.ofTree? FileSpec.annotationDepth true)
  return ⟨content, spec⟩

def ofText? (text : String) : Option DescribedSection := (tree? text).bind ofTree?

def entryJson (e : Entry) : Json := .object [("name", .text e.name), ("value", .text e.value)]

def sectionJson (s : Section) : Json :=
  .object [("name", .text s.name), ("options", .array (s.entries.map entryJson))]

def toJson (r : DescribedSection) : Json :=
  .object [("section", sectionJson r.content), ("spec", r.spec.toJson)]

def toText (r : DescribedSection) : String := .ofList r.toJson.render

end DescribedSection
end UnitFiles

import UnitFiles.Json.Reader

/-! Spec files: values, and the tables that headers and dotted keys build up. -/
namespace UnitFiles
open Number

/-- How a table came to be. An inline table is complete as it stands. A table that a header names is
explicit; one that is only on the way to another is implicit or dotted and may still be named or
filled. -/
inductive TableKind
  | inline
  | explicit
  | implicit
  | dotted
deriving DecidableEq

inductive Toml
  | text (s : String)
  | int (n : Int)
  | float (x : Double)
  | bool (b : Bool)
  | datetime (s : String)
  | array (items : List Toml)
  | table (kind : TableKind) (fields : List (String × Toml))
  | tables (items : List Toml)
deriving Inhabited

namespace Toml

abbrev Fields := List (String × Toml)

def Fields.get? (name : String) (fields : Fields) : Option Toml :=
  (fields.find? fun p => p.1 == name).map Prod.snd

/-- Puts a new field at the end, or another value into the place of an old one. -/
def Fields.set (name : String) (v : Toml) : Fields → Fields
  | [] => [(name, v)]
  | (n, w) :: rest => if n = name then (n, v) :: rest else (n, w) :: Fields.set name v rest

def Fields.erase (name : String) (fields : Fields) : Fields := fields.filter fun p => p.1 != name

def changeLast? {α : Type} (change : α → Option α) : List α → Option (List α)
  | [] => none
  | [a] => (change a).map ([·])
  | a :: rest => (changeLast? change rest).map (a :: ·)

/-- Changes the table at the end of a path. Tables missing on the way are made. Dotted keys do not
lead into tables named by a header. Of an array of tables the last one is meant. -/
def descend (dotted : Bool) (change : TableKind → Fields → Option Fields) :
    List String → TableKind → Fields → Option Fields
  | [], kind, fields => change kind fields
  | key :: path, _, fields =>
    let into : Toml → Option Toml
      | .table kind inner =>
        if kind = .inline || (dotted && kind = .explicit) then none
        else (descend dotted change path kind inner).map (.table kind)
      | _ => none
    match Fields.get? key fields with
    | none =>
      let kind := if dotted then .dotted else .implicit
      (descend dotted change path kind []).map fun inner => fields.set key (.table kind inner)
    | some (.tables items) =>
      (changeLast? (fun item => match item with
        | .table kind inner => (descend dotted change path kind inner).map (.table kind)
        | _ => none) items).map fun items => fields.set key (.tables items)
    | some v => (into v).map (fields.set key)

/-- Adds a key with a dotted path in front. The table it goes into is one made by dotted keys, and
has no such key yet. -/
def insertKey (path : List String) (key : String) (v : Toml) (fields : Fields) : Option Fields :=
  descend true (fun kind fields =>
    if !path.isEmpty && kind != .dotted then none
    else if (Fields.get? key fields).isSome then none
    else some (fields.set key v)) path .explicit fields

/-- Opens the table that a header names. Each table is named once. -/
def openTable (path : List String) (key : String) (fields : Fields) : Option Fields :=
  descend false (fun _ fields =>
    match Fields.get? key fields with
    | none => some (fields.set key (.table .explicit []))
    | some (.table .implicit inner) => some ((fields.erase key).set key (.table .explicit inner))
    | some _ => none) path .explicit fields

def openItem (path : List String) (key : String) (fields : Fields) : Option Fields :=
  descend false (fun _ fields =>
    match Fields.get? key fields with
    | none => some (fields.set key (.tables [.table .explicit []]))
    | some (.tables items) => some (fields.set key (.tables (items ++ [.table .explicit []])))
    | some _ => none) path .explicit fields

inductive Statement
  | table (path : List String) (key : String)
  | item (path : List String) (key : String)
  | assign (path : List String) (key : String) (v : Toml)

/-- Carries out statements; `here` is the path of the table that the last header opened. -/
def execute (here : List String) (fields : Fields) : List Statement → Option Fields
  | [] => some fields
  | .table path key :: rest =>
    (openTable path key fields).bind fun fields => execute (path ++ [key]) fields rest
  | .item path key :: rest =>
    (openItem path key fields).bind fun fields => execute (path ++ [key]) fields rest
  | .assign path key v :: rest =>
    (descend false (fun _ inner => insertKey path key v inner) here .explicit fields).bind
      fun fields => execute here fields rest

def datetimeKey : String := "$__toml_private_datetime"

mutual

def toTree : Toml → Json.Tree
  | .text s => .text (some s)
  | .int n => .number (some (.int n))
  | .float x => .number (some (.float x))
  | .bool b => .bool b
  | .datetime s => .object [(some datetimeKey, .text (some s))]
  | .array items => .array (toTrees items)
  | .table _ fields => .object (toTreeFields fields)
  | .tables items => .array (toTrees items)

def toTrees : List Toml → List Json.Tree
  | [] => []
  | v :: rest => toTree v :: toTrees rest

def toTreeFields : List (String × Toml) → List (Option String × Json.Tree)
  | [] => []
  | (name, v) :: rest => (some name, toTree v) :: toTreeFields rest

end

end Toml
end UnitFiles

import UnitFiles.Records
import UnitFiles.Proofs.Validation

/-! Types of records in two levels: the fields of a document are sections, the fields of a section
are options. A field stands for one value, for one or none, or for a list. A type says which shape
is decoded and which values have it. -/
namespace UnitFiles
open Text

/-- A field of values of a type. An optional field need not be marked with a default to be none when
it is missing, unless its shape hides that it is optional. -/
inductive FieldType (α : Type)
  | one (type : α) (default : Option Decoded)
  | optional (type : α) (marked : Bool)
  | list (type : α)

/-- A record with fields whose names differ in more than letter case. -/
structure RecordType (α : Type) where
  fields : List (String × FieldType α)
  distinct : (fields.map Prod.fst).Pairwise fun a b => sameName a b = false

/-- How the values of a type are decoded: one, one or none, and a list. -/
structure Shapes (α : Type) where
  one : α → Shape
  optional : α → Shape
  list : α → Shape

namespace FieldType
variable {α : Type}

def type : FieldType α → α
  | one a _ => a
  | optional a _ => a
  | list a => a

def isList : FieldType α → Bool
  | list _ => true
  | _ => false

def shape (shapes : Shapes α) : FieldType α → Shape
  | one a _ => shapes.one a
  | optional a _ => shapes.optional a
  | list a => shapes.list a

def missing (shapes : Shapes α) : FieldType α → Missing
  | one _ none => .required
  | one _ (some v) => .default v
  | optional a marked =>
    if !marked && (shapes.optional a).isOption then .required else .default .absent
  | list _ => .default (.seq [])

/-- All values that a field holds have a property. -/
inductive Holds (has : α → Decoded → Prop) : FieldType α → Decoded → Prop
  | one {a : α} {v : Decoded} (default : Option Decoded) :
      has a v → Holds has (.one a default) v
  | absent (a : α) (marked : Bool) : Holds has (.optional a marked) .absent
  | present {a : α} {v : Decoded} (marked : Bool) :
      has a v → Holds has (.optional a marked) (.present v)
  | list {a : α} {items : List Decoded} :
      (∀ v ∈ items, has a v) → Holds has (.list a) (.seq items)

end FieldType

namespace RecordType
variable {α : Type}

def fieldsIn (shapes : Shapes α) (t : RecordType α) : List Field :=
  t.fields.map fun f => (f.1, f.2.shape shapes, f.2.missing shapes)

/-- Values for all fields of a type, each of which has a property. -/
def Fills (has : String → FieldType α → Decoded → Prop) (t : RecordType α)
    (values : List (String × Decoded)) : Prop :=
  List.Forall₂ (fun f p => p.1 = f.1 ∧ has f.1 f.2 p.2) t.fields values

inductive Holds (has : String → FieldType α → Decoded → Prop) (t : RecordType α) :
    Decoded → Prop
  | record {values : List (String × Decoded)} : t.Fills has values → Holds has t (.record values)

section Fills
variable {has : String → FieldType α → Decoded → Prop} {t : RecordType α}
  {values : List (String × Decoded)}

theorem Fills.map_fst (h : t.Fills has values) :
    values.map Prod.fst = t.fields.map Prod.fst := by
  rw [Fills] at h
  generalize t.fields = fields at h ⊢
  induction h with
  | nil => rfl
  | cons hp _ ih => rw [List.map_cons, List.map_cons, hp.1, ih]

theorem Fills.distinct (h : t.Fills has values) :
    (values.map Prod.fst).Pairwise fun a b => sameName a b = false :=
  h.map_fst ▸ t.distinct

theorem Fills.exists_field (h : t.Fills has values) {p : String × Decoded} (hp : p ∈ values) :
    ∃ f, has p.1 f p.2 := by
  obtain ⟨f, -, hname, hf⟩ := exists_of_mem_forall₂ h hp
  exact ⟨f.2, hname ▸ hf⟩

theorem Fills.and_imp {restores : String → FieldType α → Decoded → Prop} {skipZero : Bool}
    (h : t.Fills has values) (hrestores : skipZero = true → t.Holds restores (.record values)) :
    t.Fills (fun name f v => has name f v ∧ (skipZero = true → restores name f v)) values := by
  cases skipZero with
  | false =>
    exact List.Forall₂.imp (fun _ _ hp => ⟨hp.1, hp.2, fun hskip => nomatch hskip⟩) h
  | true =>
    cases hrestores rfl with
    | record hall =>
      exact List.Forall₂.mp (fun _ _ hp hone => ⟨hp.1, hp.2, fun _ => hone.2⟩) h hall

end Fills

end RecordType

/-- What one option can hold. Whole numbers have 64 bits at most. -/
inductive ValueType
  | bool
  | int (k : IntKind) (narrow : k.width ≤ 64)
  | text
  | choice (names : List String)
  | duration

namespace ValueType

def shape : ValueType → Shape
  | bool => .bool
  | int k _ => .int k
  | text => .text
  | choice names => .choice names
  | duration => .duration

def optionShape : ValueType → Shape
  | duration => .durationOption
  | t => .option t.shape

def listShape : ValueType → Shape
  | duration => .durationList
  | t => .seq t.shape

def shapes : Shapes ValueType := ⟨shape, optionShape, listShape⟩

def scalar : ValueType → Scalar
  | bool => .bool
  | int _ _ => .int
  | text => .string
  | choice _ => .string
  | duration => .duration

/-- The values of a type. Of whole numbers an option can only hold those up to the largest one. -/
inductive Has : ValueType → Decoded → Prop
  | bool (b : Bool) : Has .bool (.bool b)
  | int {k : IntKind} {n : Int} (narrow : k.width ≤ 64) :
      k.fits n = true → n ≤ Datum.largestInt → Has (.int k narrow) (.int n)
  | text (s : String) : Has .text (.text s)
  | choice {names : List String} {name : String} :
      name ∈ names → Has (.choice names) (.variant name)
  | duration (d : Duration) : Has .duration (.duration d)

end ValueType

/-- False, zero or no text. -/
def Decoded.isZero : Decoded → Bool
  | bool b => !b
  | int n => n == 0
  | text s => s.isEmpty
  | _ => false

/-- A zero value that is left out is put in again: it is the default, and nothing insists on it. -/
def FieldType.RestoresZero (o : OptionSpec) : FieldType ValueType → Decoded → Prop
  | one _ default, v => v.isZero = true → default = some v ∧ o.required = false
  | _, _ => True

abbrev SectionType := RecordType ValueType

namespace SectionType

def shape (t : SectionType) : Shape := .record (t.fieldsIn ValueType.shapes)

def Has (t : SectionType) (v : Decoded) : Prop :=
  RecordType.Holds (fun _ f => f.Holds ValueType.Has) t v

def RestoresZeros (spec : SectionSpec) (t : SectionType) (v : Decoded) : Prop :=
  RecordType.Holds (fun name f v => ∀ o, spec.get? name = some o → f.RestoresZero o v) t v

def shapes : Shapes SectionType := ⟨shape, fun t => .option t.shape, fun t => .seq t.shape⟩

end SectionType

/-- Each field is an option of a matching type. -/
def SectionSpec.Declares (spec : SectionSpec) (t : SectionType) : Prop :=
  ∀ f ∈ t.fields, ∃ o, spec.get? f.1 = some o ∧
    o.type.scalar = f.2.type.scalar ∧ o.type.isList = f.2.isList

instance (spec : SectionSpec) (t : SectionType) : Decidable (spec.Declares t) :=
  decidable_of_iff
    (∀ f ∈ t.fields, (spec.get? f.1).any fun o =>
      o.type.scalar == f.2.type.scalar && o.type.isList == f.2.isList)
    (by simp [SectionSpec.Declares, Option.any_eq_true])

abbrev DocumentType := RecordType SectionType

namespace DocumentType

def shape (t : DocumentType) : Shape := .record (t.fieldsIn SectionType.shapes)

def Has (t : DocumentType) (v : Decoded) : Prop :=
  RecordType.Holds (fun _ f => f.Holds SectionType.Has) t v

def RestoresZeros (spec : FileSpec) (t : DocumentType) (v : Decoded) : Prop :=
  RecordType.Holds (fun name f v => ∀ s, spec.get? name = some s →
    f.Holds (SectionType.RestoresZeros s) v) t v

end DocumentType

/-- Each field is a section whose options are declared. -/
def FileSpec.Declares (spec : FileSpec) (t : DocumentType) : Prop :=
  ∀ f ∈ t.fields, ∃ s, spec.get? f.1 = some s ∧ s.Declares f.2.type

instance (spec : FileSpec) (t : DocumentType) : Decidable (spec.Declares t) :=
  decidable_of_iff
    (∀ f ∈ t.fields, (spec.get? f.1).any fun s => decide (s.Declares f.2.type))
    (by simp [FileSpec.Declares, Option.any_eq_true])

namespace Records

def globalType : SectionType where
  fields := [("Verbose", .one .bool (some (.bool false))),
    ("Workers", .optional (.int ⟨true, 64⟩ (by decide)) true),
    ("Name", .one .text (some (.text ""))), ("Mode", .optional (.choice ["fast", "slow"]) true)]
  distinct := by decide +kernel

def logFileType : SectionType where
  fields := [("Path", .one .text none), ("Fields", .list .text),
    ("Rotate", .one .bool (some (.bool false))), ("MaxAge", .optional .duration true),
    ("MaxSize", .one (.int ⟨false, 64⟩ (by decide)) (some (.int 0)))]
  distinct := by decide +kernel

def appType : DocumentType where
  fields := [("Global", .one globalType none), ("LogFile", .list logFileType)]
  distinct := by decide +kernel

theorem shape_appType : DocumentType.shape appType = RecordKind.appConfig.shape := rfl

end Records
end UnitFiles

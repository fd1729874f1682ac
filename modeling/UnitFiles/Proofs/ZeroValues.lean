import Mathlib.Data.List.Forall2
import UnitFiles.Encode

/-! What is encoded with zero values and without them. Both ways the same sections are made, and the
same failures come up. The options that only one way has are those of fields that hold a zero value
and nothing around it but newtypes. -/
namespace UnitFiles

/-- Two results that fail alike or hold values that belong together. -/
inductive Beside {α β : Type} (R : α → β → Prop) : Except Error α → Except Error β → Prop
  | error (e : Error) : Beside R (.error e) (.error e)
  | ok {a : α} {b : β} : R a b → Beside R (.ok a) (.ok b)

namespace Beside
variable {α β : Type}

theorem within {R : α → β → Prop} {r : Except Error α} {r' : Except Error β}
    (h : Beside R r r') (place : String) :
    Beside R (within place r) (UnitFiles.within place r') := by
  cases h with
  | error e => exact .error _
  | ok hR => exact .ok hR

theorem map {γ δ : Type} {R : α → β → Prop} {R' : γ → δ → Prop} {f : α → γ} {g : β → δ}
    {r : Except Error α} {r' : Except Error β} (h : Beside R r r')
    (himp : ∀ a b, R a b → R' (f a) (g b)) : Beside R' (r.map f) (r'.map g) := by
  cases h with
  | error e => exact .error _
  | ok hR => exact .ok (himp _ _ hR)

/-- Two results beside each other, by what they are. -/
@[elab_as_elim]
theorem elim {R : α → β → Prop} {motive : Except Error α → Except Error β → Prop}
    {r : Except Error α} {r' : Except Error β} (h : Beside R r r')
    (error : ∀ e, motive (.error e) (.error e)) (ok : ∀ a b, R a b → motive (.ok a) (.ok b)) :
    motive r r' := by
  cases h with
  | error e => exact error e
  | ok hR => exact ok _ _ hR

end Beside

namespace Datum
open Number

/-- A zero value as it stands in a field, with its text. Newtypes around it make no difference; what
is marked as present or stands in a list is none. -/
inductive PlainZero : Datum → String → Prop
  | bool : PlainZero (.bool false) "false"
  | int : PlainZero (.int 0) "0"
  | double (negative : Bool) : PlainZero (.double ⟨negative, 0⟩) (if negative then "-0" else "0")
  | single (negative : Bool) : PlainZero (.single ⟨negative, 0⟩) (if negative then "-0" else "0")
  | text : PlainZero (.text "") ""
  | newtype {v : Datum} {text : String} : PlainZero v text → PlainZero (.newtype v) text

def zeroTexts : List String := ["false", "0", "-0", ""]

theorem PlainZero.mem_zeroTexts {v : Datum} {text : String} (h : PlainZero v text) :
    text ∈ zeroTexts := by
  induction h with
  | double negative => cases negative <;> simp [zeroTexts]
  | single negative => cases negative <;> simp [zeroTexts]
  | newtype _ ih => exact ih
  | _ => simp [zeroTexts]

theorem entries_plainZero {v : Datum} {text : String} (h : PlainZero v text) (name : String)
    (skipZero : Bool) :
    v.entries name skipZero = .ok (if skipZero then [] else [⟨name, text⟩]) := by
  induction h with
  | bool => rfl
  | int => rfl
  | double negative => cases negative <;> cases skipZero <;> rfl
  | single negative => cases negative <;> cases skipZero <;> rfl
  | text => rfl
  | newtype _ ih => rw [entries, ih]

theorem scalarEntry_nonzero {isZero : Bool} (h : isZero = false) (name value : String) :
    scalarEntry true name value isZero = scalarEntry false name value isZero := by
  rw [h]
  rfl

/-- All that leaving zero values out can do to one field. -/
theorem plainZero_or_entries_eq (v : Datum) (name : String) :
    (∃ text, PlainZero v text) ∨ v.entries name true = v.entries name false := by
  cases v with
  | bool b =>
    cases b with
    | false => exact Or.inl ⟨_, .bool⟩
    | true => exact Or.inr rfl
  | int n =>
    by_cases hn : n = 0
    · exact Or.inl ⟨"0", hn ▸ PlainZero.int⟩
    · refine Or.inr ?_
      rw [entries, entries, scalarEntry_nonzero (by simpa using hn)]
  | double x =>
    obtain ⟨negative, magnitude⟩ := x
    by_cases hx : magnitude = 0
    · exact Or.inl ⟨_, hx ▸ PlainZero.double negative⟩
    · exact Or.inr (scalarEntry_nonzero (by simpa [Binary.isZero] using hx) _ _)
  | single x =>
    obtain ⟨negative, magnitude⟩ := x
    by_cases hx : magnitude = 0
    · exact Or.inl ⟨_, hx ▸ PlainZero.single negative⟩
    · exact Or.inr (scalarEntry_nonzero (by simpa [Binary.isZero] using hx) _ _)
  | text s =>
    by_cases hs : s = ""
    · exact Or.inl ⟨"", hs ▸ PlainZero.text⟩
    · exact Or.inr (scalarEntry_nonzero (by simpa using hs) _ _)
  | newtype v =>
    rcases plainZero_or_entries_eq v name with ⟨text, h⟩ | h
    · exact Or.inl ⟨text, .newtype h⟩
    · exact Or.inr (by rw [entries, entries, h])
  | _ => exact Or.inr rfl

/-- The options of a section without and with its zero values, field by field: either both have what
the field gives, or the field is a plain zero value that only the second has. -/
inductive ZerosAdded : List (String × Datum) → List Entry → List Entry → Prop
  | nil : ZerosAdded [] [] []
  | same {name : String} {v : Datum} {es : List Entry} {fields : List (String × Datum)}
      {brief full : List Entry} : (∀ skipZero, v.entries name skipZero = .ok es) →
      ZerosAdded fields brief full → ZerosAdded ((name, v) :: fields) (es ++ brief) (es ++ full)
  | zero {name : String} {v : Datum} {text : String} {fields : List (String × Datum)}
      {brief full : List Entry} : PlainZero v text → ZerosAdded fields brief full →
      ZerosAdded ((name, v) :: fields) brief (⟨name, text⟩ :: full)

namespace ZerosAdded
variable {fields more : List (String × Datum)} {brief full brief' full' : List Entry}

theorem append (h : ZerosAdded fields brief full) (h' : ZerosAdded more brief' full') :
    ZerosAdded (fields ++ more) (brief ++ brief') (full ++ full') := by
  induction h with
  | nil => exact h'
  | same hes _ ih =>
    rw [List.append_assoc, List.append_assoc]
    exact .same hes ih
  | zero hzero _ ih => exact .zero hzero ih

theorem sublist (h : ZerosAdded fields brief full) : brief.Sublist full := by
  induction h with
  | nil => exact .slnil
  | same _ _ ih => exact ih.append_left _
  | zero _ _ ih => exact ih.cons _

theorem value_of_not_mem (h : ZerosAdded fields brief full) {e : Entry} (he : e ∈ full)
    (hnot : e ∉ brief) : e.value ∈ zeroTexts := by
  induction h with
  | nil => cases he
  | same _ _ ih =>
    rw [List.mem_append, not_or] at hnot
    rcases List.mem_append.mp he with he | he
    · exact absurd he hnot.1
    · exact ih he hnot.2
  | zero hzero _ ih =>
    rcases List.mem_cons.mp he with rfl | he
    · exact hzero.mem_zeroTexts
    · exact ih he hnot

end ZerosAdded

section Pairs
variable {κ : Type} {nameOf : κ → Except Error String}

def namedFields (nameOf : κ → Except Error String) (pairs : List (κ × Datum)) :
    List (String × Datum) :=
  pairs.filterMap fun p => (nameOf p.1).toOption.map fun name => (name, p.2)

theorem namedFields_cons {k : κ} {name : String} (h : nameOf k = .ok name) (v : Datum)
    (rest : List (κ × Datum)) :
    namedFields nameOf ((k, v) :: rest) = (name, v) :: namedFields nameOf rest := by
  simp [namedFields, h, Except.toOption]

theorem namedFields_ok (fields : List (String × Datum)) : namedFields .ok fields = fields :=
  List.filterMap_some

theorem ofPairs_beside {α : Type} {encode encode' : String → Datum → Except Error (List α)}
    {R : List (String × Datum) → List α → List α → Prop} (nil : R [] [] [])
    (append : ∀ {fields more : List (String × Datum)} {as bs as' bs' : List α},
      R fields as bs → R more as' bs' → R (fields ++ more) (as ++ as') (bs ++ bs'))
    (single : ∀ name v, Beside (R [(name, v)]) (within name (encode name v))
      (within name (encode' name v))) (pairs : List (κ × Datum)) :
    Beside (R (namedFields nameOf pairs)) (ofPairs nameOf encode pairs)
      (ofPairs nameOf encode' pairs) := by
  induction pairs with
  | nil => exact .ok nil
  | cons p rest ih =>
    obtain ⟨k, v⟩ := p
    rw [ofPairs, ofPairs]
    cases hname : nameOf k with
    | error e => exact .error e
    | ok name =>
      rw [namedFields_cons hname]
      dsimp only
      refine (single name v).elim (fun e => .error e) fun as bs hfield => ?_
      exact ih.map fun _ _ hrest => append hfield hrest

end Pairs

theorem field_beside (name : String) (v : Datum) :
    Beside (ZerosAdded [(name, v)]) (within name (v.entries name true))
      (within name (v.entries name false)) := by
  apply Beside.within
  rcases plainZero_or_entries_eq v name with ⟨text, hzero⟩ | hsame
  · rw [entries_plainZero hzero, entries_plainZero hzero]
    exact .ok (.zero hzero .nil)
  · rw [hsame]
    cases hes : v.entries name false with
    | error e => exact .error e
    | ok es =>
      have hboth : ∀ skipZero, v.entries name skipZero = .ok es := by
        intro skipZero
        cases skipZero with
        | false => exact hes
        | true => rw [hsame, hes]
      have hone := ZerosAdded.same hboth .nil
      rw [List.append_nil] at hone
      exact .ok hone

structure SectionRecord where
  name : String
  fields : List (String × Datum)

mutual

/-- The records that a field of a document holds, in order. -/
def sectionRecords (name : String) : Datum → List SectionRecord
  | .present v => v.sectionRecords name
  | .newtype v => v.sectionRecords name
  | .seq items => sectionRecordsOfItems name items
  | .tuple items => sectionRecordsOfItems name items
  | .map entries => [⟨name, namedFields key entries⟩]
  | .record fields => [⟨name, fields⟩]
  | .keyless _ => [⟨name, []⟩]
  | _ => []

def sectionRecordsOfItems (name : String) : List Datum → List SectionRecord
  | [] => []
  | v :: rest => v.sectionRecords name ++ sectionRecordsOfItems name rest

end

def sectionRecordsOfFields (fields : List (String × Datum)) : List SectionRecord :=
  fields.flatMap fun p => p.2.sectionRecords p.1

def documentRecords : Datum → List SectionRecord
  | .present v => v.documentRecords
  | .newtype v => v.documentRecords
  | .map entries => sectionRecordsOfFields (namedFields key entries)
  | .record fields => sectionRecordsOfFields fields
  | _ => []

/-- The sections of some records without and with their zero values. -/
inductive EachAdded : List SectionRecord → List Section → List Section → Prop
  | nil : EachAdded [] [] []
  | cons {name : String} {fields : List (String × Datum)} {es fs : List Entry}
      {records : List SectionRecord} {brief full : List Section} : ZerosAdded fields es fs →
      EachAdded records brief full →
      EachAdded (⟨name, fields⟩ :: records) (⟨name, es⟩ :: brief) (⟨name, fs⟩ :: full)

namespace EachAdded
variable {records more : List SectionRecord} {brief full brief' full' : List Section}

theorem append (h : EachAdded records brief full) (h' : EachAdded more brief' full') :
    EachAdded (records ++ more) (brief ++ brief') (full ++ full') := by
  induction h with
  | nil => exact h'
  | cons hzeros _ ih => exact .cons hzeros ih

theorem names (h : EachAdded records brief full) :
    brief.map Section.name = full.map Section.name := by
  induction h with
  | nil => rfl
  | cons _ _ ih => rw [List.map_cons, List.map_cons, ih]

theorem forall₂ (h : EachAdded records brief full) :
    List.Forall₂ (fun s t => s.entries.Sublist t.entries ∧
      ∀ e ∈ t.entries, e ∉ s.entries → e.value ∈ zeroTexts) brief full := by
  induction h with
  | nil => exact .nil
  | cons hzeros _ ih => exact .cons ⟨hzeros.sublist, fun _ => hzeros.value_of_not_mem⟩ ih

theorem single {name : String} {fields : List (String × Datum)} {es fs : List Entry}
    (h : ZerosAdded fields es fs) : EachAdded [⟨name, fields⟩] [⟨name, es⟩] [⟨name, fs⟩] :=
  .cons h .nil

end EachAdded

theorem sectionOfPairs_beside {κ : Type} (nameOf : κ → Except Error String) (name : String)
    (pairs : List (κ × Datum)) :
    Beside (EachAdded [⟨name, namedFields nameOf pairs⟩]) (sectionOfPairs nameOf false name pairs)
      (sectionOfPairs nameOf true name pairs) :=
  (ofPairs_beside .nil .append field_beside pairs).map fun _ _ => .single

mutual

theorem sections_beside (name : String) (v : Datum) :
    Beside (EachAdded (v.sectionRecords name)) (v.sections false name) (v.sections true name) := by
  cases v with
  | present v => exact sections_beside name v
  | newtype v => exact sections_beside name v
  | absent => exact .ok .nil
  | unit => exact .ok .nil
  | seq items => exact sectionsOfItems_beside name items
  | tuple items => exact sectionsOfItems_beside name items
  | map entries => exact sectionOfPairs_beside key name entries
  | record fields =>
    have hfields := sectionOfPairs_beside .ok name fields
    rwa [namedFields_ok] at hfields
  | keyless values =>
    cases values with
    | nil => exact .ok (.single .nil)
    | cons v rest => exact .error _
  | _ => exact .error _

theorem sectionsOfItems_beside (name : String) (items : List Datum) :
    Beside (EachAdded (sectionRecordsOfItems name items)) (sectionsOfItems false name items)
      (sectionsOfItems true name items) := by
  cases items with
  | nil => exact .ok .nil
  | cons v rest =>
    rw [sectionsOfItems, sectionsOfItems]
    refine (sections_beside name v).elim (fun e => .error e) fun ss ts hitem => ?_
    exact (sectionsOfItems_beside name rest).map fun _ _ hrest => hitem.append hrest

end

theorem ofPairs_sections_beside {κ : Type} (nameOf : κ → Except Error String)
    (pairs : List (κ × Datum)) :
    Beside (EachAdded (sectionRecordsOfFields (namedFields nameOf pairs)))
      (ofPairs nameOf (sections false) pairs) (ofPairs nameOf (sections true) pairs) := by
  refine ofPairs_beside (R := fun fields => EachAdded (sectionRecordsOfFields fields))
    .nil ?_ ?_ pairs
  · intro fields more brief full brief' full' h h'
    rw [sectionRecordsOfFields, List.flatMap_append]
    exact h.append h'
  · intro name v
    rw [sectionRecordsOfFields, List.flatMap_singleton]
    exact (sections_beside name v).within name

theorem encode_beside (v : Datum) :
    Beside (EachAdded v.documentRecords) (v.encode false) (v.encode true) := by
  cases v with
  | present v => exact encode_beside v
  | newtype v => exact encode_beside v
  | map entries => exact ofPairs_sections_beside key entries
  | record fields =>
    have hfields := ofPairs_sections_beside .ok fields
    rwa [namedFields_ok] at hfields
  | keyless values =>
    cases values with
    | nil => exact .ok .nil
    | cons v rest => exact .error _
  | _ => exact .error _

/-- With zero values or without them, encoding fails in the same way or makes the same sections, in
the same order. Only zero values are missing without them: each missing option is the zero value
that a field of the section holds, not marked as present and not in a list. -/
theorem encode_zero_values (v : Datum) :
    (∃ e, v.encode false = .error e ∧ v.encode true = .error e) ∨
      ∃ brief full, v.encode false = .ok brief ∧ v.encode true = .ok full ∧
        brief.map Section.name = full.map Section.name ∧
        List.Forall₂ (fun s t => s.entries.Sublist t.entries ∧
          ∀ e ∈ t.entries, e ∉ s.entries → e.value ∈ zeroTexts) brief full ∧
        EachAdded v.documentRecords brief full := by
  refine (encode_beside v).elim (fun e => Or.inl ⟨e, rfl, rfl⟩) fun brief full h => Or.inr ?_
  exact ⟨brief, full, rfl, rfl, h.names, h.forall₂, h⟩

/-- Zero values in all places: in fields, in a newtype, marked as present, in a list and in the
sections of a list. -/
def mixedZeros : Datum :=
  .record [("Global", .present (.record [("Verbose", .bool false), ("Workers", .present (.int 0)),
      ("Scale", .newtype (.double ⟨true, 0⟩)), ("Tags", .seq [.text "", .text "a"])])),
    ("LogFile", .seq [.map [(.text "Path", .text ""), (.char 'N', .int 3)]])]

theorem encode_zero_values_mixed :
    mixedZeros.encode false = .ok [⟨"Global", [⟨"Workers", "0"⟩, ⟨"Tags", ""⟩, ⟨"Tags", "a"⟩]⟩,
        ⟨"LogFile", [⟨"N", "3"⟩]⟩] ∧
      mixedZeros.encode true = .ok [⟨"Global", [⟨"Verbose", "false"⟩, ⟨"Workers", "0"⟩,
        ⟨"Scale", "-0"⟩, ⟨"Tags", ""⟩, ⟨"Tags", "a"⟩]⟩,
        ⟨"LogFile", [⟨"Path", ""⟩, ⟨"N", "3"⟩]⟩] ∧
      (⟨"Scale", "-0"⟩ : Entry).value ∈ zeroTexts := by
  have hbrief : mixedZeros.encode false = .ok [⟨"Global", [⟨"Workers", "0"⟩, ⟨"Tags", ""⟩,
      ⟨"Tags", "a"⟩]⟩, ⟨"LogFile", [⟨"N", "3"⟩]⟩] := by decide +kernel
  have hfull : mixedZeros.encode true = .ok [⟨"Global", [⟨"Verbose", "false"⟩, ⟨"Workers", "0"⟩,
      ⟨"Scale", "-0"⟩, ⟨"Tags", ""⟩, ⟨"Tags", "a"⟩]⟩,
      ⟨"LogFile", [⟨"Path", ""⟩, ⟨"N", "3"⟩]⟩] := by decide +kernel
  refine ⟨hbrief, hfull, ?_⟩
  rcases encode_zero_values mixedZeros with ⟨e, h, -⟩ | ⟨brief, full, h, h', -, hall, -⟩
  · rw [hbrief] at h
    cases h
  · rw [hbrief] at h
    rw [hfull] at h'
    cases h
    cases h'
    cases hall with
    | cons hglobal _ => exact hglobal.2 ⟨"Scale", "-0"⟩ (by simp) (by simp)

end Datum
end UnitFiles

import UnitFiles.Proofs.DynamicValues
import UnitFiles.Proofs.FlatRecords
import UnitFiles.Proofs.Flattening

/-! Records that are flattened into the record of a section. The section is read as typed values for
them, with all its options, while a plain record asks for its own options only. Where the section is
valid and the options are spelled as the fields, both come to the same. -/
namespace UnitFiles
open Text

def optionFields (fields : List (String × FieldType ValueType)) : List Field :=
  fields.map fun f => (f.1, f.2.shape ValueType.shapes, f.2.missing ValueType.shapes)

/-- Fields of a record, and of the parts that are flattened into it. -/
structure FlatType where
  lead : List (String × FieldType ValueType)
  parts : List (List (String × FieldType ValueType))
  tail : List (String × FieldType ValueType)
  distinct : ((lead ++ parts.flatten ++ tail).map Prod.fst).Pairwise fun a b =>
    sameName a b = false

namespace FlatType

def shape (t : FlatType) : Shape :=
  .flat (optionFields t.lead) (t.parts.map fun part => .record (optionFields part))
    (optionFields t.tail)

def sideBySide (t : FlatType) : SectionType where
  fields := t.lead ++ t.parts.flatten ++ t.tail
  distinct := t.distinct

theorem fieldsIn_sideBySide (t : FlatType) :
    t.sideBySide.fieldsIn ValueType.shapes =
      optionFields t.lead ++ (t.parts.map optionFields).flatten ++ optionFields t.tail := by
  have hparts : optionFields t.parts.flatten = (t.parts.map optionFields).flatten :=
    List.map_flatten
  rw [← hparts, RecordType.fieldsIn, sideBySide, List.map_append, List.map_append]
  rfl

end FlatType

/-- Each field is an option of a matching type that is spelled as the field. -/
def SectionSpec.Spells (spec : SectionSpec) (t : SectionType) : Prop :=
  ∀ f ∈ t.fields, ∃ o ∈ spec.options, o.name = f.1 ∧ o.type.scalar = f.2.type.scalar ∧
    o.type.isList = f.2.isList

section Options
variable {spec : SectionSpec} {sec : Section} {o : OptionSpec}

theorem find?_slots (ho : o ∈ spec.options)
    (alone : ∀ o' ∈ spec.options, o'.name = o.name → o' = o) :
    ((sec.slots spec).find? fun slot => slot.key == o.name).map Slot.typed =
      if sec.has o.name then some (valuesAs o.type (sec.values o.name)) else none := by
  have hkey : ∀ o' ∈ spec.options.filter fun o => sec.has o.name, o'.name = o.name → o' = o :=
    fun o' ho' => alone o' (List.mem_filter.mp ho').1
  cases hfind : (sec.slots spec).find? fun slot => slot.key == o.name with
  | none =>
    rw [List.find?_eq_none, Section.slots, List.forall_mem_map] at hfind
    have hunset : sec.has o.name = false := by
      rw [← Bool.not_eq_true]
      intro hset
      exact hfind o (List.mem_filter.mpr ⟨ho, hset⟩) (beq_self_eq_true o.name)
    rw [hunset]
    rfl
  | some slot =>
    have hname := List.find?_some hfind
    obtain ⟨o', ho', rfl⟩ := List.mem_map.mp (List.mem_of_find?_eq_some hfind)
    cases hkey o' ho' (by simpa using hname)
    rw [if_pos (List.mem_filter.mp ho').2]
    rfl

theorem SectionSpec.Distinct.nodup_keys {entries : List (String × Decoded)}
    (distinct : spec.Distinct) (h : SetValues spec sec entries) :
    (entries.map Prod.fst).Nodup := by
  rw [h.map_fst]
  exact nodup_of_distinct (List.pairwise_map.mpr (List.Pairwise.filter _ distinct))

end Options

section Flat
variable {spec : SectionSpec} {sec : Section} {entries : List (String × Decoded)} {v : Decoded}

/-- In a valid section a field settles alike in every way: as its own option, as the slot of the
option among all that are set, and as the typed value of the option. -/
theorem settles_spelled_iff {t : SectionType} (distinct : spec.Distinct) (spells : spec.Spells t)
    (valid : spec.checkEntries sec.entries = .ok ()) (h : SetValues spec sec entries)
    {f : Field} (hf : f ∈ t.fieldsIn ValueType.shapes) {p : String × Decoded} :
    (Settles (fun name => ((sec.slots spec).find? fun slot => slot.key == name).map Slot.typed) f p
      ↔ Settles (fun name => (presentValues? spec sec name).map fun q => valuesAs q.1 q.2) f p) ∧
    (Settles (fun name => (entries.lookup name).map contentAs) f p ↔
      Settles (fun name => (presentValues? spec sec name).map fun q => valuesAs q.1 q.2) f p) := by
  obtain ⟨g, hg, rfl⟩ := List.mem_map.mp hf
  obtain ⟨o, ho, hname, hscalar, hlist⟩ := spells g hg
  have hget : spec.get? g.1 = some o := distinct.get?_eq ho (by rw [hname, sameName_refl])
  have alone : ∀ o' ∈ spec.options, o'.name = o.name → o' = o :=
    fun o' ho' heq => distinct.eq ho' ho (by rw [heq, sameName_refl])
  have hrequired : sec.has o.name = false → g.2.fallsBack = true → o.required = false := by
    -- the section is valid, so that no required option is missing from it
    intro hunset _
    have hnil : sec.values g.1 = [] := hname ▸ Section.values_eq_nil_iff.mpr hunset
    exact SectionSpec.not_required_of_unset valid hget (List.map_eq_nil_iff.mp hnil)
  refine ⟨settles_present_iff hget hscalar hlist hrequired ?_,
    settles_present_iff hget hscalar hlist hrequired
      (h.content_eq ho hname alone hscalar hlist)⟩
  rw [← hname, find?_slots ho alone]
  cases sec.has o.name <;> rfl

/-- A flat record of a valid section is decoded exactly if the plain record is, to the same
fields. -/
theorem sectionAs_flat_iff {t : FlatType} (distinct : spec.Distinct)
    (spells : spec.Spells t.sideBySide) (valid : spec.checkEntries sec.entries = .ok ()) :
    sectionAs false spec sec t.shape = .ok v ↔
      ∃ values, sectionAs false spec sec (SectionType.shape t.sideBySide) = .ok (.record values) ∧
        .map values = v := by
  obtain ⟨w, hw, -⟩ := distinct.exists_wholeSection valid
  obtain ⟨entries, hentries, -⟩ := wholeSection_eq_ok_iff.mp hw
  have hslots : List.Forall₂ (fun slot e => e.1 = slot.key ∧ slot.whole = .ok e.2)
      (sec.slots spec) entries := List.forall₂_map_left_iff.mpr hentries
  have hnames := @RecordType.nodup_fieldsIn _ ValueType.shapes t.sideBySide
  have hkept := @RecordType.kept_fieldsIn _ ValueType.shapes t.sideBySide
  have hsettles := fun f (hf : f ∈ t.sideBySide.fieldsIn ValueType.shapes) p =>
    @settles_spelled_iff spec sec entries _ distinct spells valid hentries f hf p
  have hflat : sectionAs false spec sec t.shape = asMissingOption (decodeFlat (sec.slots spec)
      (optionFields t.lead) ((t.parts.map optionFields).map .record) (optionFields t.tail)) := by
    rw [List.map_map]
    rfl
  -- own fields are decoded from their slots, and those of the parts from the typed values
  rw [t.fieldsIn_sideBySide] at hnames hkept hsettles
  simp only [List.forall_mem_append] at hsettles
  obtain ⟨⟨hlead, hparts⟩, htail⟩ := hsettles
  rw [hflat, asMissingOption_eq_ok_iff,
    decodeFlat_records_eq_ok_iff hslots (distinct.nodup_keys hentries) hnames hkept]
  simp only [sectionAs_shape_eq_ok_iff, Decoded.record.injEq, exists_eq_right,
    t.fieldsIn_sideBySide, forall₂_append_left_iff,
    forall₂_congr_mem fun f hf p => (hlead f hf p).1,
    forall₂_congr_mem fun f hf p => (hparts f hf p).2,
    forall₂_congr_mem fun f hf p => (htail f hf p).1]
  constructor
  · rintro ⟨first, inner, last, hfirst, hinner, hlast, rfl⟩
    exact ⟨_, ⟨_, last, ⟨first, inner, hfirst, hinner, rfl⟩, hlast, rfl⟩, rfl⟩
  · rintro ⟨_, ⟨_, last, ⟨first, inner, hfirst, hinner, rfl⟩, hlast, rfl⟩, rfl⟩
    exact ⟨first, inner, last, hfirst, hinner, hlast, rfl⟩

end Flat

namespace Records

theorem narrow_u64 : IntKind.width ⟨false, 64⟩ ≤ 64 := Nat.le_refl 64

def combinedType : FlatType where
  lead := []
  parts := [[("Path", .one .text none)],
    [("MaxSize", .one (.int ⟨false, 64⟩ narrow_u64) (some (.int 0))),
      ("Rotate", .one .bool (some (.bool false)))]]
  tail := [("Level", .optional .text true)]
  distinct := by decide +kernel

theorem shape_combinedType : combinedType.shape = combined := rfl

def sideBySide : Shape :=
  .record [needed "Path" .text, orZero "MaxSize" .u64, orFalse "Rotate",
    orNone "Level" (.option .text)]

theorem shape_sideBySide : SectionType.shape combinedType.sideBySide = sideBySide := rfl

def combinedOptions : List (String × OptionType) :=
  [("Path", .string), ("MaxSize", .int), ("Rotate", .bool), ("Level", .string)]

theorem spells_combinedType {spec : SectionSpec}
    (declared : ∀ p ∈ combinedOptions, ∃ o ∈ spec.options, o.name = p.1 ∧ o.type = p.2) :
    spec.Spells combinedType.sideBySide := by
  have hfields : ∀ f ∈ combinedType.sideBySide.fields, ∃ p ∈ combinedOptions, p.1 = f.1 ∧
      p.2.scalar = f.2.type.scalar ∧ p.2.isList = f.2.isList := by decide
  intro f hf
  obtain ⟨p, hp, hname, hscalar, hlist⟩ := hfields f hf
  obtain ⟨o, ho, honame, htype⟩ := declared p hp
  exact ⟨o, ho, honame.trans hname, htype ▸ hscalar, htype ▸ hlist⟩

theorem exists_sideBySide {spec : SectionSpec} {sec : Section} {w : Decoded}
    (h : sectionAs false spec sec sideBySide = .ok w) : ∃ path maxSize rotate level,
      .record [("Path", path), ("MaxSize", maxSize), ("Rotate", rotate), ("Level", level)] = w := by
  rw [← shape_sideBySide] at h
  obtain ⟨values, hvalues, rfl⟩ := sectionAs_shape_eq_ok_iff.mp h
  obtain ⟨⟨_, path⟩, _, ⟨rfl, -⟩, hlimits, rfl⟩ := List.forall₂_cons_left_iff.mp hvalues
  obtain ⟨⟨_, maxSize⟩, _, ⟨rfl, -⟩, hrotate, rfl⟩ := List.forall₂_cons_left_iff.mp hlimits
  obtain ⟨⟨_, rotate⟩, _, ⟨rfl, -⟩, hlevel, rfl⟩ := List.forall₂_cons_left_iff.mp hrotate
  obtain ⟨⟨_, level⟩, _, ⟨rfl, -⟩, hnil, rfl⟩ := List.forall₂_cons_left_iff.mp hlevel
  cases hnil
  exact ⟨path, maxSize, rotate, level, rfl⟩

/-- The combined record of a valid section is decoded exactly if the record with the same fields
side by side is, and then the fields are the same. -/
theorem sectionAs_combined {spec : SectionSpec} (distinct : spec.Distinct)
    (declared : ∀ p ∈ combinedOptions, ∃ o ∈ spec.options, o.name = p.1 ∧ o.type = p.2)
    {sec : Section} (valid : spec.checkEntries sec.entries = .ok ()) :
    ((∃ v, sectionAs false spec sec combined = .ok v) ↔
      ∃ w, sectionAs false spec sec sideBySide = .ok w) ∧
    ∀ v w, sectionAs false spec sec combined = .ok v → sectionAs false spec sec sideBySide = .ok w →
      ∃ path maxSize rotate level,
        v = .map [("Path", path), ("MaxSize", maxSize), ("Rotate", rotate), ("Level", level)] ∧
        w = .record [("Path", path), ("MaxSize", maxSize), ("Rotate", rotate),
          ("Level", level)] := by
  have hflat : ∀ v, sectionAs false spec sec combined = .ok v ↔
      ∃ values, sectionAs false spec sec sideBySide = .ok (.record values) ∧ .map values = v := by
    intro v
    rw [← shape_combinedType, ← shape_sideBySide]
    exact sectionAs_flat_iff distinct (spells_combinedType declared) valid
  refine ⟨⟨?_, ?_⟩, ?_⟩
  · rintro ⟨v, hv⟩
    obtain ⟨values, hvalues, -⟩ := (hflat v).mp hv
    exact ⟨_, hvalues⟩
  · rintro ⟨w, hw⟩
    obtain ⟨path, maxSize, rotate, level, rfl⟩ := exists_sideBySide hw
    exact ⟨_, (hflat _).mpr ⟨_, hw, rfl⟩⟩
  · intro v w hv hw
    obtain ⟨values, hvalues, rfl⟩ := (hflat v).mp hv
    cases hvalues.symm.trans hw
    obtain ⟨path, maxSize, rotate, level, hfields⟩ := exists_sideBySide hw
    cases hfields
    exact ⟨path, maxSize, rotate, level, rfl, rfl⟩

/-- Options of a log file, with a required one and some that the record does not have. -/
def sampleCombinedOptions : SectionSpec :=
  ⟨[{ name := "Path", required := true }, { name := "Fields", type := .stringList },
    { name := "Rotate", type := .bool }, { name := "MaxAge", type := .duration },
    { name := "MaxSize", type := .int }, { name := "Level" }]⟩

def sampleCombined : Section :=
  ⟨"LogFile", [⟨"Path", "/var/log/a"⟩, ⟨"maxsize", "1024"⟩, ⟨"Fields", "time"⟩, ⟨"Rotate", "on"⟩,
    ⟨"MaxAge", "1h"⟩]⟩

theorem sectionAs_combined_logFile :
    sampleCombinedOptions.Distinct ∧
      (∀ p ∈ combinedOptions, ∃ o ∈ sampleCombinedOptions.options, o.name = p.1 ∧ o.type = p.2) ∧
      sampleCombinedOptions.checkEntries sampleCombined.entries = .ok () ∧
      sectionAs false sampleCombinedOptions sampleCombined combined =
        .ok (.map [("Path", .text "/var/log/a"), ("MaxSize", .int 1024), ("Rotate", .bool true),
          ("Level", .absent)]) := by
  have distinct : sampleCombinedOptions.Distinct := by decide +kernel
  have declared : ∀ p ∈ combinedOptions, ∃ o ∈ sampleCombinedOptions.options,
      o.name = p.1 ∧ o.type = p.2 := by decide
  have valid : sampleCombinedOptions.checkEntries sampleCombined.entries = .ok () := by
    decide +kernel
  have hplain : sectionAs false sampleCombinedOptions sampleCombined sideBySide =
      .ok (.record [("Path", .text "/var/log/a"), ("MaxSize", .int 1024), ("Rotate", .bool true),
        ("Level", .absent)]) := rfl
  obtain ⟨hsome, hsame⟩ := sectionAs_combined distinct declared valid
  obtain ⟨v, hv⟩ := hsome.mpr ⟨_, hplain⟩
  obtain ⟨path, maxSize, rotate, level, rfl, hw⟩ := hsame v _ hv hplain
  cases hw
  exact ⟨distinct, declared, valid, hv⟩

end Records
end UnitFiles

import UnitFiles.Proofs.DeclaredOptions
import UnitFiles.Proofs.Merging
import UnitFiles.Proofs.SectionRecords

/-! Repeated options in a section that declares an option itself. An option that is a field of the
declaration is refused when it is set twice. The type is looked up beside the fields, and only if it
is set exactly once: set twice, it is passed over like one that is not set. -/
namespace UnitFiles
open Text

/-- The section sets an option more than once that takes one value at most. -/
def Section.Repeats (s : Section) (o : OptionSpec) : Prop :=
  o.type.isList = false ∧ 1 < (s.values o.name).length

instance (s : Section) (o : OptionSpec) : Decidable (s.Repeats o) :=
  inferInstanceAs (Decidable (_ ∧ _))

section Values
variable {values : List String}

theorem onlyValue_eq_ok_iff {raw : String} : onlyValue values = .ok raw ↔ values = [raw] := by
  rcases values with _ | ⟨first, _ | ⟨second, rest⟩⟩ <;> simp [onlyValue]

theorem exists_valuesAs_text_iff :
    (∃ v, valuesAs .string values .text = .ok v) ↔ ∃ raw, values = [raw] := by
  have htext : valuesAs .string values .text = (onlyValue values).map .text := by
    rw [valuesAs]
    rfl
  simp only [htext, map_eq_ok_iff, onlyValue_eq_ok_iff]
  constructor
  · rintro ⟨-, raw, h, -⟩
    exact ⟨raw, h⟩
  · rintro ⟨raw, h⟩
    exact ⟨_, raw, h, rfl⟩

theorem exists_valuesAs_bool_iff :
    (∃ v, valuesAs .bool values .bool = .ok v) ↔
      ∃ raw, values = [raw] ∧ ∃ b, readBool raw = .ok b := by
  have hbool : valuesAs .bool values .bool =
      (onlyValue values).bind fun raw => (readBool raw).map .bool := by
    rw [valuesAs]
    rfl
  rw [hbool]
  cases honly : onlyValue values with
  | error e =>
    have hnone : ∀ raw, values ≠ [raw] := by simp [← onlyValue_eq_ok_iff, honly]
    simp [Except.bind, hnone]
  | ok raw =>
    obtain rfl := onlyValue_eq_ok_iff.mp honly
    simp only [Except.bind, map_eq_ok_iff, List.cons.injEq, and_true, exists_eq_left']
    constructor
    · rintro ⟨-, b, h, -⟩
      exact ⟨b, h⟩
    · rintro ⟨b, h⟩
      exact ⟨_, b, h, rfl⟩

theorem exists_valuesAs_texts : ∃ v, valuesAs .stringList values (.seq .text) = .ok v := by
  have hitems : ∀ v ∈ values.map Decoded.text,
      valuesAs OptionType.stringList.element [v.optionText] .text = .ok v := by
    rw [List.forall_mem_map]
    exact fun s _ => ValueType.valuesAs_text rfl s
  have hseq := @ValueType.valuesAs_seq .stringList rfl .text _ id hitems
  rw [List.map_map] at hseq
  have hid : values.map (Decoded.optionText ∘ Decoded.text) = values := List.map_id values
  exact ⟨_, hid ▸ hseq⟩

end Values

section Fields
variable {spec : SectionSpec} {s : Section} {o : OptionSpec} {name : String}

/-- A field of one value at most can be decoded if its option has no second value, has one if it is
required, and its value can be read. -/
theorem decodes_iff {shape : Shape} {Readable : String → Prop} (hfind : spec.find? name = some o)
    (hscalar : o.type.isList = false)
    (hone : ∀ values, (∃ v, valuesAs o.type values shape = .ok v) ↔
      ∃ raw, values = [raw] ∧ Readable raw) :
    (∀ o', spec.Present s name o' → ∃ v, valuesAs o'.type (s.values o'.name) shape = .ok v) ↔
      (s.values o.name).length ≤ 1 ∧ (o.required = true → s.values o.name ≠ []) ∧
        ∀ raw ∈ s.values o.name, Readable raw := by
  have hpresent : ∀ o', spec.Present s name o' ↔
      o' = o ∧ (s.values o.name ≠ [] ∨ o.required = true) := by
    intro o'
    rw [SectionSpec.Present, hfind, Option.some.injEq, eq_comm (a := o)]
    refine and_congr_right ?_
    rintro rfl
    simp [hscalar, Section.values_eq_nil_iff]
  simp only [hpresent, and_imp, forall_eq, hone]
  cases hvalues : s.values o.name with
  | nil => simp
  | cons raw more => cases more <;> simp

end Fields

section Declarations
open OptionSpec
variable {s : Section}

theorem exists_sectionAs_record_iff {fields : List Field} {spec : SectionSpec}
    (distinct : (fields.map Prod.fst).Nodup) :
    (∃ v, sectionAs false spec s (.record fields) = .ok v) ↔
      ∀ f ∈ fields, ∃ part, spec.FillsField s f part := by
  simp only [sectionAs_record_eq_ok_iff distinct, ← exists_forall₂_iff]
  exact ⟨fun ⟨_, parts, h, _⟩ => ⟨parts, h⟩, fun ⟨parts, h⟩ => ⟨_, parts, h, rfl⟩⟩

theorem exists_sectionAs_declared_iff_decodes :
    (∃ v, sectionAs false .describingOptions s SectionSpec.declaredShape = .ok v) ↔
      ∀ f ∈ declaredType.fieldsIn ValueType.shapes, ∀ o,
        SectionSpec.describingOptions.Present s f.1 o →
          ∃ v, valuesAs o.type (s.values o.name) f.2.1 = .ok v := by
  have hsettled : ∀ f ∈ declaredType.fieldsIn ValueType.shapes, f.2.2 ≠ .required := by
    simp [declaredType, RecordType.fieldsIn, FieldType.missing]
  rw [← shape_declaredType, SectionType.shape,
    exists_sectionAs_record_iff declaredType.nodup_fieldsIn]
  simp only [exists_fillsField_iff]
  exact forall₂_congr fun f hf => and_iff_left fun _ => Or.inl (hsettled f hf)

/-- The type is the only option of a declaration that takes one value and is no field. -/
theorem forall_repeats_iff :
    (∀ o ∈ SectionSpec.describingOptions.options, s.Repeats o → o.name = "Type") ↔
      ∀ name ∈ ["Name", "Description", "Required", "Default", "Internal"],
        (s.values name).length ≤ 1 := by
  simp [SectionSpec.describingOptions, Section.Repeats, OptionType.isList]

/-- The fields of a declaration can be decoded if none of them is repeated, the name is there and
the flags can be read. -/
theorem exists_sectionAs_declared_iff :
    (∃ v, sectionAs false .describingOptions s SectionSpec.declaredShape = .ok v) ↔
      (∀ o ∈ SectionSpec.describingOptions.options, s.Repeats o → o.name = "Type") ∧
        s.values "Name" ≠ [] ∧
        ∀ raw ∈ s.values "Required" ++ s.values "Internal", ∃ b, readBool raw = .ok b := by
  have htext : ∀ values, (∃ v, valuesAs .string values .text = .ok v) ↔
      ∃ raw, values = [raw] ∧ True := by
    simp [exists_valuesAs_text_iff]
  have haliases : ∀ o, SectionSpec.describingOptions.Present s "Aliases" o →
      ∃ v, valuesAs o.type (s.values o.name) (.seq .text) = .ok v := by
    rintro o ⟨hfind, -⟩
    obtain rfl : { name := "Aliases", type := .stringList } = o := Option.some.inj hfind
    exact exists_valuesAs_texts
  have hfields : declaredType.fieldsIn ValueType.shapes =
      [("Name", .text, .default (.text "")), ("Aliases", .seq .text, .default (.seq [])),
        ("Description", .text, .default (.text "")), ("Required", .bool, .default (.bool false)),
        ("Default", .text, .default (.text "")), ("Internal", .bool, .default (.bool false))] := rfl
  rw [exists_sectionAs_declared_iff_decodes, hfields, forall_repeats_iff, List.forall_mem_append]
  simp only [List.forall_mem_cons, List.not_mem_nil, false_implies, implies_true, and_true]
  -- each option of the specs is found under the name of its field
  rw [decodes_iff (o := { name := "Name", required := true }) rfl rfl htext,
    eq_true haliases,
    decodes_iff (o := { name := "Description" }) rfl rfl htext,
    decodes_iff (o := { name := "Required", type := .bool }) rfl rfl
      fun _ => exists_valuesAs_bool_iff,
    decodes_iff (o := { name := "Default" }) rfl rfl htext,
    decodes_iff (o := { name := "Internal", type := .bool }) rfl rfl
      fun _ => exists_valuesAs_bool_iff]
  simp only [Bool.false_eq_true, false_implies, forall_const, implies_true, and_true, true_and]
  constructor
  · rintro ⟨⟨hname, hset⟩, hdescription, ⟨hrequired, hflag⟩, hdefault, hinternal, hflag'⟩
    exact ⟨⟨hname, hdescription, hrequired, hdefault, hinternal⟩, hset, hflag, hflag'⟩
  · rintro ⟨⟨hname, hdescription, hrequired, hdefault, hinternal⟩, hset, hflag, hflag'⟩
    exact ⟨⟨hname, hset⟩, hdescription, ⟨hrequired, hflag⟩, hdefault, hinternal, hflag'⟩

/-- Without the settings of its type, a declaration has the same fields. -/
theorem sectionAs_declared_remove (s : Section) :
    sectionAs false .describingOptions (s.remove "Type") SectionSpec.declaredShape =
      sectionAs false .describingOptions s SectionSpec.declaredShape := by
  have hnames : ∀ f ∈ declaredType.fieldsIn ValueType.shapes,
      (SectionSpec.describingOptions.find? f.1).all (fun o => !sameName "Type" o.name) = true := by
    decide +kernel
  have hsame : SectionSpec.describingOptions.SameValues (declaredType.fieldsIn ValueType.shapes)
      (s.remove "Type") s := by
    intro f hf o ho
    have hother : sameName "Type" o.name = false := by simpa [ho] using hnames f hf
    rw [Section.values_eq, Section.named_remove, hother]
    rfl
  rw [← shape_declaredType, SectionType.shape, hsame.sectionAs_eq]

/-- The option spec that the fields of a declaration make up, without a type of its own. -/
def untyped (d : Decoded) : OptionSpec where
  name := d.textOr "Name"
  aliases := Decoded.texts (d.itemsOr "Aliases")
  description := d.textOr "Description"
  required := d.flagOr "Required"
  default := d.textOr "Default"
  internal := d.flagOr "Internal"

/-- The type of a declaration counts only if it is set exactly once. -/
theorem ofSection_eq_map_untyped (htype : (s.values "Type").length ≠ 1) :
    ofSection .describingOptions s =
      (sectionAs false .describingOptions s SectionSpec.declaredShape).map untyped := by
  rw [ofSection]
  cases sectionAs false .describingOptions s SectionSpec.declaredShape with
  | error e => rfl
  | ok d =>
    dsimp only
    split
    · rename_i hvalues
      simp [hvalues] at htype
    · rfl

theorem error_of_sectionAs_error
    (h : ¬∃ v, sectionAs false .describingOptions s SectionSpec.declaredShape = .ok v) :
    ∃ e, ofSection .describingOptions s = .error e := by
  rw [ofSection]
  cases hfields : sectionAs false .describingOptions s SectionSpec.declaredShape with
  | error e => exact ⟨e, rfl⟩
  | ok d => exact absurd ⟨d, hfields⟩ h

end Declarations

/-- A declaration that sets an option twice is refused if that is not the type, and otherwise only
if it lacks a name or a flag cannot be read. A type that is set twice is silently passed over: the
option is a string, as it would be without any type. -/
theorem ofSection_repeated_iff {s : Section}
    (repeated : ∃ o ∈ SectionSpec.describingOptions.options, s.Repeats o) :
    ((∃ e, OptionSpec.ofSection .describingOptions s = .error e) ↔
      (∃ o ∈ SectionSpec.describingOptions.options, s.Repeats o ∧ o.name ≠ "Type") ∨
        s.values "Name" = [] ∨
        ∃ raw ∈ s.values "Required" ++ s.values "Internal", ∀ b, readBool raw ≠ .ok b) ∧
    ∀ o, OptionSpec.ofSection .describingOptions s = .ok o →
      o.type = .string ∧ OptionSpec.ofSection .describingOptions (s.remove "Type") = .ok o := by
  have hdecodes := @exists_sectionAs_declared_iff s
  by_cases hfields : ∃ v, sectionAs false .describingOptions s SectionSpec.declaredShape = .ok v
  · obtain ⟨hother, hset, hflags⟩ := hdecodes.mp hfields
    have htype : 1 < (s.values "Type").length := by
      obtain ⟨o, ho, hrepeats⟩ := repeated
      exact hother o ho hrepeats ▸ hrepeats.2
    have hremoved : (s.remove "Type").values "Type" = [] := by
      rw [Section.values_eq, Section.named_remove, sameName_refl, if_pos rfl, List.map_nil]
    obtain ⟨v, hv⟩ := hfields
    have hok : OptionSpec.ofSection .describingOptions s = .ok (untyped v) := by
      rw [ofSection_eq_map_untyped (by omega), hv]
      rfl
    constructor
    · rw [hok]
      simp only [reduceCtorEq, exists_false, false_iff, not_or, not_exists, not_and, not_not]
      refine ⟨hother, hset, fun raw hraw hnone => ?_⟩
      obtain ⟨b, hb⟩ := hflags raw hraw
      exact hnone b hb
    · intro o ho
      rw [hok] at ho
      cases ho
      rw [ofSection_eq_map_untyped (by simp [hremoved]), sectionAs_declared_remove, hv]
      exact ⟨rfl, rfl⟩
  · obtain ⟨e, he⟩ := error_of_sectionAs_error hfields
    rw [hdecodes, not_and_or, not_and_or] at hfields
    push Not at hfields
    exact ⟨iff_of_true ⟨e, he⟩ hfields, fun o ho => nomatch he.symm.trans ho⟩

section Sample

/-- Sets its type twice, in two spellings. -/
def twiceTyped : Section :=
  ⟨"Option", [⟨"Name", "Retries"⟩, ⟨"Type", "int"⟩, ⟨"TYPE", "bool"⟩, ⟨"Required", "yes"⟩]⟩

def twiceDescribed : Section :=
  ⟨"Option", [⟨"Name", "Retries"⟩, ⟨"Description", "a"⟩, ⟨"description", "a"⟩]⟩

theorem ofSection_repeated_iff_described :
    (∃ o ∈ SectionSpec.describingOptions.options, twiceDescribed.Repeats o) ∧
      ∃ e, OptionSpec.ofSection .describingOptions twiceDescribed = .error e := by
  have hrepeats : ∃ o ∈ SectionSpec.describingOptions.options,
      twiceDescribed.Repeats o ∧ o.name ≠ "Type" := by
    decide +kernel
  have repeated : ∃ o ∈ SectionSpec.describingOptions.options, twiceDescribed.Repeats o := by
    decide +kernel
  exact ⟨repeated, (ofSection_repeated_iff repeated).1.mpr (Or.inl hrepeats)⟩

/-- Neither of the two types counts, and no failure tells so. -/
theorem ofSection_drops_repeated_type :
    (∃ o ∈ SectionSpec.describingOptions.options, twiceTyped.Repeats o) ∧
      (OptionSpec.ofSection .describingOptions twiceTyped).map (fun o => (o.name, o.type)) =
        .ok ("Retries", .string) := by
  decide +kernel

end Sample
end UnitFiles

import UnitFiles.Proofs.RecordFields

/-! Records of sections, field by field. A field is there if its option is set, or if values are
expected of the option because it is required or a list. Then it is what the values of the option
are decoded to on their own; every other field is its default, or none if it is optional. -/
namespace UnitFiles
open Text

/-- The option that a field stands for, by name or alias, if the field is there. -/
def SectionSpec.Present (spec : SectionSpec) (sec : Section) (name : String) (o : OptionSpec) :
    Prop :=
  spec.find? name = some o ∧
    (sec.has o.name = true ∨ o.required = true ∨ o.type.isList = true)

/-- What the record of a section holds for a field. A default that is left out takes no place. -/
inductive SectionSpec.FillsField (spec : SectionSpec) (sec : Section) :
    Field → List (String × Decoded) → Prop
  | decoded {name : String} {s : Shape} {missing : Missing} {o : OptionSpec} {v : Decoded}
      (there : spec.Present sec name o) (value : valuesAs o.type (sec.values o.name) s = .ok v) :
      FillsField spec sec (name, s, missing) [(name, v)]
  | default {name : String} {s : Shape} {v : Decoded} (absent : ∀ o, ¬spec.Present sec name o) :
      FillsField spec sec (name, s, .default v) [(name, v)]
  | omitted {name : String} {s : Shape} (absent : ∀ o, ¬spec.Present sec name o) :
      FillsField spec sec (name, s, .omitted) []
  | none {name : String} {s : Shape} (absent : ∀ o, ¬spec.Present sec name o)
      (optional : s.isOption = true) : FillsField spec sec (name, s, .required) [(name, .absent)]

section Records
variable {spec : SectionSpec} {sec : Section} {name : String} {fields : List Field}

theorem presentValues?_eq_some_iff {p : OptionType × List String} :
    presentValues? spec sec name = some p ↔
      ∃ o, spec.Present sec name o ∧ (o.type, sec.values o.name) = p := by
  simp only [presentValues?, Option.bind_eq_some_iff, SectionSpec.Present, and_assoc]
  refine exists_congr fun o => and_congr_right fun _ => ?_
  rw [Section.isEmpty_values]
  cases sec.has o.name <;> cases o.required <;> cases o.type.isList <;> simp

theorem presentValues?_eq_none_iff :
    presentValues? spec sec name = none ↔ ∀ o, ¬spec.Present sec name o := by
  rw [← Option.not_isSome_iff_eq_none]
  simp only [Option.isSome_iff_exists, presentValues?_eq_some_iff, not_exists, not_and]
  exact ⟨fun h o ho => h _ o ho rfl, fun h _ o ho _ => h o ho⟩

theorem SectionSpec.Present.unique {o o' : OptionSpec} (h : spec.Present sec name o)
    (h' : spec.Present sec name o') : o = o' :=
  Option.some.inj (h.1.symm.trans h'.1)

theorem settleField_none_iff {f : Field} (absent : ∀ o, ¬spec.Present sec f.1 o)
    {part : List (String × Decoded)} :
    settleField f none = .ok part ↔ spec.FillsField sec f part := by
  obtain ⟨name, s, missing⟩ := f
  constructor
  · intro h
    cases missing with
    | required =>
      simp only [settleField] at h
      split at h
      · rename_i hoption
        cases h
        exact .none absent hoption
      · cases h
    | omitted =>
      cases h
      exact .omitted absent
    | default v =>
      cases h
      exact .default absent
  · intro h
    cases h with
    | decoded there => exact absurd there (absent _)
    | default => rfl
    | omitted => rfl
    | none _ hoption => simp only [settleField, hoption, if_true]

theorem adds_iff_fillsField {f : Field} {part : List (String × Decoded)} :
    Adds (fun name => (presentValues? spec sec name).map fun p => valuesAs p.1 p.2) f part ↔
      spec.FillsField sec f part := by
  rw [Adds]
  cases hvalues : presentValues? spec sec f.1 with
  | none => exact settleField_none_iff (presentValues?_eq_none_iff.mp hvalues)
  | some p =>
    obtain ⟨o, there, rfl⟩ := presentValues?_eq_some_iff.mp hvalues
    simp only [Option.map_some]
    constructor
    · rintro ⟨v, hv, rfl⟩
      exact .decoded there hv
    · intro h
      cases h with
      | decoded there' hv =>
        cases there.unique there'
        exact ⟨_, hv, rfl⟩
      | default absent => exact absurd there (absent o)
      | omitted absent => exact absurd there (absent o)
      | none absent => exact absurd there (absent o)

theorem exists_fillsField_iff {f : Field} :
    (∃ part, spec.FillsField sec f part) ↔
      (∀ o, spec.Present sec f.1 o → ∃ v, valuesAs o.type (sec.values o.name) f.2.1 = .ok v) ∧
        ((∀ o, ¬spec.Present sec f.1 o) → f.2.2 ≠ .required ∨ f.2.1.isOption = true) := by
  constructor
  · rintro ⟨part, h⟩
    cases h with
    | decoded there hv =>
      refine ⟨fun o ho => ?_, fun absent => absurd there (absent _)⟩
      cases there.unique ho
      exact ⟨_, hv⟩
    | default absent => exact ⟨fun o ho => absurd ho (absent o), fun _ => Or.inl nofun⟩
    | omitted absent => exact ⟨fun o ho => absurd ho (absent o), fun _ => Or.inl nofun⟩
    | none absent hoption =>
      exact ⟨fun o ho => absurd ho (absent o), fun _ => Or.inr hoption⟩
  · obtain ⟨name, s, missing⟩ := f
    rintro ⟨hdecodes, hsettles⟩
    by_cases hthere : ∃ o, spec.Present sec name o
    · obtain ⟨o, there⟩ := hthere
      obtain ⟨v, hv⟩ := hdecodes o there
      exact ⟨_, .decoded there hv⟩
    · have absent : ∀ o, ¬spec.Present sec name o := fun o ho => hthere ⟨o, ho⟩
      cases missing with
      | required => exact ⟨_, .none absent ((hsettles absent).resolve_left fun h => h rfl)⟩
      | omitted => exact ⟨_, .omitted absent⟩
      | default v => exact ⟨_, .default absent⟩

theorem sectionAs_record_eq_ok_iff (distinct : (fields.map Prod.fst).Nodup) {v : Decoded} :
    sectionAs false spec sec (.record fields) = .ok v ↔
      ∃ parts, List.Forall₂ (spec.FillsField sec) fields parts ∧ .record parts.flatten = v := by
  simp only [sectionAs, sectionAsRecord, asMissingOption_eq_ok_iff,
    decodeRecord_eq_ok_iff_adds distinct]
  refine exists_congr fun parts => and_congr_left fun _ => ?_
  exact forall₂_congr_mem fun f _ part => adds_iff_fillsField

/-- A record of a section is decoded exactly if each field that is there can be decoded from the
values of its option alone, and each other field has a default or is optional. Then it holds these
values, and the defaults. -/
theorem sectionAs_record (distinct : (fields.map Prod.fst).Nodup) (spec : SectionSpec)
    (sec : Section) :
    ((∃ v, sectionAs false spec sec (.record fields) = .ok v) ↔
      (∀ f ∈ fields, ∀ o, spec.Present sec f.1 o →
        ∃ v, valuesAs o.type (sec.values o.name) f.2.1 = .ok v) ∧
      ∀ f ∈ fields, (∀ o, ¬spec.Present sec f.1 o) →
        f.2.2 ≠ .required ∨ f.2.1.isOption = true) ∧
    ∀ v, sectionAs false spec sec (.record fields) = .ok v ↔
      ∃ parts, List.Forall₂ (spec.FillsField sec) fields parts ∧ .record parts.flatten = v := by
  refine ⟨?_, fun v => sectionAs_record_eq_ok_iff distinct⟩
  have hparts : (∃ v, sectionAs false spec sec (.record fields) = .ok v) ↔
      ∃ parts, List.Forall₂ (spec.FillsField sec) fields parts := by
    simp only [sectionAs_record_eq_ok_iff distinct]
    exact ⟨fun ⟨_, parts, h, _⟩ => ⟨parts, h⟩, fun ⟨parts, h⟩ => ⟨_, parts, h, rfl⟩⟩
  rw [hparts, exists_forall₂_iff]
  simp only [exists_fillsField_iff]
  exact ⟨fun h => ⟨fun f hf => (h f hf).1, fun f hf => (h f hf).2⟩,
    fun h f hf => ⟨h.1 f hf, h.2 f hf⟩⟩

/-- Options with another name, of a list type, and without a value. -/
def titledOptions : SectionSpec :=
  ⟨[{ name := "Name", aliases := ["Title"] }, { name := "Fields", type := .stringList },
    { name := "Level", type := .int }]⟩

def titledSection : Section := ⟨"LogFile", [⟨"name", "web"⟩]⟩

def titledFields : List Field :=
  [needed "Title" .text, needed "Fields" (.seq .text), orZero "Level" .u8,
    ("Mode", .text, .omitted), needed "Colour" (.option .text)]

theorem sectionAs_record_titled :
    (titledFields.map Prod.fst).Nodup ∧
      sectionAs false titledOptions titledSection (.record titledFields) =
        .ok (.record [("Title", .text "web"), ("Fields", .seq []), ("Level", .int 0),
          ("Colour", .absent)]) := by
  have distinct : (titledFields.map Prod.fst).Nodup := by decide +kernel
  have absent : ∀ name ∈ ["Level", "Mode", "Colour"], ∀ o,
      ¬titledOptions.Present titledSection name o := by
    intro name hname
    rw [← presentValues?_eq_none_iff]
    revert name
    decide +kernel
  have title : titledOptions.Present titledSection "Title"
      { name := "Name", aliases := ["Title"] } := ⟨rfl, Or.inl (by decide +kernel)⟩
  have list : titledOptions.Present titledSection "Fields"
      { name := "Fields", type := .stringList } := ⟨rfl, Or.inr (Or.inr rfl)⟩
  refine ⟨distinct, ((sectionAs_record distinct titledOptions titledSection).2 _).mpr
    ⟨[[("Title", .text "web")], [("Fields", .seq [])], [("Level", .int 0)], [],
      [("Colour", .absent)]], ?_, rfl⟩⟩
  simp only [titledFields, List.forall₂_cons, List.Forall₂.nil, and_true]
  exact ⟨.decoded title rfl, .decoded list rfl, .default (absent _ (by decide)),
    .omitted (absent _ (by decide)), .none (absent _ (by decide)) rfl⟩

end Records
end UnitFiles

import UnitFiles.Proofs.FieldValues
import UnitFiles.Proofs.SpecText

/-! Options that a document declares itself, a section for each. The fields of an option spec are
encoded under lowercase names without those that hold their default. They are read again under the
capitalised names of the options that describe an option, the type apart from the others. -/
namespace UnitFiles
open Text Json

namespace OptionSpec
variable {o : OptionSpec}

def record (o : OptionSpec) : Decoded := .record (o.toFields.map fun p => (p.1, .dynamic p.2))

/-- The values of all fields but the annotations. -/
def encoded (o : OptionSpec) : List (String × Decoded) := [
  ("name", .text o.name), ("aliases", .seq (o.aliases.map .text)),
  ("description", .text o.description), ("type", .text o.type.name), ("required", .bool o.required),
  ("default", .text o.default), ("internal", .bool o.internal), ("annotation", .absent)]

def declared (o : OptionSpec) : List (String × Decoded) := [
  ("Name", .text o.name), ("Aliases", .seq (o.aliases.map .text)),
  ("Description", .text o.description), ("Required", .bool o.required),
  ("Default", .text o.default), ("Internal", .bool o.internal)]

def declaration (o : OptionSpec) : Section := Decoded.sectionOf true "Option" (.record o.encoded)

section Encoding

/-- What is written for a field is encoded like its value; what is left out has no texts. -/
structure Writes (slot : String × Option Json) (p : String × Decoded) : Prop where
  name : slot.1 = p.1
  typed : ∃ f : FieldType ValueType, f.Holds ValueType.Has p.2
  value :
    match slot.2 with
    | none => p.2.optionTexts true = []
    | some v => v.toDatum = p.2.toDatum

theorem ofPairs_written {slots : List (String × Option Json)}
    {values : List (String × Decoded)} (h : List.Forall₂ Writes slots values) :
    Datum.ofPairs .ok (fun name v => v.entries name true)
        (Decoded.toDataFields ((written slots).map fun p => (p.1, .dynamic p.2))) =
      .ok (values.flatMap (Decoded.options true)) := by
  induction h with
  | nil => rfl
  | @cons slot p slots values hwrites _ ih =>
    obtain ⟨name, slot⟩ := slot
    obtain ⟨rfl, ⟨f, hf⟩, hslot⟩ := hwrites
    rw [written_cons, List.flatMap_cons]
    cases slot with
    | none =>
      -- nothing is written here, and the full record would leave the zero value out as well
      have hnone : Decoded.options true p = [] := by
        rw [Decoded.options, hslot, List.map_nil]
      rw [hnone]
      exact ih
    | some v =>
      have hentries := entries_toDatum hf p.1 true
      rw [← hslot] at hentries
      rw [Option.map_some, Option.toList_some, List.singleton_append, List.map_cons,
        Decoded.toDataFields, Decoded.toDatum, Datum.ofPairs]
      simp only [hentries, within, ih]
      rfl

theorem writes {name : String} {v : Json} {w : Decoded} {f : FieldType ValueType}
    (hf : f.Holds ValueType.Has w) (hsame : v.toDatum = w.toDatum) :
    Writes (name, some v) (name, w) := ⟨rfl, ⟨f, hf⟩, hsame⟩

theorem writes_unless {name : String} {v : Json} {w : Decoded} {f : FieldType ValueType}
    (hf : f.Holds ValueType.Has w) (hsame : v.toDatum = w.toDatum) {p : Prop} [Decidable p]
    (hskip : p → w.optionTexts true = []) :
    Writes (name, if p then none else some v) (name, w) := by
  by_cases hp : p
  · rw [if_pos hp]
    exact ⟨rfl, ⟨f, hf⟩, hskip hp⟩
  · rw [if_neg hp]
    exact writes hf hsame

theorem writes_text {name s : String} :
    Writes (name, if s = "" then none else some (.text s)) (name, .text s) :=
  writes_unless (.one none (.text s)) rfl fun hempty => by rw [hempty]; rfl

theorem writes_bool {name : String} {b : Bool} :
    Writes (name, if b then some (.bool true) else none) (name, .bool b) := by
  cases b with
  | false => exact ⟨rfl, ⟨_, .one none (.bool false)⟩, rfl⟩
  | true => exact writes (.one none (.bool true)) rfl

theorem toDatum_texts (texts : List String) :
    (Json.array (texts.map .text)).toDatum = (Decoded.seq (texts.map .text)).toDatum := by
  have hdata : Json.toData (texts.map .text) = Decoded.toData (texts.map .text) := by
    induction texts with
    | nil => rfl
    | cons s texts ih => exact congrArg (Datum.text s :: ·) ih
  rw [Json.toDatum, Decoded.toDatum, hdata]

theorem holds_texts (texts : List String) :
    (FieldType.list ValueType.text).Holds ValueType.Has (.seq (texts.map .text)) := by
  refine .list fun v hv => ?_
  obtain ⟨s, -, rfl⟩ := List.mem_map.mp hv
  exact .text s

theorem writes_slots (h : o.annotations = []) : List.Forall₂ Writes o.slots o.encoded := by
  have haliases : Writes ("aliases", if o.aliases.isEmpty then none else
      some (.array (o.aliases.map .text))) ("aliases", .seq (o.aliases.map .text)) :=
    writes_unless (holds_texts o.aliases) (toDatum_texts o.aliases) fun hempty => by
      rw [List.isEmpty_iff.mp hempty]
      rfl
  have hannotations : Writes ("annotation", if o.annotations.isEmpty then none else
      some (.object o.annotations)) ("annotation", .absent) := by
    rw [h]
    exact ⟨rfl, ⟨_, .absent .text true⟩, rfl⟩
  have hname : Writes ("name", some (.text o.name)) ("name", .text o.name) :=
    writes (.one none (.text o.name)) rfl
  have htype : Writes ("type", some (.text o.type.name)) ("type", .text o.type.name) :=
    writes (.one none (.text o.type.name)) rfl
  simp only [slots, encoded, List.forall₂_cons, List.Forall₂.nil, and_true]
  exact ⟨hname, haliases, writes_text, htype, writes_bool, writes_text, writes_bool, hannotations⟩

theorem sections_record (h : o.annotations = []) :
    o.record.toDatum.sections false "Option" = .ok [o.declaration] := by
  have hentries := ofPairs_written (writes_slots h)
  rw [record, toFields_eq, Decoded.toDatum, Datum.sections, Datum.sectionOfPairs, Bool.not_false,
    hentries]
  rfl

end Encoding

section Decoding

def declaredType : SectionType where
  fields := [("Name", .one .text (some (.text ""))), ("Aliases", .list .text),
    ("Description", .one .text (some (.text ""))), ("Required", .one .bool (some (.bool false))),
    ("Default", .one .text (some (.text ""))), ("Internal", .one .bool (some (.bool false)))]
  distinct := by decide +kernel

theorem shape_declaredType : SectionType.shape declaredType = SectionSpec.declaredShape := rfl

theorem has_declared (o : OptionSpec) : SectionType.Has declaredType (.record o.declared) := by
  have htext : ∀ s, (FieldType.one ValueType.text (some (.text ""))).Holds ValueType.Has
      (.text s) := fun s => .one _ (.text s)
  have hbool : ∀ b, (FieldType.one ValueType.bool (some (.bool false))).Holds ValueType.Has
      (.bool b) := fun b => .one _ (.bool b)
  refine .record ?_
  simp only [RecordType.Fills, declaredType, declared, List.forall₂_cons, List.Forall₂.nil,
    true_and, and_true]
  exact ⟨htext o.name, holds_texts o.aliases, htext o.description, hbool o.required,
    htext o.default, hbool o.internal⟩

theorem default_text {s : String} (h : (Decoded.text s).isZero = true) :
    some (Decoded.text "") = some (.text s) := by
  rw [String.isEmpty_iff.mp h]

theorem default_bool {b : Bool} (h : (Decoded.bool b).isZero = true) :
    some (Decoded.bool false) = some (.bool b) := by
  cases b with
  | false => rfl
  | true => cases h

/-- Only the name is required, and that is not left out. -/
theorem restoresZeros_declared (h : o.name ≠ "") :
    SectionType.RestoresZeros .describingOptions declaredType (.record o.declared) := by
  have hname : ∀ d, SectionSpec.describingOptions.get? "Name" = some d →
      (FieldType.one ValueType.text (some (.text ""))).RestoresZero d (.text o.name) :=
    fun _ _ hzero => absurd (String.isEmpty_iff.mp hzero) h
  have hoptional : ∀ name ∈ ["Description", "Required", "Default", "Internal"], ∀ d,
      SectionSpec.describingOptions.get? name = some d → d.required = false := by
    have htable : ∀ name ∈ ["Description", "Required", "Default", "Internal"],
        (SectionSpec.describingOptions.get? name).any OptionSpec.required = false := by
      decide
    intro name hmem d hd
    simpa [hd] using htable name hmem
  have haliases : ∀ d, SectionSpec.describingOptions.get? "Aliases" = some d →
      (FieldType.list ValueType.text).RestoresZero d (.seq (o.aliases.map .text)) :=
    fun _ _ => trivial
  have htext : ∀ s, ∀ name ∈ ["Description", "Required", "Default", "Internal"], ∀ d,
      SectionSpec.describingOptions.get? name = some d →
        (FieldType.one ValueType.text (some (.text ""))).RestoresZero d (.text s) :=
    fun s name hmem d hd hzero => ⟨default_text hzero, hoptional name hmem d hd⟩
  have hbool : ∀ b, ∀ name ∈ ["Description", "Required", "Default", "Internal"], ∀ d,
      SectionSpec.describingOptions.get? name = some d →
        (FieldType.one ValueType.bool (some (.bool false))).RestoresZero d (.bool b) :=
    fun b name hmem d hd hzero => ⟨default_bool hzero, hoptional name hmem d hd⟩
  refine .record ?_
  simp only [RecordType.Fills, declaredType, declared, List.forall₂_cons, List.Forall₂.nil,
    true_and, and_true]
  exact ⟨hname, haliases, htext o.description _ (by simp), hbool o.required _ (by simp),
    htext o.default _ (by simp), hbool o.internal _ (by simp)⟩

theorem values_declaration {p : String × Decoded} (hp : p ∈ o.encoded) {name : String}
    (hname : sameName p.1 name = true) : o.declaration.values name = p.2.optionTexts true := by
  have distinct : (o.encoded.map Prod.fst).Pairwise fun a b => sameName a b = false := by
    change fieldNames.Pairwise fun a b => sameName a b = false
    decide
  exact values_sectionOf true "Option" distinct hp hname

theorem exists_encoded {p : String × Decoded} (hp : p ∈ o.declared) :
    ∃ name, (name, p.2) ∈ o.encoded ∧ sameName name p.1 = true := by
  revert p
  simp only [declared, List.forall_mem_cons]
  refine ⟨⟨"name", ?_⟩, ⟨"aliases", ?_⟩, ⟨"description", ?_⟩, ⟨"required", ?_⟩, ⟨"default", ?_⟩,
    ⟨"internal", ?_⟩, fun _ hp => nomatch hp⟩
  all_goals exact ⟨by simp [encoded], by decide⟩

theorem sameValues_declaration (o : OptionSpec) :
    SectionSpec.describingOptions.SameValues (declaredType.fieldsIn ValueType.shapes)
      (Decoded.sectionOf true "Option" (.record o.declared)) o.declaration := by
  intro f hf d hd
  have hnames : ∀ f ∈ declaredType.fieldsIn ValueType.shapes,
      (SectionSpec.describingOptions.find? f.1).all (fun d => d.name == f.1) = true := by
    decide
  have hname : d.name = f.1 := by simpa [hd] using hnames f hf
  -- both sections hold the value of the field, one under each spelling of its name
  obtain ⟨p, hp, hpf⟩ : ∃ p ∈ o.declared, p.1 = f.1 := by
    have hmem : f.1 ∈ o.declared.map Prod.fst := by
      change f.1 ∈ declaredType.fields.map Prod.fst
      rw [← map_fst_fieldsIn ValueType.shapes]
      exact List.mem_map_of_mem hf
    simpa using hmem
  obtain ⟨name, hencoded, hsame⟩ := exists_encoded hp
  have hdistinct : (o.declared.map Prod.fst).Pairwise fun a b => sameName a b = false :=
    declaredType.distinct
  rw [hname, ← hpf, values_declaration hencoded hsame]
  exact values_sectionOf true "Option" hdistinct hp (sameName_refl p.1)

theorem sectionAs_declaration (h : o.name ≠ "") :
    sectionAs false .describingOptions o.declaration SectionSpec.declaredShape =
      .ok (.record o.declared) := by
  have hdeclares : SectionSpec.describingOptions.Declares declaredType := by decide
  have hdecode := sectionAs_sectionOf hdeclares o.has_declared
    (fun (_ : true = true) => restoresZeros_declared h) false "Option"
  rw [SectionType.shape, o.sameValues_declaration.sectionAs_eq, ← SectionType.shape,
    shape_declaredType] at hdecode
  exact hdecode

theorem ofSection_declaration (h : o.name ≠ "") (hplain : o.annotations = []) :
    ofSection .describingOptions o.declaration = .ok o := by
  have htype : o.declaration.values "Type" = [o.type.name] := by
    have hmem : ("type", .text o.type.name) ∈ o.encoded := by simp [encoded]
    have hsame : sameName "type" "Type" = true := by decide
    rw [values_declaration hmem hsame]
    cases o.type <;> rfl
  have hknown : SectionSpec.describingOptions.has "type" = true := by decide
  have htexts : Decoded.texts (o.aliases.map .text) = o.aliases := by
    rw [Decoded.texts, List.filterMap_map]
    exact List.filterMap_some
  rw [ofSection, sectionAs_declaration h]
  simp only [hknown, htype, o.type.ofName?_name]
  change Except.ok { o with aliases := Decoded.texts (o.aliases.map .text), annotations := [] } = _
  rw [htexts, ← hplain]

end Decoding

end OptionSpec

def FileSpec.declaring : FileSpec := .ofList [("Option", .describingOptions)]

def Decoded.declaring (os : List OptionSpec) : Decoded :=
  .record [("Option", .seq (os.map OptionSpec.record))]

section Documents
open Records
variable {os : List OptionSpec}

theorem encode_declaring (hplain : ∀ o ∈ os, o.annotations = []) :
    (Decoded.declaring os).toDatum.encode false = .ok (os.map OptionSpec.declaration) := by
  have hitems : Datum.sectionsOfItems false "Option" (Decoded.toData (os.map OptionSpec.record)) =
      .ok (os.map OptionSpec.declaration) := by
    induction os with
    | nil => rfl
    | cons o os ih =>
      obtain ⟨ho, hos⟩ := List.forall_mem_cons.mp hplain
      rw [List.map_cons, Decoded.toData, Datum.sectionsOfItems, OptionSpec.sections_record ho,
        ih hos]
      rfl
  have hfield : ∀ p ∈ [("Option", Decoded.seq (os.map OptionSpec.record))],
      p.2.toDatum.sections false p.1 = .ok (os.map OptionSpec.declaration) := by
    rw [List.forall_mem_singleton, Decoded.toDatum, Datum.sections, hitems]
  rw [Decoded.declaring, Decoded.toDatum, Datum.encode, ofPairs_toDataFields hfield,
    List.flatMap_singleton]

theorem plainAnnotations_describingOptions : SectionSpec.describingOptions.PlainAnnotations := by
  have hnone : ∀ o ∈ SectionSpec.describingOptions.options, o.annotations = [] := by
    simp [SectionSpec.describingOptions]
  exact fun o ho => .of_nil (hnone o ho)

theorem sectionsNamed_declarations (path : String) (os : List OptionSpec) :
    Document.sectionsNamed ⟨path, os.map OptionSpec.declaration⟩ "Option" =
      os.map OptionSpec.declaration := by
  rw [Document.sectionsNamed, List.filter_eq_self]
  intro sec hsec
  obtain ⟨o, -, rfl⟩ := List.mem_map.mp hsec
  exact sameName_refl "Option"

theorem decode_declarations (hsome : os ≠ []) (hnames : ∀ o ∈ os, o.name ≠ "")
    (hplain : ∀ o ∈ os, o.annotations = []) (path : String) (strict : Bool)
    (view : OptionSpec → Decoded) :
    FileSpec.declaring.decode strict ⟨path, os.map OptionSpec.declaration⟩
        (.record [needed "Option" (.seq (.hook fun r =>
          (OptionSpec.ofSection r.spec r.content).map view))]) =
      .ok (.record [("Option", .seq (os.map view))]) := by
  have hspec : FileSpec.declaring.get? "Option" = some .describingOptions := rfl
  have hhas : Document.has ⟨path, os.map OptionSpec.declaration⟩ "Option" = true := by
    rw [has_eq, sectionsNamed_declarations]
    simpa using hsome
  have hall : mapAll (fun sec => (OptionSpec.ofSection .describingOptions sec).map view)
      (os.map OptionSpec.declaration) = .ok (os.map view) := by
    rw [mapAll_eq_ok_iff, List.forall₂_map_left_iff, List.forall₂_map_right_iff, List.forall₂_same]
    intro o ho
    rw [OptionSpec.ofSection_declaration (hnames o ho) (hplain o ho)]
    rfl
  rw [FileSpec.decode_hooks hspec plainAnnotations_describingOptions (by decide) hhas,
    sectionsNamed_declarations, hall]
  rfl

end Documents

/-- Option specs with names and without annotations are encoded, and decoded from what they are
encoded to as the same option specs in the same order, whatever is made of each of them. -/
theorem declared_options_round_trip {os : List OptionSpec} (hsome : os ≠ [])
    (hnames : ∀ o ∈ os, o.name ≠ "") (hplain : ∀ o ∈ os, o.annotations = []) :
    ∃ sections, (Decoded.declaring os).toDatum.encode false = .ok sections ∧
      ∀ (path : String) (strict : Bool),
        (∀ view : OptionSpec → Decoded,
          FileSpec.declaring.decode strict ⟨path, sections⟩
              (.record [needed "Option" (.seq (.hook fun r =>
                (OptionSpec.ofSection r.spec r.content).map view))]) =
            .ok (.record [("Option", .seq (os.map view))])) ∧
        RecordKind.plugin.decode .declaring strict ⟨path, sections⟩ = .ok (.declaring os) := by
  refine ⟨_, encode_declaring hplain, fun path strict => ⟨fun view => ?_, ?_⟩⟩
  · exact decode_declarations hsome hnames hplain path strict view
  · exact decode_declarations hsome hnames hplain path strict OptionSpec.record

section Sample

def pluginOptions : List OptionSpec :=
  [{ name := "Größe", aliases := ["", "Size"], type := .durationList, required := true,
     default := "1h" },
   { name := "Note", description := "two\nlines", internal := true }]

def pluginSections : List Section :=
  [⟨"Option", [⟨"name", "Größe"⟩, ⟨"aliases", ""⟩, ⟨"aliases", "Size"⟩, ⟨"type", "[]duration"⟩,
      ⟨"required", "true"⟩, ⟨"default", "1h"⟩]⟩,
    ⟨"Option", [⟨"name", "Note"⟩, ⟨"description", "two\nlines"⟩, ⟨"type", "string"⟩,
      ⟨"internal", "true"⟩]⟩]

theorem declared_options_round_trip_plugin :
    (∀ o ∈ pluginOptions, o.name ≠ "" ∧ o.annotations = []) ∧
      (Decoded.declaring pluginOptions).toDatum.encode false = .ok pluginSections ∧
      RecordKind.plugin.decode .declaring true ⟨"plugin.unit", pluginSections⟩ =
        .ok (.declaring pluginOptions) := by
  have hencode : (Decoded.declaring pluginOptions).toDatum.encode false = .ok pluginSections := by
    decide
  have hnames : ∀ o ∈ pluginOptions, o.name ≠ "" := by decide
  have hplain : ∀ o ∈ pluginOptions, o.annotations = [] := by simp [pluginOptions]
  obtain ⟨sections, hsections, hdecode⟩ :=
    declared_options_round_trip (List.cons_ne_nil _ _) hnames hplain
  cases hencode.symm.trans hsections
  exact ⟨fun o ho => ⟨hnames o ho, hplain o ho⟩, hencode, (hdecode "plugin.unit" true).2⟩

end Sample
end UnitFiles

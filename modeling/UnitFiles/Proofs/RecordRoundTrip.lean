import UnitFiles.Proofs.Fields
import UnitFiles.Proofs.OptionTexts

/-! Records are the same after they are encoded and decoded: each section gives its record back, and
each field of the document its sections. -/
namespace UnitFiles
open Text

namespace Decoded

def sectionOf (skipZero : Bool) (name : String) : Decoded → Section
  | record values => ⟨name, values.flatMap (options skipZero)⟩
  | _ => ⟨name, []⟩

def sectionsOf (skipZero : Bool) (p : String × Decoded) : List Section :=
  match p.2 with
  | absent => []
  | present v => [v.sectionOf skipZero p.1]
  | seq items => items.map (sectionOf skipZero p.1)
  | v => [v.sectionOf skipZero p.1]

end Decoded

section Sections
variable {t : SectionType} {v : Decoded}

theorem ofPairs_toDataFields {α : Type} {encode : String → Datum → Except Error (List α)}
    {parts : String × Decoded → List α} {values : List (String × Decoded)}
    (h : ∀ p ∈ values, encode p.1 p.2.toDatum = .ok (parts p)) :
    Datum.ofPairs .ok encode (Decoded.toDataFields values) = .ok (values.flatMap parts) := by
  induction values with
  | nil => rfl
  | cons p rest ih =>
    obtain ⟨hp, hrest⟩ := List.forall_mem_cons.mp h
    rw [Decoded.toDataFields, Datum.ofPairs]
    simp only [hp, within, ih hrest]
    rfl

theorem sections_toDatum (h : SectionType.Has t v) (includeZero : Bool) (name : String) :
    v.toDatum.sections includeZero name = .ok [v.sectionOf (!includeZero) name] := by
  cases h with
  | @record values hvalues =>
    have hoptions : ∀ p ∈ values, p.2.toDatum.entries p.1 (!includeZero) =
        .ok (Decoded.options (!includeZero) p) := by
      intro p hp
      obtain ⟨f, hf⟩ := hvalues.exists_field hp
      exact entries_toDatum hf p.1 (!includeZero)
    rw [Decoded.toDatum, Datum.sections, Datum.sectionOfPairs, ofPairs_toDataFields hoptions]
    rfl

theorem values_sectionOf {values : List (String × Decoded)} (skipZero : Bool) (name : String)
    (distinct : (values.map Prod.fst).Pairwise fun a b => sameName a b = false)
    {p : String × Decoded} (hp : p ∈ values) {n : String} (hn : sameName p.1 n = true) :
    (Decoded.sectionOf skipZero name (.record values)).values n = p.2.optionTexts skipZero := by
  have hoptions : ∀ p, ∀ e ∈ Decoded.options skipZero p, e.name = p.1 := by
    intro p e he
    obtain ⟨text, -, rfl⟩ := List.mem_map.mp he
    rfl
  rw [Section.values, Decoded.sectionOf, filter_flatMap_items hoptions distinct hp hn,
    Decoded.options, List.map_map]
  exact List.map_id' _

theorem presentValues?_of_get? {spec : SectionSpec} {name : String} {o : OptionSpec}
    (h : spec.get? name = some o) (s : Section) :
    presentValues? spec s name =
      if (s.values o.name).isEmpty && !o.required && !o.type.isList then none
      else some (o.type, s.values o.name) := by
  have hfind : spec.find? name = some o := by
    rw [SectionSpec.find?, h]
    rfl
  rw [presentValues?, hfind]
  rfl

theorem firstStray?_eq_none {spec : SectionSpec} (declared : spec.Declares t) :
    firstStray? spec (t.fieldsIn ValueType.shapes) = none := by
  rw [firstStray?, Option.map_eq_none_iff, List.find?_eq_none]
  intro f hf
  obtain ⟨g, hg, rfl⟩ := List.mem_map.mp hf
  obtain ⟨o, ho, -⟩ := declared g hg
  simp [SectionSpec.find?, ho]

theorem sectionAs_sectionOf {spec : SectionSpec} (declared : spec.Declares t)
    (h : SectionType.Has t v) {skipZero : Bool}
    (hzeros : skipZero = true → SectionType.RestoresZeros spec t v) (strict : Bool)
    (name : String) :
    sectionAs strict spec (v.sectionOf skipZero name) (SectionType.shape t) = .ok v := by
  cases h with
  | @record values hvalues =>
    have hdecode : decodeRecord (fun field =>
        (presentValues? spec (Decoded.sectionOf skipZero name (.record values)) field).map
          fun p => valuesAs p.1 p.2) (t.fieldsIn ValueType.shapes) = .ok (.record values) := by
      refine (hvalues.and_imp hzeros).decodeRecord ?_
      rintro field f v hf hp ⟨hv, hzero⟩
      obtain ⟨o, ho, hscalar, hlist⟩ := declared _ hf
      have hname : sameName field o.name = true := by
        rw [sameName_comm]
        exact SectionSpec.sameName_of_get? ho
      have hsettles := settles_option hv hscalar hlist (fun hskip => hzero hskip o ho) field
      refine ⟨rfl, ?_⟩
      dsimp only at ho ⊢
      rw [presentValues?_of_get? ho, values_sectionOf skipZero name hvalues.distinct hp hname]
      split at hsettles
      · rename_i hnone
        rw [if_pos hnone]
        exact hsettles
      · rename_i hsome
        rw [if_neg hsome]
        exact hsettles
    simp only [SectionType.shape, sectionAs, sectionAsRecord, firstStray?_eq_none declared,
      hdecode]
    cases strict <;> rfl

end Sections

section Documents
variable {t : DocumentType} {v : Decoded}

theorem sectionsOfItems_toDatum {t : SectionType} {items : List Decoded} (includeZero : Bool)
    (name : String) (h : ∀ v ∈ items, SectionType.Has t v) :
    Datum.sectionsOfItems includeZero name (items.map Decoded.toDatum) =
      .ok (items.map (Decoded.sectionOf (!includeZero) name)) := by
  induction items with
  | nil => rfl
  | cons v rest ih =>
    obtain ⟨hv, hrest⟩ := List.forall_mem_cons.mp h
    rw [List.map_cons, Datum.sectionsOfItems, sections_toDatum hv, ih hrest]
    rfl

theorem sections_toDatum_field {f : FieldType SectionType} (h : f.Holds SectionType.Has v)
    (includeZero : Bool) (name : String) :
    v.toDatum.sections includeZero name = .ok (Decoded.sectionsOf (!includeZero) (name, v)) := by
  cases h with
  | one default hv =>
    rw [sections_toDatum hv]
    cases hv
    rfl
  | absent a marked => rfl
  | present marked hv => exact sections_toDatum hv includeZero name
  | list hitems =>
    rw [Decoded.toDatum, Datum.sections, Decoded.toData_eq_map]
    exact sectionsOfItems_toDatum includeZero name hitems

theorem specsFor_eq_ok {α : Type} {spec : FileSpec} {fields : List (String × α)}
    (h : ∀ f ∈ fields, ∃ s, spec.get? f.1 = some s) :
    ∃ specs, specsFor spec (fields.map Prod.fst) = .ok specs ∧
      ∀ f ∈ fields, specs.lookup f.1 = spec.get? f.1 := by
  obtain ⟨specs, hspecs, hnames, hget⟩ := FileSpec.exists_specsFor (List.forall_mem_map.mpr h)
  refine ⟨specs, hspecs, fun f hf => ?_⟩
  have hmem : f.1 ∈ specs.map Prod.fst := hnames ▸ List.mem_map_of_mem hf
  cases hlookup : specs.lookup f.1 with
  | none =>
    obtain ⟨p, hp, hname⟩ := List.mem_map.mp hmem
    simpa [hname] using List.lookup_eq_none_iff.mp hlookup p hp
  | some s => exact (hget (f.1, s) (mem_of_lookup hlookup)).symm

theorem has_eq (d : Document) (name : String) :
    d.has name = !(d.sectionsNamed name).isEmpty := by
  rw [Document.has, Document.sectionsNamed, Bool.eq_iff_iff]
  simp

theorem sectionsAs_sectionOf {t : SectionType} {spec : SectionSpec} (declared : spec.Declares t)
    (h : SectionType.Has t v) {skipZero : Bool}
    (hzeros : skipZero = true → SectionType.RestoresZeros spec t v) (strict : Bool)
    (name : String) :
    sectionsAs strict spec [v.sectionOf skipZero name] (SectionType.shape t) = .ok v :=
  sectionAs_sectionOf declared h hzeros strict name

theorem settles_section {f : FieldType SectionType} (h : f.Holds SectionType.Has v)
    {spec : SectionSpec} (declared : spec.Declares f.type) {skipZero : Bool}
    (hzeros : skipZero = true → f.Holds (SectionType.RestoresZeros spec) v) (strict : Bool)
    (name : String) :
    if (Decoded.sectionsOf skipZero (name, v)).isEmpty then
      settleField (name, f.shape SectionType.shapes, f.missing SectionType.shapes) none =
        .ok [(name, v)]
    else
      sectionsAs strict spec (Decoded.sectionsOf skipZero (name, v))
        (f.shape SectionType.shapes) = .ok v := by
  cases h with
  | @one r v default hv =>
    have hrecord := sectionsAs_sectionOf declared hv (fun hskip => by
      cases hzeros hskip with
      | one _ hzero => exact hzero) strict name
    cases hv
    exact hrecord
  | absent r marked => exact settleField_optional SectionType.shapes r marked name
  | @present r v marked hv =>
    have hrecord := sectionsAs_sectionOf declared hv (fun hskip => by
      cases hzeros hskip with
      | present _ hzero => exact hzero) strict name
    exact congrArg (Except.map Decoded.present) hrecord
  | @list r items hitems =>
    have hall : mapAll (fun sec => sectionAs strict spec sec (SectionType.shape r))
        (items.map (Decoded.sectionOf skipZero name)) = .ok items := by
      rw [mapAll_eq_ok_iff, List.forall₂_map_left_iff, List.forall₂_same]
      intro v hv
      refine sectionAs_sectionOf declared (hitems v hv) (fun hskip => ?_) strict name
      cases hzeros hskip with
      | list hzeros => exact hzeros v hv
    split
    · rename_i hempty
      have hnil : items = [] := by simpa [Decoded.sectionsOf] using hempty
      rw [hnil]
      rfl
    · exact congrArg (Except.map Decoded.seq) hall

theorem name_sectionOf (skipZero : Bool) (name : String) (v : Decoded) :
    (v.sectionOf skipZero name).name = name := by
  cases v <;> rfl

theorem sectionsNamed_sectionsOf {values : List (String × Decoded)} (skipZero : Bool)
    (path : String) (distinct : (values.map Prod.fst).Pairwise fun a b => sameName a b = false)
    {p : String × Decoded} (hp : p ∈ values) :
    Document.sectionsNamed ⟨path, values.flatMap (Decoded.sectionsOf skipZero)⟩ p.1 =
      Decoded.sectionsOf skipZero p := by
  have hsections : ∀ p, ∀ s ∈ Decoded.sectionsOf skipZero p, s.name = p.1 := by
    intro p s hs
    rw [Decoded.sectionsOf] at hs
    split at hs
    · cases hs
    · rw [List.mem_singleton.mp hs, name_sectionOf]
    · obtain ⟨v, -, rfl⟩ := List.mem_map.mp hs
      exact name_sectionOf skipZero p.1 v
    · rw [List.mem_singleton.mp hs, name_sectionOf]
  exact filter_flatMap_items hsections distinct hp (sameName_refl p.1)

/-- A record is the same after it is encoded and decoded, if its sections and options are declared
and the zero values that are left out are put in again. -/
theorem DocumentType.decode_encode {spec : FileSpec} (declared : spec.Declares t)
    (h : DocumentType.Has t v) {includeZero : Bool}
    (zeros : includeZero = true ∨ DocumentType.RestoresZeros spec t v) :
    ∃ sections, v.toDatum.encode includeZero = .ok sections ∧
      ∀ path strict, spec.decode strict ⟨path, sections⟩ (DocumentType.shape t) = .ok v := by
  cases h with
  | @record values hvalues =>
    have hzeros : (!includeZero) = true → DocumentType.RestoresZeros spec t (.record values) := by
      intro hskip
      refine zeros.resolve_left ?_
      rintro rfl
      cases hskip
    have hsections : ∀ p ∈ values, p.2.toDatum.sections includeZero p.1 =
        .ok (Decoded.sectionsOf (!includeZero) p) := by
      intro p hp
      obtain ⟨f, hf⟩ := hvalues.exists_field hp
      exact sections_toDatum_field hf includeZero p.1
    refine ⟨_, ofPairs_toDataFields hsections, ?_⟩
    intro path strict
    obtain ⟨specs, hspecs, hlookup⟩ :=
      specsFor_eq_ok fun f hf => (declared f hf).imp fun _ hs => hs.1
    have hdecode : decodeRecord (fun name =>
        if Document.has ⟨path, values.flatMap (Decoded.sectionsOf (!includeZero))⟩ name then
          (specs.lookup name).map fun s => sectionsAs strict s (Document.sectionsNamed
            ⟨path, values.flatMap (Decoded.sectionsOf (!includeZero))⟩ name)
        else none) (t.fieldsIn SectionType.shapes) = .ok (.record values) := by
      refine (hvalues.and_imp hzeros).decodeRecord ?_
      rintro name f v hf hp ⟨hv, hzero⟩
      obtain ⟨options, hoptions, hdeclared⟩ := declared _ hf
      have hsettles :=
        settles_section hv hdeclared (fun hskip => hzero hskip _ hoptions) strict name
      refine ⟨rfl, ?_⟩
      dsimp only
      rw [has_eq, sectionsNamed_sectionsOf _ path hvalues.distinct hp, hlookup _ hf, hoptions]
      split at hsettles
      · rename_i hempty
        rw [hempty]
        exact hsettles
      · rename_i hsome
        rw [Bool.of_not_eq_true hsome]
        exact hsettles
    rw [FileSpec.decode_eq, DocumentType.shape, documentAs, documentAsRecord, map_fst_fieldsIn,
      hspecs]
    simp only [hdecode]
    rfl

end Documents

section Sample
open Records

def sampleGlobalOptions : SectionSpec :=
  ⟨[{ name := "Name" }, { name := "verbose", type := .bool }, { name := "Workers", type := .int },
    { name := "Mode" }]⟩

def sampleLogFileOptions : SectionSpec :=
  ⟨[{ name := "Path" }, { name := "Fields", type := .stringList },
    { name := "Rotate", type := .bool }, { name := "MaxAge", type := .duration },
    { name := "MaxSize", type := .int }]⟩

def sampleAppSpec : FileSpec :=
  .ofList [("Global", sampleGlobalOptions), ("LogFile", sampleLogFileOptions)]

def sampleGlobal : Decoded :=
  .record [("Verbose", .bool false), ("Workers", .present (.int 0)), ("Name", .text ""),
    ("Mode", .present (.variant "slow"))]

def sampleLogFile : Decoded :=
  .record [("Path", .text "/var/log/app"), ("Fields", .seq [.text "time", .text ""]),
    ("Rotate", .bool true), ("MaxAge", .present (.duration { nanoseconds := 5_400_500_000_000 })),
    ("MaxSize", .int 0)]

def sampleApp : Decoded :=
  .record [("Global", sampleGlobal), ("LogFile", .seq [sampleLogFile])]

def sampleAppSections : List Section :=
  [⟨"Global", [⟨"Workers", "0"⟩, ⟨"Mode", "slow"⟩]⟩,
    ⟨"LogFile", [⟨"Path", "/var/log/app"⟩, ⟨"Fields", "time"⟩, ⟨"Fields", ""⟩, ⟨"Rotate", "true"⟩,
      ⟨"MaxAge", "1h30m0.5s"⟩]⟩]

theorem has_sampleGlobal : SectionType.Has globalType sampleGlobal := by
  have hworkers : ValueType.Has (.int ⟨true, 64⟩ (by decide)) (.int 0) :=
    .int _ (by decide) (by decide)
  have hmode : ValueType.Has (.choice ["fast", "slow"]) (.variant "slow") := .choice (by decide)
  refine .record ?_
  simp only [RecordType.Fills, globalType, List.forall₂_cons, List.Forall₂.nil, true_and, and_true]
  exact ⟨.one _ (.bool false), .present true hworkers, .one _ (.text ""), .present true hmode⟩

theorem has_sampleLogFile : SectionType.Has logFileType sampleLogFile := by
  have hfields : (FieldType.list ValueType.text).Holds ValueType.Has
      (.seq [.text "time", .text ""]) := by
    refine .list ?_
    rw [List.forall_mem_cons, List.forall_mem_singleton]
    exact ⟨.text "time", .text ""⟩
  have hsize : ValueType.Has (.int ⟨false, 64⟩ (by decide)) (.int 0) :=
    .int _ (by decide) (by decide)
  refine .record ?_
  simp only [RecordType.Fills, logFileType, List.forall₂_cons, List.Forall₂.nil, true_and, and_true]
  exact ⟨.one _ (.text _), hfields, .one _ (.bool true), .present true (.duration _),
    .one _ hsize⟩

theorem has_sampleApp : DocumentType.Has appType sampleApp := by
  refine .record ?_
  simp only [RecordType.Fills, appType, List.forall₂_cons, List.Forall₂.nil, true_and, and_true]
  exact ⟨.one _ has_sampleGlobal, .list (List.forall_mem_singleton.mpr has_sampleLogFile)⟩

/-- No option is required, and both fields that hold a zero value have it as their default. -/
theorem restoresZeros_sampleGlobal :
    SectionType.RestoresZeros sampleGlobalOptions globalType sampleGlobal := by
  have hoptional : ∀ name o, sampleGlobalOptions.get? name = some o → o.required = false :=
    fun _ o ho => (by decide : ∀ o ∈ sampleGlobalOptions.options, o.required = false) o
      (SectionSpec.mem_of_get? ho)
  have hverbose : ∀ o, sampleGlobalOptions.get? "Verbose" = some o →
      (FieldType.one ValueType.bool (some (.bool false))).RestoresZero o (.bool false) :=
    fun o ho _ => ⟨rfl, hoptional _ o ho⟩
  have hname : ∀ o, sampleGlobalOptions.get? "Name" = some o →
      (FieldType.one ValueType.text (some (.text ""))).RestoresZero o (.text "") :=
    fun o ho _ => ⟨rfl, hoptional _ o ho⟩
  refine .record ?_
  simp only [RecordType.Fills, globalType, List.forall₂_cons, List.Forall₂.nil, true_and, and_true]
  exact ⟨hverbose, fun _ _ => trivial, hname, fun _ _ => trivial⟩

/-- Of the fields without a list or a mark, only the size is zero. -/
theorem restoresZeros_sampleLogFile :
    SectionType.RestoresZeros sampleLogFileOptions logFileType sampleLogFile := by
  have hpath : ∀ o, sampleLogFileOptions.get? "Path" = some o →
      (FieldType.one ValueType.text none).RestoresZero o (.text "/var/log/app") :=
    fun _ _ hzero => absurd hzero (by decide)
  have hrotate : ∀ o, sampleLogFileOptions.get? "Rotate" = some o →
      (FieldType.one ValueType.bool (some (.bool false))).RestoresZero o (.bool true) :=
    fun _ _ hzero => absurd hzero (by decide)
  have hsize : ∀ o, sampleLogFileOptions.get? "MaxSize" = some o →
      (FieldType.one (.int ⟨false, 64⟩ (by decide)) (some (.int 0))).RestoresZero o (.int 0) :=
    fun o ho _ => ⟨rfl, (by decide : ∀ o ∈ sampleLogFileOptions.options, o.required = false) o
      (SectionSpec.mem_of_get? ho)⟩
  refine .record ?_
  simp only [RecordType.Fills, logFileType, List.forall₂_cons, List.Forall₂.nil, true_and, and_true]
  exact ⟨hpath, fun _ _ => trivial, hrotate, fun _ _ => trivial, hsize⟩

theorem restoresZeros_sampleApp : DocumentType.RestoresZeros sampleAppSpec appType sampleApp := by
  have hglobal : ∀ s, sampleAppSpec.get? "Global" = some s →
      (FieldType.one globalType none).Holds (SectionType.RestoresZeros s) sampleGlobal := by
    intro s hs
    have hspec : sampleAppSpec.get? "Global" = some sampleGlobalOptions := rfl
    cases hspec.symm.trans hs
    exact .one _ restoresZeros_sampleGlobal
  have hlogFile : ∀ s, sampleAppSpec.get? "LogFile" = some s →
      (FieldType.list logFileType).Holds (SectionType.RestoresZeros s) (.seq [sampleLogFile]) := by
    intro s hs
    have hspec : sampleAppSpec.get? "LogFile" = some sampleLogFileOptions := rfl
    cases hspec.symm.trans hs
    exact .list (List.forall_mem_singleton.mpr restoresZeros_sampleLogFile)
  refine .record ?_
  simp only [RecordType.Fills, appType, List.forall₂_cons, List.Forall₂.nil, true_and, and_true]
  exact ⟨hglobal, hlogFile⟩

theorem decode_encode_sampleApp :
    sampleApp.toDatum.encode false = .ok sampleAppSections ∧
      sampleAppSpec.decode true ⟨"app.unit", sampleAppSections⟩ RecordKind.appConfig.shape =
        .ok sampleApp := by
  have hdeclared : sampleAppSpec.Declares appType := by decide +kernel
  have hencode : sampleApp.toDatum.encode false = .ok sampleAppSections := by decide +kernel
  obtain ⟨sections, hsections, hdecode⟩ := DocumentType.decode_encode hdeclared has_sampleApp
    (Or.inr restoresZeros_sampleApp)
  rw [hencode] at hsections
  cases hsections
  exact ⟨hencode, shape_appType ▸ hdecode "app.unit" true⟩

end Sample
end UnitFiles

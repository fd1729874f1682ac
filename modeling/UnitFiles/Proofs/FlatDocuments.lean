import UnitFiles.Proofs.DynamicValues
import UnitFiles.Proofs.FlatRecords
import UnitFiles.Proofs.Flattening

/-! A record that is flattened into the record of a document. All sections are read as typed values
first, whatever the record asks for, so that one section is not a list, and a section is found only
under the first spelling of its name. Apart from that the record is the one that the document is
decoded to directly. -/
namespace UnitFiles
open Text

theorem isSome_toOption_iff {α : Type} {r : Except Error α} :
    r.toOption.isSome = true ↔ ∃ a, r = .ok a := by
  cases r <;> simp [Except.toOption]

/-- Each field is a section whose options are declared exactly. -/
def FileSpec.DeclaresExactly (spec : FileSpec) (t : DocumentType) : Prop :=
  ∀ f ∈ t.fields, ∃ s, spec.get? f.1 = some s ∧ s.DeclaresExactly f.2.type

instance (spec : FileSpec) (t : DocumentType) : Decidable (spec.DeclaresExactly t) :=
  decidable_of_iff
    (∀ f ∈ t.fields, (spec.get? f.1).any fun s => decide (s.DeclaresExactly f.2.type))
    (by simp [FileSpec.DeclaresExactly, Option.any_eq_true])

/-- All sections are known, and all options that are set can be read as their types say. -/
def FileSpec.Types (spec : FileSpec) (d : Document) : Prop :=
  ∀ s ∈ d.sections, ∃ options, spec.get? s.name = some options ∧
    ∀ o ∈ options.options, s.has o.name = true →
      ∃ w, valueOfType o.type (s.values o.name) = .ok w

instance (spec : FileSpec) (d : Document) : Decidable (spec.Types d) :=
  decidable_of_iff
    (∀ s ∈ d.sections, (spec.get? s.name).any fun options => options.options.all fun o =>
      !s.has o.name || (valueOfType o.type (s.values o.name)).toOption.isSome)
    (by simp [FileSpec.Types, Option.any_eq_true, imp_iff_not_or, isSome_toOption_iff])

/-- The sections under those names that are first written as they are given. -/
def Document.spelledAs (d : Document) (names : List String) : Document :=
  { d with sections := d.sections.filter fun s =>
      names.any fun name => sameName s.name name && d.names.contains name }

section Visit

theorem visit_nil_eq_ok_iff {entries : List (String × Except Error Decoded)}
    {found rest : List (String × Decoded)} :
    visit [] [] entries = .ok (found, rest) ↔
      found = [] ∧ List.Forall₂ (fun p e => e.1 = p.1 ∧ p.2 = .ok e.2) entries rest := by
  induction entries generalizing found rest with
  | nil => simp [visit, eq_comm]
  | cons p entries ih =>
    obtain ⟨key, whole⟩ := p
    rw [visit.eq_def, List.forall₂_cons_left_iff]
    cases whole with
    | error e => simp
    | ok w =>
      simp only [List.lookup_nil]
      rw [map_eq_ok_iff]
      constructor
      · rintro ⟨⟨found', rest'⟩, hvisit, hpair⟩
        cases hpair
        obtain ⟨rfl, hrest⟩ := ih.mp hvisit
        exact ⟨rfl, (key, w), rest', ⟨rfl, rfl⟩, hrest, rfl⟩
      · rintro ⟨rfl, ⟨_, _⟩, rest', ⟨rfl, hw⟩, hrest, rfl⟩
        cases hw
        exact ⟨([], rest'), ih.mpr ⟨rfl, hrest⟩, rfl⟩

/-- Nothing but the typed values counts for a flat record without fields of its own. -/
theorem decodeFlat_record_eq_ok_iff {slots : List Slot} {fields : List Field} {v : Decoded} :
    decodeFlat slots [] [.record fields] [] = .ok v ↔
      ∃ entries, List.Forall₂ (fun slot e => e.1 = slot.key ∧ slot.whole = .ok e.2) slots entries ∧
        ∃ values, contentAs (.map (entries.filter fun p => (fields.map Prod.fst).contains p.1))
          (.record fields) = .ok (.record values) ∧ .map values = v := by
  have hvisit : ∀ found rest, visit [] []
      (slots.map fun slot => (slot.key, within slot.key slot.whole)) = .ok (found, rest) ↔
        found = [] ∧
          List.Forall₂ (fun slot e => e.1 = slot.key ∧ slot.whole = .ok e.2) slots rest := by
    intro found rest
    simp only [visit_nil_eq_ok_iff, List.forall₂_map_left_iff, within_eq_ok_iff]
  have hparts : ∀ rest values, decodeParts rest [.record fields] = .ok values ↔
      contentAs (.map (rest.filter fun p => (fields.map Prod.fst).contains p.1))
        (.record fields) = .ok (.record values) := by
    intro rest values
    rw [decodeParts_record_eq_ok_iff, contentAs, map_eq_ok_iff]
    simp [decodeParts]
  have hnone : ∀ found, settle [] found = .ok [] := fun _ => rfl
  simp only [decodeFlat_eq_ok_iff, ownReads, List.append_nil, List.filterMap_nil, hvisit, hnone,
    hparts]
  constructor
  · rintro ⟨_, rest, ⟨rfl, hrest⟩, _, values, _, hfirst, hvalues, hlast, rfl⟩
    cases hfirst
    cases hlast
    exact ⟨rest, hrest, values, hvalues, by simp⟩
  · rintro ⟨rest, hrest, values, hvalues, rfl⟩
    exact ⟨[], rest, ⟨rfl, hrest⟩, [], values, [], rfl, hvalues, rfl, by simp⟩

end Visit

section Names

theorem eq_of_distinct {names : List String}
    (distinct : names.Pairwise fun a b => sameName a b = false) {a b : String} (ha : a ∈ names)
    (hb : b ∈ names) (hsame : sameName a b = true) : a = b := by
  by_contra hne
  have : Std.Symm fun a b => sameName a b = false := ⟨fun a b h => (sameName_comm b a).trans h⟩
  rw [distinct.forall ha hb hne] at hsame
  cases hsame

variable {d : Document} {names : List String} {name : String}

theorem sectionsNamed_spelledAs
    (distinct : names.Pairwise fun a b => sameName a b = false) (hname : name ∈ names) :
    (d.spelledAs names).sectionsNamed name =
      if name ∈ d.names then d.sectionsNamed name else [] := by
  have hkept : ∀ s ∈ d.sections, (sameName s.name name &&
      names.any fun n => sameName s.name n && d.names.contains n) =
        (sameName s.name name && d.names.contains name) := by
    intro s _
    cases hs : sameName s.name name with
    | false => rfl
    | true =>
      rw [Bool.true_and, Bool.true_and, Bool.eq_iff_iff, List.any_eq_true]
      constructor
      · rintro ⟨n, hn, hboth⟩
        obtain ⟨hsame, hmem⟩ := (Bool.and_eq_true _ _).mp hboth
        rw [sameName_comm, sameName_congr hs] at hsame
        rwa [← eq_of_distinct distinct hn hname hsame]
      · exact fun hmem => ⟨name, hname, by rw [hs, hmem]; rfl⟩
  rw [Document.sectionsNamed, Document.spelledAs, List.filter_filter, List.filter_congr hkept]
  split
  · rename_i hmem
    simp only [List.contains_iff_mem.mpr hmem, Bool.and_true]
    rfl
  · rename_i hnot
    have hcontains : d.names.contains name = false := by simpa using hnot
    simp only [hcontains, Bool.and_false, List.filter_false]

theorem sectionsNamed_ne_nil (h : name ∈ d.names) : d.sectionsNamed name ≠ [] := by
  obtain ⟨s, hs, -⟩ := Document.mem_names.mp h
  have hmem : s ∈ d.sectionsNamed name :=
    Section.mem_called.mpr ⟨List.mem_of_find?_eq_some hs, by simpa using List.find?_some hs⟩
  exact List.ne_nil_of_mem hmem

theorem exists_mem_names {s : Section} (hs : s ∈ d.sections) :
    ∃ name ∈ d.names, sameName s.name name = true := by
  obtain ⟨first, hfirst⟩ : ∃ first, d.get? s.name = some first :=
    Option.isSome_iff_exists.mp (List.find?_isSome.mpr ⟨s, hs, sameName_refl s.name⟩)
  have hsame : sameName first.name s.name = true := by simpa using List.find?_some hfirst
  have hget : d.get? first.name = some first := by
    simp only [Document.get?, sameName_congr hsame]
    exact hfirst
  exact ⟨first.name, Document.mem_names.mpr ⟨first, hget, rfl⟩, by rw [sameName_comm, hsame]⟩

theorem has_spelledAs (distinct : names.Pairwise fun a b => sameName a b = false)
    (hname : name ∈ names) : (d.spelledAs names).has name = true ↔ name ∈ d.names := by
  rw [has_eq, sectionsNamed_spelledAs distinct hname]
  by_cases hmem : name ∈ d.names
  · simp [hmem, sectionsNamed_ne_nil hmem]
  · simp [hmem]

end Names

section Whole
variable {strict : Bool} {spec : FileSpec} {d : Document} {entries : List (String × Decoded)}

/-- The typed values of all sections, under their names as they are first written. -/
def WholeValues (strict : Bool) (spec : FileSpec) (d : Document)
    (entries : List (String × Decoded)) : Prop :=
  List.Forall₂ (fun name e => e.1 = name ∧ ∃ options, spec.get? name = some options ∧
    wholeSections strict options (d.sectionsNamed name) = .ok e.2) d.names entries

/-- A document is decoded as a flat record if all its sections have typed values and the record can
be taken out of them. -/
theorem documentAs_flat_eq_ok_iff {fields : List Field} {v : Decoded} :
    documentAs strict spec d (.flat [] [.record fields] []) = .ok v ↔
      ∃ entries, WholeValues strict spec d entries ∧
        ∃ values, contentAs (.map (entries.filter fun p => (fields.map Prod.fst).contains p.1))
          (.record fields) = .ok (.record values) ∧ .map values = v := by
  change documentAsMap strict spec d (.flat [] [.record fields] []) = .ok v ↔ _
  have hmap : documentAsMap strict spec d (.flat [] [.record fields] []) = .ok v ↔
      ∃ specs, specsFor spec d.names = .ok specs ∧
        decodeFlat (d.slots strict specs) [] [.record fields] [] = .ok v := by
    rw [documentAsMap]
    cases specsFor spec d.names with
    | error e => simp
    | ok specs => simp [decodeSlots]
  rw [hmap]
  simp only [decodeFlat_record_eq_ok_iff, FileSpec.specsFor_eq_ok_iff, Document.slots,
    List.forall₂_map_left_iff]
  have hwhole : ∀ {specs entries},
      List.Forall₂ (fun name (p : String × SectionSpec) => p.1 = name ∧
        spec.get? name = some p.2) d.names specs →
      (List.Forall₂ (fun p e => e.1 = p.1 ∧
        wholeSections strict p.2 (d.sectionsNamed p.1) = .ok e.2) specs entries ↔
          WholeValues strict spec d entries) := by
    intro specs entries hspecs
    refine forall₂_comp_iff hspecs ?_
    rintro _ ⟨name, options⟩ e ⟨rfl, hoptions⟩
    simp [hoptions]
  constructor
  · rintro ⟨specs, hspecs, entries, hentries, hw⟩
    exact ⟨entries, (hwhole hspecs).mp hentries, hw⟩
  · rintro ⟨entries, hentries, hw⟩
    obtain ⟨specs, hspecs⟩ : ∃ specs, List.Forall₂ (fun name (p : String × SectionSpec) =>
        p.1 = name ∧ spec.get? name = some p.2) d.names specs := by
      rw [exists_forall₂_iff]
      intro name hname
      obtain ⟨e, -, -, options, hoptions, -⟩ := exists_of_mem_forall₂ hentries.flip hname
      exact ⟨(name, options), rfl, hoptions⟩
    exact ⟨specs, hspecs, entries, (hwhole hspecs).mpr hentries, hw⟩

theorem exists_wholeValues_iff : (∃ entries, WholeValues false spec d entries) ↔ spec.Types d := by
  simp only [WholeValues, exists_forall₂_iff]
  constructor
  · intro h s hs
    obtain ⟨name, hname, hsame⟩ := exists_mem_names hs
    obtain ⟨e, -, options, hoptions, hwhole⟩ := h name hname
    rw [← FileSpec.get?_congr hsame] at hoptions
    have hmem : s ∈ d.sectionsNamed name := Section.mem_called.mpr ⟨hs, hsame⟩
    obtain ⟨w, hw⟩ := exists_wholeSections_iff.mp ⟨_, hwhole⟩ s hmem
    exact ⟨options, hoptions, exists_wholeSection_iff.mp ⟨w, hw⟩⟩
  · intro h name hname
    obtain ⟨first, hfirst, rfl⟩ := Document.mem_names.mp hname
    obtain ⟨options, hoptions, -⟩ := h first (List.mem_of_find?_eq_some hfirst)
    obtain ⟨w, hw⟩ : ∃ w, wholeSections false options (d.sectionsNamed first.name) = .ok w := by
      rw [exists_wholeSections_iff]
      intro s hs
      obtain ⟨hmem, hsame⟩ := Section.mem_called.mp hs
      obtain ⟨options', hoptions', hvalues⟩ := h s hmem
      rw [FileSpec.get?_congr hsame, hoptions] at hoptions'
      cases hoptions'
      exact exists_wholeSection_iff.mpr hvalues
    exact ⟨(first.name, w), rfl, options, hoptions, hw⟩

theorem WholeValues.map_fst (h : WholeValues strict spec d entries) :
    entries.map Prod.fst = d.names := by
  rw [← List.forall₂_eq_eq_eq, List.forall₂_map_left_iff]
  exact h.flip.imp fun _ _ he => he.1

theorem WholeValues.lookup (h : WholeValues strict spec d entries) (name : String) :
    match entries.lookup name with
    | none => name ∉ d.names
    | some w => name ∈ d.names ∧ ∃ options, spec.get? name = some options ∧
        wholeSections strict options (d.sectionsNamed name) = .ok w := by
  split
  · rename_i hnone
    rw [← h.map_fst, List.mem_map]
    rintro ⟨e, he, rfl⟩
    simpa using List.lookup_eq_none_iff.mp hnone e he
  · rename_i w hw
    obtain ⟨_, hname, rfl, hwhole⟩ := exists_of_mem_forall₂ h (mem_of_lookup hw)
    exact ⟨hname, hwhole⟩

end Whole

section Flat
variable {spec : FileSpec} {t : DocumentType} {d : Document}

theorem documentAsRecord_eq_ok_iff {strict : Bool} (declared : spec.DeclaresExactly t)
    {v : Decoded} :
    documentAs strict spec d (DocumentType.shape t) = .ok v ↔
      ∃ values, List.Forall₂ (Settles fun name =>
        if d.has name then
          (spec.get? name).map fun s => sectionsAs strict s (d.sectionsNamed name)
        else none) (t.fieldsIn SectionType.shapes) values ∧ .record values = v := by
  have hknown : ∀ f ∈ t.fieldsIn SectionType.shapes, ∃ s, spec.get? f.1 = some s := by
    rw [RecordType.fieldsIn, List.forall_mem_map]
    exact fun f hf => (declared f hf).imp fun _ hs => hs.1
  obtain ⟨specs, hspecs, hlookup⟩ := specsFor_eq_ok hknown
  rw [DocumentType.shape, documentAs, documentAsRecord, hspecs]
  simp only [decodeRecord_eq_ok_iff t.nodup_fieldsIn t.kept_fieldsIn]
  refine exists_congr fun values => and_congr_left fun _ => forall₂_congr_mem fun f hf p => ?_
  simp only [Settles, hlookup f hf]

/-- Whether the document has sections for a field or not, it is the same to take the field out of
the typed values as to decode it, unless the field is a list with one section. -/
theorem settles_section_iff {f : String × FieldType SectionType} {options : SectionSpec}
    {names : List String} (distinct : names.Pairwise fun a b => sameName a b = false)
    (hname : f.1 ∈ names) (hoptions : spec.get? f.1 = some options)
    (declared : options.DeclaresExactly f.2.type) {entries : List (String × Decoded)}
    (h : WholeValues false spec d entries) {p : String × Decoded} :
    Settles (fun name => ((entries.filter fun p => names.contains p.1).lookup name).map contentAs)
        (f.1, f.2.shape SectionType.shapes, f.2.missing SectionType.shapes) p ↔
      (f.2.isList = true → ((d.spelledAs names).sectionsNamed f.1).length ≠ 1) ∧
        Settles (fun name =>
          if (d.spelledAs names).has name then
            (spec.get? name).map fun s =>
              sectionsAs false s ((d.spelledAs names).sectionsNamed name)
          else none) (f.1, f.2.shape SectionType.shapes, f.2.missing SectionType.shapes) p := by
  have hlookup := h.lookup f.1
  have hfilter := @lookup_filter_of_pos _ entries _ _ (List.contains_iff_mem.mpr hname)
  have hhas := has_spelledAs (d := d) distinct hname
  have hsections := sectionsNamed_spelledAs (d := d) distinct hname
  simp only [Settles, hfilter]
  cases hw : entries.lookup f.1 with
  | none =>
    rw [hw] at hlookup
    have hnot : (d.spelledAs names).has f.1 = false := Bool.eq_false_iff.mpr (mt hhas.mp hlookup)
    rw [if_neg hlookup] at hsections
    simp [hsections, hnot]
  | some w =>
    rw [hw] at hlookup
    obtain ⟨hmem, options', hoptions', hwhole⟩ := hlookup
    cases hoptions.symm.trans hoptions'
    rw [if_pos hmem] at hsections
    simp only [hsections, hhas.mpr hmem, if_true, hoptions, Option.map_some]
    rw [contentAs_wholeSections declared (sectionsNamed_ne_nil hmem) hwhole rfl]
    tauto

/-- A record that is flattened into a document is the one that its sections are decoded to when
those of other spellings are left out. All sections have to be read as typed values, and those of a
list must not be alone. -/
theorem documentAs_flat_iff (declared : spec.DeclaresExactly t) {v : Decoded} :
    documentAs false spec d (.flat [] [.record (t.fieldsIn SectionType.shapes)] []) = .ok v ↔
      spec.Types d ∧ (∀ f ∈ t.fields, f.2.isList = true →
        ((d.spelledAs (t.fields.map Prod.fst)).sectionsNamed f.1).length ≠ 1) ∧
      ∃ values, documentAs false spec (d.spelledAs (t.fields.map Prod.fst))
        (DocumentType.shape t) = .ok (.record values) ∧ .map values = v := by
  have hcontent : ∀ {entries}, WholeValues false spec d entries → ∀ w,
      (contentAs (.map (entries.filter fun p => (t.fields.map Prod.fst).contains p.1))
        (DocumentType.shape t) = .ok w ↔
      (∀ f ∈ t.fields, f.2.isList = true →
        ((d.spelledAs (t.fields.map Prod.fst)).sectionsNamed f.1).length ≠ 1) ∧
      documentAs false spec (d.spelledAs (t.fields.map Prod.fst)) (DocumentType.shape t) =
        .ok w) := by
    intro entries hentries w
    have hkeys : (entries.map Prod.fst).Nodup := hentries.map_fst ▸ d.nodup_names
    have once : (entries.filter fun p => (t.fields.map Prod.fst).contains p.1).Pairwise
        fun p q => p.1 = q.1 → p.1 ∉ (t.fieldsIn SectionType.shapes).map Prod.fst :=
      ((List.pairwise_map.mp hkeys).filter _).imp fun hne heq => absurd heq hne
    rw [documentAsRecord_eq_ok_iff declared, DocumentType.shape,
      contentAs_record_eq_ok_iff t.nodup_fieldsIn t.kept_fieldsIn once, ← exists_and_left]
    refine exists_congr fun values => ?_
    rw [← and_assoc, RecordType.fieldsIn, List.forall₂_map_left_iff, List.forall₂_map_left_iff,
      ← List.forall₂_and_left]
    refine and_congr_left fun _ => forall₂_congr_mem fun f hf p => ?_
    obtain ⟨options, hoptions, hdeclared⟩ := declared f hf
    exact settles_section_iff t.distinct (List.mem_map_of_mem hf) hoptions hdeclared hentries
  have hflat := @documentAs_flat_eq_ok_iff false spec d (t.fieldsIn SectionType.shapes) v
  rw [map_fst_fieldsIn] at hflat
  rw [← exists_wholeValues_iff]
  refine hflat.trans ?_
  constructor
  · rintro ⟨entries, hentries, values, hvalues, rfl⟩
    obtain ⟨hlists, hdirect⟩ := (hcontent hentries _).mp hvalues
    exact ⟨⟨entries, hentries⟩, hlists, values, hdirect, rfl⟩
  · rintro ⟨⟨entries, hentries⟩, hlists, values, hdirect, rfl⟩
    exact ⟨entries, hentries, values, (hcontent hentries _).mpr ⟨hlists, hdirect⟩, rfl⟩

end Flat

/-- Where the names occur, they are first written as they are given. -/
def Document.Spells (d : Document) (names : List String) : Prop :=
  ∀ name ∈ names, d.has name = true → name ∈ d.names

instance (d : Document) (names : List String) : Decidable (d.Spells names) :=
  inferInstanceAs (Decidable (∀ name ∈ names, d.has name = true → name ∈ d.names))

theorem Document.Spells.sectionsNamed_spelledAs {d : Document} {names : List String}
    (h : d.Spells names) (distinct : names.Pairwise fun a b => sameName a b = false) {name : String}
    (hname : name ∈ names) : (d.spelledAs names).sectionsNamed name = d.sectionsNamed name := by
  rw [UnitFiles.sectionsNamed_spelledAs distinct hname, ite_eq_left_iff]
  intro hnot
  have hhas : d.has name = false := Bool.eq_false_iff.mpr (mt (h name hname) hnot)
  rw [has_eq, Bool.not_eq_false', List.isEmpty_iff] at hhas
  exact hhas.symm

end UnitFiles

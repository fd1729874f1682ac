import UnitFiles.Proofs.RecordFields
import UnitFiles.Proofs.TypedValues

/-! Reading a section into typed values first, and taking a record out of them then. It comes to
what the section is decoded to directly, if the spec declares the fields exactly as the record
spells them. -/
namespace UnitFiles
open Text

/-- Each field is an option of a matching type that is spelled as the field, and is so once. It is
not required if the field has a default. -/
def SectionSpec.DeclaresExactly (spec : SectionSpec) (t : SectionType) : Prop :=
  ∀ f ∈ t.fields, ∃ o, spec.get? f.1 = some o ∧ o.name = f.1 ∧
    spec.options.countP (fun o => o.name = f.1) = 1 ∧ o.type.scalar = f.2.type.scalar ∧
    o.type.isList = f.2.isList ∧ (f.2.fallsBack = true → o.required = false)

instance (spec : SectionSpec) (t : SectionType) : Decidable (spec.DeclaresExactly t) :=
  decidable_of_iff
    (∀ f ∈ t.fields, (spec.get? f.1).any fun o => o.name = f.1 &&
      (spec.options.countP fun o => o.name = f.1) == 1 && o.type.scalar == f.2.type.scalar &&
      o.type.isList == f.2.isList && (!f.2.fallsBack || !o.required))
    (by simp [SectionSpec.DeclaresExactly, Option.any_eq_true, and_assoc, imp_iff_not_or])

section Options
variable {spec : SectionSpec} {sec : Section} {w : Decoded}

/-- The typed values of the options that are set, under their names. -/
def SetValues (spec : SectionSpec) (sec : Section) (entries : List (String × Decoded)) : Prop :=
  List.Forall₂ (fun o e => e.1 = o.name ∧ valueOfType o.type (sec.values o.name) = .ok e.2)
    (spec.options.filter fun o => sec.has o.name) entries

theorem wholeSection_eq_ok_iff :
    wholeSection false spec sec = .ok w ↔
      ∃ entries, SetValues spec sec entries ∧ .map entries = w := by
  rw [wholeSection, if_neg Bool.false_ne_true, wholeMap_eq_ok_iff]
  simp only [Section.slots, List.forall₂_map_left_iff, SetValues]

variable {entries : List (String × Decoded)} {o : OptionSpec}

theorem eq_of_countP (hcount : spec.options.countP (fun p => p.name = o.name) = 1)
    (ho : o ∈ spec.options) {o' : OptionSpec} (ho' : o' ∈ spec.options) (hname : o'.name = o.name) :
    o' = o := by
  rw [List.countP_eq_length_filter, List.length_eq_one_iff] at hcount
  obtain ⟨p, hp⟩ := hcount
  have hmem : ∀ q ∈ spec.options, q.name = o.name → q = p := by
    intro q hq hqname
    have hfilter : q ∈ spec.options.filter fun p => p.name = o.name :=
      List.mem_filter.mpr ⟨hq, decide_eq_true hqname⟩
    rw [hp] at hfilter
    exact List.mem_singleton.mp hfilter
  rw [hmem o' ho' hname, hmem o ho rfl]

theorem SetValues.lookup (h : SetValues spec sec entries) (ho : o ∈ spec.options)
    (alone : ∀ o' ∈ spec.options, o'.name = o.name → o' = o) :
    match entries.lookup o.name with
    | none => sec.has o.name = false
    | some w => sec.has o.name = true ∧ valueOfType o.type (sec.values o.name) = .ok w := by
  split
  · rename_i hnone
    rw [← Bool.not_eq_true]
    intro hset
    obtain ⟨e, he, hname, -⟩ := exists_of_mem_forall₂ h.flip (List.mem_filter.mpr ⟨ho, hset⟩)
    have hne := List.lookup_eq_none_iff.mp hnone e he
    simp [hname] at hne
  · rename_i w hw
    obtain ⟨o', ho', hname, hvalue⟩ := exists_of_mem_forall₂ h (mem_of_lookup hw)
    obtain ⟨hmem', hset⟩ := List.mem_filter.mp ho'
    cases alone o' hmem' hname.symm
    exact ⟨hset, hvalue⟩

theorem SetValues.map_fst (h : SetValues spec sec entries) :
    entries.map Prod.fst = (spec.options.filter fun o => sec.has o.name).map OptionSpec.name := by
  rw [map_eq_map_iff_forall₂]
  exact h.flip.imp fun _ _ he => he.1

theorem SetValues.once {t : SectionType} (h : SetValues spec sec entries)
    (declared : spec.DeclaresExactly t) :
    entries.Pairwise fun p q => p.1 = q.1 → p.1 ∉ (t.fieldsIn ValueType.shapes).map Prod.fst := by
  have hnames : spec.options.Pairwise fun o o' =>
      o.name = o'.name → o.name ∉ t.fields.map Prod.fst := by
    rw [List.pairwise_iff_forall_sublist]
    intro o o' hsub hsame hmem
    obtain ⟨f, hf, hname⟩ := List.mem_map.mp hmem
    obtain ⟨-, -, -, hcount, -⟩ := declared f hf
    have hle := hsub.countP_le (p := fun o => decide (o.name = f.1))
    rw [hcount] at hle
    simp [← hname, ← hsame] at hle
  rw [map_fst_fieldsIn, ← List.pairwise_map (f := Prod.fst)
    (R := fun a b => a = b → a ∉ t.fields.map Prod.fst), h.map_fst, List.pairwise_map]
  exact hnames.filter _

/-- A field settles as its option does, if the option is read when it is set. Unless it is set, an
option must not be required of a field that falls back on a value of its own. -/
theorem settles_present_iff {decode : String → Option (Shape → Except Error Decoded)}
    {f : String × FieldType ValueType} (ho : spec.get? f.1 = some o)
    (hscalar : o.type.scalar = f.2.type.scalar) (hlist : o.type.isList = f.2.isList)
    (hrequired : sec.has o.name = false → f.2.fallsBack = true → o.required = false)
    (hdecode : (decode f.1).map (fun g => g (f.2.shape ValueType.shapes)) =
      if sec.has o.name then
        some (valuesAs o.type (sec.values o.name) (f.2.shape ValueType.shapes))
      else none)
    {p : String × Decoded} :
    Settles decode (f.1, f.2.shape ValueType.shapes, f.2.missing ValueType.shapes) p ↔
      Settles (fun name => (presentValues? spec sec name).map fun q => valuesAs q.1 q.2)
        (f.1, f.2.shape ValueType.shapes, f.2.missing ValueType.shapes) p := by
  simp only [Settles, presentValues?_of_get? ho, Section.isEmpty_values]
  cases hset : sec.has o.name with
  | true =>
    rw [hset, if_pos rfl] at hdecode
    obtain ⟨g, hg, hshape⟩ := Option.map_eq_some_iff.mp hdecode
    simp [hg, hshape]
  | false =>
    rw [hset, if_neg Bool.false_ne_true] at hdecode
    simp only [Option.map_eq_none_iff.mp hdecode, Section.values_eq_nil_iff.mpr hset,
      Bool.not_false, Bool.true_and]
    cases hpresent : !o.required && !o.type.isList with
    | true => rfl
    | false =>
      simp only [Bool.false_eq_true, if_false, Option.map_some]
      exact and_congr_right fun hp =>
        settleField_unset_iff hscalar hlist (hrequired hset) hpresent hp

theorem SetValues.content_eq {f : String × FieldType ValueType} (h : SetValues spec sec entries)
    (ho : o ∈ spec.options) (hname : o.name = f.1)
    (alone : ∀ o' ∈ spec.options, o'.name = o.name → o' = o)
    (hscalar : o.type.scalar = f.2.type.scalar) (hlist : o.type.isList = f.2.isList) :
    ((entries.lookup f.1).map contentAs).map (fun g => g (f.2.shape ValueType.shapes)) =
      if sec.has o.name then
        some (valuesAs o.type (sec.values o.name) (f.2.shape ValueType.shapes))
      else none := by
  have hlookup := h.lookup ho alone
  rw [hname] at hlookup
  cases hw : entries.lookup f.1 with
  | none =>
    rw [hw, ← hname] at hlookup
    rw [hlookup]
    rfl
  | some w =>
    rw [hw, ← hname] at hlookup
    obtain ⟨hset, hvalue⟩ := hlookup
    rw [hset, if_pos rfl, Option.map_some, Option.map_some,
      contentAs_fieldShape hscalar hlist hvalue]

theorem sectionAs_shape_eq_ok_iff {t : SectionType} {v : Decoded} :
    sectionAs false spec sec (SectionType.shape t) = .ok v ↔
      ∃ values, List.Forall₂ (Settles fun name =>
        (presentValues? spec sec name).map fun q => valuesAs q.1 q.2)
          (t.fieldsIn ValueType.shapes) values ∧ .record values = v := by
  simp only [SectionType.shape, sectionAs, sectionAsRecord, asMissingOption_eq_ok_iff,
    decodeRecord_eq_ok_iff t.nodup_fieldsIn t.kept_fieldsIn]

/-- A record that is taken out of the typed values of a section is the one that the section is
decoded to. -/
theorem contentAs_wholeSection {t : SectionType} (declared : spec.DeclaresExactly t)
    (h : wholeSection false spec sec = .ok w) {v : Decoded} :
    contentAs w (SectionType.shape t) = .ok v ↔
      sectionAs false spec sec (SectionType.shape t) = .ok v := by
  obtain ⟨entries, hentries, rfl⟩ := wholeSection_eq_ok_iff.mp h
  have hsettles : ∀ f ∈ t.fieldsIn ValueType.shapes, ∀ p,
      Settles (fun name => (entries.lookup name).map contentAs) f p ↔
        Settles (fun name => (presentValues? spec sec name).map fun q => valuesAs q.1 q.2) f p := by
    intro f hf p
    obtain ⟨g, hg, rfl⟩ := List.mem_map.mp hf
    obtain ⟨o, ho, hname, hcount, hscalar, hlist, hrequired⟩ := declared g hg
    have hmem := SectionSpec.mem_of_get? ho
    exact settles_present_iff ho hscalar hlist (fun _ => hrequired) (hentries.content_eq hmem hname
      (fun o' ho' hname' => eq_of_countP (hname.symm ▸ hcount) hmem ho' hname') hscalar hlist)
  rw [sectionAs_shape_eq_ok_iff, SectionType.shape,
    contentAs_record_eq_ok_iff t.nodup_fieldsIn t.kept_fieldsIn (hentries.once declared)]
  simp only [forall₂_congr_mem hsettles]

end Options

section Sections
variable {spec : SectionSpec} {t : SectionType} {w v : Decoded}

theorem forall₂_comp_iff {α β γ : Type} {R : α → β → Prop} {P : β → γ → Prop} {Q : α → γ → Prop}
    {as : List α} {bs : List β} {cs : List γ} (h : List.Forall₂ R as bs)
    (hR : ∀ a b c, R a b → (P b c ↔ Q a c)) : List.Forall₂ P bs cs ↔ List.Forall₂ Q as cs := by
  induction h generalizing cs with
  | nil => simp only [List.forall₂_nil_left_iff]
  | cons hab _ ih => simp only [List.forall₂_cons_left_iff, hR _ _ _ hab, ih]

theorem exists_wholeSection_iff {sec : Section} :
    (∃ w, wholeSection false spec sec = .ok w) ↔ ∀ o ∈ spec.options, sec.has o.name = true →
      ∃ w, valueOfType o.type (sec.values o.name) = .ok w := by
  have hvalues : (∃ w, wholeSection false spec sec = .ok w) ↔
      ∃ entries, SetValues spec sec entries := by
    simp only [wholeSection_eq_ok_iff]
    exact ⟨fun ⟨_, entries, h, _⟩ => ⟨entries, h⟩, fun ⟨entries, h⟩ => ⟨_, entries, h, rfl⟩⟩
  simp only [hvalues, SetValues, exists_forall₂_iff, List.mem_filter, and_imp]
  refine forall₂_congr fun o _ => imp_congr_right fun _ => ?_
  exact ⟨fun ⟨e, _, he⟩ => ⟨e.2, he⟩, fun ⟨w, hw⟩ => ⟨(o.name, w), rfl, hw⟩⟩

theorem wholeSections_eq_ok_iff {strict : Bool} {sections : List Section} :
    wholeSections strict spec sections = .ok w ↔
      (∃ sec, sections = [sec] ∧ wholeSection strict spec sec = .ok w) ∨
        sections.length ≠ 1 ∧ ∃ items, List.Forall₂ (fun sec item =>
          wholeSection strict spec sec = .ok item) sections items ∧ .seq items = w := by
  rw [wholeSections.eq_def]
  split
  · simp
  · rename_i hsome
    have hlength : sections.length ≠ 1 := by
      intro hone
      obtain ⟨sec, rfl⟩ := List.length_eq_one_iff.mp hone
      exact hsome sec rfl
    simp only [map_eq_ok_iff, mapAll_eq_ok_iff, hlength, ne_eq, not_false_eq_true, true_and]
    refine (or_iff_right ?_).symm
    rintro ⟨sec, rfl, -⟩
    exact hsome sec rfl

theorem exists_wholeSections_iff {strict : Bool} {sections : List Section} :
    (∃ w, wholeSections strict spec sections = .ok w) ↔
      ∀ sec ∈ sections, ∃ w, wholeSection strict spec sec = .ok w := by
  simp only [wholeSections_eq_ok_iff]
  rw [← exists_forall₂_iff]
  constructor
  · rintro ⟨w, ⟨sec, rfl, hw⟩ | ⟨-, items, hitems, -⟩⟩
    · exact ⟨[w], .cons hw .nil⟩
    · exact ⟨items, hitems⟩
  · rintro ⟨items, hitems⟩
    by_cases hone : sections.length = 1
    · obtain ⟨sec, rfl⟩ := List.length_eq_one_iff.mp hone
      cases hitems with
      | cons hw _ => exact ⟨_, Or.inl ⟨sec, rfl, hw⟩⟩
    · exact ⟨_, Or.inr ⟨hone, items, hitems, rfl⟩⟩

/-- No choice is read as a section: the value under its name would have to be a unit. -/
theorem exists_contentAs_choice {sec : Section} {entries : List (String × Decoded)}
    (h : SetValues spec sec entries) (names : List String) :
    ∃ e, contentAs (.map entries) (.choice names) = .error e := by
  rcases entries with _ | ⟨⟨name, w⟩, _ | ⟨other, rest⟩⟩
  · exact ⟨_, rfl⟩
  · obtain ⟨o, -, -, hw⟩ := exists_of_mem_forall₂ h (List.mem_singleton_self (name, w))
    obtain ⟨e, he⟩ := exists_toUnit_of_valueOfType hw
    rw [contentAs]
    cases toVariant names name with
    | error e => exact ⟨e, rfl⟩
    | ok chosen => exact ⟨e, by rw [he]; rfl⟩
  · exact ⟨_, rfl⟩

/-- No field of a section is read as a section. -/
theorem exists_contentAs_map {sec : Section} {entries : List (String × Decoded)}
    (h : SetValues spec sec entries) (f : FieldType ValueType) :
    ∃ e, contentAs (.map entries) (f.shape ValueType.shapes) = .error e := by
  cases f with
  | one a default =>
    cases a with
    | choice names => exact exists_contentAs_choice h names
    | _ => exact ⟨_, rfl⟩
  | optional a marked =>
    cases a with
    | choice names =>
      obtain ⟨e, he⟩ := exists_contentAs_choice h names
      exact ⟨e, congrArg (Except.map Decoded.present) he⟩
    | _ => exact ⟨_, rfl⟩
  | list a => cases a <;> exact ⟨_, rfl⟩

theorem exists_contentAs_maps {items : List Decoded} (hne : items ≠ [])
    (hmaps : ∀ item ∈ items, ∃ sec entries, SetValues spec sec entries ∧ .map entries = item)
    (t : SectionType) : ∃ e, contentAs (.seq items) (SectionType.shape t) = .error e := by
  cases items with
  | nil => contradiction
  | cons item rest =>
    obtain ⟨sec, entries, hentries, rfl⟩ := hmaps item List.mem_cons_self
    rw [SectionType.shape, contentAs, RecordType.fieldsIn]
    cases t.fields with
    | nil => exact ⟨_, rfl⟩
    | cons f fields =>
      obtain ⟨e, he⟩ := exists_contentAs_map hentries f.2
      refine ⟨e, ?_⟩
      rw [List.map_cons, contentAsPositions, he]
      rfl

section Whole
variable {sections : List Section} (declared : spec.DeclaresExactly t) (hne : sections ≠ [])
  (h : wholeSections false spec sections = .ok w)
include declared hne h

theorem contentAs_wholeSections_record :
    contentAs w (SectionType.shape t) = .ok v ↔
      sectionsAs false spec sections (SectionType.shape t) = .ok v := by
  rcases wholeSections_eq_ok_iff.mp h with ⟨sec, rfl, hw⟩ | ⟨hlength, items, hitems, rfl⟩
  · exact contentAs_wholeSection declared hw
  · have hmaps : ∀ item ∈ items,
        ∃ sec entries, SetValues spec sec entries ∧ .map entries = item := by
      intro item hitem
      obtain ⟨sec, -, hsec⟩ := exists_of_mem_forall₂ hitems hitem
      exact ⟨sec, wholeSection_eq_ok_iff.mp hsec⟩
    have hsome : items ≠ [] := by
      rintro rfl
      exact hne (List.forall₂_nil_right_iff.mp hitems)
    obtain ⟨e, he⟩ := exists_contentAs_maps hsome hmaps t
    have honly : onlySection sections = .error (.sectionCount sections.length) := by
      rw [onlySection.eq_def]
      split
      · exact absurd rfl hlength
      · rfl
    rw [he, SectionType.shape, sectionsAs, honly]
    constructor <;> intro hfound <;> cases hfound

/-- What the typed value of some sections is decoded to is what they are decoded to, except that one
section is no list. -/
theorem contentAs_wholeSections {f : FieldType SectionType} (hf : f.type = t) :
    contentAs w (f.shape SectionType.shapes) = .ok v ↔
      sectionsAs false spec sections (f.shape SectionType.shapes) = .ok v ∧
        (f.isList = true → sections.length ≠ 1) := by
  have hrecord := fun v => @contentAs_wholeSections_record _ _ _ v _ declared hne h
  subst hf
  cases f with
  | one a default =>
    refine (hrecord v).trans (iff_self_and.mpr fun _ hlist => ?_)
    cases hlist
  | optional a marked =>
    have hoption : contentAs w (.option (SectionType.shape a)) =
        (contentAs w (SectionType.shape a)).map .present := by
      rcases wholeSections_eq_ok_iff.mp h with ⟨sec, -, hw⟩ | ⟨-, items, -, rfl⟩
      · obtain ⟨entries, -, rfl⟩ := wholeSection_eq_ok_iff.mp hw
        rw [contentAs] <;> intros <;> contradiction
      · rw [contentAs] <;> intros <;> contradiction
    have hempty : sections.isEmpty = false := by simpa using hne
    have hsections : sectionsAs false spec sections (.option (SectionType.shape a)) =
        (sectionsAs false spec sections (SectionType.shape a)).map .present := by
      rw [sectionsAs, hempty]
      rfl
    simp only [FieldType.shape, SectionType.shapes, hoption, hsections, map_eq_ok_iff,
      FieldType.isList, Bool.false_eq_true, false_imp_iff, and_true]
    exact exists_congr fun v => and_congr_left fun _ => hrecord v
  | list a =>
    have hseq : ∀ v, sectionsAs false spec sections (.seq (SectionType.shape a)) = .ok v ↔
        ∃ items, List.Forall₂ (fun sec item =>
          sectionAs false spec sec (SectionType.shape a) = .ok item) sections items ∧
          .seq items = v := by
      intro v
      rw [sectionsAs, sectionsAsSeq, map_eq_ok_iff]
      simp only [mapAll_eq_ok_iff]
    rcases wholeSections_eq_ok_iff.mp h with ⟨sec, rfl, hw⟩ | ⟨hlength, items, hitems, rfl⟩
    · obtain ⟨entries, -, rfl⟩ := wholeSection_eq_ok_iff.mp hw
      refine ⟨fun hfound => ?_, fun hboth => absurd rfl (hboth.2 rfl)⟩
      cases hfound
    · rw [FieldType.shape, SectionType.shapes, hseq, contentAs, map_eq_ok_iff]
      simp only [mapAll_eq_ok_iff, hlength, ne_eq, not_false_eq_true, implies_true, and_true]
      refine exists_congr fun found => and_congr_left fun _ => ?_
      exact forall₂_comp_iff hitems fun sec item v hitem =>
        contentAs_wholeSection declared hitem

end Whole
end Sections
end UnitFiles

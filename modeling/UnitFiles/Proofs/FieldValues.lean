import Mathlib.Logic.Relation
import UnitFiles.Proofs.RecordRoundTrip

/-! What a record sees of a document: the values of its own options, section by section. Documents
that have the same values there are decoded to the same result, failures included. So it does not
matter how names are spelled, how differently named sections and options are mixed, and what stands
under names that no field has. -/
namespace UnitFiles
open Text

/-- The sections of a name are read as records: one section, one or none, or a list. -/
inductive Shape.OfRecord (inner : List Field) : Shape → Prop
  | one : OfRecord inner (.record inner)
  | optional : OfRecord inner (.option (.record inner))
  | list : OfRecord inner (.seq (.record inner))

/-- The same values for every option that a field stands for. -/
def SectionSpec.SameValues (spec : SectionSpec) (fields : List Field) (s s' : Section) : Prop :=
  ∀ f ∈ fields, ∀ o, spec.find? f.1 = some o → s.values o.name = s'.values o.name

instance (spec : SectionSpec) (fields : List Field) (s s' : Section) :
    Decidable (spec.SameValues fields s s') :=
  decidable_of_iff
    (∀ f ∈ fields, ∀ o ∈ spec.find? f.1, s.values o.name = s'.values o.name) Iff.rfl

/-- As many sections for each field, and position by position the same values. -/
def FileSpec.SameValues (spec : FileSpec) (fields : List Field) (d d' : Document) : Prop :=
  ∀ f ∈ fields, ∀ inner, f.2.1.OfRecord inner → ∀ options, spec.get? f.1 = some options →
    List.Forall₂ (options.SameValues inner) (d.sectionsNamed f.1) (d'.sectionsNamed f.1)

section Fields

theorem mapAll_congr {α β γ : Type} {f : α → Except Error γ} {g : β → Except Error γ}
    {l : List α} {l' : List β} (h : List.Forall₂ (fun a b => f a = g b) l l') :
    mapAll f l = mapAll g l' := by
  induction h with
  | nil => rfl
  | cons hab _ ih => rw [mapAll, mapAll, hab, ih]

variable {decode decode' : String → Option (Shape → Except Error Decoded)} {fields : List Field}

theorem decodeFields_congr (h : ∀ f ∈ fields,
    (decode f.1).map (fun g => g f.2.1) = (decode' f.1).map fun g => g f.2.1)
    (seen : List String) : decodeFields decode seen fields = decodeFields decode' seen fields := by
  induction fields generalizing seen with
  | nil => rfl
  | cons f rest ih =>
    obtain ⟨name, s, missing⟩ := f
    obtain ⟨hf, hrest⟩ := List.forall_mem_cons.mp h
    rw [decodeFields, decodeFields]
    dsimp only at hf
    cases hname : decode name with
    | none =>
      rw [hname] at hf
      rw [Option.map_eq_none_iff.mp hf.symm]
      exact ih hrest seen
    | some g =>
      rw [hname] at hf
      obtain ⟨g', hg', hs⟩ := Option.map_eq_some_iff.mp hf.symm
      rw [hg']
      simp only [hs, ih hrest]

theorem decodeRecord_congr (h : ∀ f ∈ fields,
    (decode f.1).map (fun g => g f.2.1) = (decode' f.1).map fun g => g f.2.1) :
    decodeRecord decode fields = decodeRecord decode' fields := by
  rw [decodeRecord, decodeRecord, decodeFields_congr h]

end Fields

namespace SectionSpec
variable {spec : SectionSpec} {inner : List Field} {s s' : Section}

theorem SameValues.refl (s : Section) : spec.SameValues inner s s := fun _ _ _ _ => rfl

theorem SameValues.presentValues?_eq (h : spec.SameValues inner s s') {f : Field}
    (hf : f ∈ inner) : presentValues? spec s f.1 = presentValues? spec s' f.1 := by
  rw [presentValues?, presentValues?]
  cases ho : spec.find? f.1 with
  | none => rfl
  | some o => simp only [Option.bind_some, h f hf o ho]

theorem SameValues.sectionAs_eq (h : spec.SameValues inner s s') (strict : Bool) :
    sectionAs strict spec s (.record inner) = sectionAs strict spec s' (.record inner) := by
  have hrecord : decodeRecord (fun name =>
      (presentValues? spec s name).map fun p => valuesAs p.1 p.2) inner =
        decodeRecord (fun name =>
          (presentValues? spec s' name).map fun p => valuesAs p.1 p.2) inner :=
    decodeRecord_congr fun f hf => by rw [h.presentValues?_eq hf]
  simp only [sectionAs, sectionAsRecord, hrecord]

theorem SameValues.sectionsAs_eq {sections sections' : List Section}
    (h : List.Forall₂ (spec.SameValues inner) sections sections') {shape : Shape}
    (hshape : shape.OfRecord inner) (strict : Bool) :
    sectionsAs strict spec sections shape = sectionsAs strict spec sections' shape := by
  have hone : sectionsAs strict spec sections (.record inner) =
      sectionsAs strict spec sections' (.record inner) := by
    rw [sectionsAs, sectionsAs]
    cases h with
    | nil => rfl
    | cons hs hrest =>
      cases hrest with
      | nil => exact hs.sectionAs_eq strict
      | cons _ hmore => simp only [onlySection, List.length_cons, hmore.length_eq]
  cases hshape with
  | one => exact hone
  | optional =>
    have hempty : sections.isEmpty = sections'.isEmpty := by
      rw [Bool.eq_iff_iff, List.isEmpty_iff_length_eq_zero, List.isEmpty_iff_length_eq_zero,
        h.length_eq]
    rw [sectionsAs, sectionsAs, hempty, hone]
  | list =>
    exact congrArg (Except.map Decoded.seq)
      (mapAll_congr (h.imp fun _ _ hs => hs.sectionAs_eq strict))

end SectionSpec

/-- Changes to a list of named things: two neighbours with different names change places, something
with a name that nothing reads comes in, or something is replaced by what is like it. -/
inductive Varies {α : Type} (name : α → String) (Unread : String → Prop)
    (Alike : α → α → Prop) : List α → List α → Prop
  | swap (before after : List α) {a b : α} : sameName (name a) (name b) = false →
      Varies name Unread Alike (before ++ a :: b :: after) (before ++ b :: a :: after)
  | add (before after : List α) {a : α} : Unread (name a) →
      Varies name Unread Alike (before ++ after) (before ++ a :: after)
  | replace (before after : List α) {a b : α} : Alike a b →
      Varies name Unread Alike (before ++ a :: after) (before ++ b :: after)

/-- Under a name that is read, a change leaves as many things in the same order. -/
theorem Varies.forall₂_filter {α : Type} {name : α → String} {Unread : String → Prop}
    {Alike R : α → α → Prop} {l l' : List α} (h : Varies name Unread Alike l l') {n : String}
    (refl : ∀ a, R a a) (hread : ∀ m, Unread m → sameName m n = false)
    (halike : ∀ a b, Alike a b → sameName (name a) (name b) = true ∧
      (sameName (name a) n = true → R a b)) :
    List.Forall₂ R (l.filter fun a => sameName (name a) n)
      (l'.filter fun a => sameName (name a) n) := by
  have hsame : ∀ all : List α, List.Forall₂ R all all :=
    fun all => List.forall₂_same.mpr fun a _ => refl a
  cases h with
  | @swap before after a b hne =>
    -- at most one of the two has the name, so that what has it keeps its order
    have hfilter : ((before ++ a :: b :: after).filter fun a => sameName (name a) n) =
        (before ++ b :: a :: after).filter fun a => sameName (name a) n := by
      simp only [List.filter_append, List.filter_cons]
      cases ha : sameName (name a) n with
      | false => rfl
      | true =>
        rw [sameName_comm, sameName_congr ha] at hne
        simp only [hne, Bool.false_eq_true, if_false, if_true]
    rw [hfilter]
    exact hsame _
  | @add before after a hunread =>
    simp only [List.filter_append, List.filter_cons, hread _ hunread]
    exact hsame _
  | @replace before after a b hab =>
    obtain ⟨hname, hR⟩ := halike a b hab
    have hb : sameName (name b) n = sameName (name a) n := by
      rw [sameName_comm, ← sameName_congr hname, sameName_comm]
    simp only [List.filter_append, List.filter_cons, hb]
    refine List.rel_append (hsame _) ?_
    split
    · rename_i hn
      exact .cons (hR hn) (hsame _)
    · exact hsame _

def Entry.Respells (e e' : Entry) : Prop := sameName e.name e'.name = true ∧ e.value = e'.value

namespace FileSpec
variable {spec : FileSpec} {fields : List Field} {d d' : Document}

/-- A name that no field of a section stands for. -/
def UnreadOption (spec : FileSpec) (fields : List Field) (sectionName n : String) : Prop :=
  ∀ f ∈ fields, sameName sectionName f.1 = true → ∀ inner, f.2.1.OfRecord inner →
    ∀ options, spec.get? f.1 = some options → ∀ g ∈ inner, ∀ o, options.find? g.1 = some o →
      sameName n o.name = false

def UnreadSection (fields : List Field) (n : String) : Prop :=
  ∀ f ∈ fields, sameName n f.1 = false

/-- A section in another spelling, or with a change to its options. -/
def Rewords (spec : FileSpec) (fields : List Field) (s s' : Section) : Prop :=
  sameName s.name s'.name = true ∧ (s.entries = s'.entries ∨
    Varies Entry.name (spec.UnreadOption fields s.name) Entry.Respells s.entries s'.entries)

/-- One change to a document that its fields do not show. -/
def Immaterial (spec : FileSpec) (fields : List Field) (d d' : Document) : Prop :=
  d.sections = d'.sections ∨
    Varies Section.name (UnreadSection fields) (spec.Rewords fields) d.sections d'.sections

theorem Rewords.sameValues {s s' : Section} (h : spec.Rewords fields s s') {f : Field}
    (hf : f ∈ fields) (hname : sameName s.name f.1 = true) {inner : List Field}
    (hinner : f.2.1.OfRecord inner) {options : SectionSpec}
    (hoptions : spec.get? f.1 = some options) : options.SameValues inner s s' := by
  intro g hg o ho
  rcases h.2 with hentries | hvaries
  · rw [Section.values, Section.values, hentries]
  · have hfilter := hvaries.forall₂_filter (R := fun e e' : Entry => e.value = e'.value)
      (n := o.name) (fun _ => rfl)
      (fun m hm => hm f hf hname inner hinner options hoptions g hg o ho)
      fun _ _ hrespells => ⟨hrespells.1, fun _ => hrespells.2⟩
    exact map_eq_map_iff_forall₂.mpr hfilter

theorem Immaterial.sameValues (h : spec.Immaterial fields d d') :
    spec.SameValues fields d d' := by
  intro f hf inner hinner options hoptions
  rcases h with hsections | hvaries
  · rw [Document.sectionsNamed, Document.sectionsNamed, hsections]
    exact List.forall₂_same.mpr fun s _ => .refl s
  · refine hvaries.forall₂_filter (fun s => .refl s) (fun m hm => hm f hf) ?_
    exact fun s s' hwords => ⟨hwords.1, fun hname => hwords.sameValues hf hname hinner hoptions⟩

/-- Decoding into a record of records sees nothing but the values of its own options, section by
section. No run of changes that its fields do not show makes a difference, whether they are made or
taken back. -/
theorem decode_of_sameValues (typed : ∀ f ∈ fields, ∃ inner, f.2.1.OfRecord inner)
    (strict : Bool) :
    (∀ d d', spec.SameValues fields d d' →
      spec.decode strict d (.record fields) = spec.decode strict d' (.record fields)) ∧
    ∀ d d', Relation.EqvGen (spec.Immaterial fields) d d' →
      spec.decode strict d (.record fields) = spec.decode strict d' (.record fields) := by
  have hsame : ∀ d d', spec.SameValues fields d d' →
      spec.decode strict d (.record fields) = spec.decode strict d' (.record fields) := by
    intro d d' h
    suffices hrecord : documentAsRecord strict spec d fields =
        documentAsRecord strict spec d' fields by
      rw [decode_eq, decode_eq, documentAs, documentAs, hrecord]
    rw [documentAsRecord, documentAsRecord]
    cases hspecs : specsFor spec (fields.map Prod.fst) with
    | error e => rfl
    | ok specs =>
      have hknown : ∀ f ∈ fields, ∃ options, spec.get? f.1 = some options := by
        intro f hf
        obtain ⟨p, -, -, hoptions⟩ :=
          exists_of_mem_forall₂ (specsFor_eq_ok_iff.mp hspecs).flip (List.mem_map_of_mem hf)
        exact ⟨p.2, hoptions⟩
      obtain ⟨specs', hspecs', hlookup⟩ := specsFor_eq_ok hknown
      cases hspecs.symm.trans hspecs'
      refine decodeRecord_congr fun f hf => ?_
      obtain ⟨inner, hinner⟩ := typed f hf
      obtain ⟨options, hoptions⟩ := hknown f hf
      have hsections := h f hf inner hinner options hoptions
      have hhas : d.has f.1 = d'.has f.1 := by
        rw [has_eq, has_eq, Bool.eq_iff_iff, Bool.not_eq_true', Bool.not_eq_true',
          List.isEmpty_eq_false_iff, List.isEmpty_eq_false_iff, ← List.length_pos_iff,
          ← List.length_pos_iff, hsections.length_eq]
      rw [hhas, hlookup f hf, hoptions]
      split
      · exact congrArg some (SectionSpec.SameValues.sectionsAs_eq hsections hinner strict)
      · rfl
  refine ⟨hsame, fun d d' h => ?_⟩
  induction h with
  | rel _ _ h => exact hsame _ _ h.sameValues
  | refl _ => rfl
  | symm _ _ _ ih => exact ih.symm
  | trans _ _ _ _ _ ih ih' => exact ih.trans ih'

end FileSpec

section Sample
open Records

theorem ofRecord_appFields : ∀ f ∈ appFields, ∃ inner, f.2.1.OfRecord inner := by
  rw [appFields, List.forall_mem_cons, List.forall_mem_singleton]
  exact ⟨⟨globalFields, .one⟩, ⟨_, .list⟩⟩

def tidyApp : Document :=
  ⟨"app.unit", [⟨"Global", [⟨"Workers", "0"⟩, ⟨"Mode", "slow"⟩]⟩,
    ⟨"LogFile", [⟨"Path", "/var/log/app"⟩, ⟨"Fields", "time"⟩, ⟨"Fields", "host"⟩]⟩]⟩

/-- The same in other spellings and in another order, with a section and an option of its own. -/
def mixedApp : Document :=
  ⟨"app.unit", [⟨"logfile", [⟨"FIELDS", "time"⟩, ⟨"path", "/var/log/app"⟩, ⟨"Colour", "red"⟩,
      ⟨"fields", "host"⟩]⟩,
    ⟨"Other", [⟨"Path", "/"⟩]⟩, ⟨"GLOBAL", [⟨"mode", "slow"⟩, ⟨"WORKERS", "0"⟩]⟩]⟩

theorem sameValues_mixedApp : sampleAppSpec.SameValues appFields tidyApp mixedApp := by
  rw [FileSpec.SameValues, appFields, List.forall_mem_cons, List.forall_mem_singleton]
  refine ⟨fun inner hinner options hoptions => ?_, fun inner hinner options hoptions => ?_⟩
  · cases hinner
    obtain rfl : sampleGlobalOptions = options := Option.some.inj hoptions
    decide +kernel
  · cases hinner
    obtain rfl : sampleLogFileOptions = options := Option.some.inj hoptions
    decide +kernel

theorem immaterial_turned :
    sampleAppSpec.Immaterial appFields tidyApp ⟨"app.unit", tidyApp.sections.reverse⟩ :=
  .inr (.swap [] [] (by decide +kernel))

theorem decode_of_sameValues_mixedApp :
    sampleAppSpec.SameValues appFields tidyApp mixedApp ∧
      sampleAppSpec.decode true tidyApp (.record appFields) =
        sampleAppSpec.decode true mixedApp (.record appFields) ∧
      sampleAppSpec.decode true tidyApp (.record appFields) =
        sampleAppSpec.decode true ⟨"app.unit", tidyApp.sections.reverse⟩ (.record appFields) := by
  obtain ⟨hvalues, hchanges⟩ :=
    @FileSpec.decode_of_sameValues sampleAppSpec appFields ofRecord_appFields true
  exact ⟨sameValues_mixedApp, hvalues tidyApp mixedApp sameValues_mixedApp,
    hchanges tidyApp _ (.rel _ _ immaterial_turned)⟩

end Sample
end UnitFiles

import UnitFiles.Proofs.Tightening
import UnitFiles.Records

/-! Strict mode beside lenient mode. The mode is handed down from a document to the sections of a
name and to each of them, and a section asks for it in two places: where a field has no spec, and
where the fields are not known. What is refused there comes out again with its root unchanged, and
all else is the same in both modes. -/
namespace UnitFiles

/-- A function that hands on the refusal of a field. It may fail for reasons of its own, and may
make what it likes of every other failure. -/
def Forwards (adapt : Except Error Decoded → Except Error Decoded) : Prop :=
  ∀ e : Error, e.IsStray → ∃ e', adapt (.error e) = .error e' ∧ e'.IsStray

theorem forwards_bind (refine : Decoded → Except Error Decoded) :
    Forwards fun r => r.bind refine := fun e he => ⟨e, rfl, he⟩

theorem Tightens.adapt {adapt : Except Error Decoded → Except Error Decoded}
    (hadapt : Forwards adapt) {strict lenient : Except Error Decoded}
    (h : Tightens strict lenient) : Tightens (adapt strict) (adapt lenient) := by
  rcases h with rfl | ⟨e, rfl, he⟩
  · exact .refl _
  · obtain ⟨e', heq, he'⟩ := hadapt e he
    exact heq ▸ .stray he' _

namespace Shape

/-- The functions that a shape puts around a section hand on its refusal. The options of the section
do not know of the mode, so that any function may stand around them. -/
def ForwardsSection : Shape → Prop
  | option s => s.ForwardsSection
  | newtype s => s.ForwardsSection
  | adapted s adapt => s.ForwardsSection ∧ Forwards adapt
  | _ => True

def ForwardsSections : Shape → Prop
  | option s => s.ForwardsSections
  | adapted s adapt => s.ForwardsSections ∧ Forwards adapt
  | newtype s => s.ForwardsSection
  | seq s => s.ForwardsSection
  | tuple items => ∀ s ∈ items, s.ForwardsSection
  | tupleStruct items => ∀ s ∈ items, s.ForwardsSection
  | _ => True

def ForwardsDocument : Shape → Prop
  | option s => s.ForwardsDocument
  | newtype s => s.ForwardsDocument
  | adapted s adapt => s.ForwardsDocument ∧ Forwards adapt
  | record fields => ∀ f ∈ fields, f.2.1.ForwardsSections
  | map s => s.ForwardsSections
  | flat lead _ tail => ∀ f ∈ lead ++ tail, f.2.1.ForwardsSections
  | _ => True

mutual

def isPlain : Shape → Bool
  | option s => s.isPlain
  | newtype s => s.isPlain
  | seq s => s.isPlain
  | map s => s.isPlain
  | tuple items => arePlain items
  | tupleStruct items => arePlain items
  | record fields => havePlain fields
  | flat lead parts tail => havePlain lead && partsPlain parts && havePlain tail
  | adapted _ _ => false
  | _ => true

def arePlain : List Shape → Bool
  | [] => true
  | s :: rest => s.isPlain && arePlain rest

def havePlain : List (String × Shape × Missing) → Bool
  | [] => true
  | (_, s, _) :: rest => s.isPlain && havePlain rest

def partsPlain : List (Part Shape) → Bool
  | [] => true
  | .record fields :: rest => havePlain fields && partsPlain rest
  | .map s :: rest => s.isPlain && partsPlain rest

end

theorem arePlain_iff {items : List Shape} :
    arePlain items = true ↔ ∀ s ∈ items, s.isPlain = true := by
  induction items with
  | nil => simp [arePlain]
  | cons s rest ih => rw [arePlain, Bool.and_eq_true, ih, List.forall_mem_cons]

theorem havePlain_iff {fields : List Field} :
    havePlain fields = true ↔ ∀ f ∈ fields, f.2.1.isPlain = true := by
  induction fields with
  | nil => simp [havePlain]
  | cons f rest ih => rw [havePlain, Bool.and_eq_true, ih, List.forall_mem_cons]

theorem forwardsSection_of_isPlain {s : Shape} (h : s.isPlain = true) : s.ForwardsSection := by
  cases s with
  | option s => exact forwardsSection_of_isPlain (s := s) h
  | newtype s => exact forwardsSection_of_isPlain (s := s) h
  | adapted s adapt => cases h
  | _ => exact trivial

theorem forwardsSections_of_isPlain {s : Shape} (h : s.isPlain = true) : s.ForwardsSections := by
  cases s with
  | option s => exact forwardsSections_of_isPlain (s := s) h
  | adapted s adapt => cases h
  | newtype s => exact forwardsSection_of_isPlain (s := s) h
  | seq s => exact forwardsSection_of_isPlain (s := s) h
  | tuple items => exact fun s hs => forwardsSection_of_isPlain (arePlain_iff.mp h s hs)
  | tupleStruct items => exact fun s hs => forwardsSection_of_isPlain (arePlain_iff.mp h s hs)
  | _ => exact trivial

/-- A shape without functions of its own has nothing that could keep a refusal back. -/
theorem forwardsDocument_of_isPlain {s : Shape} (h : s.isPlain = true) : s.ForwardsDocument := by
  cases s with
  | option s => exact forwardsDocument_of_isPlain (s := s) h
  | newtype s => exact forwardsDocument_of_isPlain (s := s) h
  | adapted s adapt => cases h
  | record fields => exact fun f hf => forwardsSections_of_isPlain (havePlain_iff.mp h f hf)
  | map s => exact forwardsSections_of_isPlain (s := s) h
  | flat lead parts tail =>
    obtain ⟨⟨hlead, -⟩, htail⟩ : (havePlain lead = true ∧ partsPlain parts = true) ∧
      havePlain tail = true := by simpa [isPlain] using h
    exact List.forall_mem_append.mpr
      ⟨fun f hf => forwardsSections_of_isPlain (havePlain_iff.mp hlead f hf),
        fun f hf => forwardsSections_of_isPlain (havePlain_iff.mp htail f hf)⟩
  | _ => exact trivial

end Shape

section Sections
variable (spec : SectionSpec)

theorem isStray_map (sec : Section) : Error.IsStray (.context sec.name (.unknownField "*")) :=
  ⟨"*", rfl⟩

theorem sectionAsMap_tightens (sec : Section) (s : Shape) :
    Tightens (sectionAsMap true spec sec s) (sectionAsMap false spec sec s) :=
  .stray (isStray_map sec) _

theorem wholeSection_tightens (sec : Section) :
    Tightens (wholeSection true spec sec) (wholeSection false spec sec) :=
  .stray (isStray_map sec) _

theorem sectionAsRecord_tightens (sec : Section) (fields : List Field) :
    Tightens (sectionAsRecord true spec sec fields) (sectionAsRecord false spec sec fields) := by
  cases hstray : firstStray? spec fields with
  | none =>
    rw [sectionAsRecord.eq_def, hstray, sectionAsRecord.eq_def]
    exact .refl _
  | some name =>
    rw [sectionAsRecord.eq_def, hstray]
    exact .stray ⟨name, rfl⟩ _

theorem sectionAs_tightens (sec : Section) {s : Shape} (h : s.ForwardsSection) :
    Tightens (sectionAs true spec sec s) (sectionAs false spec sec s) := by
  cases s with
  | option s => exact (sectionAs_tightens sec (s := s) h).map Decoded.present
  | newtype s => exact (sectionAs_tightens sec (s := s) h).map Decoded.newtype
  | adapted s adapt => exact (sectionAs_tightens sec h.1).adapt h.2
  | ignored => exact .refl _
  | raw => exact .refl _
  | record fields => exact sectionAsRecord_tightens spec sec fields
  | _ => exact sectionAsMap_tightens spec sec _

theorem onlySection_tightens (sections : List Section) {s : Shape} (h : s.ForwardsSection) :
    Tightens (onlySection sections >>= fun sec => sectionAs true spec sec s)
      (onlySection sections >>= fun sec => sectionAs false spec sec s) := by
  cases onlySection sections with
  | error e => exact .refl _
  | ok sec => exact sectionAs_tightens spec sec h

theorem sectionsAsItems_tightens {shapes : List Shape} (h : ∀ s ∈ shapes, s.ForwardsSection)
    (sections : List Section) (whole : String) :
    Tightens (sectionsAsItems true spec shapes sections whole)
      (sectionsAsItems false spec shapes sections whole) := by
  refine .decodeItems ?_ whole 0 sections
  rw [List.forall₂_map_left_iff, List.forall₂_map_right_iff, List.forall₂_same]
  exact fun s hs sec => sectionAs_tightens spec sec (h s hs)

theorem mapAll_sections_tightens {α : Type} {f g : Section → Except Error α}
    (h : ∀ sec, Tightens (f sec) (g sec)) (sections : List Section) :
    Tightens (mapAll f sections) (mapAll g sections) :=
  .mapAll (List.forall₂_same.mpr fun sec _ => h sec)

theorem sectionsAsSeq_tightens (sections : List Section) {s : Shape} (h : s.ForwardsSections) :
    Tightens (sectionsAsSeq true spec sections s) (sectionsAsSeq false spec sections s) := by
  cases s with
  | seq s =>
    have hitems : ∀ sec, Tightens (sectionAs true spec sec s) (sectionAs false spec sec s) :=
      fun sec => sectionAs_tightens spec sec h
    exact (mapAll_sections_tightens hitems sections).map Decoded.seq
  | any => exact (mapAll_sections_tightens (wholeSection_tightens spec) sections).map _
  | tuple shapes => exact (sectionsAsItems_tightens spec h sections _).map Decoded.tuple
  | tupleStruct shapes => exact (sectionsAsItems_tightens spec h sections _).map Decoded.tuple
  | _ => exact .refl _

theorem wholeSections_tightens (sections : List Section) :
    Tightens (wholeSections true spec sections) (wholeSections false spec sections) := by
  have hall := (mapAll_sections_tightens (wholeSection_tightens spec) sections).map Decoded.seq
  rcases sections with _ | ⟨sec, _ | ⟨other, rest⟩⟩
  · exact hall
  · exact wholeSection_tightens spec sec
  · exact hall

theorem sectionsAs_tightens (sections : List Section) {s : Shape} (h : s.ForwardsSections) :
    Tightens (sectionsAs true spec sections s) (sectionsAs false spec sections s) := by
  cases s with
  | option s =>
    rw [sectionsAs, sectionsAs]
    split
    · exact .refl _
    · exact (sectionsAs_tightens sections (s := s) h).map Decoded.present
  | adapted s adapt => exact (sectionsAs_tightens sections h.1).adapt h.2
  | record fields => exact onlySection_tightens spec sections trivial
  | map s => exact onlySection_tightens spec sections trivial
  | flat lead parts tail => exact onlySection_tightens spec sections trivial
  | newtype s => exact onlySection_tightens spec sections h
  | raw => exact onlySection_tightens spec sections trivial
  | seq s => exact sectionsAsSeq_tightens spec sections h
  | tuple items => exact sectionsAsSeq_tightens spec sections h
  | _ =>
    -- what is left reads one section as a map and several as a sequence
    rcases sections with _ | ⟨sec, _ | ⟨other, rest⟩⟩
    · exact sectionsAsSeq_tightens spec [] h
    · exact sectionAsMap_tightens spec sec _
    · exact sectionsAsSeq_tightens spec (sec :: other :: rest) h

end Sections

section Documents
variable (spec : FileSpec) (d : Document)

theorem documentAsRecord_tightens {fields : List Field}
    (h : ∀ f ∈ fields, ∀ options sections, Tightens (sectionsAs true options sections f.2.1)
      (sectionsAs false options sections f.2.1)) :
    Tightens (documentAsRecord true spec d fields) (documentAsRecord false spec d fields) := by
  rw [documentAsRecord, documentAsRecord]
  cases specsFor spec (fields.map Prod.fst) with
  | error e => exact .refl _
  | ok specs =>
    refine decodeRecord_tightens fun f hf => ?_
    split
    · cases specs.lookup f.1 with
      | none => exact .none
      | some options => exact .some (h f hf options _)
    · exact .none

theorem slots_beside (specs : List (String × SectionSpec)) :
    List.Forall₂ (Slot.Beside Shape.ForwardsSections) (d.slots true specs)
      (d.slots false specs) := by
  rw [Document.slots, Document.slots, List.forall₂_map_left_iff, List.forall₂_map_right_iff,
    List.forall₂_same]
  exact fun p _ => ⟨rfl, wholeSections_tightens p.2 _, fun s hs => sectionsAs_tightens p.2 _ hs⟩

theorem documentAsMap_tightens {s : Shape} (h : s.ForwardsDocument) :
    Tightens (documentAsMap true spec d s) (documentAsMap false spec d s) := by
  rw [documentAsMap, documentAsMap]
  cases specsFor spec d.names with
  | error e => exact .refl _
  | ok specs =>
    have hslots := slots_beside d specs
    cases s with
    | any => exact (wholeMap_tightens hslots).map _
    | ignored => exact (decodeMap_tightens hslots (s := .ignored) trivial).map _
    | map s => exact decodeMap_tightens hslots h
    | flat lead parts tail => exact decodeFlat_tightens hslots h parts
    | _ => exact .refl _

theorem decodeSpelledOut_tightens :
    Tightens (decodeSpelledOut true spec d) (decodeSpelledOut false spec d) := by
  refine (documentAsRecord_tightens spec d fun f hf options sections => ?_).map _
  apply sectionsAs_tightens
  rcases List.mem_pair.mp hf with rfl | rfl
  · exact trivial
  · exact trivial

theorem documentAs_tightens {s : Shape} (h : s.ForwardsDocument) :
    Tightens (documentAs true spec d s) (documentAs false spec d s) := by
  cases s with
  | option s => exact (documentAs_tightens (s := s) h).map Decoded.present
  | newtype s => exact (documentAs_tightens (s := s) h).map Decoded.newtype
  | adapted s adapt => exact (documentAs_tightens h.1).adapt h.2
  | record fields =>
    exact documentAsRecord_tightens spec d fun f hf options sections =>
      sectionsAs_tightens options sections (h f hf)
  | raw => exact decodeSpelledOut_tightens spec d
  | _ => exact documentAsMap_tightens spec d h

theorem decode_tightens {s : Shape} (h : s.ForwardsDocument) :
    Tightens (spec.decode true d s) (spec.decode false d s) :=
  (documentAs_tightens spec d h).asMissingSection

end Documents

/-- Strict mode gives what lenient mode gives, or refuses a field: for documents, for single
sections and for all sections of a name. What it accepts is the same in both modes. The conditions
are on the functions of a shape only, and a shape without any needs none. -/
theorem strict_tightens_lenient (s : Shape) :
    (s.ForwardsDocument → ∀ (spec : FileSpec) (d : Document),
      Tightens (spec.decode true d s) (spec.decode false d s) ∧
        ∀ v, spec.decode true d s = .ok v → spec.decode false d s = .ok v) ∧
    (s.ForwardsSection → ∀ (spec : SectionSpec) (sec : Section),
      Tightens (sectionAs true spec sec s) (sectionAs false spec sec s) ∧
        ∀ v, sectionAs true spec sec s = .ok v → sectionAs false spec sec s = .ok v) ∧
    (s.ForwardsSections → ∀ (spec : SectionSpec) (sections : List Section),
      Tightens (sectionsAs true spec sections s) (sectionsAs false spec sections s) ∧
        ∀ v, sectionsAs true spec sections s = .ok v →
          sectionsAs false spec sections s = .ok v) ∧
    (s.isPlain = true →
      (∀ (spec : FileSpec) (d : Document),
        Tightens (spec.decode true d s) (spec.decode false d s)) ∧
      ∀ spec : SectionSpec,
        (∀ sec, Tightens (sectionAs true spec sec s) (sectionAs false spec sec s)) ∧
          ∀ sections, Tightens (sectionsAs true spec sections s)
            (sectionsAs false spec sections s)) := by
  refine ⟨fun h spec d => ?_, fun h spec sec => ?_, fun h spec sections => ?_,
    fun h => ⟨fun spec d => ?_, fun spec => ⟨fun sec => ?_, fun sections => ?_⟩⟩⟩
  · have hdecode := decode_tightens spec d h
    exact ⟨hdecode, fun v => hdecode.ok⟩
  · have hdecode := sectionAs_tightens spec sec h
    exact ⟨hdecode, fun v => hdecode.ok⟩
  · have hdecode := sectionsAs_tightens spec sections h
    exact ⟨hdecode, fun v => hdecode.ok⟩
  · exact decode_tightens spec d (Shape.forwardsDocument_of_isPlain h)
  · exact sectionAs_tightens spec sec (Shape.forwardsSection_of_isPlain h)
  · exact sectionsAs_tightens spec sections (Shape.forwardsSections_of_isPlain h)

section Records
open Records

/-- A section without a spec for its fields: strict mode refuses the first of them. The record of
two parts has no functions. -/
theorem strict_tightens_lenient_note :
    note.ForwardsDocument ∧ note.ForwardsSection ∧ note.ForwardsSections ∧
      sectionAs true ⟨[]⟩ ⟨"Note", []⟩ note = .error (.unknownField "Fail") ∧
      sectionAs false ⟨[]⟩ ⟨"Note", []⟩ note =
        .ok (.record [("Fail", .text ""), ("Level", .int 0)]) ∧
      Tightens (FileSpec.empty.decode true ⟨"a.unit", []⟩ note)
        (FileSpec.empty.decode false ⟨"a.unit", []⟩ note) ∧
      Tightens (sectionAs true ⟨[]⟩ ⟨"Note", []⟩ note)
        (sectionAs false ⟨[]⟩ ⟨"Note", []⟩ note) ∧
      Tightens (sectionsAs true ⟨[]⟩ [⟨"Note", []⟩] note)
        (sectionsAs false ⟨[]⟩ [⟨"Note", []⟩] note) ∧
      combined.isPlain = true ∧
      Tightens (FileSpec.empty.decode true ⟨"a.unit", []⟩ combined)
        (FileSpec.empty.decode false ⟨"a.unit", []⟩ combined) := by
  have hdocument : note.ForwardsDocument := by
    intro f hf
    rcases List.mem_pair.mp hf with rfl | rfl
    · exact ⟨trivial, forwards_bind _⟩
    · exact trivial
  have hsection : note.ForwardsSection := trivial
  have hsections : note.ForwardsSections := trivial
  obtain ⟨hdecode, hone, hall, -⟩ := strict_tightens_lenient note
  obtain ⟨-, -, -, hplain⟩ := strict_tightens_lenient combined
  exact ⟨hdocument, hsection, hsections, rfl, rfl, (hdecode hdocument _ _).1,
    (hone hsection _ _).1, (hall hsections _ _).1, rfl, (hplain rfl).1 _ _⟩

theorem isStray_replaceCause {remembered e : Error} (h : e.IsStray) :
    (replaceCause remembered e).IsStray := by
  induction e with
  | context place cause ih => exact ih h
  | message text =>
    obtain ⟨name, hname⟩ := h
    cases hname
  | _ => exact h

/-- A record that passes over a failure does so where there is nothing to be refused: the mounts are
handed over as text, and decoded without regard to the mode. -/
theorem mountCount_tightens (spec : SectionSpec) (sections : List Section) :
    Tightens (sectionsAs true spec sections mountCount)
      (sectionsAs false spec sections mountCount) :=
  .refl _

theorem RecordKind.forwardsDocument_shape {k : RecordKind} (h : k ≠ lenient) :
    k.shape.ForwardsDocument := by
  have hhook : ∀ decode, (Shape.hook decode).ForwardsSection := fun decode =>
    ⟨trivial, forwards_bind _⟩
  cases k with
  | lenient => exact absurd rfl h
  | mounts | plugin => exact List.forall_mem_singleton.mpr (hhook _)
  | oneMount | onePlugin =>
    exact List.forall_mem_singleton.mpr ⟨trivial, forwards_bind _⟩
  | appConfig | flat | nested | split | timers =>
    simp [shape, Shape.ForwardsDocument, Shape.ForwardsSections, appFields, Records.nested,
      Records.split, needed, orNone, orEmptyList, combined, logFile, timer, Shape.ForwardsSection]

theorem RecordKind.documentAs_tightens (k : RecordKind) (spec : FileSpec) (d : Document) :
    Tightens (documentAs true spec d k.shape) (documentAs false spec d k.shape) := by
  by_cases hlenient : k = lenient
  · -- its count of mounts swallows every failure, so that the general lemma does not apply
    subst hlenient
    refine documentAsRecord_tightens spec d fun f hf options sections => ?_
    rcases List.mem_pair.mp hf with rfl | rfl
    · exact mountCount_tightens options sections
    · exact sectionsAs_tightens options sections trivial
  · exact UnitFiles.documentAs_tightens spec d (forwardsDocument_shape hlenient)

theorem RecordKind.decode_tightens (k : RecordKind) (spec : FileSpec) (d : Document) :
    Tightens (k.decode spec true d) (k.decode spec false d) := by
  have hdocument := k.documentAs_tightens spec d
  apply Tightens.asMissingSection
  cases k.passedOver? spec d with
  | none => exact hdocument
  | some e => exact hdocument.mapError fun e he => isStray_replaceCause he

end Records
end UnitFiles

import UnitFiles.Proofs.MergeOutcome
import UnitFiles.Proofs.Precedence
import UnitFiles.Proofs.SectionMerging
import UnitFiles.Proofs.Variables

/-! How far a variable reaches. The sections that the environment makes up are merged by name, as
those of a drop-in are, so that a variable reaches the only section of its name whatever index it
spells, and no other section. -/
namespace UnitFiles
open Text

/-- The section at a position is the one of a name that has an index, counted from 0. -/
def Document.IsNth (d : Document) (name : String) (index position : Nat) : Prop :=
  (d.sections.take position).countP (fun s => sameName s.name name) = index ∧
    (d.sections[position]?.any fun s => sameName s.name name) = true

instance (d : Document) (name : String) (index position : Nat) :
    Decidable (d.IsNth name index position) := inferInstanceAs (Decidable (_ ∧ _))

namespace Document
variable {d e : Document} {name : String} {index position : Nat}

theorem isNth_iff : d.IsNth name index position ↔
    ((d.sections.map Section.name).take position).countP (fun n => sameName n name) = index ∧
      ((d.sections.map Section.name)[position]?.any fun n => sameName n name) = true := by
  rw [IsNth, ← List.map_take, List.countP_map, List.getElem?_map, Option.any_map]
  rfl

theorem isNth_congr (h : d.sections.map Section.name = e.sections.map Section.name) :
    d.IsNth name index position ↔ e.IsNth name index position := by
  rw [isNth_iff, isNth_iff, h]

theorem isNth_of_unique {s : Section} (h : d.sectionsNamed name = [s])
    (hs : d.sections[position]? = some s) : d.IsNth name 0 position := by
  have hmem : s ∈ d.sectionsNamed name := h ▸ List.mem_singleton_self s
  have hname : sameName s.name name = true := (Section.mem_called.mp hmem).2
  refine ⟨?_, by rw [hs]; exact hname⟩
  have hcount : d.sections.countP (fun s => sameName s.name name) = 1 := by
    rw [List.countP_eq_length_filter]
    exact congrArg List.length h
  obtain ⟨hlt, hget⟩ := List.getElem?_eq_some_iff.mp hs
  rw [← List.take_append_drop position d.sections, List.drop_eq_getElem_cons hlt, hget,
    List.countP_append, List.countP_cons_of_pos (by exact hname)] at hcount
  omega

end Document

theorem getElem?_of_mapAll {α β : Type} {f : α → Except Error β} {l : List α} {l' : List β}
    (h : mapAll f l = .ok l') (position : Nat) :
    l'[position]? = l[position]?.bind fun a => (f a).toOption := by
  rw [mapAll_eq_ok_iff] at h
  induction h generalizing position with
  | nil => rfl
  | cons hab _ ih =>
    cases position with
    | zero => simp [hab, Except.toOption]
    | succ position => simpa using ih position

namespace FileSpec
variable {spec : FileSpec}

theorem names_validate {d d' : Document} (h : spec.validate d = .ok d') :
    d'.sections.map Section.name = d.sections.map Section.name := by
  rw [map_eq_map_iff_forall₂]
  refine (validate_eq_ok_iff.mp h).2.flip.imp ?_
  intro s' s hs
  obtain ⟨options, -, -, rfl⟩ := prepareSection_eq_ok_iff.mp hs
  rfl

theorem getElem?_validate {d d' : Document} (h : spec.validate d = .ok d') (position : Nat) :
    d'.sections[position]? =
      d.sections[position]?.bind fun s => (spec.prepareSection s).toOption := by
  obtain ⟨sections, hsections, rfl⟩ := map_eq_ok_iff.mp h
  exact getElem?_of_mapAll hsections position

theorem overlaid_eq_of_filter {laid laid' : List Section} {s : Section} {name : String}
    (h : (laid.filter fun s => !sameName s.name name) = laid'.filter fun s => !sameName s.name name)
    (hs : sameName s.name name = false) : spec.overlaid laid s = spec.overlaid laid' s := by
  have hcalled : ∀ all : List Section, Section.called s.name all =
      (all.filter fun s => !sameName s.name name).filter fun x => sameName x.name s.name := by
    intro all
    rw [Section.called, List.filter_filter]
    apply List.filter_congr
    intro x _
    by_cases hx : sameName x.name s.name = true
    · rw [hx, sameName_comm, sameName_congr hx, sameName_comm, hs]
      rfl
    · simp [hx]
  rw [overlaid, overlaid, hcalled, h, ← hcalled]

/-- Only a section that has its name for itself becomes something else under layers that differ in
sections of one name. -/
theorem unique_of_overlaid_ne {sections merged merged' laid laid' : List Section} {s : Section}
    {name : String} (hmerge : spec.mergeAll sections laid = .ok merged)
    (hmerge' : spec.mergeAll sections laid' = .ok merged')
    (h : (laid.filter fun s => !sameName s.name name) = laid'.filter fun s => !sameName s.name name)
    (hs : s ∈ sections) (hne : spec.overlaid laid s ≠ spec.overlaid laid' s) :
    Section.called name sections = [s] := by
  have hname : sameName s.name name = true := by
    by_contra hother
    exact hne (overlaid_eq_of_filter h (Bool.of_not_eq_true hother))
  by_contra hshared
  -- a section that shares its name takes in nothing from either side
  have hkeep : ∀ {laid merged}, spec.mergeAll sections laid = .ok merged →
      spec.overlaid laid s = s := by
    intro laid merged hmerge
    apply overlaid_of_not_called
    rw [Section.called, List.filter_eq_nil_iff]
    intro x hx hxs
    have htakes := exists_mergeAll_eq_ok_iff.mp ⟨merged, hmerge⟩ x hx
    obtain ⟨target, htarget⟩ := List.length_eq_one_iff.mp htakes.1
    rw [Section.called_congr hxs, Section.called_congr hname] at htarget
    have hmem : s ∈ Section.called name sections := Section.mem_called.mpr ⟨hs, hname⟩
    rw [htarget, List.mem_singleton] at hmem
    exact hshared (hmem ▸ htarget)
  exact hne ((hkeep hmerge).trans (hkeep hmerge').symm)

end FileSpec

namespace Layers

def laid (l : Layers) : List Section := l.overlays.flatMap Document.sections

theorem Replaced.base_eq {specifiers : Option Specifiers} {written written' l l' : Layers}
    (h : Replaced specifiers written l) (h' : Replaced specifiers written' l')
    (hbase : written.base = written'.base) : l.base = l'.base := by
  cases specifiers with
  | none => rw [h, h', hbase]
  | some t =>
    have hl := h.1
    rw [hbase, h'.1] at hl
    exact (Except.ok.inj hl).symm

theorem forall₂_laid {t : Specifiers} {written l : Layers} (h : Replaced (some t) written l) :
    List.Forall₂ (fun s s' => t.replaceSection s = .ok s') written.laid l.laid := by
  refine List.rel_flatMap h.2 ?_
  intro d d' hd
  obtain ⟨sections, hsections, rfl⟩ := map_eq_ok_iff.mp hd
  exact mapAll_eq_ok_iff.mp hsections

theorem Replaced.filter_laid {specifiers : Option Specifiers} {written written' l l' : Layers}
    (h : Replaced specifiers written l) (h' : Replaced specifiers written' l') (p : String → Bool)
    (hlaid : (written.laid.filter fun s => p s.name) = written'.laid.filter fun s => p s.name) :
    (l.laid.filter fun s => p s.name) = l'.laid.filter fun s => p s.name := by
  cases specifiers with
  | none => rw [h, h', hlaid]
  | some t =>
    have hfilter : ∀ {written l}, Replaced (some t) written l →
        mapAll t.replaceSection (written.laid.filter fun s => p s.name) =
          .ok (l.laid.filter fun s => p s.name) := by
      intro written l h
      rw [mapAll_eq_ok_iff]
      refine List.rel_filter (p := fun s : Section => p s.name) (q := fun s : Section => p s.name)
        ?_ (forall₂_laid h)
      intro s s' hs
      obtain ⟨entries, -, rfl⟩ := map_eq_ok_iff.mp hs
      exact Iff.rfl
    have hl := hfilter h
    rw [hlaid, hfilter h'] at hl
    exact (Except.ok.inj hl).symm

/-- Where layers differ in sections of one name only, what they make of the same unit differs in
the only section of that name. -/
theorem flatten_differ {spec : FileSpec} {l l' : Layers} {d d' : Document} {name : String}
    (h : l.flatten spec = .ok d) (h' : l'.flatten spec = .ok d') (hbase : l.base = l'.base)
    (hlaid : (l.laid.filter fun s => !sameName s.name name) =
      l'.laid.filter fun s => !sameName s.name name) :
    d'.path = d.path ∧ d'.sections.map Section.name = d.sections.map Section.name ∧
      ∀ position, d.sections[position]? ≠ d'.sections[position]? →
        d.IsNth name 0 position ∧ (d.sectionsNamed name).length = 1 := by
  obtain ⟨base, sections, hvalid, hmerge, hfinal⟩ := flatten_eq_ok_iff.mp h
  obtain ⟨base', sections', hvalid', hmerge', hfinal'⟩ := flatten_eq_ok_iff.mp h'
  rw [← hbase, hvalid] at hvalid'
  cases hvalid'
  obtain rfl : sections = base.sections.map (spec.overlaid l.laid) :=
    FileSpec.mergeAll_eq_map hmerge
  obtain rfl : sections' = base.sections.map (spec.overlaid l'.laid) :=
    FileSpec.mergeAll_eq_map hmerge'
  have hnames : d.sections.map Section.name = base.sections.map Section.name := by
    rw [FileSpec.names_validate hfinal, List.map_map]
    exact List.map_congr_left fun s _ => spec.name_overlaid l.laid s
  have hnames' : d'.sections.map Section.name = base.sections.map Section.name := by
    rw [FileSpec.names_validate hfinal', List.map_map]
    exact List.map_congr_left fun s _ => spec.name_overlaid l'.laid s
  refine ⟨?_, hnames'.trans hnames.symm, ?_⟩
  · rw [(FileSpec.validate_eq_ok_iff.mp hfinal).1, (FileSpec.validate_eq_ok_iff.mp hfinal').1]
  · intro position hne
    rw [FileSpec.getElem?_validate hfinal, FileSpec.getElem?_validate hfinal', List.getElem?_map,
      List.getElem?_map] at hne
    cases hs : base.sections[position]? with
    | none => simp [hs] at hne
    | some s =>
      have hoverlaid : spec.overlaid l.laid s ≠ spec.overlaid l'.laid s := by
        intro heq
        simp [hs, heq] at hne
      have hunique := FileSpec.unique_of_overlaid_ne hmerge hmerge' hlaid
        (List.mem_of_getElem? hs) hoverlaid
      refine ⟨(Document.isNth_congr hnames).mpr (Document.isNth_of_unique hunique hs), ?_⟩
      rw [Document.sectionsNamed_eq, FileSpec.length_called_of_names hnames, hunique]
      rfl

end Layers

namespace Sources
variable {spec : FileSpec} {a b : Sources} {d d' : Document} {name : String} {index : Nat}

/-- Whether a variable is one of those that spell an option of the section. -/
def Addresses (s : Sources) (variableName name : String) (index : Nat) : Prop :=
  ∃ lead, s.lead = some lead ∧ Environment.Addresses lead variableName name index

/-- The sources are alike, but for variables of one section. -/
structure DifferAt (name : String) (index : Nat) (a b : Sources) : Prop where
  unit : a.unit = b.unit
  dropIns : a.dropIns = b.dropIns
  lead : a.lead = b.lead
  specifiers : a.specifiers = b.specifiers
  environment : ∀ variableName, ¬a.Addresses variableName name index →
    Keyed.get? variableName (Keyed.ofList a.environment) =
      Keyed.get? variableName (Keyed.ofList b.environment)

theorem exists_read_of_environmentLayer {lead : String} {last : List Document}
    (hlead : a.lead = some lead) (h : a.environmentLayer spec = .ok last) :
    ∃ d, Environment.read lead a.environment spec = .ok d ∧
      last.flatMap Document.sections = d.sections := by
  rw [environmentLayer, hlead] at h
  obtain ⟨d, hd, rfl⟩ := map_eq_ok_iff.mp h
  refine ⟨d, hd, ?_⟩
  split
  · rename_i hempty
    exact (List.isEmpty_iff.mp hempty).symm
  · exact List.flatMap_singleton ..

theorem DifferAt.filter_environmentLayer (differ : DifferAt name index a b)
    {last last' : List Document} (h : a.environmentLayer spec = .ok last)
    (h' : b.environmentLayer spec = .ok last') :
    ((last.flatMap Document.sections).filter fun s => !sameName s.name name) =
      (last'.flatMap Document.sections).filter fun s => !sameName s.name name := by
  cases hlead : a.lead with
  | none =>
    rw [environmentLayer, hlead] at h
    rw [environmentLayer, ← differ.lead, hlead] at h'
    cases h
    cases h'
    rfl
  | some lead =>
    obtain ⟨d, hd, hsections⟩ := exists_read_of_environmentLayer hlead h
    obtain ⟨d', hd', hsections'⟩ := exists_read_of_environmentLayer (differ.lead ▸ hlead) h'
    have hget : ∀ variableName, ¬Environment.Addresses lead variableName name index →
        Keyed.get? variableName (Keyed.ofList a.environment) =
          Keyed.get? variableName (Keyed.ofList b.environment) := by
      intro variableName haddress
      apply differ.environment
      rintro ⟨lead', hlead', hspells⟩
      rw [hlead] at hlead'
      cases hlead'
      exact haddress hspells
    rw [hsections, hsections']
    exact Environment.filter_sections_read hd hd' hget

theorem DifferAt.layers (differ : DifferAt name index a b) {l l' : Layers}
    (h : a.Yields spec l) (h' : b.Yields spec l') :
    l.base = l'.base ∧ (l.laid.filter fun s => !sameName s.name name) =
      l'.laid.filter fun s => !sameName s.name name := by
  obtain ⟨unit, dropIns, last, hunit, hdropIns, hlast, hreplaced⟩ := h
  obtain ⟨unit', dropIns', last', hunit', hdropIns', hlast', hreplaced'⟩ := h'
  rw [differ.unit, hunit'] at hunit
  cases hunit
  rw [← mapAll_eq_ok_iff] at hdropIns hdropIns'
  rw [differ.dropIns, hdropIns'] at hdropIns
  cases hdropIns
  rw [← differ.specifiers] at hreplaced'
  refine ⟨hreplaced.base_eq hreplaced' rfl, ?_⟩
  refine hreplaced.filter_laid hreplaced' (fun n => !sameName n name) ?_
  simp only [Layers.laid, List.flatMap_append, List.filter_append,
    differ.filter_environmentLayer hlast hlast']

/-- Sources that differ in variables of one section make up documents that differ in the only
section of that name, whatever index the variables spell. So they keep to the section with their
index when that is the first one, and else only when they have no effect. -/
theorem resolve_index_iff (differ : DifferAt name index a b) (ha : a.resolve spec = .ok d)
    (hb : b.resolve spec = .ok d') :
    d'.sections.map Section.name = d.sections.map Section.name ∧
      (∀ position, d.sections[position]? ≠ d'.sections[position]? →
        d.IsNth name 0 position ∧ (d.sectionsNamed name).length = 1) ∧
      ((∀ position, ¬d.IsNth name index position →
        d.sections[position]? = d'.sections[position]?) ↔ index = 0 ∨ d = d') := by
  obtain ⟨l, hl, hflatten⟩ := resolve_eq_ok_iff.mp ha
  obtain ⟨l', hl', hflatten'⟩ := resolve_eq_ok_iff.mp hb
  obtain ⟨hbase, hlaid⟩ := differ.layers hl hl'
  obtain ⟨hpath, hnames, hdiffer⟩ := Layers.flatten_differ hflatten hflatten' hbase hlaid
  refine ⟨hnames, hdiffer, ?_⟩
  constructor
  · intro hkeep
    refine or_iff_not_imp_left.mpr fun hindex => ?_
    have hsections : d.sections = d'.sections := by
      apply List.ext_getElem?
      intro position
      by_contra hne
      have hfirst := (hdiffer position hne).1
      exact hne (hkeep position fun hnth => hindex (hnth.1.symm.trans hfirst.1))
    obtain ⟨path, sections⟩ := d
    obtain ⟨path', sections'⟩ := d'
    cases hpath
    cases hsections
    rfl
  · rintro (rfl | rfl) position hnth
    · by_contra hne
      exact hnth (hdiffer position hne).1
    · rfl

def indexedSpec : FileSpec :=
  .ofList [("Test", ⟨[{ name := "Name" }, { name := "Count", type := .int }]⟩)]

/-- The unit has one section `Test`, and a variable names it. -/
def firstOnly : Sources where
  unit := ⟨"web.unit", "[Test]\nName= a\n"⟩
  dropIns := []
  environment := [("WEB_TEST_NAME", "b")]
  lead := some "WEB"
  specifiers := none

/-- A further variable names a second section `Test`. -/
def firstAndSecond : Sources :=
  { firstOnly with environment := firstOnly.environment ++ [("WEB_TEST_1_COUNT", "9")] }

def namedOnly : Document := ⟨"web.unit", [⟨"Test", [⟨"Name", "b"⟩]⟩]⟩

def namedAndCounted : Document := ⟨"web.unit", [⟨"Test", [⟨"Name", "b"⟩, ⟨"Count", "9"⟩]⟩]⟩

theorem firstOnly_resolved : firstOnly.resolve indexedSpec = .ok namedOnly := by decide +kernel

theorem firstAndSecond_resolved : firstAndSecond.resolve indexedSpec = .ok namedAndCounted := by
  decide +kernel

theorem differAt_second : DifferAt "Test" 1 firstOnly firstAndSecond where
  unit := rfl
  dropIns := rfl
  lead := rfl
  specifiers := rfl
  environment := by
    intro variableName hother
    have hne : variableName ≠ "WEB_TEST_1_COUNT" := by
      rintro rfl
      exact hother ⟨"WEB", rfl, ⟨"test", 1, "COUNT"⟩, by decide +kernel, by decide +kernel, rfl⟩
    exact (Keyed.get?_put_of_ne hne "9" _).symm

/-- The variable of the second section reaches the first one, as there is no second one. -/
theorem resolve_index_second :
    (∀ position, namedOnly.sections[position]? ≠ namedAndCounted.sections[position]? →
      namedOnly.IsNth "Test" 0 position ∧ (namedOnly.sectionsNamed "Test").length = 1) ∧
    ¬∀ position, ¬namedOnly.IsNth "Test" 1 position →
      namedOnly.sections[position]? = namedAndCounted.sections[position]? := by
  obtain ⟨-, hdiffer, hiff⟩ :=
    resolve_index_iff differAt_second firstOnly_resolved firstAndSecond_resolved
  refine ⟨hdiffer, ?_⟩
  rw [hiff]
  decide

/-- Without and with a variable that spells the second section `Test`, the first one differs. -/
theorem resolve_reaches_other_index :
    DifferAt "Test" 1 firstOnly firstAndSecond ∧
      firstOnly.resolve indexedSpec = .ok namedOnly ∧
      firstAndSecond.resolve indexedSpec = .ok namedAndCounted ∧
      ¬namedOnly.IsNth "Test" 1 0 ∧
      namedOnly.sections[0]? ≠ namedAndCounted.sections[0]? :=
  ⟨differAt_second, firstOnly_resolved, firstAndSecond_resolved, by decide +kernel, by decide⟩

end Sources
end UnitFiles

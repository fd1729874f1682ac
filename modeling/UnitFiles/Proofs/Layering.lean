import Mathlib.Data.List.Induction
import UnitFiles.Layers
import UnitFiles.Proofs.Merging

/-! What becomes of one option of one section when a unit takes in its layers: the last layer that
sets a scalar counts, and the layers that set a list add to it or clear it. -/
namespace UnitFiles
open Text

namespace Section

/-- What the sections with a name that set an option give it, one list of values for each. -/
def given (name option : String) (sections : List Section) : List (List String) :=
  ((called name sections).map fun s => s.values option).filter fun values => !values.isEmpty

theorem ne_nil_of_mem_given {name option : String} {sections : List Section}
    {values : List String} (h : values ∈ given name option sections) : values ≠ [] := by
  have := (List.mem_filter.mp h).2
  simpa using this

end Section

/-- A list after one more layer: an empty first value clears it. -/
def extendList (old : List String) : List String → List String
  | "" :: more => more
  | values => old ++ values

theorem extendList_eq_nil_iff {old values : List String} (h : values ≠ []) :
    extendList old values = [] ↔ values = [""] := by
  unfold extendList
  split
  · simp
  · rename_i hclear
    simp only [List.append_eq_nil_iff, h, and_false, false_iff]
    rintro rfl
    exact hclear [] rfl

/-- Nothing is left of a list exactly when its last layer only clears it. -/
theorem foldl_extendList_eq_nil_iff {start : List String} {layers : List (List String)}
    (h : ∀ values ∈ layers, values ≠ []) :
    layers.foldl extendList start = [] ↔
      layers.getLast? = some [""] ∨ layers = [] ∧ start = [] := by
  induction layers using List.reverseRecOn with
  | nil => simp
  | append_singleton rest values _ =>
    rw [List.foldl_append, List.foldl_cons, List.foldl_nil,
      extendList_eq_nil_iff (h values (by simp))]
    simp

namespace OptionSpec

theorem overlay_scalar {o : OptionSpec} (scalar : o.type.isList = false) (old es : List Entry) :
    o.overlay old es = if es = [] then old else es := by
  cases es <;> simp [overlay, scalar]

theorem overlay_list {o : OptionSpec} (list : o.type.isList = true) (old es : List Entry) :
    (o.overlay old es).map Entry.value = extendList (old.map Entry.value) (es.map Entry.value) := by
  cases es with
  | nil => simp [overlay, extendList]
  | cons e more =>
    rw [overlay, if_pos list, List.map_cons]
    split
    · rename_i hclear
      rw [hclear]
      rfl
    · rename_i hkeep
      unfold extendList
      split
      · rename_i hvalues
        exact absurd (List.cons.inj hvalues).1 hkeep
      · simp

theorem layered_scalar {o : OptionSpec} (scalar : o.type.isList = false) (name option : String)
    (dropIns : List Section) (old : List Entry) :
    (o.layered name option dropIns old).map Entry.value =
      ((Section.given name option dropIns).getLast?).getD (old.map Entry.value) := by
  rw [layered, Section.given]
  induction Section.called name dropIns generalizing old with
  | nil => rfl
  | cons d rest ih =>
    rw [List.foldl_cons, ih, overlay_scalar scalar, List.map_cons, List.filter_cons,
      Section.values_eq]
    by_cases hnil : Entry.named option d.entries = []
    · simp [hnil]
    · simp [hnil, List.getLast?_cons]

theorem layered_list {o : OptionSpec} (list : o.type.isList = true) (name option : String)
    (dropIns : List Section) (old : List Entry) :
    (o.layered name option dropIns old).map Entry.value =
      (Section.given name option dropIns).foldl extendList (old.map Entry.value) := by
  rw [layered, Section.given]
  induction Section.called name dropIns generalizing old with
  | nil => rfl
  | cons d rest ih =>
    rw [List.foldl_cons, ih, overlay_list list, List.map_cons, List.filter_cons, Section.values_eq]
    by_cases hnil : Entry.named option d.entries = []
    · simp [hnil, extendList]
    · simp [hnil]

/-- Layers leave nothing of what there was exactly when they set a list and the last of them only
clears it. -/
theorem layered_eq_nil_iff {name option : String} {dropIns : List Section} {old : List Entry}
    {o : OptionSpec} (hold : old ≠ []) :
    o.layered name option dropIns old = [] ↔
      o.type.isList = true ∧ (Section.given name option dropIns).getLast? = some [""] := by
  rw [← List.map_eq_nil_iff (f := Entry.value)]
  cases hlist : o.type.isList with
  | true =>
    rw [layered_list hlist,
      foldl_extendList_eq_nil_iff fun _ => Section.ne_nil_of_mem_given]
    simp [hold]
  | false =>
    rw [layered_scalar hlist]
    cases hlast : (Section.given name option dropIns).getLast? with
    | none => simp [hold]
    | some values =>
      have hset := Section.ne_nil_of_mem_given (List.mem_of_getLast? hlast)
      simp [hset]

end OptionSpec

namespace Layers

/-- What the layers over a unit give an option of a section, in increasing order of precedence.
Layers that do not mention the section or the option are left out. -/
def given (l : Layers) (name option : String) : List (List String) :=
  Section.given name option (l.overlays.flatMap Document.sections)

theorem flatten_eq_ok_iff {spec : FileSpec} {l : Layers} {d : Document} :
    l.flatten spec = .ok d ↔ ∃ base sections, spec.validate l.base = .ok base ∧
      spec.mergeAll base.sections (l.overlays.flatMap Document.sections) = .ok sections ∧
      spec.validate { base with sections := sections } = .ok d := by
  rw [flatten]
  cases hbase : spec.validate l.base with
  | error e => simp
  | ok base =>
    simp only [FileSpec.mergeDropIns]
    cases hmerge : spec.mergeAll base.sections (l.overlays.flatMap Document.sections) with
    | error e => simp [Except.map, hmerge]
    | ok sections => simp [Except.map, hmerge]

/-- A section with a name of its own in the unit, once it has taken in the layers and before the
last defaults: it is valid, and under each name the layers follow on the unit or its default. -/
theorem flatten_unique {spec : FileSpec} {l : Layers} {d : Document} (h : l.flatten spec = .ok d)
    {name : String} {u : Section} (hu : l.base.sectionsNamed name = [u]) :
    ∃ (options : SectionSpec) (merged r : Section),
      spec.get? name = some options ∧ d.sectionsNamed name = [r] ∧
      options.checkEntries merged.entries = .ok () ∧
      r.entries = options.withDefaults merged.entries ∧
      ∀ option o, options.get? option = some o → Entry.named option merged.entries =
        o.layered name option (l.overlays.flatMap Document.sections)
          (Entry.named option (options.withDefaults u.entries)) := by
  obtain ⟨base, sections, hbase, hmerge, hfinal⟩ := flatten_eq_ok_iff.mp h
  obtain ⟨options, b, hoptions, -, hb, hdefaults⟩ := FileSpec.validate_unique hbase hu
  obtain ⟨merged, hmerged, hlayered⟩ := FileSpec.mergeAll_unique hmerge hb
  obtain ⟨options', r, hoptions', hcheck, hr, hentries⟩ := FileSpec.validate_unique hfinal hmerged
  rw [hoptions] at hoptions'
  cases hoptions'
  refine ⟨options, merged, r, hoptions, hr, hcheck, hentries, ?_⟩
  intro option o ho
  rw [hlayered options option o hoptions ho, hdefaults]

end Layers
end UnitFiles

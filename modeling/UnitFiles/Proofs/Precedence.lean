import UnitFiles.Proofs.Layering

/-! What a resolved document holds, option by option, in terms of the layers that its sources
make up. -/
namespace UnitFiles
open Text

namespace OptionSpec

/-- The values of an option once its default stands in for missing ones. -/
def orDefault (o : OptionSpec) (values : List String) : List String :=
  if values = [] then o.fallback else values

theorem length_fallback (o : OptionSpec) : o.fallback.length ≤ 1 := by
  rw [fallback]
  split <;> simp

theorem fallback_eq_nil {o : OptionSpec} {values : List String} (h : o.orDefault values = []) :
    o.fallback = [] := by
  rw [orDefault] at h
  split at h
  · exact h
  · contradiction

theorem orDefault_eq_self_iff {o : OptionSpec} {values : List String} :
    o.orDefault values = values ↔ (values = [] → o.fallback = []) := by
  by_cases hnil : values = [] <;> simp [orDefault, hnil]

end OptionSpec

namespace Layers

def Replaced (specifiers : Option Specifiers) (written l : Layers) : Prop :=
  match specifiers with
  | none => l = written
  | some t => t.replaceAll written.base = .ok l.base ∧
      List.Forall₂ (fun d d' => t.replaceAll d = .ok d') written.overlays l.overlays

theorem replaceAll_eq_ok_iff {t : Specifiers} {written l : Layers} :
    written.replaceAll t = .ok l ↔ Replaced (some t) written l := by
  obtain ⟨base, overlays⟩ := l
  have hoverlay : ∀ d d' : Document,
      replaceOverlay t d = .ok d' ↔ t.replaceAll d = .ok d' := fun d d' => within_eq_ok_iff
  rw [replaceAll, Replaced]
  cases t.replaceAll written.base with
  | error e => simp
  | ok b => simp [map_eq_ok_iff, mapAll_eq_ok_iff, hoverlay, and_comm]

end Layers

namespace Sources
variable {spec : FileSpec} {s : Sources} {d : Document}

/-- The layers of some sources: over the unit lie the drop-ins, in order, and last what the
environment sets. -/
def Yields (spec : FileSpec) (s : Sources) (l : Layers) : Prop :=
  ∃ unit dropIns environment, Format.read s.unit.path s.unit.text = .ok unit ∧
    List.Forall₂ (fun source d => SourceText.readDropIn source = .ok d) s.dropIns dropIns ∧
    s.environmentLayer spec = .ok environment ∧
    Layers.Replaced s.specifiers ⟨unit, dropIns ++ environment⟩ l

theorem read_eq_ok_iff {written : Layers} :
    s.read spec = .ok written ↔ ∃ unit dropIns environment,
      Format.read s.unit.path s.unit.text = .ok unit ∧
      List.Forall₂ (fun source d => SourceText.readDropIn source = .ok d) s.dropIns dropIns ∧
      s.environmentLayer spec = .ok environment ∧ ⟨unit, dropIns ++ environment⟩ = written := by
  simp only [← mapAll_eq_ok_iff, read]
  cases Format.read s.unit.path s.unit.text with
  | error e => simp
  | ok unit =>
    cases mapAll SourceText.readDropIn s.dropIns with
    | error e => simp
    | ok dropIns => simp [map_eq_ok_iff]

theorem layers_eq_ok_iff {l : Layers} : s.layers spec = .ok l ↔ s.Yields spec l := by
  have hlayers : s.layers spec = .ok l ↔
      ∃ written, s.read spec = .ok written ∧ Layers.Replaced s.specifiers written l := by
    rw [layers]
    cases s.read spec with
    | error e => simp
    | ok written =>
      cases s.specifiers with
      | none => simp [Layers.Replaced, eq_comm]
      | some t => simp [Layers.replaceAll_eq_ok_iff]
  rw [hlayers, Yields]
  constructor
  · rintro ⟨written, hread, hreplaced⟩
    obtain ⟨unit, dropIns, environment, hunit, hdropIns, henvironment, rfl⟩ :=
      read_eq_ok_iff.mp hread
    exact ⟨unit, dropIns, environment, hunit, hdropIns, henvironment, hreplaced⟩
  · rintro ⟨unit, dropIns, environment, hunit, hdropIns, henvironment, hreplaced⟩
    exact ⟨_, read_eq_ok_iff.mpr ⟨unit, dropIns, environment, hunit, hdropIns, henvironment, rfl⟩,
      hreplaced⟩

theorem Yields.unique {l l' : Layers} (h : s.Yields spec l) (h' : s.Yields spec l') : l = l' := by
  rw [← layers_eq_ok_iff] at h h'
  exact Except.ok.inj (h.symm.trans h')

theorem resolve_eq_ok_iff :
    s.resolve spec = .ok d ↔ ∃ l, s.Yields spec l ∧ l.flatten spec = .ok d := by
  simp only [← layers_eq_ok_iff, resolve]
  cases s.layers spec <;> simp

end Sources

namespace Layers
variable {spec : FileSpec} {l : Layers} {d : Document}

/-- What becomes of one option: the layers make something of the values in the unit or the default,
and if nothing is left of those, the default stands in again. -/
theorem flatten_option (distinct : spec.Distinct) (h : l.flatten spec = .ok d)
    {name option : String} {u : Section} {options : SectionSpec} {o : OptionSpec}
    (hu : l.base.sectionsNamed name = [u]) (hoptions : spec.get? name = some options)
    (ho : o ∈ options.options) (hname : sameName o.name option = true) :
    ∃ r merged, d.sectionsNamed name = [r] ∧
      r.values option = o.orDefault (merged.map Entry.value) ∧
      (merged ≠ [] → o.checkValues (merged.map Entry.value) = .ok ()) ∧
      ∃ old, old.map Entry.value = o.orDefault (u.values option) ∧
        merged = o.layered name option (l.overlays.flatMap Document.sections) old := by
  obtain ⟨options', merged, r, hoptions', hr, hcheck, hentries, hlayered⟩ := flatten_unique h hu
  rw [hoptions] at hoptions'
  cases hoptions'
  have hoption := distinct.of_get? hoptions
  have hget := hoption.get?_eq ho hname
  have hdefaults : ∀ es, (Entry.named option (options.withDefaults es)).map Entry.value =
      o.orDefault ((Entry.named option es).map Entry.value) := by
    intro es
    rw [SectionSpec.named_withDefaults, OptionSpec.orDefault]
    simp only [List.map_eq_nil_iff]
    split
    · exact hoption.fallback_eq ho hname
    · rfl
  refine ⟨r, Entry.named option merged.entries, hr, ?_, ?_, _, hdefaults u.entries,
    hlayered option o hget⟩
  · rw [Section.values_eq, hentries, hdefaults]
  · exact SectionSpec.checkValues_of_checkEntries hcheck hget

end Layers

namespace OptionSpec

/-- The default does not stand in a second time for a scalar: what is not set has no default. -/
theorem orDefault_scalar {o : OptionSpec} {layers : List (List String)}
    (h : ∀ values ∈ layers, values ≠ []) (unit : List String) :
    o.orDefault (layers.getLast?.getD (o.orDefault unit)) =
      layers.getLast?.getD (o.orDefault unit) := by
  rw [orDefault_eq_self_iff]
  cases hlast : layers.getLast? with
  | none => exact fallback_eq_nil
  | some values =>
    intro hnil
    exact absurd hnil (h values (List.mem_of_getLast? hlast))

/-- The default stands in a second time for a list that its last layer only clears. -/
theorem orDefault_list_eq_self_iff {o : OptionSpec} {layers : List (List String)}
    (h : ∀ values ∈ layers, values ≠ []) (unit : List String) :
    o.orDefault (layers.foldl extendList (o.orDefault unit)) =
        layers.foldl extendList (o.orDefault unit) ↔
      ¬(layers.getLast? = some [""] ∧ o.fallback ≠ []) := by
  rw [orDefault_eq_self_iff, foldl_extendList_eq_nil_iff h]
  constructor
  · rintro hnil ⟨hclear, hdefault⟩
    exact hdefault (hnil (Or.inl hclear))
  · rintro hkeep (hclear | ⟨-, hunset⟩)
    · by_contra hdefault
      exact hkeep ⟨hclear, hdefault⟩
    · exact fallback_eq_nil hunset

end OptionSpec

namespace Sources
variable {spec : FileSpec} {s : Sources} {d : Document}

/-- An option of each kind: one whose default is fine, one list to be cleared, and one list with a
default that is no value of its type. -/
def sampleOptions : SectionSpec where
  options := [
    { name := "Count", type := .int, default := "1" },
    { name := "Tags", type := .stringList, default := "base" },
    { name := "Sizes", type := .intList, default := "many" }]

def sampleSpec : FileSpec := .ofList [("Test", sampleOptions)]

/-- Every layer sets `Count`, in spellings of its own; a drop-in clears both lists. -/
def sampleSources : Sources where
  unit := ⟨"web.unit", "[Test]\nCount= %i\n"⟩
  dropIns := [
    ⟨"10-a.conf", "[TEST]\nCOUNT= 4\nTags=\nSizes=\n"⟩,
    ⟨"20-b.conf", "[test]\ncount= 6\n"⟩]
  environment := [("WEB_TEST_COUNT", "8")]
  lead := some "WEB"
  specifiers := some (.ofList [('i', "2")])

def sampleUnit : Section := ⟨"Test", [⟨"Count", "2"⟩]⟩

def sampleLayers : Layers where
  base := ⟨"web.unit", [sampleUnit]⟩
  overlays := [
    ⟨"10-a.conf", [⟨"TEST", [⟨"COUNT", "4"⟩, ⟨"Tags", ""⟩, ⟨"Sizes", ""⟩]⟩]⟩,
    ⟨"20-b.conf", [⟨"test", [⟨"count", "6"⟩]⟩]⟩,
    ⟨"<env:WEB>", [⟨"test", [⟨"Count", "8"⟩]⟩]⟩]

def sampleResult : Section := ⟨"Test", [⟨"Count", "8"⟩, ⟨"Tags", "base"⟩, ⟨"Sizes", "many"⟩]⟩

def sampleDocument : Document := ⟨"web.unit", [sampleResult]⟩

theorem sampleDocument_resolved : sampleSources.resolve sampleSpec = .ok sampleDocument := by
  decide +kernel

theorem sampleLayers_yielded : sampleSources.Yields sampleSpec sampleLayers :=
  Sources.layers_eq_ok_iff.mp (by decide +kernel)

theorem sampleSpec_distinct : sampleSpec.Distinct := by decide

/-- A scalar of a section that the unit has once holds what the last layer that sets it gives, else
what the unit sets, else its default. -/
theorem resolve_scalar (distinct : spec.Distinct) (resolved : s.resolve spec = .ok d) :
    ∃ l, s.Yields spec l ∧
      ∀ (name option : String) (u : Section) (options : SectionSpec) (o : OptionSpec),
        l.base.sectionsNamed name = [u] → spec.get? name = some options →
        o ∈ options.options → sameName o.name option = true → o.type.isList = false →
        ∃ r, d.sectionsNamed name = [r] ∧ (r.values option).length ≤ 1 ∧
          r.values option =
            (l.given name option).getLast?.getD (o.orDefault (u.values option)) := by
  obtain ⟨l, hl, hflatten⟩ := resolve_eq_ok_iff.mp resolved
  refine ⟨l, hl, ?_⟩
  intro name option u options o hu hoptions ho hname scalar
  obtain ⟨r, merged, hr, hvalues, hcheck, old, hold, hmerged⟩ :=
    Layers.flatten_option distinct hflatten hu hoptions ho hname
  refine ⟨r, hr, ?_, ?_⟩
  · rw [hvalues, OptionSpec.orDefault]
    split
    · exact o.length_fallback
    · rename_i hset
      have hchecked := hcheck fun hnil => hset (by rw [hnil]; rfl)
      exact (OptionSpec.checkValues_eq_ok_iff.mp hchecked).1 scalar
  · rw [hvalues, hmerged, OptionSpec.layered_scalar scalar, hold]
    exact OptionSpec.orDefault_scalar (fun _ => Section.ne_nil_of_mem_given) _

theorem resolve_scalar_count :
    ∃ r, sampleDocument.sectionsNamed "TEST" = [r] ∧ (r.values "count").length ≤ 1 ∧
      r.values "count" = ["8"] := by
  obtain ⟨l, hl, h⟩ := resolve_scalar sampleSpec_distinct sampleDocument_resolved
  cases hl.unique sampleLayers_yielded
  obtain ⟨r, hr, hone, hvalues⟩ := h "TEST" "count" sampleUnit sampleOptions _ (by decide)
    rfl List.mem_cons_self (by decide) rfl
  have hlast : (sampleLayers.given "TEST" "count").getLast? = some ["8"] := by decide
  rw [hlast] at hvalues
  exact ⟨r, hr, hone, hvalues⟩

/-- A list of a section that the unit has once holds what the layers make, in order, of what the
unit sets or of its default. But where the last layer that sets it only clears it, its default is
put in again behind that layer. -/
theorem resolve_list_iff (distinct : spec.Distinct) (resolved : s.resolve spec = .ok d) :
    ∃ l, s.Yields spec l ∧
      ∀ (name option : String) (u : Section) (options : SectionSpec) (o : OptionSpec),
        l.base.sectionsNamed name = [u] → spec.get? name = some options →
        o ∈ options.options → sameName o.name option = true → o.type.isList = true →
        ∃ r, d.sectionsNamed name = [r] ∧
          r.values option =
            o.orDefault ((l.given name option).foldl extendList (o.orDefault (u.values option))) ∧
          (r.values option =
              (l.given name option).foldl extendList (o.orDefault (u.values option)) ↔
            ¬((l.given name option).getLast? = some [""] ∧ o.fallback ≠ [])) := by
  obtain ⟨l, hl, hflatten⟩ := resolve_eq_ok_iff.mp resolved
  refine ⟨l, hl, ?_⟩
  intro name option u options o hu hoptions ho hname list
  obtain ⟨r, merged, hr, hvalues, -, old, hold, hmerged⟩ :=
    Layers.flatten_option distinct hflatten hu hoptions ho hname
  rw [hmerged, OptionSpec.layered_list list, hold] at hvalues
  refine ⟨r, hr, hvalues, ?_⟩
  rw [hvalues]
  exact OptionSpec.orDefault_list_eq_self_iff (fun _ => Section.ne_nil_of_mem_given) _

theorem resolve_list_cleared_tags :
    ∃ r, sampleDocument.sectionsNamed "test" = [r] ∧ r.values "TAGS" = ["base"] := by
  obtain ⟨l, hl, h⟩ := resolve_list_iff sampleSpec_distinct sampleDocument_resolved
  cases hl.unique sampleLayers_yielded
  obtain ⟨r, hr, hvalues, -⟩ := h "test" "TAGS" sampleUnit sampleOptions _ (by decide) rfl
    (List.mem_cons_of_mem _ List.mem_cons_self) (by decide) rfl
  have hgiven : sampleLayers.given "test" "TAGS" = [[""]] := by decide
  rw [hgiven] at hvalues
  exact ⟨r, hr, hvalues⟩

/-- The only layer that sets `Tags` clears it, and its default comes back. -/
theorem resolve_restores_cleared_default :
    sampleSources.resolve sampleSpec = .ok sampleDocument ∧
      sampleSources.Yields sampleSpec sampleLayers ∧
      (sampleLayers.given "Test" "Tags").foldl extendList ["base"] = [] ∧
      (sampleDocument.sectionsNamed "Test").map (fun r => r.values "Tags") = [["base"]] :=
  ⟨sampleDocument_resolved, sampleLayers_yielded, by decide, by decide⟩

end Sources
end UnitFiles

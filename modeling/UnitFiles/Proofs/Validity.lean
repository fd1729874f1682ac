import UnitFiles.Proofs.Precedence

/-! When a resolved document passes the check that its parts have passed. The defaults are put in
behind each check, and only the ones that a merge leaves in place are seen by the next check. -/
namespace UnitFiles
open Text

/-- Every section has its spec and passes the check of its options. -/
def FileSpec.Valid (spec : FileSpec) (d : Document) : Prop :=
  ∀ s ∈ d.sections, ∃ options, spec.get? s.name = some options ∧
    options.checkEntries s.entries = .ok ()

namespace SectionSpec
variable {spec : SectionSpec}

theorem named_withDefaults_ne_nil {name : String} {o : OptionSpec}
    (h : spec.default? name = some o) (es : List Entry) :
    Entry.named name (spec.withDefaults es) ≠ [] := by
  rw [named_withDefaults]
  split
  · simp [fallback, h]
  · assumption

/-- A section that is valid with its defaults stays valid when they are put in again. -/
theorem checkEntries_twice {es : List Entry}
    (h : spec.checkEntries (spec.withDefaults es) = .ok ()) :
    spec.checkEntries (spec.withDefaults (spec.withDefaults es)) = .ok () := by
  rw [checkEntries_withDefaults_iff h]
  intro name o first hnil ho hfirst
  exact absurd hnil (named_withDefaults_ne_nil ho es)

end SectionSpec

namespace FileSpec
variable {spec : FileSpec} {d d' : Document}

/-- A section of a document that went through a check, as it was before. -/
theorem exists_of_mem_validate (h : spec.validate d = .ok d') {s' : Section}
    (hs' : s' ∈ d'.sections) :
    ∃ s ∈ d.sections, ∃ options, s'.name = s.name ∧ spec.get? s'.name = some options ∧
      options.checkEntries s.entries = .ok () ∧ s'.entries = options.withDefaults s.entries := by
  obtain ⟨s, hs, hprepared⟩ := exists_of_mem_forall₂ (validate_eq_ok_iff.mp h).2 hs'
  obtain ⟨options, hoptions, hcheck, rfl⟩ := prepareSection_eq_ok_iff.mp hprepared
  exact ⟨s, hs, options, rfl, hoptions, hcheck, rfl⟩

end FileSpec

namespace Layers
variable {spec : FileSpec} {l : Layers} {d : Document}

/-- A section that shares its name with another takes in no layers, and stays valid. -/
theorem flatten_shared (h : l.flatten spec = .ok d) {r : Section} (hr : r ∈ d.sections)
    (hshared : (l.base.sectionsNamed r.name).length ≠ 1) :
    ∃ options, spec.get? r.name = some options ∧ options.checkEntries r.entries = .ok () := by
  obtain ⟨base, sections, hbase, hmerge, hfinal⟩ := flatten_eq_ok_iff.mp h
  obtain ⟨m, hm, options, hname, hoptions, hcheck, hentries⟩ :=
    FileSpec.exists_of_mem_validate hfinal hr
  -- both rounds of defaults meet the same section, so that the second one adds nothing
  have hkeep : Section.called r.name sections = Section.called r.name base.sections := by
    apply FileSpec.mergeAll_shared hmerge
    rw [← Document.sectionsNamed_eq, ← (FileSpec.called_validate hbase r.name).length_eq]
    exact hshared
  have hmem : m ∈ Section.called r.name sections :=
    Section.mem_called.mpr ⟨hm, by rw [hname, sameName_refl]⟩
  rw [hkeep] at hmem
  obtain ⟨u, -, options', -, hoptions', -, hm'⟩ :=
    FileSpec.exists_of_mem_validate hbase (Section.mem_called.mp hmem).1
  rw [← hname, hoptions] at hoptions'
  cases hoptions'
  refine ⟨options, hoptions, ?_⟩
  rw [hm'] at hcheck
  rw [hentries, hm']
  exact SectionSpec.checkEntries_twice hcheck

/-- A section that has its name for itself is valid exactly when the defaults that come back behind
its last layer are values of their types. -/
theorem flatten_unique_valid_iff (h : l.flatten spec = .ok d) {name : String} {u : Section}
    (hu : l.base.sectionsNamed name = [u]) :
    ∃ options r, spec.get? name = some options ∧ d.sectionsNamed name = [r] ∧
      (options.checkEntries r.entries = .ok () ↔ ∀ (option : String) (first o : OptionSpec),
        options.get? option = some first → options.default? option = some o →
        first.type.isList = true → (l.given name option).getLast? = some [""] →
        first.type.check o.default = .ok ()) := by
  obtain ⟨options, merged, r, hoptions, hr, hcheck, hentries, hlayered⟩ := flatten_unique h hu
  have hunset : ∀ {option first o}, options.get? option = some first →
      options.default? option = some o → (Entry.named option merged.entries = [] ↔
        first.type.isList = true ∧ (l.given name option).getLast? = some [""]) := by
    intro option first o hfirst ho
    rw [hlayered option first hfirst]
    exact OptionSpec.layered_eq_nil_iff (SectionSpec.named_withDefaults_ne_nil ho u.entries)
  refine ⟨options, r, hoptions, hr, ?_⟩
  rw [hentries, SectionSpec.checkEntries_withDefaults_iff hcheck]
  constructor
  · intro hdefaults option first o hfirst ho hlist hclear
    exact hdefaults option o first ((hunset hfirst ho).mpr ⟨hlist, hclear⟩) ho hfirst
  · intro hdefaults option o first hnil ho hfirst
    obtain ⟨hlist, hclear⟩ := (hunset hfirst ho).mp hnil
    exact hdefaults option first o hfirst ho hlist hclear

/-- What goes out is valid exactly when every default that comes back behind the last layer is a
value of the type that its name has. -/
theorem flatten_valid_iff (h : l.flatten spec = .ok d) :
    spec.Valid d ↔ ∀ (name option : String) (u : Section) (options : SectionSpec)
        (first o : OptionSpec), l.base.sectionsNamed name = [u] →
        spec.get? name = some options → options.get? option = some first →
        options.default? option = some o → first.type.isList = true →
        (l.given name option).getLast? = some [""] → first.type.check o.default = .ok () := by
  constructor
  · intro hvalid name option u options first o hu hoptions
    obtain ⟨options', r, hoptions', hr, hiff⟩ := flatten_unique_valid_iff h hu
    rw [hoptions] at hoptions'
    cases hoptions'
    have hnamed : r ∈ d.sectionsNamed name := hr ▸ List.mem_singleton_self r
    obtain ⟨hmem, hname⟩ := Section.mem_called.mp hnamed
    obtain ⟨found, hfound, hcheck⟩ := hvalid r hmem
    rw [FileSpec.get?_congr hname, hoptions] at hfound
    cases hfound
    exact hiff.mp hcheck option first o
  · intro hdefaults r hr
    by_cases hunique : (l.base.sectionsNamed r.name).length = 1
    · obtain ⟨u, hu⟩ := List.length_eq_one_iff.mp hunique
      obtain ⟨options, r', hoptions, hr', hiff⟩ := flatten_unique_valid_iff h hu
      have hmem : r ∈ d.sectionsNamed r.name :=
        Section.mem_called.mpr ⟨hr, sameName_refl r.name⟩
      rw [hr', List.mem_singleton] at hmem
      refine ⟨options, hoptions, ?_⟩
      rw [hmem]
      exact hiff.mpr fun option first o => hdefaults r.name option u options first o hu hoptions
    · exact flatten_shared h hr hunique

end Layers

namespace Sources

/-- A document that is handed out is valid, except that a default which comes back behind a layer
that clears its list goes out unchecked. -/
theorem resolve_valid_iff {spec : FileSpec} {s : Sources} {d : Document}
    (resolved : s.resolve spec = .ok d) :
    ∃ l, s.Yields spec l ∧
      (spec.Valid d ↔ ∀ (name option : String) (u : Section) (options : SectionSpec)
        (first o : OptionSpec), l.base.sectionsNamed name = [u] →
        spec.get? name = some options → options.get? option = some first →
        options.default? option = some o → first.type.isList = true →
        (l.given name option).getLast? = some [""] → first.type.check o.default = .ok ()) := by
  obtain ⟨l, hl, hflatten⟩ := resolve_eq_ok_iff.mp resolved
  exact ⟨l, hl, Layers.flatten_valid_iff hflatten⟩

theorem resolve_not_valid_sizes : ¬sampleSpec.Valid sampleDocument := by
  obtain ⟨l, hl, hvalid⟩ := resolve_valid_iff sampleDocument_resolved
  cases hl.unique sampleLayers_yielded
  rw [hvalid]
  intro h
  have hlast : (sampleLayers.given "Test" "Sizes").getLast? = some [""] := by decide +kernel
  have hnumber := h "Test" "Sizes" sampleUnit sampleOptions _ _ (by decide +kernel) rfl rfl rfl rfl
    hlast
  have hrefused : OptionType.intList.check "many" = .error (.invalidNumber "many") := by
    decide +kernel
  rw [hrefused] at hnumber
  cases hnumber

/-- The default of `Sizes` is no number. It was away when the values were checked and goes out. -/
theorem resolve_hands_out_unchecked_default :
    sampleSources.resolve sampleSpec = .ok sampleDocument ∧
      sampleResult ∈ sampleDocument.sections ∧
      sampleSpec.get? sampleResult.name = some sampleOptions ∧
      sampleOptions.checkEntries sampleResult.entries =
        .error (.context "Sizes" (.invalidNumber "many")) :=
  ⟨sampleDocument_resolved, List.mem_cons_self, rfl, by decide +kernel⟩

end Sources
end UnitFiles

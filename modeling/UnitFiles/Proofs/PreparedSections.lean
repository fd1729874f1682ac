import UnitFiles.Proofs.AcceptedOptions
import UnitFiles.Proofs.Revalidation

/-! What a section is once it has passed its check. The check sees the options as they are written;
what it has found out still holds with the defaults behind them, because a default only comes under
a name that has no value, and one default for each such name. -/
namespace UnitFiles
open Text

def OptionSpec.defaultEntry (o : OptionSpec) : Entry := ⟨o.name, o.default⟩

namespace SectionSpec

/-- Options whose defaults may be put behind some entries: the names are new and differ from each
other. -/
structure Fresh (es : List Entry) (os : List OptionSpec) : Prop where
  optional : ∀ o ∈ os, o.required = false ∧ o.default ≠ ""
  unset : ∀ o ∈ os, ∀ e ∈ es, fold e.name ≠ fold o.name
  distinct : os.Pairwise fun a b => fold a.name ≠ fold b.name

/-- A section before its check and after it. -/
structure Prepared (spec : SectionSpec) (s s' : Section) : Prop where
  name : s'.name = s.name
  /-- Nothing is added but defaults. -/
  entries : ∃ os, os.Sublist spec.options ∧ Fresh s.entries os ∧
    s'.entries = s.entries ++ os.map OptionSpec.defaultEntry
  once : ∀ name o, spec.IsFirst name o → o.type.isList = false → (s'.values name).length ≤ 1
  complete : ∀ o ∈ spec.options, o.required = true → s'.values o.name ≠ []
  filled : ∀ o, spec.IsFirst o.name o → o.required = true → ∀ value ∈ s'.values o.name, value ≠ ""
  defaulted : ∀ o ∈ spec.options, o.required = false → o.default ≠ "" → s'.values o.name ≠ []
  /-- A name that was not set has the default of the first option that may stand in for it. -/
  unset : ∀ name, s.values name = [] →
    s'.values name = (spec.default? name).toList.map OptionSpec.default
  settled : spec.withDefaults s'.entries = s'.entries

variable {spec : SectionSpec} {es : List Entry} {s s' : Section}

section Appending

theorem addDefault_cases (es : List Entry) (o : OptionSpec) :
    addDefault es o = es ∨ addDefault es o = es ++ [o.defaultEntry] ∧
      o.required = false ∧ o.default ≠ "" ∧ ∀ e ∈ es, fold e.name ≠ fold o.name := by
  rw [addDefault]
  split
  · exact Or.inl rfl
  · rename_i hmay
    split
    · exact Or.inl rfl
    · rename_i hunset
      simp only [Bool.or_eq_true, decide_eq_true_eq, not_or, Bool.not_eq_true] at hmay
      simp only [List.any_eq_true, sameName_iff, not_exists, not_and] at hunset
      exact Or.inr ⟨rfl, hmay.1, hmay.2, hunset⟩

/-- The run over the options puts in some of their defaults, each of which takes its name for the
rest of the run. -/
theorem exists_fresh (os : List OptionSpec) (es : List Entry) :
    ∃ put, put.Sublist os ∧ Fresh es put ∧
      os.foldl addDefault es = es ++ put.map OptionSpec.defaultEntry := by
  induction os generalizing es with
  | nil => exact ⟨[], .slnil, ⟨by simp, by simp, .nil⟩, by simp⟩
  | cons o rest ih =>
    rw [List.foldl_cons]
    obtain ⟨put, hput, hfresh, hentries⟩ := ih (addDefault es o)
    rcases addDefault_cases es o with hsame | ⟨hadd, hoptional, hdefault, hunset⟩
    · rw [hsame] at hfresh hentries ⊢
      exact ⟨put, hput.cons o, hfresh, hentries⟩
    · rw [hadd] at hfresh hentries ⊢
      refine ⟨o :: put, hput.cons_cons o, ⟨?_, ?_, ?_⟩, by simp [hentries]⟩
      · exact List.forall_mem_cons.mpr ⟨⟨hoptional, hdefault⟩, hfresh.optional⟩
      · refine List.forall_mem_cons.mpr ⟨hunset, fun p hp e he => ?_⟩
        exact hfresh.unset p hp e (List.mem_append_left _ he)
      · refine List.pairwise_cons.mpr ⟨fun p hp => ?_, hfresh.distinct⟩
        exact hfresh.unset p hp o.defaultEntry (List.mem_append_right _ (by simp))

end Appending

section Values

theorem prepare_eq_ok_iff : spec.prepare s = .ok s' ↔
    spec.checkEntries s.entries = .ok () ∧
      s' = { s with entries := spec.withDefaults s.entries } := by
  rw [prepare]
  cases spec.checkEntries s.entries <;> simp [eq_comm]

theorem values_withDefaults (name : String) :
    Section.values { s with entries := spec.withDefaults s.entries } name =
      if s.values name = [] then (spec.default? name).toList.map OptionSpec.default
      else s.values name := by
  simp only [Section.values_eq, List.map_eq_nil_iff, named_withDefaults, fallback]
  split
  · rw [List.map_map]
    rfl
  · rfl

theorem checkValues_of_values (h : spec.checkEntries s.entries = .ok ()) {name : String}
    {o : OptionSpec} (ho : spec.IsFirst name o) (hset : s.values name ≠ []) :
    o.checkValues (s.values name) = .ok () := by
  rw [Section.values_eq] at hset ⊢
  exact checkValues_of_checkEntries h (get?_eq_some_iff.mpr ho) (by simpa using hset)

theorem values_ne_nil_of_required (h : spec.checkEntries s.entries = .ok ()) {o : OptionSpec}
    (ho : o ∈ spec.options) (hrequired : o.required = true) : s.values o.name ≠ [] := by
  rw [Section.values_eq, ne_eq, List.map_eq_nil_iff]
  exact (checkEntries_eq_ok_iff.mp h).2 o ho hrequired

end Values

theorem prepared_withDefaults (h : spec.checkEntries s.entries = .ok ()) :
    spec.Prepared s { s with entries := spec.withDefaults s.entries } where
  name := rfl
  entries := exists_fresh spec.options s.entries
  once name o ho hscalar := by
    rw [values_withDefaults]
    split
    · cases spec.default? name <;> simp
    · rename_i hset
      exact (OptionSpec.checkValues_eq_ok_iff.mp (checkValues_of_values h ho hset)).1 hscalar
  complete o ho hrequired := by
    have hset := values_ne_nil_of_required h ho hrequired
    rwa [values_withDefaults, if_neg hset]
  filled o ho hrequired := by
    have hset := values_ne_nil_of_required h (mem_of_get? (get?_eq_some_iff.mpr ho)) hrequired
    rw [values_withDefaults, if_neg hset]
    intro value hvalue
    have hcheck := (OptionSpec.checkValues_eq_ok_iff.mp (checkValues_of_values h ho hset)).2.2
    exact (OptionSpec.checkValue_eq_ok_iff.mp (hcheck value hvalue)).1 hrequired
  defaulted o ho hoptional hdefault := by
    have hstands : (spec.default? o.name).isSome = true := by
      rw [default?, List.find?_isSome]
      exact ⟨o, ho, by simp [standsIn, hoptional, hdefault]⟩
    rw [values_withDefaults]
    split
    · obtain ⟨first, hfirst⟩ := Option.isSome_iff_exists.mp hstands
      simp [hfirst]
    · assumption
  unset name hunset := by rw [values_withDefaults, if_pos hunset]
  settled := withDefaults_withDefaults spec s.entries

/-- A section passes exactly if its options fit the spec. Then nothing of it changes, and defaults
under new names come behind it, so that each option has the values that its spec asks for. -/
theorem prepare_outcome (spec : SectionSpec) (s : Section) :
    ((∃ s', spec.prepare s = .ok s') ↔ spec.Accepts s.entries) ∧
      ∀ s', spec.prepare s = .ok s' → spec.Prepared s s' := by
  constructor
  · rw [← checkEntries_accepts]
    simp [prepare_eq_ok_iff]
  · intro s' h
    obtain ⟨hcheck, rfl⟩ := prepare_eq_ok_iff.mp h
    exact prepared_withDefaults hcheck

section Sample

/-- A required option with a default that is never put in, and names that several options share. -/
def waitingOptions : SectionSpec :=
  ⟨[{ name := "Name", required := true, default := "web" }, { name := "Wait", type := .duration },
    { name := "WAIT", default := "5s" }, { name := "wait", default := "9s" },
    { name := "GRÖSSE", type := .int, default := "1" }, { name := "Größe", default := "2" }]⟩

def waitingSection : Section := ⟨"Service", [⟨"grösse", "7"⟩, ⟨"NAME", "a"⟩]⟩

theorem prepare_outcome_waiting :
    waitingOptions.prepare waitingSection =
        .ok ⟨"Service", [⟨"grösse", "7"⟩, ⟨"NAME", "a"⟩, ⟨"WAIT", "5s"⟩, ⟨"Größe", "2"⟩]⟩ ∧
      waitingOptions.Prepared waitingSection
        ⟨"Service", [⟨"grösse", "7"⟩, ⟨"NAME", "a"⟩, ⟨"WAIT", "5s"⟩, ⟨"Größe", "2"⟩]⟩ := by
  have hprepare : waitingOptions.prepare waitingSection =
      .ok ⟨"Service", [⟨"grösse", "7"⟩, ⟨"NAME", "a"⟩, ⟨"WAIT", "5s"⟩, ⟨"Größe", "2"⟩]⟩ := by
    decide +kernel
  exact ⟨hprepare, (prepare_outcome waitingOptions waitingSection).2 _ hprepare⟩

end Sample

end SectionSpec
end UnitFiles

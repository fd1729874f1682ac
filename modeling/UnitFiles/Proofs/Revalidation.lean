import UnitFiles.Proofs.Validity

/-! Checking a document that has gone through the check before. Defaults that are there are not put
in again, so that the second check changes nothing; and it accepts the document when each default
that the first check has put in is a value of the type that its name has. -/
namespace UnitFiles
open Text

namespace SectionSpec
variable {spec : SectionSpec}

theorem withDefaults_eq_self {es : List Entry}
    (h : ∀ name o, spec.default? name = some o → Entry.named name es ≠ []) :
    spec.withDefaults es = es := by
  have hkeep : ∀ o ∈ spec.options, addDefault es o = es := by
    intro o ho
    rw [addDefault]
    split
    · rfl
    · rename_i hmay
      have hstands : standsIn o.name o = true := by simp [standsIn, hmay]
      obtain ⟨first, hfirst⟩ := Option.isSome_iff_exists.mp
        (List.find?_isSome.mpr ⟨o, ho, hstands⟩)
      have hset : (es.any fun e => sameName e.name o.name) = true := by
        simpa [Entry.named] using h o.name first hfirst
      rw [if_pos hset]
  have hfold : ∀ os : List OptionSpec, (∀ o ∈ os, addDefault es o = es) →
      os.foldl addDefault es = es := by
    intro os hos
    induction os with
    | nil => rfl
    | cons o rest ih =>
      obtain ⟨ho, hrest⟩ := List.forall_mem_cons.mp hos
      rw [List.foldl_cons, ho, ih hrest]
  exact hfold spec.options hkeep

@[simp] theorem withDefaults_withDefaults (spec : SectionSpec) (es : List Entry) :
    spec.withDefaults (spec.withDefaults es) = spec.withDefaults es :=
  withDefaults_eq_self fun _ _ ho => named_withDefaults_ne_nil ho es

/-- Every default that may be put in is a value of the type that its name has, which is that of the
first option with the name. -/
def DefaultsFitNames (spec : SectionSpec) : Prop :=
  ∀ o ∈ spec.options, o.required = false → o.default ≠ "" →
    ∀ first ∈ spec.get? o.name, first.type.check o.default = .ok ()

instance (spec : SectionSpec) : Decidable spec.DefaultsFitNames :=
  inferInstanceAs (Decidable (∀ o ∈ spec.options, o.required = false → o.default ≠ "" →
    ∀ first ∈ spec.get? o.name, first.type.check o.default = .ok ()))

theorem DefaultsFitNames.checkEntries_withDefaults (fit : spec.DefaultsFitNames) {es : List Entry}
    (h : spec.checkEntries es = .ok ()) : spec.checkEntries (spec.withDefaults es) = .ok () := by
  rw [checkEntries_withDefaults_iff h]
  intro name o first _ ho hfirst
  obtain ⟨hoptional, hdefault⟩ := optional_of_default? ho
  refine fit o (mem_of_default? ho) hoptional hdefault first ?_
  rwa [Option.mem_def, get?_congr (sameName_of_default? ho)]

end SectionSpec

namespace FileSpec
variable {spec : FileSpec} {d d' : Document}

def DefaultsFitNames (spec : FileSpec) : Prop := ∀ p ∈ spec.sections, p.2.DefaultsFitNames

instance (spec : FileSpec) : Decidable spec.DefaultsFitNames :=
  inferInstanceAs (Decidable (∀ p ∈ spec.sections, p.2.DefaultsFitNames))

theorem DefaultsFitNames.of_get? {name : String} {options : SectionSpec}
    (fit : spec.DefaultsFitNames) (h : spec.get? name = some options) :
    options.DefaultsFitNames := by
  obtain ⟨p, hp, rfl⟩ := mem_of_get? h
  exact fit p hp

/-- The second check looks at what the first one has put in, and changes nothing. -/
theorem validate_again_iff (h : spec.validate d = .ok d') :
    spec.validate d' = .ok d' ↔ spec.Valid d' := by
  rw [validate_eq_ok_iff, List.forall₂_same, eq_self, true_and]
  refine forall₂_congr fun s' hs' => ?_
  obtain ⟨s, -, options, -, hoptions, -, hentries⟩ := exists_of_mem_validate h hs'
  have hkeep : options.withDefaults s'.entries = s'.entries := by
    rw [hentries, SectionSpec.withDefaults_withDefaults]
  rw [prepareSection_eq_ok_iff]
  constructor
  · rintro ⟨found, hfound, hcheck, -⟩
    exact ⟨found, hfound, hcheck⟩
  · rintro ⟨found, hfound, hcheck⟩
    obtain rfl : options = found := Option.some.inj (hoptions.symm.trans hfound)
    exact ⟨options, hfound, hcheck, by rw [hkeep]⟩

theorem DefaultsFitNames.valid_validate (fit : spec.DefaultsFitNames)
    (h : spec.validate d = .ok d') : spec.Valid d' := by
  intro s' hs'
  obtain ⟨s, -, options, -, hoptions, hcheck, hentries⟩ := exists_of_mem_validate h hs'
  refine ⟨options, hoptions, ?_⟩
  rw [hentries]
  exact (fit.of_get? hoptions).checkEntries_withDefaults hcheck

/-- What a check hands out passes the check again and is handed out as it is. -/
theorem validate_validate (fit : spec.DefaultsFitNames) (h : spec.validate d = .ok d') :
    spec.validate d' = .ok d' :=
  (validate_again_iff h).mpr (fit.valid_validate h)

/-- A required option with a default that is never put in, and an option that is shadowed but whose
default stands in for its name. -/
def shadowedSpec : FileSpec :=
  ⟨[("service", ⟨[{ name := "Name", aliases := ["Title"], required := true, default := "web" },
    { name := "Wait", type := .duration }, { name := "WAIT", default := "5s" }]⟩)]⟩

def services : Document :=
  ⟨"app.unit", [⟨"Service", [⟨"NAME", "a"⟩]⟩, ⟨"SERVICE", [⟨"wait", "1m"⟩, ⟨"name", "b"⟩]⟩]⟩

def checkedServices : Document :=
  ⟨"app.unit", [⟨"Service", [⟨"NAME", "a"⟩, ⟨"WAIT", "5s"⟩]⟩,
    ⟨"SERVICE", [⟨"wait", "1m"⟩, ⟨"name", "b"⟩]⟩]⟩

theorem validate_validate_services :
    shadowedSpec.DefaultsFitNames ∧ shadowedSpec.validate services = .ok checkedServices ∧
      shadowedSpec.validate checkedServices = .ok checkedServices := by
  have hfit : shadowedSpec.DefaultsFitNames := by decide +kernel
  have hvalid : shadowedSpec.validate services = .ok checkedServices := by decide +kernel
  exact ⟨hfit, hvalid, validate_validate hfit hvalid⟩

end FileSpec
end UnitFiles

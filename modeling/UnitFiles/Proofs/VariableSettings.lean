import UnitFiles.Proofs.MergeOutcome
import UnitFiles.Proofs.VariableNames
import UnitFiles.Proofs.Variables

/-! What one variable comes to: its name reaches a place of the document or none, and there it gives
some options or is refused. The settings for one place are those of the variables that reach it. -/
namespace UnitFiles
open Text

/-- The values in a text: its words for a list, and the whole text otherwise. -/
inductive OptionSpec.Splits (o : OptionSpec) (text : String) : List String → Prop
  | words {values : List String} : o.type.isList = true → shellWords? text = some values →
      o.Splits text values
  | whole : o.type.isList = false → o.Splits text [text]

theorem OptionSpec.Splits.unique {o : OptionSpec} {text : String} {values values' : List String}
    (h : o.Splits text values) (h' : o.Splits text values') : values = values' := by
  cases h with
  | words hlist hwords =>
    cases h' with
    | words _ hwords' => exact Option.some.inj (hwords.symm.trans hwords')
    | whole hscalar => simp [hlist] at hscalar
  | whole hscalar =>
    cases h' with
    | words hlist _ => simp [hlist] at hscalar
    | whole _ => rfl

namespace Environment

def Address.place (a : Address) : String ×ₗ Nat := toLex (a.sectionName, a.index)

section Variable
variable {lead : String} {spec : FileSpec} {v : String × String} {place place' : String ×ₗ Nat}

/-- The name of a variable spells an option of the section in that place, and the spec knows the
section. -/
def Reaches (lead : String) (spec : FileSpec) (variableName : String) (place : String ×ₗ Nat) :
    Prop :=
  ∃ a, Spells lead variableName a ∧ (∃ options, spec.get? a.sectionName = some options) ∧
    a.place = place

/-- What a variable adds to a section: its values, under the name that the option has in the
spec. -/
def Gives (lead : String) (spec : FileSpec) (v : String × String) (place : String ×ₗ Nat)
    (entries : List Entry) : Prop :=
  ∃ a options o values, Spells lead v.1 a ∧ spec.get? a.sectionName = some options ∧
    options.get? a.optionName = some o ∧ o.Splits v.2 values ∧ a.place = place ∧
    (values.map fun value => ⟨o.name, value⟩) = entries

/-- What is wrong with a variable by itself. -/
inductive Refuses (lead : String) (spec : FileSpec) (v : String × String) : Error → Prop
  | unknownOption {a : Address} {options : SectionSpec} :
      Spells lead v.1 a → spec.get? a.sectionName = some options →
      options.get? a.optionName = none →
      Refuses lead spec v (.context v.1 (.context a.optionName .optionNotExists))
  | unbalancedQuotes {a : Address} {options : SectionSpec} {o : OptionSpec} :
      Spells lead v.1 a → spec.get? a.sectionName = some options →
      options.get? a.optionName = some o → o.type.isList = true → shellWords? v.2 = none →
      Refuses lead spec v (.invalidVariable v.1 .unbalancedQuotes)

theorem Reaches.unique (h : Reaches lead spec v.1 place) (h' : Reaches lead spec v.1 place') :
    place = place' := by
  obtain ⟨a, ha, -, rfl⟩ := h
  obtain ⟨b, hb, -, rfl⟩ := h'
  rw [ha.unique hb]

theorem Gives.reaches {entries : List Entry} (h : Gives lead spec v place entries) :
    Reaches lead spec v.1 place := by
  obtain ⟨a, options, -, -, ha, hoptions, -, -, hplace, -⟩ := h
  exact ⟨a, ha, ⟨options, hoptions⟩, hplace⟩

theorem Gives.unique {entries entries' : List Entry} (h : Gives lead spec v place entries)
    (h' : Gives lead spec v place entries') : entries = entries' := by
  obtain ⟨a, options, o, values, ha, hoptions, ho, hvalues, -, rfl⟩ := h
  obtain ⟨b, options', o', values', hb, hoptions', ho', hvalues', -, rfl⟩ := h'
  cases ha.unique hb
  cases hoptions.symm.trans hoptions'
  cases ho.symm.trans ho'
  rw [hvalues.unique hvalues']

theorem valuesOf_eq_ok_iff {o : OptionSpec} {name text : String} {values : List String} :
    valuesOf o name text = .ok values ↔ o.Splits text values := by
  rw [valuesOf]
  constructor
  · intro h
    split at h
    · rename_i hlist
      cases hwords : shellWords? text with
      | none => simp [hwords, orError] at h
      | some words =>
        rw [hwords] at h
        cases h
        exact .words hlist hwords
    · rename_i hscalar
      cases h
      exact .whole (Bool.of_not_eq_true hscalar)
  · rintro (⟨hlist, hwords⟩ | hscalar)
    · rw [if_pos hlist, hwords]
      rfl
    · simp [hscalar]

theorem valuesOf_eq_error_iff {o : OptionSpec} {name text : String} {e : Error} :
    valuesOf o name text = .error e ↔ o.type.isList = true ∧ shellWords? text = none ∧
      e = .invalidVariable name .unbalancedQuotes := by
  rw [valuesOf]
  split
  · rename_i hlist
    cases shellWords? text <;> simp [orError, hlist, eq_comm]
  · rename_i hscalar
    simp [hscalar]

theorem ofVariable_eq_none_iff :
    Setting.ofVariable lead spec v.1 v.2 = .ok none ↔ ∀ place, ¬Reaches lead spec v.1 place := by
  rw [Setting.ofVariable.eq_def]
  constructor
  · rintro h place ⟨a, ha, ⟨options, hoptions⟩, -⟩
    simp only [ofName?_eq_some_iff.mpr ha, hoptions] at h
    split at h
    · cases h
    · obtain ⟨values, -, hnone⟩ := map_eq_ok_iff.mp h
      cases hnone
  · intro h
    split
    · rfl
    · rename_i a ha
      split
      · rfl
      · rename_i options hoptions
        exact absurd ⟨a, ofName?_eq_some_iff.mp ha, ⟨options, hoptions⟩, rfl⟩ (h a.place)

theorem ofVariable_eq_some_iff {s : Setting} :
    Setting.ofVariable lead spec v.1 v.2 = .ok (some s) ↔
      s.source = v.1 ∧ Gives lead spec v s.place s.entries := by
  rw [Setting.ofVariable.eq_def]
  constructor
  · intro h
    split at h
    · cases h
    · rename_i a ha
      split at h
      · cases h
      · rename_i options hoptions
        split at h
        · cases h
        · rename_i o ho
          obtain ⟨values, hvalues, hs⟩ := map_eq_ok_iff.mp h
          cases hs
          exact ⟨rfl, a, options, o, values, ofName?_eq_some_iff.mp ha, hoptions, ho,
            valuesOf_eq_ok_iff.mp hvalues, rfl, rfl⟩
  · rintro ⟨hsource, a, options, o, values, ha, hoptions, ho, hvalues, hplace, hentries⟩
    obtain ⟨sectionName, index, source, entries⟩ := s
    cases hsource
    cases hplace
    cases hentries
    simp only [ofName?_eq_some_iff.mpr ha, hoptions, ho, valuesOf_eq_ok_iff.mpr hvalues]
    rfl

theorem ofVariable_eq_error_iff {e : Error} :
    Setting.ofVariable lead spec v.1 v.2 = .error e ↔ Refuses lead spec v e := by
  rw [Setting.ofVariable.eq_def]
  constructor
  · intro h
    split at h
    · cases h
    · rename_i a ha
      have hspells := ofName?_eq_some_iff.mp ha
      split at h
      · cases h
      · rename_i options hoptions
        split at h
        · rename_i hnone
          cases h
          exact .unknownOption hspells hoptions hnone
        · rename_i o ho
          cases hvalues : valuesOf o v.1 v.2 with
          | ok values => simp [hvalues, Except.map] at h
          | error fault =>
            rw [hvalues] at h
            cases h
            obtain ⟨hlist, hwords, rfl⟩ := valuesOf_eq_error_iff.mp hvalues
            exact .unbalancedQuotes hspells hoptions ho hlist hwords
  · rintro (⟨ha, hoptions, ho⟩ | ⟨ha, hoptions, ho, hlist, hwords⟩)
    · simp only [ofName?_eq_some_iff.mpr ha, hoptions, ho]
    · have hvalues : valuesOf _ v.1 v.2 = .error _ :=
        valuesOf_eq_error_iff.mpr ⟨hlist, hwords, rfl⟩
      simp only [ofName?_eq_some_iff.mpr ha, hoptions, ho, hvalues]
      rfl

theorem Refuses.unique {e e' : Error} (h : Refuses lead spec v e) (h' : Refuses lead spec v e') :
    e = e' := by
  rw [← ofVariable_eq_error_iff] at h h'
  exact Except.error.inj (h.symm.trans h')

end Variable

section Settings
variable {lead : String} {spec : FileSpec} {vars : List (String × String)}

theorem settings_eq_error_iff {e : Error} :
    settings lead spec vars = .error e ↔ ∃ before v after, vars = before ++ v :: after ∧
      (∀ w ∈ before, ∀ e', ¬Refuses lead spec w e') ∧ Refuses lead spec v e := by
  induction vars with
  | nil => simp [settings]
  | cons v rest ih =>
    rw [settings.eq_2, exists_split_cons_iff, ← ih, ← ofVariable_eq_error_iff]
    simp only [← ofVariable_eq_error_iff]
    cases Setting.ofVariable lead spec v.1 v.2 with
    | error e' => simp
    | ok setting =>
      cases setting with
      | none => simp
      | some s => cases settings lead spec rest <;> simp [Except.map]

theorem exists_settings_iff :
    (∃ found, settings lead spec vars = .ok found) ↔ ∀ v ∈ vars, ∀ e, ¬Refuses lead spec v e :=
  exists_ok_iff_forall_mem (fun _ => Iff.rfl) fun _ => settings_eq_error_iff

open scoped Classical in
/-- The settings for a place are those of the variables that reach it, in their order. -/
theorem forall₂_reaching {found : List Setting} (h : settings lead spec vars = .ok found)
    (place : String ×ₗ Nat) :
    List.Forall₂ (fun v s => s.source = v.1 ∧ Gives lead spec v place s.entries)
      (vars.filter fun v => Reaches lead spec v.1 place)
      (found.filter fun s => s.place = place) := by
  induction vars generalizing found with
  | nil =>
    cases h
    exact List.Forall₂.nil
  | cons v rest ih =>
    rw [settings.eq_2] at h
    split at h
    · cases h
    · rename_i hnone
      have hnot := ofVariable_eq_none_iff.mp hnone place
      rw [List.filter_cons_of_neg (by simpa using hnot)]
      exact ih h
    · rename_i s hs
      obtain ⟨others, hothers, rfl⟩ := map_eq_ok_iff.mp h
      obtain ⟨hsource, hgives⟩ := ofVariable_eq_some_iff.mp hs
      by_cases hplace : s.place = place
      · rw [hplace] at hgives
        rw [List.filter_cons_of_pos (by simpa using hgives.reaches),
          List.filter_cons_of_pos (by simpa using hplace)]
        exact (ih hothers).cons ⟨hsource, hgives⟩
      · have hnot : ¬Reaches lead spec v.1 place :=
          fun hreaches => hplace (hgives.reaches.unique hreaches)
        rw [List.filter_cons_of_neg (by simpa using hnot),
          List.filter_cons_of_neg (by simpa using hplace)]
        exact ih hothers

end Settings

end Environment
end UnitFiles

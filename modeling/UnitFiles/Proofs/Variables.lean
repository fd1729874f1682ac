import Mathlib.Data.List.Sort
import Mathlib.Data.Prod.Lex
import Mathlib.Data.String.Basic
import UnitFiles.Environment
import UnitFiles.Proofs.Validation

/-! What the variables of an environment make up, seen by the names of sections: leaving the
variables of some sections aside leaves those sections out of the document, and changes nothing
else. -/
namespace UnitFiles
open Text

namespace Keyed
variable {α : Type}

/-- Where two ordered lists have the same values under some names, these values are the same
lists. -/
theorem Ordered.filter_eq_filter {m m' : Keyed α} (h : m.Ordered) (h' : m'.Ordered)
    {q : String → Bool} (hget : ∀ name, q name = true → get? name m = get? name m') :
    (m.filter fun p => q p.1) = m'.filter fun p => q p.1 := by
  have : Std.Irrefl fun p q : String × α => p.1 < q.1 := ⟨fun p => String.lt_irrefl p.1⟩
  have : Std.Antisymm fun p q : String × α => p.1 < q.1 :=
    ⟨fun p q hpq hqp => absurd (String.lt_trans hpq hqp) (String.lt_irrefl p.1)⟩
  refine (h.filter _).eq_of_mem_iff (h'.filter _) ?_
  rintro ⟨name, a⟩
  rw [List.mem_filter, List.mem_filter, h.mem_iff, h'.mem_iff]
  exact and_congr_left fun hq => by rw [hget name hq]

end Keyed

namespace Environment
variable {lead : String} {spec : FileSpec}

/-- Whether the name of a variable spells an option of a section of some index. -/
def Addresses (lead variableName sectionName : String) (index : Nat) : Prop :=
  ∃ a, Address.ofName? lead variableName = some a ∧ sameName a.sectionName sectionName = true ∧
    a.index = index

def Setting.place (s : Setting) : String ×ₗ Nat := toLex (s.sectionName, s.index)

theorem Setting.before_iff {s t : Setting} : s.before t = true ↔ s.place < t.place := by
  simp [before, place, Prod.Lex.toLex_lt_toLex]

theorem Setting.same_iff {s t : Setting} :
    (s.sectionName = t.sectionName && s.index = t.index) = true ↔ s.place = t.place := by
  simp [place]

/-- The settings come in order, one for each section. -/
def Ordered (all : List Setting) : Prop := all.Pairwise fun s t => s.place < t.place

theorem addSetting_cons (s t : Setting) (rest : List Setting) :
    addSetting s (t :: rest) =
      if s.place = t.place then { t with entries := t.entries ++ s.entries } :: rest
      else if s.place < t.place then s :: t :: rest
      else t :: addSetting s rest := by
  simp only [addSetting, Setting.same_iff, Setting.before_iff]

theorem place_of_mem_addSetting {s u : Setting} {all : List Setting} (h : u ∈ addSetting s all) :
    u.place = s.place ∨ ∃ t ∈ all, u.place = t.place := by
  induction all with
  | nil =>
    rw [List.mem_singleton.mp h]
    exact Or.inl rfl
  | cons t rest ih =>
    rw [addSetting_cons] at h
    split at h
    · rename_i hsame
      rcases List.mem_cons.mp h with rfl | h
      · exact Or.inl hsame.symm
      · exact Or.inr ⟨u, List.mem_cons_of_mem t h, rfl⟩
    · split at h
      · rcases List.mem_cons.mp h with rfl | h
        · exact Or.inl rfl
        · exact Or.inr ⟨u, h, rfl⟩
      · rcases List.mem_cons.mp h with rfl | h
        · exact Or.inr ⟨u, List.mem_cons_self, rfl⟩
        · refine (ih h).imp_right ?_
          rintro ⟨v, hv, hplace⟩
          exact ⟨v, List.mem_cons_of_mem t hv, hplace⟩

theorem Ordered.addSetting {all : List Setting} (h : Ordered all) (s : Setting) :
    Ordered (addSetting s all) := by
  induction all with
  | nil => exact List.pairwise_singleton _ _
  | cons t rest ih =>
    obtain ⟨hfirst, hrest⟩ := List.pairwise_cons.mp h
    rw [addSetting_cons]
    split
    · exact List.pairwise_cons.mpr ⟨hfirst, hrest⟩
    · split
      · rename_i hlt
        refine List.pairwise_cons.mpr ⟨?_, h⟩
        exact List.forall_mem_cons.mpr ⟨hlt, fun u hu => hlt.trans (hfirst u hu)⟩
      · rename_i hne hnlt
        refine List.pairwise_cons.mpr ⟨?_, ih hrest⟩
        intro u hu
        rcases place_of_mem_addSetting hu with hplace | ⟨v, hv, hplace⟩
        · rw [hplace]
          exact lt_of_le_of_ne (not_lt.mp hnlt) (Ne.symm hne)
        · rw [hplace]
          exact hfirst v hv

theorem addSetting_of_before {s : Setting} {all : List Setting}
    (h : ∀ t ∈ all, s.place < t.place) : addSetting s all = s :: all := by
  cases all with
  | nil => rfl
  | cons t rest =>
    have hlt := h t List.mem_cons_self
    rw [addSetting_cons, if_neg hlt.ne, if_pos hlt]

theorem filter_addSetting (p : String ×ₗ Nat → Bool) {all : List Setting} (h : Ordered all)
    (s : Setting) : ((addSetting s all).filter fun t => p t.place) =
      if p s.place = true then addSetting s (all.filter fun t => p t.place)
      else all.filter fun t => p t.place := by
  induction all with
  | nil =>
    rw [addSetting, List.filter_cons, List.filter_nil]
    rfl
  | cons t rest ih =>
    obtain ⟨hfirst, hrest⟩ := List.pairwise_cons.mp h
    rw [addSetting_cons]
    split
    · rename_i hsame
      have hplace : Setting.place { t with entries := t.entries ++ s.entries } = t.place := rfl
      rw [List.filter_cons, List.filter_cons, hsame, hplace]
      split
      · rw [addSetting_cons, if_pos hsame]
      · rfl
    · split
      · rename_i hlt
        -- what is kept comes later still, so that the setting goes in front of it again
        have hbefore : ∀ u ∈ (t :: rest).filter fun t => p t.place, s.place < u.place := by
          intro u hu
          rcases List.mem_cons.mp (List.mem_filter.mp hu).1 with rfl | hu
          · exact hlt
          · exact hlt.trans (hfirst u hu)
        rw [addSetting_of_before hbefore, List.filter_cons]
      · rename_i hne hnlt
        rw [List.filter_cons, List.filter_cons, ih hrest]
        split
        · split
          · rw [addSetting_cons, if_neg hne, if_neg hnlt]
          · rfl
        · rfl

theorem filter_foldl_addSetting (p : String ×ₗ Nat → Bool) {all : List Setting} (h : Ordered all)
    (found : List Setting) :
    ((found.foldl (fun all s => addSetting s all) all).filter fun t => p t.place) =
      (found.filter fun t => p t.place).foldl (fun all s => addSetting s all)
        (all.filter fun t => p t.place) := by
  induction found generalizing all with
  | nil => rfl
  | cons s rest ih =>
    rw [List.foldl_cons, ih (h.addSetting s), filter_addSetting p h, List.filter_cons]
    split <;> rfl

/-- Leaving aside variables that have no setting, or one that is not kept, keeps the same
settings. -/
theorem exists_settings_filter {q : String → Bool} {p : String → Bool}
    {vars : List (String × String)} {found : List Setting}
    (hq : ∀ name text s, Setting.ofVariable lead spec name text = .ok (some s) → q name = false →
      p s.sectionName = false)
    (h : settings lead spec vars = .ok found) :
    ∃ kept, settings lead spec (vars.filter fun v => q v.1) = .ok kept ∧
      (kept.filter fun s => p s.sectionName) = found.filter fun s => p s.sectionName := by
  induction vars generalizing found with
  | nil => exact ⟨found, h, rfl⟩
  | cons v rest ih =>
    obtain ⟨name, text⟩ := v
    rw [settings] at h
    rw [List.filter_cons]
    cases hv : Setting.ofVariable lead spec name text with
    | error e => simp [hv] at h
    | ok setting =>
      rw [hv] at h
      cases setting with
      | none =>
        obtain ⟨kept, hkept, hfilter⟩ := ih h
        refine ⟨kept, ?_, hfilter⟩
        split
        · rw [settings, hv]
          exact hkept
        · exact hkept
      | some s =>
        obtain ⟨others, hothers, rfl⟩ := map_eq_ok_iff.mp h
        obtain ⟨kept, hkept, hfilter⟩ := ih hothers
        split
        · refine ⟨s :: kept, ?_, ?_⟩
          · rw [settings, hv]
            simp only [hkept]
            rfl
          · rw [List.filter_cons, List.filter_cons, hfilter]
        · rename_i hleft
          refine ⟨kept, hkept, ?_⟩
          rw [List.filter_cons_of_neg (by simp [hq name text s hv (Bool.of_not_eq_true hleft)])]
          exact hfilter

/-- The settings of each section as one, in the order of the document. -/
def arranged (found : List Setting) : List Setting :=
  found.foldl (fun all s => addSetting s all) []

theorem filter_arranged (p : String ×ₗ Nat → Bool) (found : List Setting) :
    ((arranged found).filter fun t => p t.place) = arranged (found.filter fun t => p t.place) :=
  filter_foldl_addSetting p List.Pairwise.nil found

theorem exists_settings_of_read {environment : List (String × String)} {d : Document}
    (h : read lead environment spec = .ok d) :
    ∃ found, settings lead spec (Keyed.ofList environment) = .ok found ∧
      d.sections = (arranged found).map Setting.toSection := by
  rw [read] at h
  split at h
  · cases h
  · rename_i found hfound
    dsimp only at h
    split at h
    · cases h
    · cases h
      exact ⟨found, hfound, rfl⟩

theorem exists_address {name text : String} {s : Setting}
    (h : Setting.ofVariable lead spec name text = .ok (some s)) :
    ∃ a, Address.ofName? lead name = some a ∧ s.sectionName = a.sectionName := by
  rw [Setting.ofVariable] at h
  split at h
  · cases h
  · rename_i a ha
    split at h
    · cases h
    · split at h
      · cases h
      · obtain ⟨values, -, hs⟩ := map_eq_ok_iff.mp h
        cases hs
        exact ⟨a, ha, rfl⟩

/-- Environments that differ in variables of one section make up the same other sections. -/
theorem filter_sections_read {environment environment' : List (String × String)}
    {d d' : Document} {sectionName : String} {index : Nat}
    (h : read lead environment spec = .ok d) (h' : read lead environment' spec = .ok d')
    (hsame : ∀ name, ¬Addresses lead name sectionName index →
      Keyed.get? name (Keyed.ofList environment) = Keyed.get? name (Keyed.ofList environment')) :
    (d.sections.filter fun s => !sameName s.name sectionName) =
      d'.sections.filter fun s => !sameName s.name sectionName := by
  let p : String → Bool := fun name => !sameName name sectionName
  let q : String → Bool := fun name => (Address.ofName? lead name).all fun a => p a.sectionName
  have hleft : ∀ name text s, Setting.ofVariable lead spec name text = .ok (some s) →
      q name = false → p s.sectionName = false := by
    intro name text s hs hname
    obtain ⟨a, ha, hsection⟩ := exists_address hs
    simpa [q, ha, ← hsection] using hname
  have hget : ∀ name, q name = true →
      Keyed.get? name (Keyed.ofList environment) = Keyed.get? name (Keyed.ofList environment') := by
    intro name hname
    apply hsame
    rintro ⟨a, ha, hsection, -⟩
    simp [q, p, ha, hsection] at hname
  -- without the variables of that name, of whatever index, both environments are the same
  have hvars := (Keyed.ordered_ofList environment).filter_eq_filter
    (Keyed.ordered_ofList environment') hget
  obtain ⟨found, hfound, hsections⟩ := exists_settings_of_read h
  obtain ⟨found', hfound', hsections'⟩ := exists_settings_of_read h'
  obtain ⟨kept, hkept, hfilter⟩ := exists_settings_filter hleft hfound
  obtain ⟨kept', hkept', hfilter'⟩ := exists_settings_filter hleft hfound'
  rw [hvars, hkept'] at hkept
  cases hkept
  have hdocument : ∀ all : List Setting,
      ((arranged all).map Setting.toSection).filter (fun s => p s.name) =
        (arranged (all.filter fun t => p t.sectionName)).map Setting.toSection := by
    intro all
    rw [List.filter_map]
    exact congrArg _ (filter_arranged (fun place => p (ofLex place).1) all)
  rw [hsections, hsections', hdocument, hdocument, ← hfilter, ← hfilter']

end Environment
end UnitFiles

import UnitFiles.Merge
import UnitFiles.Proofs.Validation

/-! Merging seen name by name. What a section holds under one name after a merge depends only on
what it held and on what the drop-ins give under that name: one step for each of their sections. -/
namespace UnitFiles
open Text

/-- What the options that a drop-in gives under one name make of those so far. -/
def OptionSpec.overlay (o : OptionSpec) (old : List Entry) : List Entry → List Entry
  | [] => old
  | e :: more =>
    if o.type.isList then if e.value = "" then more else old ++ e :: more else e :: more

/-- What the sections of the drop-ins that name a section make of its options under one name. -/
def OptionSpec.layered (o : OptionSpec) (name option : String) (dropIns : List Section)
    (old : List Entry) : List Entry :=
  (Section.called name dropIns).foldl
    (fun old d => o.overlay old (Entry.named option d.entries)) old

namespace Section

theorem named_remove (s : Section) (key name : String) :
    Entry.named name (s.remove key).entries =
      if sameName key name = true then [] else Entry.named name s.entries := by
  have hboth : ∀ e : Entry, (sameName e.name name && !sameName e.name key) =
      (sameName e.name name && !sameName key name) := by
    intro e
    by_cases h : sameName e.name name = true
    · rw [sameName_comm e.name key, sameName_congr h]
    · simp [h]
  simp only [Entry.named, remove, List.filter_filter, hboth]
  cases sameName key name <;> simp

/-- Merging a group acts on its name only, and there as an overlay. -/
theorem named_mergeGroup (target : Section) (o : OptionSpec) {key : String} {g : Group}
    (hkey : ∀ e ∈ g.entries, sameName e.name key = true) (name : String) :
    Entry.named name (target.mergeGroup o key g).entries =
      if sameName key name = true then o.overlay (Entry.named name target.entries) g.entries
      else Entry.named name target.entries := by
  obtain ⟨first, more⟩ := g
  have hall : Entry.named name (first :: more) =
      if sameName key name = true then first :: more else [] := Entry.named_of_forall hkey
  have hmore : Entry.named name more = if sameName key name = true then more else [] :=
    Entry.named_of_forall fun e he => hkey e (List.mem_cons_of_mem _ he)
  simp only [mergeGroup, Entry.named_append, Group.entries, OptionSpec.overlay]
  by_cases hlist : o.type.isList = true
  · by_cases hclear : first.value = ""
    · simp only [hlist, hclear, named_remove, hmore, decide_true, Bool.and_self, Bool.not_true,
        Bool.and_false, Bool.false_eq_true, if_true, if_false]
      split <;> simp
    · simp only [hlist, hclear, hall, decide_false, Bool.and_false, Bool.not_false, Bool.and_self,
        Bool.false_eq_true, if_true, if_false]
      split <;> simp
  · simp only [hlist, named_remove, hall, Bool.false_and, Bool.false_eq_true, if_false]
    split <;> simp

@[simp] theorem name_mergeGroup (target : Section) (o : OptionSpec) (key : String) (g : Group) :
    (target.mergeGroup o key g).name = target.name := by
  rw [mergeGroup]
  dsimp only
  split <;> rfl

@[simp] theorem name_mergeGroups (spec : SectionSpec) (target : Section)
    (groups : List (String × Group)) : (target.mergeGroups spec groups).1.name = target.name := by
  induction groups generalizing target with
  | nil => rfl
  | cons p rest ih =>
    rw [mergeGroups]
    split
    · rfl
    · rw [ih, name_mergeGroup]

@[simp] theorem name_merge (spec : SectionSpec) (target dropIn : Section) :
    (target.merge spec dropIn).1.name = target.name := name_mergeGroups ..

theorem named_mergeGroups {spec : SectionSpec} {name : String} {o : OptionSpec}
    (ho : spec.get? name = some o) {groups : List (String × Group)} {target merged : Section}
    (hkeys : ∀ p ∈ groups, ∀ e ∈ p.2.entries, sameName e.name p.1 = true)
    (h : target.mergeGroups spec groups = (merged, none)) :
    Entry.named name merged.entries =
      (groups.filter fun p => sameName p.1 name).foldl (fun old p => o.overlay old p.2.entries)
        (Entry.named name target.entries) := by
  induction groups generalizing target with
  | nil =>
    rw [mergeGroups, Prod.mk.injEq] at h
    rw [← h.1]
    rfl
  | cons p rest ih =>
    obtain ⟨key, g⟩ := p
    rw [mergeGroups] at h
    cases hget : spec.get? key with
    | none => simp [hget] at h
    | some a =>
      rw [hget] at h
      have hstep := ih (fun q hq => hkeys q (List.mem_cons_of_mem _ hq)) h
      rw [named_mergeGroup target a (hkeys (key, g) List.mem_cons_self)] at hstep
      rw [hstep, List.filter_cons]
      by_cases hname : sameName key name = true
      · have hao : a = o := by
          rw [SectionSpec.get?_congr hname, ho] at hget
          exact (Option.some.inj hget).symm
        rw [if_pos hname, if_pos hname, List.foldl_cons, hao]
      · rw [if_neg hname, if_neg hname]

theorem named_merge {spec : SectionSpec} {name : String} {o : OptionSpec}
    (ho : spec.get? name = some o) {target dropIn merged : Section}
    (h : target.merge spec dropIn = (merged, none)) :
    Entry.named name merged.entries =
      o.overlay (Entry.named name target.entries) (Entry.named name dropIn.entries) := by
  rw [named_mergeGroups ho Group.sameName_key h, Group.filter_ofEntries]
  cases Entry.named name dropIn.entries <;> rfl

end Section

namespace FileSpec
variable {spec : FileSpec} {sections sections' : List Section}

/-- A section that is merged has exactly one target, which takes in its options; nothing else
changes. -/
theorem mergeInto_eq_ok_iff {dropIn : Section} :
    spec.mergeInto sections dropIn = .ok sections' ↔ ∃ target options merged,
      Section.called dropIn.name sections = [target] ∧ spec.get? dropIn.name = some options ∧
      target.merge options dropIn = (merged, none) ∧
      sections' = sections.map fun s => if sameName s.name dropIn.name then merged else s := by
  simp only [mergeInto, sameName_fold, get?_fold, Section.called]
  cases sections.filter fun s => sameName s.name dropIn.name with
  | nil => simp
  | cons target more =>
    cases more with
    | cons _ _ => simp
    | nil =>
      cases hget : spec.get? dropIn.name with
      | none => simp
      | some options =>
        dsimp only
        rcases hmerge : target.merge options dropIn with ⟨merged, _ | e⟩
        · constructor
          · intro h
            cases h
            exact ⟨target, options, merged, rfl, rfl, hmerge, rfl⟩
          · rintro ⟨_, _, _, htarget, hoptions, h, rfl⟩
            cases htarget
            cases hoptions
            rw [hmerge] at h
            cases h
            rfl
        · constructor
          · intro h
            cases h
          · rintro ⟨_, _, _, htarget, hoptions, h, rfl⟩
            cases htarget
            cases hoptions
            rw [hmerge] at h
            cases h

theorem called_mergeInto {dropIn target merged : Section}
    (htarget : Section.called dropIn.name sections = [target])
    (hmerged : merged.name = target.name) (name : String) :
    Section.called name
        (sections.map fun s => if sameName s.name dropIn.name then merged else s) =
      (Section.called name sections).map fun s =>
        if sameName s.name dropIn.name then merged else s := by
  rw [Section.called, Section.called, List.filter_map]
  congr 1
  apply List.filter_congr
  intro s hs
  by_cases hname : sameName s.name dropIn.name = true
  · have hmem : s ∈ Section.called dropIn.name sections := Section.mem_called.mpr ⟨hs, hname⟩
    rw [htarget, List.mem_singleton] at hmem
    rw [Function.comp, if_pos hname, hmerged, hmem]
  · rw [Function.comp, if_neg hname]

/-- A section with a name of its own takes in the options of a drop-in that names it. -/
theorem mergeInto_unique {dropIn u : Section} {name : String}
    (h : spec.mergeInto sections dropIn = .ok sections') (hu : Section.called name sections = [u]) :
    ∃ u', Section.called name sections' = [u'] ∧
      ∀ options option o, spec.get? name = some options → options.get? option = some o →
        Entry.named option u'.entries =
          if sameName dropIn.name name = true then
            o.overlay (Entry.named option u.entries) (Entry.named option dropIn.entries)
          else Entry.named option u.entries := by
  obtain ⟨target, specs, merged, htarget, hspecs, hmerge, rfl⟩ := mergeInto_eq_ok_iff.mp h
  have hmerged : merged.name = target.name := by
    rw [← Section.name_merge specs target dropIn, hmerge]
  rw [called_mergeInto htarget hmerged, hu]
  have hmem : u ∈ Section.called name sections := hu ▸ List.mem_singleton_self u
  have hname : sameName u.name dropIn.name = sameName dropIn.name name := by
    rw [sameName_comm, sameName_congr (Section.mem_called.mp hmem).2]
  refine ⟨if sameName u.name dropIn.name then merged else u, rfl, ?_⟩
  intro options option o hoptions ho
  rw [hname]
  split
  · rename_i hdrop
    have htu : target = u := by
      rw [Section.called_congr hdrop, hu] at htarget
      exact (List.singleton_inj.mp htarget).symm
    rw [get?_congr hdrop, hoptions] at hspecs
    cases hspecs
    rw [Section.named_merge ho hmerge, htu]
  · rfl

theorem mergeInto_shared {dropIn : Section} {name : String}
    (h : spec.mergeInto sections dropIn = .ok sections')
    (hshared : (Section.called name sections).length ≠ 1) :
    Section.called name sections' = Section.called name sections := by
  obtain ⟨target, specs, merged, htarget, hspecs, hmerge, rfl⟩ := mergeInto_eq_ok_iff.mp h
  have hmerged : merged.name = target.name := by
    rw [← Section.name_merge specs target dropIn, hmerge]
  rw [called_mergeInto htarget hmerged]
  have hother : ∀ s ∈ Section.called name sections, ¬ sameName s.name dropIn.name = true := by
    intro s hs hdrop
    apply hshared
    rw [← Section.called_congr (Section.mem_called.mp hs).2, Section.called_congr hdrop, htarget]
    rfl
  calc (Section.called name sections).map
        (fun s => if sameName s.name dropIn.name then merged else s)
      = (Section.called name sections).map id :=
        List.map_congr_left fun s hs => if_neg (hother s hs)
    _ = Section.called name sections := List.map_id _

/-- A run of merges is, for a section with a name of its own and one of its options, a fold over
the drop-in sections that name it. -/
theorem mergeAll_unique {dropIns : List Section} {u : Section} {name : String}
    (h : spec.mergeAll sections dropIns = .ok sections')
    (hu : Section.called name sections = [u]) :
    ∃ u', Section.called name sections' = [u'] ∧
      ∀ options option o, spec.get? name = some options → options.get? option = some o →
        Entry.named option u'.entries =
          o.layered name option dropIns (Entry.named option u.entries) := by
  induction dropIns generalizing sections u with
  | nil =>
    cases h
    exact ⟨u, hu, fun _ _ _ _ _ => rfl⟩
  | cons d rest ih =>
    rw [mergeAll] at h
    split at h
    · cases h
    · rename_i next hnext
      -- the section stays the only one of its name, so that the later drop-ins find it
      obtain ⟨v, hv, hstep⟩ := mergeInto_unique hnext hu
      obtain ⟨u', hu', hrest⟩ := ih h hv
      refine ⟨u', hu', ?_⟩
      intro options option o hoptions ho
      rw [hrest options option o hoptions ho, hstep options option o hoptions ho]
      simp only [OptionSpec.layered, Section.called, List.filter_cons]
      split <;> rfl

theorem mergeAll_shared {dropIns : List Section} {name : String}
    (h : spec.mergeAll sections dropIns = .ok sections')
    (hshared : (Section.called name sections).length ≠ 1) :
    Section.called name sections' = Section.called name sections := by
  induction dropIns generalizing sections with
  | nil =>
    cases h
    rfl
  | cons d rest ih =>
    rw [mergeAll] at h
    split at h
    · cases h
    · rename_i next hnext
      have hkeep := mergeInto_shared hnext hshared
      rw [ih h (hkeep ▸ hshared), hkeep]

end FileSpec
end UnitFiles

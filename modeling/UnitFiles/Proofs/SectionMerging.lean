import UnitFiles.Proofs.Merging

/-! Merging section by section. Each section of a document takes in the drop-in sections of its
name, one after the other, and nothing else; and under one name it takes in only those that give
that name a value. -/
namespace UnitFiles
open Text

namespace Section
variable {spec : SectionSpec} {target target' : Section} {name : String}

/-- The section with sections of drop-ins merged into it, in order. -/
def mergeEach (spec : SectionSpec) (target : Section) (dropIns : List Section) : Section :=
  dropIns.foldl (fun s d => (s.merge spec d).1) target

@[simp] theorem name_mergeEach (spec : SectionSpec) (target : Section) (dropIns : List Section) :
    (target.mergeEach spec dropIns).name = target.name := by
  induction dropIns generalizing target with
  | nil => rfl
  | cons d rest ih =>
    rw [mergeEach, List.foldl_cons]
    exact (ih _).trans (name_merge spec target d)

/-- What groups make of one name does not depend on what the target has under other names. -/
theorem named_mergeGroups_congr {groups : List (String × Group)}
    (hkeys : ∀ p ∈ groups, ∀ e ∈ p.2.entries, sameName e.name p.1 = true)
    (h : Entry.named name target.entries = Entry.named name target'.entries) :
    Entry.named name (target.mergeGroups spec groups).1.entries =
      Entry.named name (target'.mergeGroups spec groups).1.entries := by
  induction groups generalizing target target' with
  | nil => exact h
  | cons p rest ih =>
    obtain ⟨key, g⟩ := p
    obtain ⟨hkey, hrest⟩ := List.forall_mem_cons.mp hkeys
    simp only [mergeGroups]
    cases spec.get? key with
    | none => exact h
    | some o =>
      apply ih hrest
      rw [named_mergeGroup target o hkey, named_mergeGroup target' o hkey, h]

theorem named_mergeGroups_of_unset {groups : List (String × Group)}
    (hkeys : ∀ p ∈ groups, ∀ e ∈ p.2.entries, sameName e.name p.1 = true)
    (hunset : ∀ p ∈ groups, sameName p.1 name = false) :
    Entry.named name (target.mergeGroups spec groups).1.entries =
      Entry.named name target.entries := by
  induction groups generalizing target with
  | nil => rfl
  | cons p rest ih =>
    obtain ⟨key, g⟩ := p
    obtain ⟨hkey, hrest⟩ := List.forall_mem_cons.mp hkeys
    obtain ⟨hother, hothers⟩ := List.forall_mem_cons.mp hunset
    rw [mergeGroups]
    cases spec.get? key with
    | none => rfl
    | some o =>
      dsimp only
      rw [ih hrest hothers, named_mergeGroup target o hkey, hother]
      rfl

theorem named_merge_congr (dropIn : Section)
    (h : Entry.named name target.entries = Entry.named name target'.entries) :
    Entry.named name (target.merge spec dropIn).1.entries =
      Entry.named name (target'.merge spec dropIn).1.entries :=
  named_mergeGroups_congr Group.sameName_key h

theorem named_merge_of_unset {dropIn : Section} (hunset : dropIn.has name = false) :
    Entry.named name (target.merge spec dropIn).1.entries = Entry.named name target.entries := by
  apply named_mergeGroups_of_unset Group.sameName_key
  rintro ⟨key, g⟩ hp
  rw [← Bool.not_eq_true]
  intro hkey
  have hfirst : sameName g.first.name name = true := by
    rw [← sameName_congr hkey]
    exact Group.sameName_key _ hp g.first g.first_mem
  have hset : g.first ∈ Entry.named name dropIn.entries := by
    rw [← Entry.named_congr hfirst, ← Group.entries_eq_named hp]
    exact g.first_mem
  rw [has_iff.mpr (List.ne_nil_of_mem hset)] at hunset
  cases hunset

/-- Under one name, only the sections count that give it a value. -/
theorem named_mergeEach_filter {dropIns : List Section}
    (h : Entry.named name target.entries = Entry.named name target'.entries) :
    Entry.named name (target.mergeEach spec dropIns).entries =
      Entry.named name (target'.mergeEach spec (dropIns.filter fun d => d.has name)).entries := by
  -- each step changes both sections, and they stay alike under the name only
  induction dropIns generalizing target target' with
  | nil => exact h
  | cons d rest ih =>
    cases hset : d.has name with
    | true =>
      rw [List.filter_cons_of_pos (by simpa using hset)]
      exact ih (named_merge_congr d h)
    | false =>
      rw [List.filter_cons_of_neg (by simp [hset])]
      exact ih ((named_merge_of_unset hset).trans h)

end Section

namespace FileSpec
variable {spec : FileSpec} {sections sections' : List Section}

/-- What becomes of one section of a document when sections of drop-ins are merged into it. -/
def overlaid (spec : FileSpec) (dropIns : List Section) (s : Section) : Section :=
  match spec.get? s.name with
  | none => s
  | some options => s.mergeEach options (Section.called s.name dropIns)

@[simp] theorem name_overlaid (spec : FileSpec) (dropIns : List Section) (s : Section) :
    (spec.overlaid dropIns s).name = s.name := by
  rw [overlaid]
  split
  · rfl
  · exact Section.name_mergeEach ..

theorem overlaid_of_not_called {dropIns : List Section} {s : Section}
    (h : Section.called s.name dropIns = []) : spec.overlaid dropIns s = s := by
  rw [overlaid, h]
  split <;> rfl

theorem overlaid_cons (spec : FileSpec) (d : Section) (dropIns : List Section) (s : Section) :
    spec.overlaid (d :: dropIns) s = spec.overlaid dropIns (spec.overlaid [d] s) := by
  have hsplit : Section.called s.name (d :: dropIns) =
      Section.called s.name [d] ++ Section.called s.name dropIns := List.filter_append [d] dropIns
  rw [overlaid, overlaid.eq_def spec dropIns, name_overlaid, overlaid, hsplit]
  cases spec.get? s.name with
  | none => rfl
  | some options => exact List.foldl_append

theorem mergeInto_eq_map {dropIn : Section} (h : spec.mergeInto sections dropIn = .ok sections') :
    sections' = sections.map (spec.overlaid [dropIn]) := by
  obtain ⟨target, options, merged, htarget, hoptions, hmerge, rfl⟩ := mergeInto_eq_ok_iff.mp h
  apply List.map_congr_left
  intro s hs
  split
  · rename_i hname
    have hmem : s ∈ Section.called dropIn.name sections := Section.mem_called.mpr ⟨hs, hname⟩
    have hcalled : Section.called s.name [dropIn] = [dropIn] := by
      rw [Section.called, List.filter_cons_of_pos (by rw [sameName_comm, hname]), List.filter_nil]
    rw [htarget, List.mem_singleton] at hmem
    rw [overlaid, get?_congr hname, hoptions, hcalled, hmem]
    exact congrArg Prod.fst hmerge.symm
  · rename_i hname
    refine (overlaid_of_not_called ?_).symm
    rw [Section.called, List.filter_cons_of_neg (by rwa [sameName_comm]), List.filter_nil]

theorem mergeAll_eq_map {dropIns : List Section}
    (h : spec.mergeAll sections dropIns = .ok sections') :
    sections' = sections.map (spec.overlaid dropIns) := by
  induction dropIns generalizing sections with
  | nil =>
    cases h
    exact (List.map_id'' (fun s => overlaid_of_not_called rfl) _).symm
  | cons d rest ih =>
    rw [mergeAll] at h
    split at h
    · cases h
    · rename_i next hnext
      rw [ih h, mergeInto_eq_map hnext, List.map_map]
      exact List.map_congr_left fun s _ => (overlaid_cons spec d rest s).symm

theorem mergeDropIns_eq_map {d merged : Document} {dropIns : List Document}
    (h : spec.mergeDropIns d dropIns = .ok merged) :
    merged = { d with
      sections := d.sections.map (spec.overlaid (dropIns.flatMap Document.sections)) } := by
  obtain ⟨sections', hmerge, rfl⟩ := map_eq_ok_iff.mp h
  rw [mergeAll_eq_map hmerge]

end FileSpec
end UnitFiles

import UnitFiles.Proofs.MergedEntries
import UnitFiles.Proofs.Reordering

/-! Merging the same drop-ins again. Where they clear each list that they set, a run of them leaves
of a section what none of them sets, and adds to it what does not depend on the section. So a second
run finds what it added the first time, and puts the same in its place. -/
namespace UnitFiles
open Text

namespace SectionSpec

/-- The drop-in gives each list that it sets an empty first value. -/
def ClearsLists (spec : SectionSpec) (dropIn : Section) : Prop :=
  ∀ e ∈ dropIn.entries, ∀ o, spec.get? e.name = some o → o.type.isList = true →
    (dropIn.values e.name).head? = some ""

instance (spec : SectionSpec) (dropIn : Section) : Decidable (spec.ClearsLists dropIn) :=
  decidable_of_iff
    (∀ e ∈ dropIn.entries, ∀ o ∈ spec.get? e.name, o.type.isList = true →
      (dropIn.values e.name).head? = some "") Iff.rfl

/-- All options of the drop-in are known, and what it sets takes the place of what is there. -/
structure Replacing (spec : SectionSpec) (dropIn : Section) : Prop where
  known : ∀ e ∈ dropIn.entries, spec.has e.name = true
  clears : spec.ClearsLists dropIn

namespace Replacing
variable {spec : SectionSpec} {dropIn : Section}

theorem replaces_eq (h : spec.Replacing dropIn) (name : String) :
    spec.replaces dropIn.entries name = dropIn.has name := by
  rw [Bool.eq_iff_iff, Section.has_iff]
  constructor
  · intro hreplaces hunset
    rw [replaces_of_unset hunset] at hreplaces
    cases hreplaces
  · intro hset
    obtain ⟨e, he⟩ := List.exists_mem_of_ne_nil _ hset
    have hname := Entry.sameName_of_mem_named he
    have hmem := Entry.mem_of_mem_named he
    obtain ⟨o, ho⟩ := Option.isSome_iff_exists.mp (h.known e hmem)
    have hclears := h.clears e hmem o ho
    rw [← replaces_congr hname, replaces, ho]
    rw [Section.values_eq, Entry.named_congr hname] at hclears
    rw [Entry.named_congr hname]
    cases hnamed : Entry.named name dropIn.entries with
    | nil => exact absurd hnamed hset
    | cons first more =>
      rw [hnamed] at hclears
      cases hlist : o.type.isList with
      | false => simp [hlist]
      | true => simpa [hlist] using hclears hlist

theorem entries_merge (h : spec.Replacing dropIn) (target : Section) :
    (target.merge spec dropIn).1.entries =
      (target.entries.filter fun e => !dropIn.has e.name) ++
        dropIn.keys.flatMap (spec.added dropIn.entries) := by
  rw [Section.merge_eq h.known]
  simp only [h.replaces_eq]

end Replacing

end SectionSpec

namespace Section
variable {spec : SectionSpec} {dropIns : List Section}

theorem ext {s t : Section} (hname : s.name = t.name) (hentries : s.entries = t.entries) :
    s = t := by
  obtain ⟨name, entries⟩ := s
  subst hname hentries
  rfl

/-- A run of replacing drop-ins leaves of a section what none of them sets. What it adds is what it
makes of a section without options. -/
theorem entries_mergeEach (h : ∀ d ∈ dropIns, spec.Replacing d) (target : Section) :
    (target.mergeEach spec dropIns).entries =
      (target.entries.filter fun e => !dropIns.any fun d => d.has e.name) ++
        (mergeEach spec ⟨target.name, []⟩ dropIns).entries := by
  induction dropIns generalizing target with
  | nil => simp [mergeEach]
  | cons d rest ih =>
    obtain ⟨hd, hrest⟩ := List.forall_mem_cons.mp h
    have hstep : ∀ s, mergeEach spec s (d :: rest) = mergeEach spec (s.merge spec d).1 rest :=
      fun _ => rfl
    have hboth : ∀ e : Entry,
        (!(rest.any fun d => d.has e.name) && !d.has e.name) =
          !(d :: rest).any fun d => d.has e.name := by
      intro e
      rw [List.any_cons, Bool.not_or, Bool.and_comm]
    rw [hstep, hstep, ih hrest, ih hrest (merge spec ⟨target.name, []⟩ d).1, name_merge, name_merge,
      hd.entries_merge, hd.entries_merge, List.filter_append, List.filter_filter]
    simp only [hboth, List.filter_nil, List.nil_append, List.append_assoc]

theorem exists_has_of_mem_mergeEach (h : ∀ d ∈ dropIns, spec.Replacing d) {name : String}
    {e : Entry} (he : e ∈ (mergeEach spec ⟨name, []⟩ dropIns).entries) :
    ∃ d ∈ dropIns, d.has e.name = true := by
  induction dropIns with
  | nil => cases he
  | cons d rest ih =>
    obtain ⟨hd, hrest⟩ := List.forall_mem_cons.mp h
    have hstep : mergeEach spec ⟨name, []⟩ (d :: rest) =
        mergeEach spec (merge spec ⟨name, []⟩ d).1 rest := rfl
    rw [hstep, entries_mergeEach hrest, name_merge, hd.entries_merge, List.mem_append] at he
    rcases he with he | he
    · rw [List.filter_nil, List.nil_append] at he
      obtain ⟨key, -, hadded⟩ := List.mem_flatMap.mp (List.mem_filter.mp he).1
      have hname := SectionSpec.sameName_of_mem_added hadded
      have hset : e ∈ Entry.named e.name d.entries := by
        rw [Entry.named_congr hname]
        exact SectionSpec.mem_named_of_mem_added hadded
      exact ⟨d, List.mem_cons_self, has_iff.mpr (List.ne_nil_of_mem hset)⟩
    · obtain ⟨d', hd', hset⟩ := ih hrest he
      exact ⟨d', List.mem_cons_of_mem d hd', hset⟩

theorem mergeEach_mergeEach (h : ∀ d ∈ dropIns, spec.Replacing d) (target : Section) :
    (target.mergeEach spec dropIns).mergeEach spec dropIns = target.mergeEach spec dropIns := by
  have hadded : (mergeEach spec ⟨target.name, []⟩ dropIns).entries.filter
      (fun e => !dropIns.any fun d => d.has e.name) = [] := by
    rw [List.filter_eq_nil_iff]
    intro e he
    simpa using exists_has_of_mem_mergeEach h he
  have hentries : ((target.mergeEach spec dropIns).mergeEach spec dropIns).entries =
      (target.mergeEach spec dropIns).entries := by
    rw [entries_mergeEach h (target.mergeEach spec dropIns), entries_mergeEach h target,
      name_mergeEach, List.filter_append, hadded, List.filter_filter, List.append_nil]
    simp only [Bool.and_self]
  have hname : ((target.mergeEach spec dropIns).mergeEach spec dropIns).name =
      (target.mergeEach spec dropIns).name := by
    rw [name_mergeEach]
  exact Section.ext hname hentries

end Section

namespace FileSpec
variable {spec : FileSpec} {d merged : Document} {dropIns : List Document}

def ClearsLists (spec : FileSpec) (dropIns : List Section) : Prop :=
  ∀ s ∈ dropIns, ∀ options, spec.get? s.name = some options → options.ClearsLists s

instance (spec : FileSpec) (dropIns : List Section) : Decidable (spec.ClearsLists dropIns) :=
  decidable_of_iff
    (∀ s ∈ dropIns, ∀ options ∈ spec.get? s.name, options.ClearsLists s) Iff.rfl

/-- Drop-ins that clear each list that they set leave a document as it is when they are merged into
it a second time. -/
theorem mergeDropIns_idempotent (clears : spec.ClearsLists (dropIns.flatMap Document.sections))
    (h : spec.mergeDropIns d dropIns = .ok merged) :
    spec.mergeDropIns merged dropIns = .ok merged := by
  obtain ⟨sections, hfirst, rfl⟩ := map_eq_ok_iff.mp h
  have htakes := exists_mergeAll_eq_ok_iff.mp ⟨sections, hfirst⟩
  obtain ⟨again, hagain⟩ : ∃ again,
      spec.mergeAll sections (dropIns.flatMap Document.sections) = .ok again := by
    rw [exists_mergeAll_eq_ok_iff]
    intro s hs
    exact (takes_of_names (names_mergeAll hfirst)).mpr (htakes s hs)
  have hsame : again = sections := by
    rw [mergeAll_eq_map hagain, mergeAll_eq_map hfirst, List.map_map]
    refine List.map_congr_left fun s _ => ?_
    rw [Function.comp, overlaid, name_overlaid, overlaid]
    cases hoptions : spec.get? s.name with
    | none => rfl
    | some options =>
      refine Section.mergeEach_mergeEach (fun t ht => ?_) s
      obtain ⟨hmem, hname⟩ := Section.mem_called.mp ht
      have hget : spec.get? t.name = some options := (get?_congr hname).trans hoptions
      obtain ⟨-, options', hoptions', hknown⟩ := htakes t hmem
      rw [hget] at hoptions'
      cases hoptions'
      exact ⟨hknown, clears t hmem options hget⟩
  rw [mergeDropIns, hagain, hsame]
  rfl

def clearsTags : Document := ⟨"40-d.conf", [⟨"test", [⟨"tags", ""⟩, ⟨"Count", "9"⟩]⟩]⟩

/-- Two drop-ins set `Tags`, and the later one takes away what the earlier one gives. -/
theorem mergeDropIns_idempotent_tags :
    Sources.sampleSpec.ClearsLists
        ([replacesTags, setsCount, clearsTags].flatMap Document.sections) ∧
      ∃ merged, Sources.sampleSpec.mergeDropIns taggedUnit
          [replacesTags, setsCount, clearsTags] = .ok merged ∧
        merged.sections = [⟨"Test", [⟨"Count", "9"⟩]⟩] ∧
        Sources.sampleSpec.mergeDropIns merged [replacesTags, setsCount, clearsTags] =
          .ok merged := by
  have hclears : Sources.sampleSpec.ClearsLists
      ([replacesTags, setsCount, clearsTags].flatMap Document.sections) := by decide +kernel
  have hmerge : Sources.sampleSpec.mergeDropIns taggedUnit
      [replacesTags, setsCount, clearsTags] = .ok ⟨"web.unit", [⟨"Test", [⟨"Count", "9"⟩]⟩]⟩ := by
    decide +kernel
  exact ⟨hclears, _, hmerge, rfl, mergeDropIns_idempotent hclears hmerge⟩

end FileSpec
end UnitFiles

import Mathlib.Data.List.Sort
import Mathlib.Data.String.Basic
import UnitFiles.Proofs.MergeOutcome
import UnitFiles.Proofs.Precedence

/-! Options of different names in another order. Checks and merges look at the groups of options
only, and the groups are all that the order within each name leaves. A merge tells every other
difference. -/
namespace UnitFiles
open Text

theorem Keyed.Ordered.ext {α : Type} {m m' : Keyed α} (h : m.Ordered) (h' : m'.Ordered)
    (hget : ∀ name, get? name m = get? name m') : m = m' := by
  refine List.Pairwise.eq_of_mem_iff h h' ?_
  rintro ⟨name, a⟩
  rw [h.mem_iff, h'.mem_iff, hget]

namespace Entry

/-- The options of each name are the same ones in the same order. Those of different names may stand
in any order. -/
def Interleaved (es fs : List Entry) : Prop :=
  ∀ key, (es.filter fun e => fold e.name == key) = fs.filter fun e => fold e.name == key

/-- Only names that occur can tell two lists apart. -/
theorem interleaved_iff_forall_mem {es fs : List Entry} :
    Interleaved es fs ↔ ∀ e ∈ es ++ fs, named e.name es = named e.name fs := by
  constructor
  · intro h e _
    rw [← Group.filter_fold_eq_named, h, Group.filter_fold_eq_named]
  · intro h key
    by_cases hkey : ∃ e ∈ es ++ fs, fold e.name = key
    · obtain ⟨e, he, rfl⟩ := hkey
      rw [Group.filter_fold_eq_named, Group.filter_fold_eq_named, h e he]
    · have hnone : ∀ e ∈ es ++ fs, ¬(fold e.name == key) = true := by simpa using hkey
      rw [List.filter_eq_nil_iff.mpr fun e he => hnone e (List.mem_append_left fs he),
        List.filter_eq_nil_iff.mpr fun e he => hnone e (List.mem_append_right es he)]

instance (es fs : List Entry) : Decidable (Interleaved es fs) :=
  decidable_of_iff' _ interleaved_iff_forall_mem

end Entry

namespace Group

theorem get?_ofEntries (key : String) (es : List Entry) :
    Keyed.get? key (ofEntries es) = extend none (es.filter fun e => fold e.name == key) :=
  get?_foldl_add key [] es

theorem extend_none_inj {es fs : List Entry} : extend none es = extend none fs ↔ es = fs := by
  cases es <;> cases fs <;> simp [extend]

/-- The groups tell the options of each name in their order, and nothing else. -/
theorem ofEntries_eq_iff {es fs : List Entry} :
    ofEntries es = ofEntries fs ↔ Entry.Interleaved es fs := by
  constructor
  · intro h key
    rw [← extend_none_inj, ← get?_ofEntries, h, get?_ofEntries]
  · intro h
    refine (ordered_ofEntries es).ext (ordered_ofEntries fs) fun key => ?_
    rw [get?_ofEntries, get?_ofEntries, h key]

end Group

/-- A spec that allows each of the options once, as a string. -/
def SectionSpec.naming (es : List Entry) : SectionSpec := ⟨es.map fun e => { name := e.name }⟩

theorem SectionSpec.exists_get?_naming {es : List Entry} {e : Entry} (h : e ∈ es) :
    ∃ o, (naming es).get? e.name = some o ∧ o.type.isList = false := by
  have hmem : ({ name := e.name } : OptionSpec) ∈ (naming es).options :=
    List.mem_map.mpr ⟨e, h, rfl⟩
  obtain ⟨o, ho⟩ := exists_get? hmem
  obtain ⟨f, -, rfl⟩ := List.mem_map.mp (mem_of_get? ho)
  exact ⟨_, ho, rfl⟩

namespace Section

/-- Merged as strings into a section without options, the options of each name show in their
order. -/
theorem named_merge_naming {es fs : List Entry} (h : ∀ f ∈ fs, f ∈ es) {e : Entry} (he : e ∈ es) :
    Entry.named e.name ((⟨"", []⟩ : Section).merge (.naming es) ⟨"", fs⟩).1.entries =
      Entry.named e.name fs := by
  have hknown : ∀ f ∈ fs, (SectionSpec.naming es).has f.name = true := by
    intro f hf
    obtain ⟨o, ho, -⟩ := SectionSpec.exists_get?_naming (h f hf)
    exact Option.isSome_iff_exists.mpr ⟨o, ho⟩
  obtain ⟨o, ho, hscalar⟩ := SectionSpec.exists_get?_naming he
  rw [named_merge ho (Prod.ext rfl (merge_fault_eq_none_iff.mpr hknown))]
  cases hnamed : Entry.named e.name fs with
  | nil => rfl
  | cons first more => simp [OptionSpec.overlay, hscalar]

theorem interleaved_of_merge {es fs : List Entry}
    (h : ∀ (spec : SectionSpec) (target : Section),
      target.merge spec ⟨"", es⟩ = target.merge spec ⟨"", fs⟩) : Entry.Interleaved es fs := by
  rw [Entry.interleaved_iff_forall_mem]
  intro e he
  rw [← named_merge_naming (fun _ => List.mem_append_left fs) he, h,
    named_merge_naming (fun _ => List.mem_append_right es) he]

end Section

/-- Only the order within each name matters: if that is the same, every check has the same outcome,
with the same failure, and every merge leaves the same section, also where it stops half-way. Any
other difference of two lists shows in some merge. -/
theorem interleaved_iff {es fs : List Entry} :
    Entry.Interleaved es fs ↔ ∀ spec : SectionSpec, spec.checkEntries es = spec.checkEntries fs ∧
      ∀ (target : Section) (name : String),
        target.merge spec ⟨name, es⟩ = target.merge spec ⟨name, fs⟩ := by
  constructor
  · intro h spec
    have hgroups : Group.ofEntries es = Group.ofEntries fs := Group.ofEntries_eq_iff.mpr h
    refine ⟨?_, fun target name => ?_⟩
    · rw [SectionSpec.checkEntries, SectionSpec.checkEntries, hgroups]
    · rw [Section.merge, Section.merge, hgroups]
  · intro h
    exact Section.interleaved_of_merge fun spec target => (h spec).2 target ""

section Sample
open Sources

def nicedOptions : List Entry :=
  [⟨"tags", "a"⟩, ⟨"Nice", "5"⟩, ⟨"COUNT", "6"⟩, ⟨"TAGS", "b"⟩, ⟨"nice", "x"⟩]

def nicedOptionsTurned : List Entry :=
  [⟨"COUNT", "6"⟩, ⟨"Nice", "5"⟩, ⟨"nice", "x"⟩, ⟨"tags", "a"⟩, ⟨"TAGS", "b"⟩]

/-- The merge of either list stops at the unknown `Nice`, with `Count` replaced and no tag added. -/
theorem interleaved_iff_niced :
    Entry.Interleaved nicedOptions nicedOptionsTurned ∧
      sampleOptions.checkEntries nicedOptionsTurned = .error (.context "Nice" .optionNotExists) ∧
      (⟨"Test", [⟨"Count", "1"⟩, ⟨"Tags", "base"⟩]⟩ : Section).merge sampleOptions
          ⟨"TEST", nicedOptionsTurned⟩ =
        (⟨"Test", [⟨"Tags", "base"⟩, ⟨"COUNT", "6"⟩]⟩,
          some (.context "nice" .optionNotExists)) := by
  have hsame : Entry.Interleaved nicedOptions nicedOptionsTurned := by decide +kernel
  obtain ⟨hcheck, hmerge⟩ := interleaved_iff.mp hsame sampleOptions
  refine ⟨hsame, hcheck.symm.trans (by decide +kernel), ?_⟩
  exact (hmerge _ "TEST").symm.trans (by decide +kernel)

end Sample

end UnitFiles

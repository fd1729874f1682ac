import Mathlib.Data.List.Dedup
import Mathlib.Data.List.Sort
import Mathlib.Data.String.Basic
import UnitFiles.Proofs.MergeOutcome
import UnitFiles.Proofs.Precedence

/-! The options of a section once a drop-in is merged into it: those of its own that stay, in their
order, and behind them what the drop-in adds, name by name. No later name removes what an earlier
one has added. -/
namespace UnitFiles
open Text

@[simp] theorem Entry.named_fold (name : String) (es : List Entry) :
    named (fold name) es = named name es := by
  simp only [named, sameName_fold]

namespace SectionSpec

/-- Whether what a drop-in gives under a name takes the place of what is there: always unless the
option is a list, and for a list if the first value is empty. -/
def replaces (spec : SectionSpec) (given : List Entry) (name : String) : Bool :=
  match spec.get? name, Entry.named name given with
  | some o, first :: _ => !o.type.isList || first.value = ""
  | _, _ => false

/-- What a drop-in adds under a name. The empty value in front that clears a list is left out. -/
def added (spec : SectionSpec) (given : List Entry) (name : String) : List Entry :=
  match spec.get? name, Entry.named name given with
  | some o, first :: more => if o.type.isList && first.value = "" then more else first :: more
  | _, _ => []

variable {spec : SectionSpec} {given : List Entry}

theorem replaces_congr {a b : String} (h : sameName a b = true) :
    spec.replaces given a = spec.replaces given b := by
  rw [replaces, replaces, get?_congr h, Entry.named_congr h]

theorem replaces_of_unset {name : String} (h : Entry.named name given = []) :
    spec.replaces given name = false := by
  rw [replaces, h]
  cases spec.get? name <;> rfl

theorem added_of_unset {name : String} (h : Entry.named name given = []) :
    spec.added given name = [] := by
  rw [added, h]
  cases spec.get? name <;> rfl

theorem mem_named_of_mem_added {name : String} {e : Entry} (h : e ∈ spec.added given name) :
    e ∈ Entry.named name given := by
  rw [added] at h
  split at h
  · rename_i first more _ hnamed
    rw [hnamed]
    split at h
    · exact List.mem_cons_of_mem first h
    · exact h
  · cases h

theorem sameName_of_mem_added {name : String} {e : Entry} (h : e ∈ spec.added given name) :
    sameName e.name name = true :=
  Entry.sameName_of_mem_named (mem_named_of_mem_added h)

theorem overlay_eq {name : String} {o : OptionSpec} (ho : spec.get? name = some o)
    (old : List Entry) :
    o.overlay old (Entry.named name given) =
      (if spec.replaces given name then [] else old) ++ spec.added given name := by
  rw [replaces, added, ho]
  cases Entry.named name given with
  | nil => simp [OptionSpec.overlay]
  | cons first more =>
    cases hlist : o.type.isList with
    | false => simp [OptionSpec.overlay, hlist]
    | true => by_cases hclear : first.value = "" <;> simp [OptionSpec.overlay, hlist, hclear]

end SectionSpec

namespace Section
variable {spec : SectionSpec} {target dropIn : Section} {given : List Entry}

/-- The names of the options in lowercase, each once and in increasing order. -/
def keys (s : Section) : List String :=
  (s.entries.map fun e => fold e.name).dedup.insertionSort (· ≤ ·)

theorem mem_keys {s : Section} {key : String} :
    key ∈ s.keys ↔ ∃ e ∈ s.entries, fold e.name = key := by
  simp [keys]

theorem increasing_keys (s : Section) : s.keys.Pairwise (· < ·) := by
  have hnodup : s.keys.Nodup :=
    (List.perm_insertionSort _ _).nodup_iff.mpr (List.nodup_dedup _)
  have hsorted : s.keys.Pairwise (· ≤ ·) := List.pairwise_insertionSort _ _
  refine (hsorted.and hnodup).imp ?_
  intro a b h
  exact Std.lt_of_le_of_ne h.1 h.2

theorem map_fst_ofEntries (s : Section) : (Group.ofEntries s.entries).map Prod.fst = s.keys := by
  refine (List.pairwise_map.mpr (Group.ordered_ofEntries s.entries)).eq_of_mem_iff
    s.increasing_keys ?_
  intro key
  rw [mem_keys, ← Group.exists_mem_ofEntries_iff, List.mem_map]
  constructor
  · rintro ⟨⟨_, g⟩, hg, rfl⟩
    exact ⟨g, hg⟩
  · rintro ⟨g, hg⟩
    exact ⟨(key, g), hg, rfl⟩

theorem fold_of_mem_keys {s : Section} {key : String} (h : key ∈ s.keys) : fold key = key := by
  obtain ⟨e, -, rfl⟩ := mem_keys.mp h
  exact fold_fold e.name

theorem distinct_keys (s : Section) : s.keys.Pairwise fun a b => sameName a b = false := by
  refine s.increasing_keys.imp_of_mem ?_
  intro a b ha hb hlt
  rw [sameName_eq, fold_of_mem_keys ha, fold_of_mem_keys hb, beq_eq_false_iff_ne]
  rintro rfl
  exact String.lt_irrefl a hlt

/-- Merging a group takes out what it replaces and puts behind the rest what it adds. -/
theorem mergeGroup_eq {key : String} {o : OptionSpec} {g : Group} (ho : spec.get? key = some o)
    (hg : g.entries = Entry.named key given) :
    target.mergeGroup o key g = { target with
      entries := (target.entries.filter fun e =>
        !(sameName e.name key && spec.replaces given key)) ++ spec.added given key } := by
  obtain ⟨first, more⟩ := g
  rw [mergeGroup, SectionSpec.replaces, SectionSpec.added, ho, ← hg]
  cases hlist : o.type.isList with
  | false => simp [hlist, remove, Group.entries]
  | true => by_cases hclear : first.value = "" <;> simp [hlist, hclear, Group.entries, remove]

/-- Merging groups with names of their own: what one of them adds no later one removes. -/
theorem mergeGroups_eq {groups : List (String × Group)}
    (hgroups : ∀ p ∈ groups, spec.has p.1 = true ∧ p.2.entries = Entry.named p.1 given)
    (distinct : (groups.map Prod.fst).Pairwise fun a b => sameName a b = false) :
    target.mergeGroups spec groups = ({ target with
      entries := (target.entries.filter fun e => !(groups.map Prod.fst).any fun key =>
        sameName e.name key && spec.replaces given key) ++
          (groups.map Prod.fst).flatMap (spec.added given) }, none) := by
  induction groups generalizing target with
  | nil => simp [mergeGroups]
  | cons p rest ih =>
    obtain ⟨key, g⟩ := p
    obtain ⟨⟨hknown, hg⟩, hrest⟩ := List.forall_mem_cons.mp hgroups
    rw [List.map_cons, List.pairwise_cons] at distinct
    obtain ⟨hkey, hkeys⟩ := distinct
    obtain ⟨o, ho⟩ := Option.isSome_iff_exists.mp hknown
    have hkept : (spec.added given key).filter (fun e => !(rest.map Prod.fst).any fun other =>
        sameName e.name other && spec.replaces given other) = spec.added given key := by
      rw [List.filter_eq_self]
      intro e he
      simp only [Bool.not_eq_true', List.any_eq_false, Bool.and_eq_true, not_and]
      intro other hother hname
      rw [sameName_comm, sameName_congr (SectionSpec.sameName_of_mem_added he), sameName_comm,
        hkey other hother] at hname
      cases hname
    have hremoved : ∀ e : Entry,
        (!(rest.map Prod.fst).any (fun other =>
            sameName e.name other && spec.replaces given other) &&
          !(sameName e.name key && spec.replaces given key)) =
        !(key :: rest.map Prod.fst).any fun other =>
          sameName e.name other && spec.replaces given other := by
      intro e
      rw [List.any_cons, Bool.not_or, Bool.and_comm]
    rw [mergeGroups, ho]
    dsimp only
    rw [mergeGroup_eq ho hg, ih hrest hkeys, List.filter_append, hkept, List.filter_filter,
      List.append_assoc]
    simp only [hremoved, List.map_cons, List.flatMap_cons]

theorem merge_eq (known : ∀ e ∈ dropIn.entries, spec.has e.name = true) :
    target.merge spec dropIn = ({ target with
      entries := (target.entries.filter fun e => !spec.replaces dropIn.entries e.name) ++
        dropIn.keys.flatMap (spec.added dropIn.entries) }, none) := by
  have hgroups : ∀ p ∈ Group.ofEntries dropIn.entries,
      spec.has p.1 = true ∧ p.2.entries = Entry.named p.1 dropIn.entries := by
    rintro ⟨key, g⟩ hg
    obtain ⟨e, he, rfl⟩ := Group.exists_mem_ofEntries_iff.mp ⟨g, hg⟩
    refine ⟨by simp [known e he], ?_⟩
    rw [Group.mem_ofEntries.mp hg, Group.filter_fold_eq_named, Entry.named_fold]
  have hremoved : ∀ e : Entry, (dropIn.keys.any fun key =>
      sameName e.name key && spec.replaces dropIn.entries key) =
        spec.replaces dropIn.entries e.name := by
    intro e
    rw [Bool.eq_iff_iff, List.any_eq_true]
    constructor
    · rintro ⟨key, -, hkey⟩
      obtain ⟨hname, hreplaces⟩ := (Bool.and_eq_true _ _).mp hkey
      rwa [SectionSpec.replaces_congr hname]
    · intro hreplaces
      have hset : Entry.named e.name dropIn.entries ≠ [] := by
        intro hnil
        rw [SectionSpec.replaces_of_unset hnil] at hreplaces
        cases hreplaces
      obtain ⟨f, hf⟩ := List.exists_mem_of_ne_nil _ hset
      have hname : sameName e.name (fold f.name) = true := by
        rw [sameName_fold, sameName_comm]
        exact Entry.sameName_of_mem_named hf
      refine ⟨fold f.name, mem_keys.mpr ⟨f, Entry.mem_of_mem_named hf, rfl⟩, ?_⟩
      rw [hname, ← SectionSpec.replaces_congr hname, hreplaces]
      rfl
  rw [merge, mergeGroups_eq hgroups (by rw [map_fst_ofEntries]; exact distinct_keys dropIn),
    map_fst_ofEntries]
  simp only [hremoved]

/-- A drop-in whose options are all known is merged without failure. Of the target the options stay,
in their order, that the drop-in does not replace. Behind them stands what the drop-in adds, in the
order of the lowercase names and in its own order and spelling under each. So the values of a name
are the old ones, those of the drop-in, or the ones before the others. -/
theorem merge_closed_form (known : ∀ e ∈ dropIn.entries, spec.has e.name = true) :
    ∃ merged, target.merge spec dropIn = (merged, none) ∧ merged.name = target.name ∧
      merged.entries = (target.entries.filter fun e => !spec.replaces dropIn.entries e.name) ++
        dropIn.keys.flatMap (spec.added dropIn.entries) ∧
      ∀ name, merged.values name =
        (if spec.replaces dropIn.entries name then [] else target.values name) ++
          (spec.added dropIn.entries name).map Entry.value := by
  refine ⟨_, merge_eq known, rfl, rfl, fun name => ?_⟩
  have hmerge : target.merge spec dropIn = ((target.merge spec dropIn).1, none) :=
    Prod.ext rfl (merge_fault_eq_none_iff.mpr known)
  have hnamed : Entry.named name (target.merge spec dropIn).1.entries =
      (if spec.replaces dropIn.entries name then [] else Entry.named name target.entries) ++
        spec.added dropIn.entries name := by
    cases hget : spec.get? name with
    | some o =>
      rw [← SectionSpec.overlay_eq hget]
      exact named_merge hget hmerge
    | none =>
      have hunset : Entry.named name dropIn.entries = [] := by
        rw [Entry.named, List.filter_eq_nil_iff]
        intro e he hname
        have hhas := known e he
        rw [SectionSpec.has, SectionSpec.get?_congr hname, hget] at hhas
        cases hhas
      have hhas : dropIn.has name = false := by
        rw [← Bool.not_eq_true, has_iff, not_not]
        exact hunset
      rw [named_merge_of_unset hhas, SectionSpec.replaces_of_unset hunset,
        SectionSpec.added_of_unset hunset, if_neg Bool.false_ne_true, List.append_nil]
  rw [merge_eq known] at hnamed
  rw [values_eq, values_eq, hnamed, List.map_append, apply_ite (List.map Entry.value), List.map_nil]

section Sample
open Sources

def countedSection : Section := ⟨"Test", [⟨"Count", "1"⟩, ⟨"Tags", "base"⟩, ⟨"Sizes", "3"⟩]⟩

/-- Adds to one list, clears another and sets a scalar, in spellings and an order of its own. -/
def mixedDropIn : Section :=
  ⟨"TEST", [⟨"tags", "a"⟩, ⟨"COUNT", "6"⟩, ⟨"Sizes", ""⟩, ⟨"TAGS", "b"⟩, ⟨"sizes", "2"⟩]⟩

theorem merge_closed_form_mixed :
    (∀ e ∈ mixedDropIn.entries, sampleOptions.has e.name = true) ∧
      ∃ merged, countedSection.merge sampleOptions mixedDropIn = (merged, none) ∧
        mixedDropIn.keys = ["count", "sizes", "tags"] ∧
        merged.entries = [⟨"Tags", "base"⟩, ⟨"COUNT", "6"⟩, ⟨"sizes", "2"⟩, ⟨"tags", "a"⟩,
          ⟨"TAGS", "b"⟩] ∧
        merged.values "Tags" = ["base", "a", "b"] := by
  have known : ∀ e ∈ mixedDropIn.entries, sampleOptions.has e.name = true := by decide +kernel
  obtain ⟨merged, hmerge, -, hentries, hvalues⟩ :=
    @merge_closed_form sampleOptions countedSection mixedDropIn known
  exact ⟨known, merged, hmerge, by decide +kernel, hentries.trans (by decide +kernel),
    (hvalues "Tags").trans (by decide +kernel)⟩

end Sample

end Section
end UnitFiles

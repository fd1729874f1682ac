import UnitFiles.Editing
import UnitFiles.Proofs.SectionMerging

/-! Which drop-ins can be merged, what stops the others, and what a merge leaves alone. All of it
depends on the names of the sections only, which no merge changes, so that the last drop-in is
judged by the same document as the first. -/
namespace UnitFiles
open Text

/-- In an ordered list the first one found is the one with the least name. -/
theorem Keyed.Ordered.find?_eq_some_iff {α : Type} {m : Keyed α} (h : m.Ordered)
    {q : String × α → Bool} {p : String × α} :
    m.find? q = some p ↔ p ∈ m ∧ q p = true ∧ ∀ r ∈ m, q r = true → p.1 ≤ r.1 := by
  induction m with
  | nil => simp
  | cons first rest ih =>
    obtain ⟨hfirst, hrest⟩ := List.pairwise_cons.mp h
    cases hq : q first with
    | true =>
      rw [List.find?_cons_of_pos hq, Option.some.injEq]
      constructor
      · rintro rfl
        refine ⟨List.mem_cons_self, hq, ?_⟩
        intro r hr _
        rcases List.mem_cons.mp hr with rfl | hr
        · exact String.le_refl _
        · exact Std.le_of_lt (hfirst r hr)
      · rintro ⟨hp, -, hleast⟩
        rcases List.mem_cons.mp hp with rfl | hp
        · rfl
        · exact absurd (hfirst p hp) (String.not_lt.mpr (hleast first List.mem_cons_self hq))
    | false =>
      rw [List.find?_cons_of_neg (by simp [hq]), ih hrest, List.mem_cons, List.forall_mem_cons]
      constructor
      · rintro ⟨hp, hqp, hleast⟩
        exact ⟨Or.inr hp, hqp, by simp [hq], hleast⟩
      · rintro ⟨rfl | hp, hqp, -, hleast⟩
        · simp [hq] at hqp
        · exact ⟨hp, hqp, hleast⟩

theorem exists_split_cons_iff {α : Type} {P Q : α → Prop} {first : α} {rest : List α} :
    (∃ before a after, first :: rest = before ++ a :: after ∧ (∀ b ∈ before, P b) ∧ Q a) ↔
      Q first ∨ P first ∧
        ∃ before a after, rest = before ++ a :: after ∧ (∀ b ∈ before, P b) ∧ Q a := by
  constructor
  · rintro ⟨_ | ⟨b, before⟩, a, after, heq, hbefore, ha⟩
    · obtain ⟨rfl, -⟩ := List.cons.inj heq
      exact Or.inl ha
    · obtain ⟨rfl, hrest⟩ := List.cons.inj heq
      obtain ⟨hb, hbefore⟩ := List.forall_mem_cons.mp hbefore
      exact Or.inr ⟨hb, before, a, after, hrest, hbefore, ha⟩
  · rintro (h | ⟨h, before, a, after, rfl, hbefore, ha⟩)
    · exact ⟨[], first, rest, rfl, by simp, h⟩
    · exact ⟨first :: before, a, after, rfl, List.forall_mem_cons.mpr ⟨h, hbefore⟩, ha⟩

theorem exists_first_not {α : Type} {P : α → Prop} {l : List α} (h : ¬∀ a ∈ l, P a) :
    ∃ before a after, l = before ++ a :: after ∧ (∀ b ∈ before, P b) ∧ ¬P a := by
  induction l with
  | nil => exact absurd (List.forall_mem_nil P) h
  | cons first rest ih =>
    rw [exists_split_cons_iff]
    by_cases hfirst : P first
    · exact Or.inr ⟨hfirst, ih fun hrest => h (List.forall_mem_cons.mpr ⟨hfirst, hrest⟩)⟩
    · exact Or.inl hfirst

/-- What fails exactly at the first element that is refused succeeds exactly if none is. -/
theorem exists_ok_iff_forall_mem {α β : Type} {P : α → Prop} {Q : α → Error → Prop} {l : List α}
    {r : Except Error β} (hP : ∀ a, P a ↔ ∀ e, ¬Q a e)
    (herror : ∀ e, r = .error e ↔
      ∃ before a after, l = before ++ a :: after ∧ (∀ b ∈ before, P b) ∧ Q a e) :
    (∃ b, r = .ok b) ↔ ∀ a ∈ l, P a := by
  constructor
  · rintro ⟨b, rfl⟩
    by_contra hsome
    obtain ⟨before, a, after, hl, hbefore, ha⟩ := exists_first_not hsome
    obtain ⟨e, he⟩ := not_forall_not.mp (mt (hP a).mpr ha)
    cases (herror e).mpr ⟨before, a, after, hl, hbefore, he⟩
  · intro hall
    cases r with
    | ok b => exact ⟨b, rfl⟩
    | error e =>
      obtain ⟨before, a, after, rfl, -, ha⟩ := (herror e).mp rfl
      exact absurd ha ((hP a).mp (hall a (List.mem_append_right before List.mem_cons_self)) e)

theorem Group.exists_mem_ofEntries_iff {key : String} {es : List Entry} :
    (∃ g, (key, g) ∈ ofEntries es) ↔ ∃ e ∈ es, fold e.name = key := by
  constructor
  · rintro ⟨g, hg⟩
    have hfirst : g.first ∈ Entry.named g.first.name es := entries_eq_named hg ▸ g.first_mem
    exact ⟨g.first, Entry.mem_of_mem_named hfirst, fold_eq_key hg g.first g.first_mem⟩
  · rintro ⟨e, he, rfl⟩
    obtain ⟨g, hg, -⟩ := exists_group he
    exact ⟨g, hg⟩

namespace SectionSpec

@[simp] theorem has_fold (spec : SectionSpec) (name : String) :
    spec.has (fold name) = spec.has name := by
  simp [has]

/-- The first of the unknown names, in lowercase. -/
def LeastUnknown (spec : SectionSpec) (entries : List Entry) (key : String) : Prop :=
  (∃ e ∈ entries, spec.has e.name = false ∧ fold e.name = key) ∧
    ∀ e ∈ entries, spec.has e.name = false → key ≤ fold e.name

end SectionSpec

namespace Section
variable {spec : SectionSpec} {target dropIn : Section}

/-- Whether and where a merge stops does not depend on its target. -/
theorem mergeGroups_fault (spec : SectionSpec) (target : Section) (groups : List (String × Group)) :
    (target.mergeGroups spec groups).2 =
      (groups.find? fun p => !spec.has p.1).map fun p => .context p.1 .optionNotExists := by
  induction groups generalizing target with
  | nil => rfl
  | cons p rest ih =>
    obtain ⟨key, g⟩ := p
    rw [mergeGroups]
    cases hget : spec.get? key with
    | none => simp [SectionSpec.has, hget]
    | some o =>
      dsimp only
      rw [ih, List.find?_cons_of_neg (by simp [SectionSpec.has, hget])]

theorem merge_fault_eq_none_iff :
    (target.merge spec dropIn).2 = none ↔ ∀ e ∈ dropIn.entries, spec.has e.name = true := by
  rw [merge, mergeGroups_fault, Option.map_eq_none_iff, List.find?_eq_none]
  constructor
  · intro h e he
    obtain ⟨g, hg, -⟩ := Group.exists_group he
    simpa using h _ hg
  · rintro h ⟨key, g⟩ hg
    obtain ⟨e, he, rfl⟩ := Group.exists_mem_ofEntries_iff.mp ⟨g, hg⟩
    simp [h e he]

theorem merge_fault_eq_some_iff {fault : Error} :
    (target.merge spec dropIn).2 = some fault ↔
      ∃ key, spec.LeastUnknown dropIn.entries key ∧ .context key .optionNotExists = fault := by
  rw [merge, mergeGroups_fault, Option.map_eq_some_iff]
  simp only [(Group.ordered_ofEntries dropIn.entries).find?_eq_some_iff, Bool.not_eq_true']
  constructor
  · rintro ⟨⟨key, g⟩, ⟨hg, hunknown, hleast⟩, rfl⟩
    obtain ⟨e, he, rfl⟩ := Group.exists_mem_ofEntries_iff.mp ⟨g, hg⟩
    refine ⟨fold e.name, ⟨⟨e, he, by simpa using hunknown, rfl⟩, ?_⟩, rfl⟩
    intro f hf hnone
    obtain ⟨g', hg', -⟩ := Group.exists_group hf
    exact hleast (fold f.name, g') hg' (by simpa using hnone)
  · rintro ⟨key, ⟨⟨e, he, hunknown, rfl⟩, hleast⟩, rfl⟩
    obtain ⟨g, hg, -⟩ := Group.exists_group he
    refine ⟨(fold e.name, g), ⟨hg, by simpa using hunknown, ?_⟩, rfl⟩
    rintro ⟨key, g'⟩ hg' hnone
    obtain ⟨f, hf, rfl⟩ := Group.exists_mem_ofEntries_iff.mp ⟨g', hg'⟩
    exact hleast f hf (by simpa using hnone)

end Section

namespace FileSpec
variable {spec : FileSpec} {sections sections' : List Section}

/-- A drop-in section can be merged: it has one target, and its name and options are known. -/
def Takes (spec : FileSpec) (sections : List Section) (dropIn : Section) : Prop :=
  (Section.called dropIn.name sections).length = 1 ∧
    ∃ options, spec.get? dropIn.name = some options ∧
      ∀ e ∈ dropIn.entries, options.has e.name = true

/-- What stops the merge of a drop-in section. -/
inductive Refuses (spec : FileSpec) (sections : List Section) (dropIn : Section) : Error → Prop
  | noTarget : (Section.called dropIn.name sections).length = 0 →
      Refuses spec sections dropIn (.context (fold dropIn.name) .dropInSectionNotExists)
  | severalTargets : 1 < (Section.called dropIn.name sections).length →
      Refuses spec sections dropIn (.context (fold dropIn.name) .dropInSectionNotAllowed)
  | unknownSection : (Section.called dropIn.name sections).length = 1 →
      spec.get? dropIn.name = none →
      Refuses spec sections dropIn (.context (fold dropIn.name) .dropInSectionNotAllowed)
  | unknownOption {options : SectionSpec} {key : String} :
      (Section.called dropIn.name sections).length = 1 → spec.get? dropIn.name = some options →
      options.LeastUnknown dropIn.entries key →
      Refuses spec sections dropIn
        (.context (fold dropIn.name) (.context key .optionNotExists))

theorem exists_mergeInto_eq_ok_iff {dropIn : Section} :
    (∃ next, spec.mergeInto sections dropIn = .ok next) ↔ spec.Takes sections dropIn := by
  simp only [mergeInto_eq_ok_iff, Takes, List.length_eq_one_iff]
  constructor
  · rintro ⟨_, target, options, merged, htarget, hoptions, hmerge, -⟩
    have hknown := Section.merge_fault_eq_none_iff.mp (congrArg Prod.snd hmerge)
    exact ⟨⟨target, htarget⟩, options, hoptions, hknown⟩
  · rintro ⟨⟨target, htarget⟩, options, hoptions, hknown⟩
    exact ⟨_, target, options, (target.merge options dropIn).1, htarget, hoptions,
      Prod.ext rfl (Section.merge_fault_eq_none_iff.mpr hknown), rfl⟩

theorem refuses_of_mergeInto_eq_error {dropIn : Section} {e : Error}
    (h : spec.mergeInto sections dropIn = .error e) : spec.Refuses sections dropIn e := by
  have hcalled : (sections.filter fun s => sameName s.name dropIn.name) =
      Section.called dropIn.name sections := rfl
  simp only [mergeInto, sameName_fold, get?_fold, hcalled] at h
  split at h
  · rename_i hnone
    cases h
    exact .noTarget (by simp [hnone])
  · rename_i target htarget
    have hone : (Section.called dropIn.name sections).length = 1 := by simp [htarget]
    split at h
    · rename_i hnone
      cases h
      exact .unknownSection hone hnone
    · rename_i options hoptions
      split at h
      · rename_i fault hmerge
        cases h
        obtain ⟨key, hkey, rfl⟩ := Section.merge_fault_eq_some_iff.mp (congrArg Prod.snd hmerge)
        exact .unknownOption hone hoptions hkey
      · cases h
  · rename_i hnone hseveral
    cases h
    apply Refuses.severalTargets
    rcases hlist : Section.called dropIn.name sections with _ | ⟨target, _ | ⟨other, rest⟩⟩
    · exact absurd hlist hnone
    · exact absurd hlist (hseveral target)
    · simp

theorem Refuses.mergeInto_eq_error {dropIn : Section} {e : Error}
    (h : spec.Refuses sections dropIn e) : spec.mergeInto sections dropIn = .error e := by
  have hcalled : (sections.filter fun s => sameName s.name dropIn.name) =
      Section.called dropIn.name sections := rfl
  simp only [mergeInto, sameName_fold, get?_fold, hcalled]
  rcases h with h | h | ⟨h, hnone⟩ | ⟨h, hoptions, hkey⟩
  · rw [List.length_eq_zero_iff.mp h]
  · rcases hlist : Section.called dropIn.name sections with _ | ⟨target, _ | ⟨other, rest⟩⟩
    · simp [hlist] at h
    · simp [hlist] at h
    · rfl
  · obtain ⟨target, htarget⟩ := List.length_eq_one_iff.mp h
    rw [htarget, hnone]
  · obtain ⟨target, htarget⟩ := List.length_eq_one_iff.mp h
    rw [htarget, hoptions]
    have hfault := (@Section.merge_fault_eq_some_iff _ target _ _).mpr ⟨_, hkey, rfl⟩
    obtain ⟨merged, hmerge⟩ : ∃ merged, target.merge _ dropIn = (merged, some _) :=
      ⟨_, Prod.ext rfl hfault⟩
    simp [hmerge]

theorem mergeInto_eq_error_iff {dropIn : Section} {e : Error} :
    spec.mergeInto sections dropIn = .error e ↔ spec.Refuses sections dropIn e :=
  ⟨refuses_of_mergeInto_eq_error, Refuses.mergeInto_eq_error⟩

theorem names_mergeInto {dropIn : Section} (h : spec.mergeInto sections dropIn = .ok sections') :
    sections'.map Section.name = sections.map Section.name := by
  rw [mergeInto_eq_map h, List.map_map]
  exact List.map_congr_left fun s _ => spec.name_overlaid [dropIn] s

section Names
variable (h : sections'.map Section.name = sections.map Section.name)
include h

theorem length_called_of_names (name : String) :
    (Section.called name sections').length = (Section.called name sections).length := by
  have hcount : ∀ all : List Section, (Section.called name all).length =
      ((all.map Section.name).filter fun n => sameName n name).length := by
    intro all
    rw [List.filter_map, List.length_map]
    rfl
  rw [hcount, hcount, h]

theorem takes_of_names {dropIn : Section} :
    spec.Takes sections' dropIn ↔ spec.Takes sections dropIn := by
  rw [Takes, Takes, length_called_of_names h]

theorem Refuses.of_names {dropIn : Section} {e : Error}
    (hrefuses : spec.Refuses sections' dropIn e) : spec.Refuses sections dropIn e := by
  have hlength := length_called_of_names h dropIn.name
  rcases hrefuses with hcount | hcount | ⟨hcount, hnone⟩ | ⟨hcount, hoptions, hkey⟩ <;>
    rw [hlength] at hcount
  · exact .noTarget hcount
  · exact .severalTargets hcount
  · exact .unknownSection hcount hnone
  · exact .unknownOption hcount hoptions hkey

theorem refuses_of_names {dropIn : Section} {e : Error} :
    spec.Refuses sections' dropIn e ↔ spec.Refuses sections dropIn e :=
  ⟨Refuses.of_names h, Refuses.of_names h.symm⟩

end Names

theorem names_mergeAll {dropIns : List Section}
    (h : spec.mergeAll sections dropIns = .ok sections') :
    sections'.map Section.name = sections.map Section.name := by
  rw [mergeAll_eq_map h, List.map_map]
  exact List.map_congr_left fun s _ => spec.name_overlaid dropIns s

theorem getElem?_mergeAll {dropIns : List Section} {s : Section} {i : Nat}
    (h : spec.mergeAll sections dropIns = .ok sections') (hs : sections[i]? = some s)
    (hother : ∀ d ∈ dropIns, sameName s.name d.name = false) : sections'[i]? = some s := by
  rw [mergeAll_eq_map h, List.getElem?_map, hs, Option.map_some, overlaid_of_not_called]
  rw [Section.called, List.filter_eq_nil_iff]
  intro d hd
  rw [sameName_comm, hother d hd]
  exact Bool.false_ne_true

theorem mergeAll_eq_error_iff {dropIns : List Section} {e : Error} :
    spec.mergeAll sections dropIns = .error e ↔
      ∃ before d after, dropIns = before ++ d :: after ∧
        (∀ b ∈ before, spec.Takes sections b) ∧ spec.Refuses sections d e := by
  induction dropIns generalizing sections with
  | nil => simp [mergeAll]
  | cons first rest ih =>
    rw [mergeAll, exists_split_cons_iff, ← mergeInto_eq_error_iff, ← exists_mergeInto_eq_ok_iff]
    cases hstep : spec.mergeInto sections first with
    | error fault => simp
    | ok next =>
      -- the later drop-ins see other sections, but the same names
      have hnames := names_mergeInto hstep
      simp [ih, takes_of_names hnames, refuses_of_names hnames]

theorem takes_iff {dropIn : Section} :
    spec.Takes sections dropIn ↔ ∀ e, ¬spec.Refuses sections dropIn e := by
  simp only [← exists_mergeInto_eq_ok_iff, ← mergeInto_eq_error_iff]
  cases spec.mergeInto sections dropIn with
  | error e => simp
  | ok merged => simp

theorem exists_mergeAll_eq_ok_iff {dropIns : List Section} :
    (∃ merged, spec.mergeAll sections dropIns = .ok merged) ↔
      ∀ d ∈ dropIns, spec.Takes sections d :=
  exists_ok_iff_forall_mem (fun _ => takes_iff) fun _ => mergeAll_eq_error_iff

theorem mergeAll_append (spec : FileSpec) (sections : List Section) (ds es : List Section) :
    spec.mergeAll sections (ds ++ es) =
      spec.mergeAll sections ds >>= fun merged => spec.mergeAll merged es := by
  induction ds generalizing sections with
  | nil => rfl
  | cons d rest ih =>
    rw [List.cons_append, mergeAll, mergeAll]
    cases spec.mergeInto sections d with
    | error e => rfl
    | ok next => exact ih next

/-- Drop-ins are merged exactly when each of their sections can be merged into the document as it
was at first. The first one that cannot be tells the failure, and the document stays as it was.
Merging keeps the names of the sections and all sections that no drop-in names, and may be done in
two parts. -/
theorem mergeDropIns_outcome (spec : FileSpec) (d : Document) (dropIns : List Document) :
    ((∃ merged, spec.mergeDropIns d dropIns = .ok merged) ↔
      ∀ s ∈ dropIns.flatMap Document.sections, spec.Takes d.sections s) ∧
    (∀ e, spec.mergeDropIns d dropIns = .error e ↔
      ∃ before s after, dropIns.flatMap Document.sections = before ++ s :: after ∧
        (∀ b ∈ before, spec.Takes d.sections b) ∧ spec.Refuses d.sections s e) ∧
    (∀ e, spec.mergeDropIns d dropIns = .error e →
      Step.runAll spec d [.merge dropIns] = [(.error (.failed e), d)]) ∧
    (∀ merged, spec.mergeDropIns d dropIns = .ok merged → merged.path = d.path ∧
      merged.sections.map Section.name = d.sections.map Section.name ∧
      ∀ (i : Nat) (s : Section), d.sections[i]? = some s →
        (∀ t ∈ dropIns.flatMap Document.sections, sameName s.name t.name = false) →
        merged.sections[i]? = some s) ∧
    ∀ more, spec.mergeDropIns d (dropIns ++ more) =
      spec.mergeDropIns d dropIns >>= fun merged => spec.mergeDropIns merged more := by
  refine ⟨?_, ?_, ?_, ?_, ?_⟩
  · rw [← exists_mergeAll_eq_ok_iff]
    simp only [mergeDropIns, map_eq_ok_iff]
    constructor
    · rintro ⟨_, sections, h, -⟩
      exact ⟨sections, h⟩
    · rintro ⟨sections, h⟩
      exact ⟨_, sections, h, rfl⟩
  · intro e
    rw [← mergeAll_eq_error_iff, mergeDropIns]
    cases spec.mergeAll d.sections (dropIns.flatMap Document.sections) <;> simp [Except.map]
  · intro e h
    simp [Step.runAll, Step.run, Step.change, h]
  · intro merged h
    obtain ⟨sections, hmerge, rfl⟩ := map_eq_ok_iff.mp h
    exact ⟨rfl, names_mergeAll hmerge, fun i s hs hother => getElem?_mergeAll hmerge hs hother⟩
  · intro more
    rw [mergeDropIns, List.flatMap_append, mergeAll_append, mergeDropIns]
    cases spec.mergeAll d.sections (dropIns.flatMap Document.sections) <;> rfl

end FileSpec
end UnitFiles

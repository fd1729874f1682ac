import UnitFiles.Proofs.Validation

/-! Names that are the same but for letter case. To compare names and to look their lowercase forms
up in a map comes to one thing: both tell the same options, option specs and section specs apart. -/
namespace UnitFiles
open Text

def Group.under (key : String) (es : List Entry) : List Entry :=
  ((Keyed.get? key (ofEntries es)).map entries).getD []

/-- Nothing that is selected by its name can tell two spellings of it apart. -/
structure Interchangeable (a b : String) : Prop where
  values : ∀ s : Section, s.values a = s.values b
  remove : ∀ s : Section, s.remove a = s.remove b
  option : ∀ spec : SectionSpec, spec.get? a = spec.get? b
  options : ∀ spec : FileSpec, spec.get? a = spec.get? b

theorem sameName_fold_left (a b : String) : sameName (fold a) b = sameName a b := by
  rw [sameName_comm, sameName_fold, sameName_comm]

theorem sameName_equivalence : Equivalence fun a b => sameName a b = true where
  refl := sameName_refl
  symm h := (sameName_comm _ _).trans h
  trans hab hbc := sameName_iff.mpr ((sameName_iff.mp hab).trans (sameName_iff.mp hbc))

/-- One option alone already tells names that are not the same apart. -/
theorem sameName_iff_interchangeable {a b : String} :
    sameName a b = true ↔ Interchangeable a b := by
  constructor
  · intro h
    exact {
      values := fun s => by simp only [Section.values, sameName_congr h]
      remove := fun s => by simp only [Section.remove, sameName_congr h]
      option := fun _ => SectionSpec.get?_congr h
      options := fun _ => FileSpec.get?_congr h }
  · intro h
    have hvalues := h.values ⟨"", [⟨a, ""⟩]⟩
    by_contra hne
    simp [Section.values, hne] at hvalues

namespace Group

theorem under_eq_filter (key : String) (es : List Entry) :
    under key es = es.filter fun e => fold e.name == key := by
  rw [under, ofEntries, get?_foldl_add]
  cases es.filter fun e => fold e.name == key <;> rfl

/-- Only lowercase keys have options under them, and these are the options of that name. -/
theorem under_eq (key : String) (es : List Entry) :
    under key es = if fold key = key then Entry.named key es else [] := by
  rw [under_eq_filter]
  split
  · rename_i hkey
    rw [← filter_fold_eq_named, hkey]
  · rename_i hkey
    rw [List.filter_eq_nil_iff]
    intro e _ he
    exact hkey (by rw [← beq_iff_eq.mp he, fold_fold])

theorem under_fold (name : String) (es : List Entry) :
    under (fold name) es = Entry.named name es := by
  rw [under_eq_filter, filter_fold_eq_named]

end Group

/-- What is removed under a name is what is grouped under its key. -/
theorem Section.remove_entries (s : Section) (name : String) :
    (s.remove name).entries = s.entries.filter fun e => e ∉ Group.under (fold name) s.entries := by
  refine List.filter_congr fun e he => ?_
  simp [Group.under_fold, Entry.named, he]

theorem Section.has_eq_isSome (s : Section) (name : String) :
    s.has name = (Keyed.get? (fold name) (Group.ofEntries s.entries)).isSome := by
  have hnone := @Group.get?_ofEntries_isNone name s.entries
  rw [Bool.eq_iff_iff, has_iff, ← Option.not_isNone, Bool.not_eq_true', ne_eq, ← hnone,
    Bool.not_eq_true]

theorem SectionSpec.get?_eq_find? (spec : SectionSpec) (name : String) :
    spec.get? name = spec.options.find? fun o => fold o.name == fold name := by
  simp only [get?, sameName_eq]

namespace FileSpec

theorem find?_put {key name : String} (h : sameName key name = false) (s : SectionSpec)
    (m : Keyed SectionSpec) : ((Keyed.put key s m).find? fun p => sameName p.1 name) =
      m.find? fun p => sameName p.1 name := by
  induction m with
  | nil => simp [Keyed.put, h]
  | cons p rest ih =>
    obtain ⟨n, t⟩ := p
    rw [Keyed.put]
    split
    · rename_i he
      simp [← he, h]
    · split
      · simp [h]
      · rw [List.find?_cons, List.find?_cons, ih]

/-- An insertion counts for all spellings of its name and for no other name. -/
theorem get?_insert (spec : FileSpec) (name : String) (s : SectionSpec) (other : String) :
    (spec.insert name s).get? other = if sameName name other then some s else spec.get? other := by
  rw [get?, insert]
  split
  · rename_i hsame
    rw [← sameName_iff.mp hsame, Keyed.get?_put_self]
    rfl
  · rename_i hother
    have hkey : fold other ≠ fold name := fun he => hother (sameName_iff.mpr he.symm)
    have hfold : sameName (fold name) other = false := by
      rwa [sameName_fold_left, ← Bool.not_eq_true]
    rw [Keyed.get?_put_of_ne hkey, find?_put hfold, get?]

end FileSpec

/-- Letter case is one equivalence throughout. Names are the same exactly if their lowercase forms
are, which lowering leaves as they are, and exactly if nothing that is selected by name tells them
apart. So the group of a key has the options of each spelling of the key, a removal takes out that
group, and a spec finds by its keys what it finds by comparing names. -/
theorem sameName_throughout :
    (∀ a b, (sameName a b = true ↔ fold a = fold b) ∧ (sameName a b = true ↔ Interchangeable a b)) ∧
    (∀ a, fold (fold a) = fold a) ∧
    (∀ a b, sameName (fold a) b = sameName a b) ∧
    (Equivalence fun a b => sameName a b = true) ∧
    (∀ (s : Section) (name : String),
      s.values name = (Group.under (fold name) s.entries).map Entry.value ∧
      s.has name = (Keyed.get? (fold name) (Group.ofEntries s.entries)).isSome ∧
      (s.remove name).entries =
        s.entries.filter fun e => e ∉ Group.under (fold name) s.entries) ∧
    (∀ key es, Group.under key es = if fold key = key then Entry.named key es else []) ∧
    (∀ (spec : SectionSpec) (name : String),
      spec.get? name = spec.options.find? fun o => fold o.name == fold name) ∧
    ∀ (spec : FileSpec) (name : String) (s : SectionSpec) (other : String),
      (spec.insert name s).get? other =
        if sameName name other then some s else spec.get? other := by
  refine ⟨fun a b => ⟨sameName_iff, sameName_iff_interchangeable⟩, fold_fold, sameName_fold_left,
    sameName_equivalence, fun s name => ⟨?_, s.has_eq_isSome name, s.remove_entries name⟩,
    Group.under_eq, SectionSpec.get?_eq_find?, FileSpec.get?_insert⟩
  rw [Group.under_fold, Section.values_eq]

/-- The Kelvin sign is a spelling of an ASCII letter; a capital sigma at the end of a word is not
one of a small sigma. -/
example : sameName "\u212aelvin" "kELVIN" = true ∧ sameName "ΟΔΟΣ" "οδος" = true ∧
    sameName "ΟΔΟΣ" "οδοσ" = false := by decide +kernel

end UnitFiles

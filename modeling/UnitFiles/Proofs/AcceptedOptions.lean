import UnitFiles.Proofs.Validation

/-! Which option lists a spec accepts, said of each option by itself: of the first spec with its
name, of the other options with that name, and of its value. The check goes through the options in
groups; nothing of the groups is left in what it accepts. -/
namespace UnitFiles
open Text

namespace Entry

theorem mem_named_iff {name : String} {es : List Entry} {e : Entry} :
    e ∈ named name es ↔ e ∈ es ∧ fold e.name = fold name := by
  rw [named, List.mem_filter, sameName_iff]

theorem length_named (name : String) (es : List Entry) :
    (named name es).length = es.countP fun e => fold e.name = fold name := by
  rw [named, ← List.countP_eq_length_filter]
  exact List.countP_congr fun e _ => by rw [sameName_iff, decide_eq_true_eq]

end Entry

namespace SectionSpec
variable {spec : SectionSpec} {name : String} {o : OptionSpec} {es : List Entry}

/-- The option is the first one of the spec with a name. Others of that name may come behind it. -/
def IsFirst (spec : SectionSpec) (name : String) (o : OptionSpec) : Prop :=
  ∃ before after, spec.options = before ++ o :: after ∧ fold o.name = fold name ∧
    ∀ p ∈ before, fold p.name ≠ fold name

/-- The option lists that fit a spec. -/
structure Accepts (spec : SectionSpec) (es : List Entry) : Prop where
  known : ∀ e ∈ es, ∃ o, spec.IsFirst e.name o
  once : ∀ e ∈ es, ∀ o, spec.IsFirst e.name o → o.type.isList = false →
    (es.countP fun f => fold f.name = fold o.name) ≤ 1
  fitting : ∀ e ∈ es, ∀ o, spec.IsFirst e.name o →
    o.type.check e.value = .ok () ∧ (o.required = true → e.value ≠ "")
  complete : ∀ o ∈ spec.options, o.required = true → ∃ e ∈ es, fold e.name = fold o.name

theorem get?_eq_some_iff : spec.get? name = some o ↔ spec.IsFirst name o := by
  rw [get?, List.find?_eq_some_iff_append, sameName_iff]
  constructor
  · rintro ⟨hname, before, after, hoptions, hbefore⟩
    refine ⟨before, after, hoptions, hname, fun p hp heq => ?_⟩
    have hother := hbefore p hp
    rw [sameName_iff.mpr heq] at hother
    cases hother
  · rintro ⟨before, after, hoptions, hname, hbefore⟩
    refine ⟨hname, before, after, hoptions, fun p hp => ?_⟩
    rw [Bool.not_eq_true', ← Bool.not_eq_true, sameName_iff]
    exact hbefore p hp

theorem IsFirst.fold_eq (h : spec.IsFirst name o) : fold o.name = fold name := by
  obtain ⟨-, -, -, hname, -⟩ := h
  exact hname

/-- The values of an option pass exactly when there are no more of them than the option takes and
each of them passes by itself. Whether a required option has a value at all is asked elsewhere. -/
theorem checkValues_named_iff (ho : spec.IsFirst name o) (hset : Entry.named name es ≠ []) :
    o.checkValues ((Entry.named name es).map Entry.value) = .ok () ↔
      (o.type.isList = false → (es.countP fun f => fold f.name = fold o.name) ≤ 1) ∧
        ∀ f ∈ Entry.named name es,
          o.type.check f.value = .ok () ∧ (o.required = true → f.value ≠ "") := by
  have hvalues : (Entry.named name es).map Entry.value ≠ [] := by simpa using hset
  rw [OptionSpec.checkValues_eq_ok_iff, List.length_map, Entry.length_named, ho.fold_eq,
    List.forall_mem_map]
  simp only [OptionSpec.checkValue_eq_ok_iff, hvalues, ne_eq, not_false_eq_true, implies_true,
    true_and, and_comm]

/-- The check accepts exactly the option lists that fit the spec, with options in any spelling and
any order and with options of the spec that shadow others. -/
theorem checkEntries_accepts (spec : SectionSpec) (es : List Entry) :
    spec.checkEntries es = .ok () ↔ spec.Accepts es := by
  rw [checkEntries_eq_ok_iff]
  constructor
  · rintro ⟨hvalid, hcomplete⟩
    have hpasses : ∀ e ∈ es, ∀ o, spec.IsFirst e.name o →
        o.checkValues ((Entry.named e.name es).map Entry.value) = .ok () := by
      intro e he o ho
      obtain ⟨found, hfound, hcheck⟩ := hvalid e he
      rw [get?_eq_some_iff.mpr ho] at hfound
      cases hfound
      exact hcheck
    have hset : ∀ e ∈ es, Entry.named e.name es ≠ [] :=
      fun e he => List.ne_nil_of_mem (Entry.mem_named_self he)
    constructor
    · intro e he
      obtain ⟨o, ho, -⟩ := hvalid e he
      exact ⟨o, get?_eq_some_iff.mp ho⟩
    · intro e he o ho
      exact ((checkValues_named_iff ho (hset e he)).mp (hpasses e he o ho)).1
    · intro e he o ho
      exact ((checkValues_named_iff ho (hset e he)).mp (hpasses e he o ho)).2 e
        (Entry.mem_named_self he)
    · intro o ho hrequired
      obtain ⟨e, he⟩ := List.exists_mem_of_ne_nil _ (hcomplete o ho hrequired)
      exact ⟨e, Entry.mem_named_iff.mp he⟩
  · rintro ⟨known, once, fitting, complete⟩
    refine ⟨fun e he => ?_, fun o ho hrequired => ?_⟩
    · obtain ⟨o, ho⟩ := known e he
      refine ⟨o, get?_eq_some_iff.mpr ho, ?_⟩
      rw [checkValues_named_iff ho (List.ne_nil_of_mem (Entry.mem_named_self he))]
      refine ⟨once e he o ho, fun f hf => ?_⟩
      -- an option of the same name has the same first spec
      obtain ⟨hf, hname⟩ := Entry.mem_named_iff.mp hf
      rw [← get?_eq_some_iff, ← get?_congr (sameName_iff.mpr hname), get?_eq_some_iff] at ho
      exact fitting f hf o ho
    · obtain ⟨e, he, hname⟩ := complete o ho hrequired
      exact List.ne_nil_of_mem (Entry.mem_named_iff.mpr ⟨he, hname⟩)

end SectionSpec
end UnitFiles

import Mathlib.Data.List.Forall2
import Mathlib.Data.List.Pairwise
import UnitFiles.Proofs.Groups

/-! What a check accepts, option by option, and what the defaults add. The default of a name is
that of the first option of the spec that may stand in for it. -/
namespace UnitFiles
open Text

theorem within_eq_ok_iff {α : Type} {place : String} {result : Except Error α} {a : α} :
    within place result = .ok a ↔ result = .ok a := by
  cases result <;> simp [within, Except.mapError]

theorem map_eq_ok_iff {α β : Type} {f : α → β} {result : Except Error α} {b : β} :
    result.map f = .ok b ↔ ∃ a, result = .ok a ∧ f a = b := by
  cases result <;> simp [Except.map]

theorem exists_of_mem_forall₂ {α β : Type} {R : α → β → Prop} {l : List α} {l' : List β}
    (h : List.Forall₂ R l l') {b : β} (hb : b ∈ l') : ∃ a ∈ l, R a b := by
  induction h with
  | nil => cases hb
  | cons hR _ ih =>
    rcases List.mem_cons.mp hb with rfl | hb
    · exact ⟨_, List.mem_cons_self, hR⟩
    · obtain ⟨a, ha, hR⟩ := ih hb
      exact ⟨a, List.mem_cons_of_mem _ ha, hR⟩

theorem map_eq_map_iff_forall₂ {α β γ : Type} {f : α → γ} {g : β → γ} {l : List α}
    {l' : List β} : l.map f = l'.map g ↔ List.Forall₂ (fun a b => f a = g b) l l' := by
  rw [← List.forall₂_eq_eq_eq, List.forall₂_map_left_iff, List.forall₂_map_right_iff]

theorem mapAll_eq_ok_iff {α β : Type} {f : α → Except Error β} {l : List α} {l' : List β} :
    mapAll f l = .ok l' ↔ List.Forall₂ (fun a b => f a = .ok b) l l' := by
  induction l generalizing l' with
  | nil => simp [mapAll, eq_comm]
  | cons a rest ih =>
    rw [mapAll]
    cases hfa : f a with
    | error e =>
      simp only [reduceCtorEq, false_iff]
      intro h
      cases h with
      | cons h _ => rw [hfa] at h; cases h
    | ok b =>
      dsimp only
      rw [map_eq_ok_iff]
      constructor
      · rintro ⟨bs, hbs, rfl⟩
        exact List.Forall₂.cons hfa (ih.mp hbs)
      · intro h
        cases h with
        | cons h hrest =>
          rw [hfa] at h
          cases h
          exact ⟨_, ih.mpr hrest, rfl⟩

theorem mapAll_append {α β : Type} (f : α → Except Error β) (l l' : List α) :
    mapAll f (l ++ l') = (mapAll f l).bind fun bs => (mapAll f l').map (bs ++ ·) := by
  induction l with
  | nil => cases h : mapAll f l' <;> simp [mapAll, h, Except.bind, Except.map]
  | cons a rest ih =>
    rw [List.cons_append, mapAll, mapAll, ih]
    cases f a with
    | error e => rfl
    | ok b =>
      cases mapAll f rest with
      | error e => rfl
      | ok bs => cases mapAll f l' <;> rfl

theorem checkAll_eq_ok_iff {α : Type} {check : α → Except Error Unit} {l : List α} :
    checkAll check l = .ok () ↔ ∀ a ∈ l, check a = .ok () := by
  induction l with
  | nil => simp [checkAll]
  | cons a rest ih =>
    rw [checkAll, List.forall_mem_cons]
    cases check a <;> simp [ih]

namespace OptionSpec

theorem checkValue_eq_ok_iff {o : OptionSpec} {value : String} :
    o.checkValue value = .ok () ↔
      (o.required = true → value ≠ "") ∧ o.type.check value = .ok () := by
  rw [checkValue]
  split <;> simp_all

theorem checkValues_eq_ok_iff {o : OptionSpec} {values : List String} :
    o.checkValues values = .ok () ↔
      (o.type.isList = false → values.length ≤ 1) ∧ (o.required = true → values ≠ []) ∧
        ∀ value ∈ values, o.checkValue value = .ok () := by
  rw [checkValues]
  split
  · rename_i htwo
    simp only [Bool.and_eq_true, decide_eq_true_eq, Bool.not_eq_true'] at htwo
    simp only [reduceCtorEq, false_iff]
    rintro ⟨hone, -⟩
    have := hone htwo.2
    omega
  · rename_i hone
    have hone : o.type.isList = false → values.length ≤ 1 := by
      intro hlist
      simpa [hlist] using hone
    split
    · rename_i hmissing
      simp only [Bool.and_eq_true, List.isEmpty_iff] at hmissing
      simp [hmissing]
    · rename_i hset
      simp only [Bool.and_eq_true, List.isEmpty_iff, not_and] at hset
      rw [checkAll_eq_ok_iff]
      exact ⟨fun h => ⟨hone, hset, h⟩, fun h => h.2.2⟩

theorem checkValues_singleton_iff {o : OptionSpec} (optional : o.required = false)
    (value : String) : o.checkValues [value] = .ok () ↔ o.type.check value = .ok () := by
  rw [checkValues_eq_ok_iff]
  simp [checkValue_eq_ok_iff, optional]

def fallback (o : OptionSpec) : List String :=
  if o.required || o.default = "" then [] else [o.default]

end OptionSpec

namespace SectionSpec
variable {spec : SectionSpec}

theorem get?_congr {a b : String} (h : sameName a b = true) : spec.get? a = spec.get? b := by
  simp only [get?, sameName_congr h]

@[simp] theorem get?_fold (name : String) : spec.get? (fold name) = spec.get? name := by
  simp [get?]

theorem sameName_of_get? {name : String} {o : OptionSpec} (h : spec.get? name = some o) :
    sameName o.name name = true := by
  have hfound := List.find?_some h
  exact hfound

theorem mem_of_get? {name : String} {o : OptionSpec} (h : spec.get? name = some o) :
    o ∈ spec.options := List.mem_of_find?_eq_some h

theorem exists_get? {o : OptionSpec} (h : o ∈ spec.options) :
    ∃ first, spec.get? o.name = some first :=
  Option.isSome_iff_exists.mp (List.find?_isSome.mpr ⟨o, h, sameName_refl o.name⟩)

theorem checkGroup_eq_ok_iff {g : Group} :
    spec.checkGroup g = .ok () ↔
      ∃ o, spec.get? g.first.name = some o ∧ o.checkValues g.values = .ok () := by
  rw [checkGroup]
  cases spec.get? g.first.name <;> simp [within_eq_ok_iff]

theorem firstMissing?_eq_none_iff {es : List Entry} :
    spec.firstMissing? (Group.ofEntries es) = none ↔
      ∀ o ∈ spec.options, o.required = true → Entry.named o.name es ≠ [] := by
  simp only [firstMissing?, List.find?_eq_none, Bool.and_eq_true, Group.get?_ofEntries_isNone,
    not_and, ne_eq]

/-- The check of a whole section, said name by name and without the groups. -/
theorem checkEntries_eq_ok_iff {es : List Entry} :
    spec.checkEntries es = .ok () ↔
      (∀ e ∈ es, ∃ o, spec.get? e.name = some o ∧
        o.checkValues ((Entry.named e.name es).map Entry.value) = .ok ()) ∧
      ∀ o ∈ spec.options, o.required = true → Entry.named o.name es ≠ [] := by
  have hgroups : checkAll (fun p => spec.checkGroup p.2) (Group.ofEntries es) = .ok () ↔
      ∀ e ∈ es, ∃ o, spec.get? e.name = some o ∧
        o.checkValues ((Entry.named e.name es).map Entry.value) = .ok () := by
    rw [checkAll_eq_ok_iff]
    constructor
    · intro h e he
      obtain ⟨g, hg, hentries⟩ := Group.exists_group he
      obtain ⟨o, ho, hvalues⟩ := checkGroup_eq_ok_iff.mp (h _ hg)
      have hsame : sameName g.first.name e.name = true :=
        sameName_iff.mpr (Group.fold_eq_key hg g.first g.first_mem)
      rw [Group.values, hentries] at hvalues
      exact ⟨o, get?_congr hsame ▸ ho, hvalues⟩
    · rintro h ⟨key, g⟩ hg
      have hentries := Group.entries_eq_named hg
      have hfirst : g.first ∈ es :=
        Entry.mem_of_mem_named (hentries ▸ g.first_mem)
      obtain ⟨o, ho, hvalues⟩ := h g.first hfirst
      exact checkGroup_eq_ok_iff.mpr ⟨o, ho, by rw [Group.values, hentries]; exact hvalues⟩
  rw [checkEntries, ← hgroups, ← firstMissing?_eq_none_iff]
  cases checkAll (fun p => spec.checkGroup p.2) (Group.ofEntries es) with
  | error e => simp
  | ok _ => cases spec.firstMissing? (Group.ofEntries es) <;> simp

theorem checkValues_of_checkEntries {es : List Entry} {name : String} {o : OptionSpec}
    (h : spec.checkEntries es = .ok ()) (ho : spec.get? name = some o)
    (hset : Entry.named name es ≠ []) :
    o.checkValues ((Entry.named name es).map Entry.value) = .ok () := by
  obtain ⟨e, he⟩ := List.exists_mem_of_ne_nil _ hset
  have hname := Entry.sameName_of_mem_named he
  obtain ⟨a, ha, hcheck⟩ := (checkEntries_eq_ok_iff.mp h).1 e (Entry.mem_of_mem_named he)
  rw [get?_congr hname, ho] at ha
  cases ha
  rwa [Entry.named_congr hname] at hcheck

/-- Whether an option's default may stand in for a name. -/
def standsIn (name : String) (o : OptionSpec) : Bool :=
  !(o.required || o.default = "") && sameName o.name name

/-- The option whose default stands in for a name that is not set. -/
def default? (spec : SectionSpec) (name : String) : Option OptionSpec :=
  spec.options.find? (standsIn name)

/-- The options that stand in for a name that is not set: its default, if it has one. -/
def fallback (spec : SectionSpec) (name : String) : List Entry :=
  (spec.default? name).toList.map fun o => ⟨o.name, o.default⟩

theorem sameName_of_default? {name : String} {o : OptionSpec} (h : spec.default? name = some o) :
    sameName o.name name = true := by
  have hstands := List.find?_some h
  exact (Bool.and_eq_true_iff.mp hstands).2

theorem optional_of_default? {name : String} {o : OptionSpec} (h : spec.default? name = some o) :
    o.required = false ∧ o.default ≠ "" := by
  have hstands := List.find?_some h
  simpa using (Bool.and_eq_true_iff.mp hstands).1

theorem mem_of_default? {name : String} {o : OptionSpec} (h : spec.default? name = some o) :
    o ∈ spec.options := List.mem_of_find?_eq_some h

theorem mem_fallback {name : String} {e : Entry} :
    e ∈ spec.fallback name ↔ ∃ o, spec.default? name = some o ∧ ⟨o.name, o.default⟩ = e := by
  simp [fallback]

theorem named_addDefault (name : String) (es : List Entry) (o : OptionSpec) :
    Entry.named name (addDefault es o) =
      if Entry.named name es = [] ∧ standsIn name o = true then [⟨o.name, o.default⟩]
      else Entry.named name es := by
  have hone : Entry.named name [⟨o.name, o.default⟩] =
      if sameName o.name name = true then [⟨o.name, o.default⟩] else [] :=
    Entry.named_of_forall (by simp)
  rw [addDefault]
  by_cases hnever : (o.required || o.default = "") = true
  · rw [if_pos hnever]
    simp [standsIn, hnever]
  · have hstands : standsIn name o = sameName o.name name := by simp [standsIn, hnever]
    have hset : (es.any fun e => sameName e.name o.name) = true ↔ Entry.named o.name es ≠ [] := by
      simp [Entry.named]
    rw [if_neg hnever, hstands]
    by_cases hname : sameName o.name name = true
    · rw [Entry.named_congr hname] at hset
      by_cases hnil : Entry.named name es = []
      · rw [if_neg fun h => hset.mp h hnil, if_pos ⟨hnil, hname⟩, Entry.named_append, hnil, hone,
          if_pos hname, List.nil_append]
      · rw [if_pos (hset.mpr hnil), if_neg fun h => hnil h.1]
    · have hnot : ¬(Entry.named name es = [] ∧ sameName o.name name = true) := fun h => hname h.2
      rw [if_neg hnot]
      split
      · rfl
      · rw [Entry.named_append, hone, if_neg hname, List.append_nil]

theorem named_withDefaults (spec : SectionSpec) (name : String) (es : List Entry) :
    Entry.named name (spec.withDefaults es) =
      if Entry.named name es = [] then spec.fallback name else Entry.named name es := by
  have hfold : ∀ (os : List OptionSpec) (es : List Entry),
      Entry.named name (os.foldl addDefault es) =
        if Entry.named name es = [] then
          (os.find? (standsIn name)).toList.map fun o => ⟨o.name, o.default⟩
        else Entry.named name es := by
    intro os
    induction os with
    | nil => intro es; simp
    | cons o rest ih =>
      intro es
      rw [List.foldl_cons, ih, named_addDefault, List.find?_cons]
      by_cases hnil : Entry.named name es = [] <;> by_cases hstands : standsIn name o = true <;>
        simp [hnil, hstands]
  exact hfold spec.options es

/-- In a valid section no required option is missing. -/
theorem not_required_of_unset {es : List Entry} {name : String} {o : OptionSpec}
    (h : spec.checkEntries es = .ok ()) (ho : spec.get? name = some o)
    (hunset : Entry.named name es = []) : o.required = false := by
  rw [← Bool.not_eq_true]
  intro hrequired
  refine (checkEntries_eq_ok_iff.mp h).2 o (mem_of_get? ho) hrequired ?_
  rw [Entry.named_congr (sameName_of_get? ho)]
  exact hunset

/-- Defaults keep a valid section valid exactly when each one that is put in is a value of the
type that its name has. -/
theorem checkEntries_withDefaults_iff {es : List Entry} (h : spec.checkEntries es = .ok ()) :
    spec.checkEntries (spec.withDefaults es) = .ok () ↔
      ∀ name o first, Entry.named name es = [] → spec.default? name = some o →
        spec.get? name = some first → first.type.check o.default = .ok () := by
  have hput : ∀ {name o}, Entry.named name es = [] → spec.default? name = some o →
      Entry.named name (spec.withDefaults es) = [⟨o.name, o.default⟩] := by
    intro name o hunset ho
    rw [named_withDefaults, if_pos hunset, fallback, ho]
    rfl
  obtain ⟨hvalid, hrequired⟩ := checkEntries_eq_ok_iff.mp h
  constructor
  · intro hafter name o first hunset ho hfirst
    have hcheck := checkValues_of_checkEntries hafter hfirst (by simp [hput hunset ho])
    rw [hput hunset ho] at hcheck
    exact (OptionSpec.checkValues_singleton_iff (not_required_of_unset h hfirst hunset) _).mp hcheck
  · intro hdefaults
    refine checkEntries_eq_ok_iff.mpr ⟨?_, ?_⟩
    · intro e he
      have hself := Entry.mem_named_self he
      by_cases hunset : Entry.named e.name es = []
      · rw [named_withDefaults, if_pos hunset] at hself
        obtain ⟨o, ho, -⟩ := mem_fallback.mp hself
        obtain ⟨first, hfirst⟩ := exists_get? (mem_of_default? ho)
        rw [get?_congr (sameName_of_default? ho)] at hfirst
        refine ⟨first, hfirst, ?_⟩
        rw [hput hunset ho]
        exact (OptionSpec.checkValues_singleton_iff (not_required_of_unset h hfirst hunset) _).mpr
          (hdefaults e.name o first hunset ho hfirst)
      · rw [named_withDefaults, if_neg hunset] at hself ⊢
        exact hvalid e (Entry.mem_of_mem_named hself)
    · intro o ho hreq
      rw [named_withDefaults, if_neg (hrequired o ho hreq)]
      exact hrequired o ho hreq

/-- No two options share a name. -/
def Distinct (spec : SectionSpec) : Prop :=
  spec.options.Pairwise fun a b => sameName a.name b.name = false

instance (spec : SectionSpec) : Decidable spec.Distinct :=
  inferInstanceAs (Decidable (spec.options.Pairwise fun a b => sameName a.name b.name = false))

theorem Distinct.eq {a b : OptionSpec} (distinct : spec.Distinct) (ha : a ∈ spec.options)
    (hb : b ∈ spec.options) (h : sameName a.name b.name = true) : a = b := by
  by_contra hne
  have : Std.Symm fun a b : OptionSpec => sameName a.name b.name = false :=
    ⟨fun a b h => (sameName_comm b.name a.name).trans h⟩
  have hother := List.Pairwise.forall distinct ha hb hne
  rw [h] at hother
  cases hother

theorem Distinct.get?_eq {name : String} {o : OptionSpec} (distinct : spec.Distinct)
    (ho : o ∈ spec.options) (hname : sameName o.name name = true) : spec.get? name = some o := by
  obtain ⟨first, hfirst⟩ := exists_get? ho
  rw [get?_congr hname] at hfirst
  have hsame : sameName first.name o.name = true := by
    rw [sameName_congr hname]
    exact sameName_of_get? hfirst
  rw [hfirst, distinct.eq (mem_of_get? hfirst) ho hsame]

/-- Without shadowed options, the default of a name is that of the option with the name. -/
theorem Distinct.fallback_eq {name : String} {o : OptionSpec} (distinct : spec.Distinct)
    (ho : o ∈ spec.options) (hname : sameName o.name name = true) :
    (spec.fallback name).map Entry.value = o.fallback := by
  rw [fallback, OptionSpec.fallback]
  split
  · rename_i hnever
    have hnone : spec.default? name = none := by
      rw [default?, List.find?_eq_none]
      intro a ha hstands
      obtain ⟨hmay, hsame⟩ := Bool.and_eq_true_iff.mp hstands
      rw [distinct.eq ha ho (by rw [sameName_congr hname]; exact hsame)] at hmay
      simp [hnever] at hmay
    rw [hnone]
    rfl
  · rename_i hmay
    have hstands : standsIn name o = true := by simp [standsIn, hmay, hname]
    obtain ⟨a, ha⟩ := Option.isSome_iff_exists.mp
      (List.find?_isSome.mpr ⟨o, ho, hstands⟩)
    have hsame : sameName a.name o.name = true := by
      rw [sameName_congr hname]
      exact sameName_of_default? ha
    rw [default?, ha, distinct.eq (mem_of_default? ha) ho hsame]
    rfl

end SectionSpec

namespace FileSpec
variable {spec : FileSpec}

theorem get?_congr {a b : String} (h : sameName a b = true) : spec.get? a = spec.get? b := by
  simp only [get?, sameName_iff.mp h, sameName_congr h]

@[simp] theorem get?_fold (name : String) : spec.get? (fold name) = spec.get? name := by
  simp [get?]

theorem mem_of_get? {name : String} {options : SectionSpec} (h : spec.get? name = some options) :
    ∃ p ∈ spec.sections, p.2 = options := by
  rw [get?, Option.orElse_eq_orElse, Option.orElse_eq_or, Option.or_eq_some_iff] at h
  rcases h with h | ⟨-, h⟩
  · obtain ⟨p, hp, rfl⟩ := Option.map_eq_some_iff.mp h
    exact ⟨p, List.mem_of_find?_eq_some hp, rfl⟩
  · obtain ⟨p, hp, rfl⟩ := Option.map_eq_some_iff.mp h
    exact ⟨p, List.mem_of_find?_eq_some hp, rfl⟩

theorem prepareSection_eq_ok_iff {s s' : Section} :
    spec.prepareSection s = .ok s' ↔ ∃ options, spec.get? s.name = some options ∧
      options.checkEntries s.entries = .ok () ∧
      s' = { s with entries := options.withDefaults s.entries } := by
  rw [prepareSection]
  cases spec.get? s.name with
  | none => simp
  | some options =>
    dsimp only
    rw [within_eq_ok_iff, SectionSpec.prepare]
    cases hcheck : options.checkEntries s.entries <;> simp [hcheck, eq_comm]

theorem validate_eq_ok_iff {d d' : Document} :
    spec.validate d = .ok d' ↔ d'.path = d.path ∧
      List.Forall₂ (fun s s' => spec.prepareSection s = .ok s') d.sections d'.sections := by
  rw [validate, map_eq_ok_iff]
  constructor
  · rintro ⟨sections, h, rfl⟩
    exact ⟨rfl, mapAll_eq_ok_iff.mp h⟩
  · rintro ⟨hpath, h⟩
    exact ⟨d'.sections, mapAll_eq_ok_iff.mpr h, by rw [← hpath]⟩

theorem called_validate {d d' : Document} (h : spec.validate d = .ok d') (name : String) :
    List.Forall₂ (fun s s' => spec.prepareSection s = .ok s') (d.sectionsNamed name)
      (d'.sectionsNamed name) := by
  apply List.rel_filter ?_ (validate_eq_ok_iff.mp h).2
  intro s s' hs
  obtain ⟨options, -, -, rfl⟩ := prepareSection_eq_ok_iff.mp hs
  exact Iff.rfl

theorem validate_unique {d d' : Document} {u : Section} {name : String}
    (h : spec.validate d = .ok d') (hu : d.sectionsNamed name = [u]) :
    ∃ options u', spec.get? name = some options ∧ options.checkEntries u.entries = .ok () ∧
      d'.sectionsNamed name = [u'] ∧ u'.entries = options.withDefaults u.entries := by
  have hmem : u ∈ d.sectionsNamed name := hu ▸ List.mem_singleton_self u
  have hname : sameName u.name name = true := (Section.mem_called.mp hmem).2
  have hsections := called_validate h name
  rw [hu, List.forall₂_cons_left_iff] at hsections
  obtain ⟨u', rest, hprepared, hrest, hsections⟩ := hsections
  rw [List.forall₂_nil_left_iff] at hrest
  obtain ⟨options, hoptions, hcheck, rfl⟩ := prepareSection_eq_ok_iff.mp hprepared
  rw [get?_congr hname] at hoptions
  exact ⟨options, _, hoptions, hcheck, hrest ▸ hsections, rfl⟩

def Distinct (spec : FileSpec) : Prop := ∀ p ∈ spec.sections, p.2.Distinct

instance (spec : FileSpec) : Decidable spec.Distinct :=
  inferInstanceAs (Decidable (∀ p ∈ spec.sections, p.2.Distinct))

theorem Distinct.of_get? {name : String} {options : SectionSpec} (distinct : spec.Distinct)
    (h : spec.get? name = some options) : options.Distinct := by
  obtain ⟨p, hp, rfl⟩ := mem_of_get? h
  exact distinct p hp

end FileSpec
end UnitFiles

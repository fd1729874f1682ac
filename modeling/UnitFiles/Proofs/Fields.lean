import UnitFiles.Proofs.RecordTypes

/-! Fields of records. A record is decoded if each of its fields is, or is settled without. What
fields with distinct names are encoded to is found again under their names. -/
namespace UnitFiles
open Text

section Names

theorem forall₂_imp_mem {α β : Type} {R S : α → β → Prop} {as : List α} {bs : List β}
    (h : List.Forall₂ R as bs) (himp : ∀ a ∈ as, ∀ b ∈ bs, R a b → S a b) :
    List.Forall₂ S as bs := by
  induction h with
  | nil => exact .nil
  | cons hab _ ih =>
    refine .cons (himp _ List.mem_cons_self _ List.mem_cons_self hab) (ih ?_)
    exact fun a ha b hb => himp a (List.mem_cons_of_mem _ ha) b (List.mem_cons_of_mem _ hb)

theorem forall₂_congr_mem {α β : Type} {R S : α → β → Prop} {as : List α} {bs : List β}
    (h : ∀ a ∈ as, ∀ b, R a b ↔ S a b) : List.Forall₂ R as bs ↔ List.Forall₂ S as bs :=
  ⟨fun hR => forall₂_imp_mem hR fun a ha b _ => (h a ha b).mp,
    fun hS => forall₂_imp_mem hS fun a ha b _ => (h a ha b).mpr⟩

theorem exists_forall₂_iff {α β : Type} {R : α → β → Prop} {l : List α} :
    (∃ l', List.Forall₂ R l l') ↔ ∀ a ∈ l, ∃ b, R a b := by
  constructor
  · rintro ⟨l', h⟩ a ha
    obtain ⟨b, -, hR⟩ := exists_of_mem_forall₂ h.flip ha
    exact ⟨b, hR⟩
  · intro h
    induction l with
    | nil => exact ⟨[], .nil⟩
    | cons a rest ih =>
      obtain ⟨⟨b, hR⟩, hrest⟩ := List.forall_mem_cons.mp h
      obtain ⟨bs, hall⟩ := ih hrest
      exact ⟨b :: bs, .cons hR hall⟩

theorem forall₂_append_left_iff {α β : Type} {R : α → β → Prop} {as as' : List α} {bs : List β} :
    List.Forall₂ R (as ++ as') bs ↔
      ∃ cs cs', List.Forall₂ R as cs ∧ List.Forall₂ R as' cs' ∧ cs ++ cs' = bs := by
  constructor
  · intro h
    induction as generalizing bs with
    | nil => exact ⟨[], bs, .nil, h, rfl⟩
    | cons a rest ih =>
      obtain ⟨b, others, hab, hothers, rfl⟩ := List.forall₂_cons_left_iff.mp h
      obtain ⟨cs, cs', hcs, hcs', rfl⟩ := ih hothers
      exact ⟨b :: cs, cs', .cons hab hcs, hcs', rfl⟩
  · rintro ⟨cs, cs', hcs, hcs', rfl⟩
    exact List.rel_append hcs hcs'

variable {β : Type} {name : β → String} {items : String × Decoded → List β}
  {values : List (String × Decoded)} {n : String}

theorem filter_items (hname : ∀ p, ∀ b ∈ items p, name b = p.1) (p : String × Decoded) :
    (items p).filter (fun b => sameName (name b) n) = if sameName p.1 n then items p else [] := by
  split
  · rename_i h
    rw [List.filter_eq_self]
    intro b hb
    rw [hname p b hb, h]
  · rename_i h
    rw [List.filter_eq_nil_iff]
    intro b hb
    rw [hname p b hb]
    exact h

theorem filter_flatMap_items (hname : ∀ p, ∀ b ∈ items p, name b = p.1)
    (distinct : (values.map Prod.fst).Pairwise fun a b => sameName a b = false)
    {p : String × Decoded} (hp : p ∈ values) (hn : sameName p.1 n = true) :
    (values.flatMap items).filter (fun b => sameName (name b) n) = items p := by
  induction values with
  | nil => cases hp
  | cons q rest ih =>
    rw [List.map_cons, List.pairwise_cons] at distinct
    obtain ⟨hq, hrest⟩ := distinct
    rw [List.flatMap_cons, List.filter_append, filter_items hname]
    rcases List.mem_cons.mp hp with rfl | hp
    · have hothers : (rest.flatMap items).filter (fun b => sameName (name b) n) = [] := by
        rw [List.filter_eq_nil_iff]
        intro b hb
        obtain ⟨r, hr, hb⟩ := List.mem_flatMap.mp hb
        rw [hname r b hb, ← sameName_congr hn, sameName_comm, hq r.1 (List.mem_map_of_mem hr)]
        exact Bool.false_ne_true
      rw [if_pos hn, hothers, List.append_nil]
    · have hother : ¬sameName q.1 n = true := by
        rw [← sameName_congr hn, hq p.1 (List.mem_map_of_mem hp)]
        exact Bool.false_ne_true
      rw [if_neg hother, List.nil_append, ih hrest hp]

theorem mem_of_lookup {α : Type} {n : String} {a : α} {l : List (String × α)}
    (h : l.lookup n = some a) : (n, a) ∈ l := by
  obtain ⟨before, after, rfl, -⟩ := List.lookup_eq_some_iff.mp h
  exact List.mem_append_right before List.mem_cons_self

theorem lookup_filter_of_pos {α : Type} {l : List (String × α)} {g : String → Bool} {n : String}
    (h : g n = true) : (l.filter fun p => g p.1).lookup n = l.lookup n := by
  induction l with
  | nil => rfl
  | cons p rest ih =>
    obtain ⟨other, v⟩ := p
    rw [List.filter_cons]
    by_cases heq : n = other
    · subst heq
      rw [if_pos h, List.lookup_cons_self, List.lookup_cons_self]
    · split
      · rw [List.lookup_cons, List.lookup_cons, beq_false_of_ne heq]
        exact ih
      · rw [List.lookup_cons, beq_false_of_ne heq]
        exact ih

theorem lookup_filterMap {α : Type} {fields : List Field} {g : Field → Option α}
    (distinct : (fields.map Prod.fst).Nodup) :
    (∀ f ∈ fields, (fields.filterMap fun f => (g f).map fun a => (f.1, a)).lookup f.1 = g f) ∧
      ∀ n, n ∉ fields.map Prod.fst →
        (fields.filterMap fun f => (g f).map fun a => (f.1, a)).lookup n = none := by
  induction fields with
  | nil => exact ⟨nofun, fun _ _ => rfl⟩
  | cons first rest ih =>
    rw [List.map_cons, List.nodup_cons] at distinct
    obtain ⟨hnew, hrest⟩ := distinct
    obtain ⟨hfields, hothers⟩ := ih hrest
    have hcons : ∀ n, ((first :: rest).filterMap fun f => (g f).map fun a => (f.1, a)).lookup n =
        if n = first.1 then (g first).or
          ((rest.filterMap fun f => (g f).map fun a => (f.1, a)).lookup n)
        else (rest.filterMap fun f => (g f).map fun a => (f.1, a)).lookup n := by
      intro n
      cases hg : g first with
      | none => simp [hg]
      | some a =>
        by_cases hn : n = first.1
        · simp [hg, hn]
        · simp [hg, hn, List.lookup_cons, beq_false_of_ne hn]
    refine ⟨List.forall_mem_cons.mpr ⟨?_, fun f hf => ?_⟩, fun n hn => ?_⟩
    · rw [hcons, if_pos rfl, hothers first.1 hnew, Option.or_none]
    · have hmem : f.1 ∈ rest.map Prod.fst := List.mem_map_of_mem hf
      have hne : f.1 ≠ first.1 := fun heq => hnew (heq ▸ hmem)
      rw [hcons, if_neg hne, hfields f hf]
    · rw [List.map_cons, List.mem_cons, not_or] at hn
      rw [hcons, if_neg hn.1, hothers n hn.2]

theorem nodup_of_distinct {names : List String}
    (h : names.Pairwise fun a b => sameName a b = false) : names.Nodup := by
  refine h.imp ?_
  rintro a b hab rfl
  rw [sameName_refl] at hab
  cases hab

end Names

section Fields
variable {decode : String → Option (Shape → Except Error Decoded)} {fields : List Field}
  {found values part : List (String × Decoded)} {f : Field}

/-- A field is decoded to a value, which stands for it if it is missing. -/
def Settles (decode : String → Option (Shape → Except Error Decoded)) (f : Field)
    (p : String × Decoded) : Prop :=
  p.1 = f.1 ∧
    match decode f.1 with
    | none => settleField f none = .ok [p]
    | some decodeIt => decodeIt f.2.1 = .ok p.2

/-- What a field adds to its record: what it is decoded to, or what it is settled with if it is
missing. That is nothing if the field is left out. -/
def Adds (decode : String → Option (Shape → Except Error Decoded)) (f : Field)
    (part : List (String × Decoded)) : Prop :=
  match decode f.1 with
  | none => settleField f none = .ok part
  | some decodeIt => ∃ v, decodeIt f.2.1 = .ok v ∧ [(f.1, v)] = part

/-- What was found for a field is what it is decoded to. -/
def Finds (decode : String → Option (Shape → Except Error Decoded))
    (found : List (String × Decoded)) (f : Field) : Prop :=
  match decode f.1 with
  | none => found.lookup f.1 = none
  | some decodeIt => ∃ v, decodeIt f.2.1 = .ok v ∧ found.lookup f.1 = some v

theorem settleField_none (kept : f.2.2 ≠ .omitted) (h : settleField f none = .ok part) :
    ∃ v, [(f.1, v)] = part := by
  obtain ⟨name, s, missing⟩ := f
  cases missing with
  | required =>
    simp only [settleField] at h
    split at h
    · exact ⟨.absent, Except.ok.inj h⟩
    · cases h
  | omitted => exact absurd rfl kept
  | default v => exact ⟨v, Except.ok.inj h⟩

theorem adds_iff_settles (kept : f.2.2 ≠ .omitted) :
    Adds decode f part ↔ ∃ p, Settles decode f p ∧ [p] = part := by
  simp only [Adds, Settles]
  cases decode f.1 with
  | none =>
    constructor
    · intro h
      obtain ⟨v, rfl⟩ := settleField_none kept h
      exact ⟨(f.1, v), ⟨rfl, h⟩, rfl⟩
    · rintro ⟨p, ⟨-, h⟩, rfl⟩
      exact h
  | some decodeIt =>
    constructor
    · rintro ⟨v, hv, rfl⟩
      exact ⟨(f.1, v), ⟨rfl, hv⟩, rfl⟩
    · rintro ⟨⟨_, v⟩, ⟨rfl, hv⟩, rfl⟩
      exact ⟨v, hv, rfl⟩

theorem forall₂_adds_iff (kept : ∀ f ∈ fields, f.2.2 ≠ .omitted) :
    (∃ parts, List.Forall₂ (Adds decode) fields parts ∧ parts.flatten = values) ↔
      List.Forall₂ (Settles decode) fields values := by
  induction fields generalizing values with
  | nil => simp [eq_comm]
  | cons f rest ih =>
    obtain ⟨hkept, hrest⟩ := List.forall_mem_cons.mp kept
    constructor
    · rintro ⟨parts, hparts, rfl⟩
      obtain ⟨part, others, hpart, hothers, rfl⟩ := List.forall₂_cons_left_iff.mp hparts
      obtain ⟨p, hp, rfl⟩ := (adds_iff_settles hkept).mp hpart
      exact .cons hp ((ih hrest).mp ⟨others, hothers, rfl⟩)
    · intro h
      obtain ⟨p, others, hp, hothers, rfl⟩ := List.forall₂_cons_left_iff.mp h
      obtain ⟨parts, hparts, rfl⟩ := (ih hrest).mpr hothers
      exact ⟨[p] :: parts, .cons ((adds_iff_settles hkept).mpr ⟨p, hp, rfl⟩) hparts, rfl⟩

theorem settleField_eq_ok_iff (hfinds : Finds decode found f) :
    settleField f (found.lookup f.1) = .ok part ↔ Adds decode f part := by
  rw [Finds] at hfinds
  rw [Adds]
  cases hname : decode f.1 with
  | none =>
    rw [hname] at hfinds
    rw [hfinds]
  | some decodeIt =>
    rw [hname] at hfinds
    obtain ⟨v, hv, hlookup⟩ := hfinds
    rw [hlookup, settleField]
    simp [hv]

theorem settle_eq_ok_iff_adds (hfinds : ∀ f ∈ fields, Finds decode found f) :
    settle fields found = .ok values ↔
      ∃ parts, List.Forall₂ (Adds decode) fields parts ∧ parts.flatten = values := by
  simp only [settle, map_eq_ok_iff, mapAll_eq_ok_iff]
  refine exists_congr fun parts => and_congr_left fun _ => ?_
  exact forall₂_congr_mem fun f hf part => settleField_eq_ok_iff (hfinds f hf)

theorem settle_eq_ok_iff (kept : ∀ f ∈ fields, f.2.2 ≠ .omitted)
    (hfinds : ∀ f ∈ fields, Finds decode found f) :
    settle fields found = .ok values ↔ List.Forall₂ (Settles decode) fields values :=
  (settle_eq_ok_iff_adds hfinds).trans (forall₂_adds_iff kept)

theorem finds_of_decodeFields {seen : List String}
    (distinct : (fields.map Prod.fst).Nodup)
    (h : decodeFields decode seen fields = .ok found) :
    (∀ p ∈ found, p.1 ∈ fields.map Prod.fst) ∧ ∀ f ∈ fields, Finds decode found f := by
  induction fields generalizing seen found with
  | nil =>
    cases h
    exact ⟨by simp, by simp⟩
  | cons f rest ih =>
    obtain ⟨name, s, missing⟩ := f
    rw [List.map_cons, List.nodup_cons] at distinct
    obtain ⟨hnew, hrest⟩ := distinct
    rw [decodeFields] at h
    cases hname : decode name with
    | none =>
      rw [hname] at h
      obtain ⟨hkeys, hfinds⟩ := ih hrest h
      refine ⟨fun p hp => List.mem_cons_of_mem _ (hkeys p hp), ?_⟩
      refine List.forall_mem_cons.mpr ⟨?_, hfinds⟩
      simp only [Finds, hname]
      rw [List.lookup_eq_none_iff]
      intro p hp
      have hne : name ≠ p.1 := fun heq => hnew (heq ▸ hkeys p hp)
      simpa using hne
    | some decodeIt =>
      simp only [hname] at h
      split at h
      · cases h
      · split at h
        · cases h
        · rename_i v hv
          obtain ⟨others, hothers, rfl⟩ := map_eq_ok_iff.mp h
          obtain ⟨hkeys, hfinds⟩ := ih hrest hothers
          refine ⟨List.forall_mem_cons.mpr ⟨List.mem_cons_self, ?_⟩, ?_⟩
          · exact fun p hp => List.mem_cons_of_mem _ (hkeys p hp)
          refine List.forall_mem_cons.mpr ⟨?_, fun g hg => ?_⟩
          · simp only [Finds, hname]
            exact ⟨v, within_eq_ok_iff.mp hv, List.lookup_cons_self⟩
          · have hmem : g.1 ∈ rest.map Prod.fst := List.mem_map_of_mem hg
            have hne : g.1 ≠ name := fun heq => hnew (heq ▸ hmem)
            have hg := hfinds g hg
            rw [Finds] at hg ⊢
            rwa [List.lookup_cons, beq_false_of_ne hne]

theorem exists_decodeFields {seen : List String} (distinct : (fields.map Prod.fst).Nodup)
    (hseen : ∀ f ∈ fields, f.1 ∉ seen)
    (h : ∀ f ∈ fields, ∀ g, decode f.1 = some g → ∃ v, g f.2.1 = .ok v) :
    ∃ found, decodeFields decode seen fields = .ok found := by
  induction fields generalizing seen with
  | nil => exact ⟨[], rfl⟩
  | cons f rest ih =>
    obtain ⟨name, s, missing⟩ := f
    rw [List.map_cons, List.nodup_cons] at distinct
    obtain ⟨hnew, hnames⟩ := distinct
    obtain ⟨hfirst, hothers⟩ := List.forall_mem_cons.mp hseen
    obtain ⟨hdecode, hrest⟩ := List.forall_mem_cons.mp h
    rw [decodeFields]
    cases hname : decode name with
    | none => exact ih hnames hothers hrest
    | some decodeIt =>
      obtain ⟨v, hv⟩ := hdecode decodeIt hname
      have hcontains : seen.contains name = false := by simpa using hfirst
      have hseen' : ∀ f ∈ rest, f.1 ∉ name :: seen := by
        intro f hf
        have hmem : f.1 ∈ rest.map Prod.fst := List.mem_map_of_mem hf
        exact List.not_mem_cons_of_ne_of_not_mem (fun heq => hnew (heq ▸ hmem)) (hothers f hf)
      obtain ⟨found, hfound⟩ := ih hnames hseen' hrest
      simp only [hcontains, Bool.false_eq_true, if_false, within_eq_ok_iff.mpr hv]
      exact ⟨_, map_eq_ok_iff.mpr ⟨found, hfound, rfl⟩⟩

/-- A record is decoded exactly if each of its fields adds something to it, or is left out. -/
theorem decodeRecord_eq_ok_iff_adds (distinct : (fields.map Prod.fst).Nodup) {v : Decoded} :
    decodeRecord decode fields = .ok v ↔
      ∃ parts, List.Forall₂ (Adds decode) fields parts ∧ .record parts.flatten = v := by
  rw [decodeRecord]
  constructor
  · intro h
    split at h
    · cases h
    · rename_i found hfound
      obtain ⟨values, hvalues, rfl⟩ := map_eq_ok_iff.mp h
      have hfinds := (finds_of_decodeFields distinct hfound).2
      obtain ⟨parts, hparts, rfl⟩ := (settle_eq_ok_iff_adds hfinds).mp hvalues
      exact ⟨parts, hparts, rfl⟩
  · rintro ⟨parts, hparts, rfl⟩
    have hdecodes : ∀ f ∈ fields, ∀ g, decode f.1 = some g → ∃ v, g f.2.1 = .ok v := by
      intro f hf g hg
      obtain ⟨part, hadds⟩ := exists_forall₂_iff.mp ⟨parts, hparts⟩ f hf
      rw [Adds, hg] at hadds
      obtain ⟨v, hv, -⟩ := hadds
      exact ⟨v, hv⟩
    obtain ⟨found, hfound⟩ :=
      exists_decodeFields distinct (fun _ _ => List.not_mem_nil) hdecodes
    have hfinds := (finds_of_decodeFields distinct hfound).2
    rw [hfound]
    exact map_eq_ok_iff.mpr ⟨_, (settle_eq_ok_iff_adds hfinds).mpr ⟨parts, hparts, rfl⟩, rfl⟩

theorem decodeRecord_eq_ok_iff (distinct : (fields.map Prod.fst).Nodup)
    (kept : ∀ f ∈ fields, f.2.2 ≠ .omitted) {v : Decoded} :
    decodeRecord decode fields = .ok v ↔
      ∃ values, List.Forall₂ (Settles decode) fields values ∧ .record values = v := by
  simp only [decodeRecord_eq_ok_iff_adds distinct, ← forall₂_adds_iff kept]
  constructor
  · rintro ⟨parts, hparts, rfl⟩
    exact ⟨_, ⟨parts, hparts, rfl⟩, rfl⟩
  · rintro ⟨_, ⟨parts, hparts, rfl⟩, rfl⟩
    exact ⟨parts, hparts, rfl⟩

theorem map_fst_fieldsIn {α : Type} (shapes : Shapes α) (t : RecordType α) :
    (t.fieldsIn shapes).map Prod.fst = t.fields.map Prod.fst := by
  rw [RecordType.fieldsIn, List.map_map]
  rfl

namespace RecordType
variable {α : Type} {shapes : Shapes α}

theorem kept_fieldsIn (t : RecordType α) : ∀ f ∈ t.fieldsIn shapes, f.2.2 ≠ .omitted := by
  rw [fieldsIn, List.forall_mem_map]
  rintro ⟨name, f⟩ - h
  dsimp only at h
  cases f with
  | one a default => cases default <;> cases h
  | optional a marked =>
    rw [FieldType.missing] at h
    split at h <;> cases h
  | list a => cases h

theorem nodup_fieldsIn (t : RecordType α) : ((t.fieldsIn shapes).map Prod.fst).Nodup := by
  rw [map_fst_fieldsIn]
  exact nodup_of_distinct t.distinct

end RecordType

theorem RecordType.Fills.decodeRecord {α : Type} {t : RecordType α} {shapes : Shapes α}
    {has : String → FieldType α → Decoded → Prop} (h : t.Fills has values)
    (hsettles : ∀ name f v, (name, f) ∈ t.fields → (name, v) ∈ values → has name f v →
      Settles decode (name, f.shape shapes, f.missing shapes) (name, v)) :
    decodeRecord decode (t.fieldsIn shapes) = .ok (.record values) := by
  refine (decodeRecord_eq_ok_iff t.nodup_fieldsIn t.kept_fieldsIn).mpr ⟨values, ?_, rfl⟩
  rw [RecordType.fieldsIn, List.forall₂_map_left_iff]
  refine forall₂_imp_mem h ?_
  rintro ⟨name, f⟩ hf ⟨_, v⟩ hp ⟨rfl, hv⟩
  exact hsettles _ f v hf hp hv

end Fields

namespace FileSpec
variable {spec : FileSpec}

theorem exists_specsFor {names : List String} (h : ∀ name ∈ names, ∃ s, spec.get? name = some s) :
    ∃ specs, specsFor spec names = .ok specs ∧ specs.map Prod.fst = names ∧
      ∀ p ∈ specs, spec.get? p.1 = some p.2 := by
  induction names with
  | nil => exact ⟨[], rfl, rfl, fun p hp => nomatch hp⟩
  | cons name rest ih =>
    obtain ⟨⟨s, hs⟩, hrest⟩ := List.forall_mem_cons.mp h
    obtain ⟨specs, hspecs, hnames, hget⟩ := ih hrest
    refine ⟨(name, s) :: specs, ?_, by rw [List.map_cons, hnames], ?_⟩
    · rw [specsFor, hs, hspecs]
      rfl
    · exact List.forall_mem_cons.mpr ⟨hs, hget⟩

theorem specsFor_eq_ok_iff {names : List String} {specs : List (String × SectionSpec)} :
    specsFor spec names = .ok specs ↔
      List.Forall₂ (fun name p => p.1 = name ∧ spec.get? name = some p.2) names specs := by
  induction names generalizing specs with
  | nil => simp [specsFor, eq_comm]
  | cons name rest ih =>
    rw [specsFor, List.forall₂_cons_left_iff]
    cases hname : spec.get? name with
    | none => simp
    | some s =>
      dsimp only
      rw [map_eq_ok_iff]
      simp only [ih]
      constructor
      · rintro ⟨others, hothers, rfl⟩
        exact ⟨(name, s), others, ⟨rfl, rfl⟩, hothers, rfl⟩
      · rintro ⟨⟨_, _⟩, others, ⟨rfl, hs⟩, hothers, rfl⟩
        cases hs
        exact ⟨others, hothers, rfl⟩

end FileSpec
end UnitFiles

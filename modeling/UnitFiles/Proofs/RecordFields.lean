import UnitFiles.Proofs.Fields

/-! Records that are taken out of values which are typed already. The entries are visited one after
the other; a record is decoded exactly if each of its fields settles from the entry of its name. -/
namespace UnitFiles

theorem asMissingOption_eq_ok_iff {α : Type} {r : Except Error α} {a : α} :
    asMissingOption r = .ok a ↔ r = .ok a := by
  rw [asMissingOption.eq_def]
  split <;> simp

/-- Each slot of a map is one entry. -/
theorem wholeMap_eq_ok_iff {slots : List Slot} {w : Decoded} :
    wholeMap slots = .ok w ↔ ∃ entries, List.Forall₂ (fun slot e => e.1 = slot.key ∧
      slot.whole = .ok e.2) slots entries ∧ .map entries = w := by
  have hslot : ∀ (slot : Slot) (e : String × Decoded),
      (within slot.key slot.whole).map (fun v => (slot.key, v)) = .ok e ↔
        e.1 = slot.key ∧ slot.whole = .ok e.2 := by
    rintro slot ⟨key, v⟩
    simp only [map_eq_ok_iff, within_eq_ok_iff, Prod.mk.injEq]
    constructor
    · rintro ⟨v, hv, rfl, rfl⟩
      exact ⟨rfl, hv⟩
    · rintro ⟨rfl, hv⟩
      exact ⟨v, hv, rfl, rfl⟩
  simp only [wholeMap, map_eq_ok_iff, mapAll_eq_ok_iff, hslot]

section Content
variable {fields : List Field} {entries found rest : List (String × Decoded)}
  {reads : List (String × Except Error Decoded)}

theorem contentAsFields_eq_filterMap : contentAsFields entries fields = fields.filterMap fun f =>
    ((entries.lookup f.1).map fun w => contentAs w f.2.1).map fun r => (f.1, r) := by
  induction fields with
  | nil => rfl
  | cons f rest ih =>
    obtain ⟨name, s, missing⟩ := f
    rw [contentAsFields, List.filterMap_cons]
    cases entries.lookup name with
    | none => exact ih
    | some w => exact congrArg _ ih

/-- The fields among the keys are read, each as `decode` says, and nothing else is. -/
structure ReadsFields (decode : String → Option (Shape → Except Error Decoded))
    (fields : List Field) (keys : List String) (reads : List (String × Except Error Decoded)) :
    Prop where
  field : ∀ f ∈ fields,
    match decode f.1 with
    | none => reads.lookup f.1 = none
    | some decodeIt => f.1 ∈ keys ∧
        ∃ r, reads.lookup f.1 = some r ∧ ∀ v, r = .ok v ↔ decodeIt f.2.1 = .ok v
  other : ∀ name, name ∉ fields.map Prod.fst → reads.lookup name = none

theorem readsFields_content (distinct : (fields.map Prod.fst).Nodup) :
    ReadsFields (fun name => (entries.lookup name).map contentAs) fields (entries.map Prod.fst)
      (contentAsFields entries fields) := by
  rw [contentAsFields_eq_filterMap]
  obtain ⟨hfields, hothers⟩ := lookup_filterMap
    (g := fun f => (entries.lookup f.1).map fun w => contentAs w f.2.1) distinct
  refine ⟨fun f hf => ?_, hothers⟩
  rw [hfields f hf]
  cases hw : entries.lookup f.1 with
  | none => rfl
  | some w =>
    have hmem : f.1 ∈ entries.map Prod.fst := List.mem_map_of_mem (mem_of_lookup hw)
    exact ⟨hmem, _, rfl, fun _ => Iff.rfl⟩

/-- Of the entries those are found that are to be read, and all of them can be. -/
theorem lookup_of_visit {seen : List String}
    (h : visit reads seen (entries.map fun p => (p.1, .ok p.2)) = .ok (found, rest))
    (name : String) :
    (reads.lookup name = none ∨ name ∉ entries.map Prod.fst → found.lookup name = none) ∧
      ∀ r, reads.lookup name = some r → name ∈ entries.map Prod.fst →
        ∃ v, r = .ok v ∧ found.lookup name = some v := by
  induction entries generalizing seen found rest with
  | nil =>
    cases h
    exact ⟨fun _ => rfl, fun _ _ hname => nomatch hname⟩
  | cons e entries ih =>
    rw [List.map_cons, visit] at h
    split at h
    · rename_i r hr
      split at h
      · cases h
      · split at h
        · cases h
        · rename_i v
          obtain ⟨⟨found', rest'⟩, hvisit, hfound⟩ := map_eq_ok_iff.mp h
          cases hfound
          obtain ⟨hnone, hsome⟩ := ih hvisit
          rw [List.map_cons]
          by_cases heq : name = e.1
          · subst heq
            refine ⟨?_, fun r' hr' _ => ?_⟩
            · simp [hr]
            · cases hr.symm.trans hr'
              exact ⟨v, rfl, List.lookup_cons_self⟩
          · rw [List.lookup_cons, beq_false_of_ne heq, List.mem_cons, or_iff_right heq]
            exact ⟨hnone, hsome⟩
    · rename_i hr
      obtain ⟨⟨found', rest'⟩, hvisit, hfound⟩ := map_eq_ok_iff.mp h
      cases hfound
      obtain ⟨hnone, hsome⟩ := ih hvisit
      rw [List.map_cons, List.mem_cons]
      refine ⟨fun hor => hnone (hor.imp_right fun hnot hmem => hnot (Or.inr hmem)), ?_⟩
      rintro r hname (rfl | hmem)
      · cases hr.symm.trans hname
      · exact hsome r hname hmem

theorem exists_visit {seen : List String}
    (hreads : ∀ e ∈ entries, ∀ r, reads.lookup e.1 = some r → ∃ v, r = .ok v)
    (once : entries.Pairwise fun p q => p.1 = q.1 → reads.lookup p.1 = none)
    (hseen : ∀ e ∈ entries, e.1 ∈ seen → reads.lookup e.1 = none) :
    ∃ p, visit reads seen (entries.map fun p => (p.1, .ok p.2)) = .ok p := by
  induction entries generalizing seen with
  | nil => exact ⟨_, rfl⟩
  | cons e entries ih =>
    obtain ⟨hfirst, honce⟩ := List.pairwise_cons.mp once
    obtain ⟨hread, hreads⟩ := List.forall_mem_cons.mp hreads
    obtain ⟨hnew, hseen⟩ := List.forall_mem_cons.mp hseen
    rw [List.map_cons, visit]
    cases hr : reads.lookup e.1 with
    | none =>
      obtain ⟨p, hp⟩ := ih hreads honce hseen
      exact ⟨_, map_eq_ok_iff.mpr ⟨p, hp, rfl⟩⟩
    | some r =>
      obtain ⟨v, rfl⟩ := hread r hr
      have hcontains : seen.contains e.1 = false := by
        rw [← Bool.not_eq_true, List.contains_iff_mem]
        intro hmem
        cases hr.symm.trans (hnew hmem)
      have hseen' : ∀ q ∈ entries, q.1 ∈ e.1 :: seen → reads.lookup q.1 = none := by
        intro q hq hmem
        rcases List.mem_cons.mp hmem with heq | hmem
        · rw [heq]
          exact hfirst q hq heq.symm
        · exact hseen q hq hmem
      obtain ⟨p, hp⟩ := ih hreads honce hseen'
      simp only [hcontains, Bool.false_eq_true, if_false]
      exact ⟨_, map_eq_ok_iff.mpr ⟨p, hp, rfl⟩⟩

/-- Of the entries those are left that are not to be read. -/
theorem rest_of_visit {seen : List String}
    (h : visit reads seen (entries.map fun p => (p.1, .ok p.2)) = .ok (found, rest)) :
    rest = entries.filter fun p => (reads.lookup p.1).isNone := by
  induction entries generalizing seen found rest with
  | nil =>
    cases h
    rfl
  | cons e entries ih =>
    rw [List.map_cons, visit] at h
    cases hr : reads.lookup e.1 with
    | none =>
      rw [hr] at h
      obtain ⟨⟨found', rest'⟩, hvisit, hpair⟩ := map_eq_ok_iff.mp h
      cases hpair
      rw [List.filter_cons_of_pos (by simp [hr]), ← ih hvisit]
    | some r =>
      simp only [hr] at h
      split at h
      · cases h
      · split at h
        · cases h
        · obtain ⟨⟨found', rest'⟩, hvisit, hpair⟩ := map_eq_ok_iff.mp h
          cases hpair
          rw [List.filter_cons_of_neg (by simp [hr]), ← ih hvisit]

section Visits
variable {decode : String → Option (Shape → Except Error Decoded)}
  (hreads : ReadsFields decode fields (entries.map Prod.fst) reads)
include hreads

theorem ReadsFields.finds (h : visit reads [] (entries.map fun p => (p.1, .ok p.2)) =
    .ok (found, rest)) : ∀ f ∈ fields, Finds decode found f := by
  intro f hf
  have hfield := hreads.field f hf
  obtain ⟨hnone, hsome⟩ := lookup_of_visit h f.1
  rw [Finds]
  cases hname : decode f.1 with
  | none =>
    rw [hname] at hfield
    exact hnone (Or.inl hfield)
  | some decodeIt =>
    rw [hname] at hfield
    obtain ⟨hkey, r, hr, hread⟩ := hfield
    obtain ⟨v, rfl, hv⟩ := hsome r hr hkey
    exact ⟨v, (hread v).mp rfl, hv⟩

/-- The entries can be visited if the fields that are read settle. -/
theorem ReadsFields.exists_visit
    (once : entries.Pairwise fun p q => p.1 = q.1 → p.1 ∉ fields.map Prod.fst)
    {values : List (String × Decoded)} (h : List.Forall₂ (Settles decode) fields values) :
    ∃ p, visit reads [] (entries.map fun p => (p.1, .ok p.2)) = .ok p := by
  refine UnitFiles.exists_visit ?_ ?_ ?_
  · intro e he r hr
    by_cases hname : e.1 ∈ fields.map Prod.fst
    · obtain ⟨f, hf, hfe⟩ := List.mem_map.mp hname
      obtain ⟨p, -, -, hdecoded⟩ := exists_of_mem_forall₂ h.flip hf
      have hfield := hreads.field f hf
      rw [hfe, hr] at hfield
      rw [hfe] at hdecoded
      cases hdecode : decode e.1 with
      | none =>
        rw [hdecode] at hfield
        cases hfield
      | some decodeIt =>
        rw [hdecode] at hfield hdecoded
        obtain ⟨-, r', hr', hread⟩ := hfield
        cases hr'
        exact ⟨p.2, (hread p.2).mpr hdecoded⟩
    · rw [hreads.other _ hname] at hr
      cases hr
  · exact once.imp fun himp heq => hreads.other _ (himp heq)
  · intro e _ hmem
    cases hmem

end Visits

section Taking
variable (distinct : (fields.map Prod.fst).Nodup) (kept : ∀ f ∈ fields, f.2.2 ≠ .omitted)
  (once : entries.Pairwise fun p q => p.1 = q.1 → p.1 ∉ fields.map Prod.fst)
include distinct kept once

/-- Fields are taken out of typed values exactly if each of them settles. -/
theorem takeFields_eq_ok_iff {values : List (String × Decoded)} :
    takeFields fields (contentAsFields entries fields) entries = .ok values ↔
      List.Forall₂ (Settles fun name => (entries.lookup name).map contentAs) fields values := by
  have hreads := @readsFields_content fields entries distinct
  rw [takeFields]
  constructor
  · intro h
    split at h
    · cases h
    · rename_i found rest hvisit
      exact (settle_eq_ok_iff kept (hreads.finds hvisit)).mp h
  · intro hvalues
    obtain ⟨⟨found, rest⟩, hvisit⟩ := hreads.exists_visit once hvalues
    rw [hvisit]
    exact (settle_eq_ok_iff kept (hreads.finds hvisit)).mpr hvalues

theorem contentAs_record_eq_ok_iff {v : Decoded} :
    contentAs (.map entries) (.record fields) = .ok v ↔
      ∃ values, List.Forall₂ (Settles fun name => (entries.lookup name).map contentAs)
        fields values ∧ .record values = v := by
  simp only [contentAs, map_eq_ok_iff, takeFields_eq_ok_iff distinct kept once]

end Taking

end Content
end UnitFiles

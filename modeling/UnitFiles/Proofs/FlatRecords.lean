import UnitFiles.Proofs.RecordFields

/-! Flat records. The fields of their own are decoded as they come. All else is kept as typed
values, from which each part takes its fields, so that every field settles on its own. -/
namespace UnitFiles

section Parts
variable {entries : List (String × Decoded)}

theorem settles_filter_iff {g : String → Bool} {f : Field} (h : g f.1 = true)
    {p : String × Decoded} :
    Settles (fun name => ((entries.filter fun p => g p.1).lookup name).map contentAs) f p ↔
      Settles (fun name => (entries.lookup name).map contentAs) f p := by
  simp only [Settles, lookup_filter_of_pos h]

/-- A record takes the entries with its names, and the rest go on to the other parts. -/
theorem decodeParts_record_eq_ok_iff {fields : List Field} {parts : List (Part Shape)}
    {values : List (String × Decoded)} :
    decodeParts entries (.record fields :: parts) = .ok values ↔
      ∃ first, takeFields fields (contentAsFields
          (entries.filter fun p => (fields.map Prod.fst).contains p.1) fields)
          (entries.filter fun p => (fields.map Prod.fst).contains p.1) = .ok first ∧
        ∃ others, decodeParts (entries.filter fun p => !(fields.map Prod.fst).contains p.1) parts =
          .ok others ∧ first ++ others = values := by
  rw [decodeParts]
  cases takeFields fields (contentAsFields
    (entries.filter fun p => (fields.map Prod.fst).contains p.1) fields)
    (entries.filter fun p => (fields.map Prod.fst).contains p.1) <;> simp [map_eq_ok_iff]

/-- Each part leaves the entries to the others that have their names. -/
theorem decodeParts_eq_ok_iff {parts : List (List Field)} {values : List (String × Decoded)}
    (distinct : (parts.flatten.map Prod.fst).Nodup)
    (kept : ∀ f ∈ parts.flatten, f.2.2 ≠ .omitted) (once : (entries.map Prod.fst).Nodup) :
    decodeParts entries (parts.map .record) = .ok values ↔
      List.Forall₂ (Settles fun name => (entries.lookup name).map contentAs) parts.flatten
        values := by
  induction parts generalizing entries values with
  | nil => simp [decodeParts, eq_comm]
  | cons fields parts ih =>
    rw [List.flatten_cons, List.map_append, List.nodup_append] at distinct
    obtain ⟨hfields, hparts, hdisjoint⟩ := distinct
    rw [List.flatten_cons, List.forall_mem_append] at kept
    obtain ⟨hkept, hkeptParts⟩ := kept
    have htaken : (entries.filter fun p => (fields.map Prod.fst).contains p.1).Pairwise
        fun p q => p.1 = q.1 → p.1 ∉ fields.map Prod.fst :=
      ((List.pairwise_map.mp once).filter _).imp fun hne heq => absurd heq hne
    have hleft : ((entries.filter fun p => !(fields.map Prod.fst).contains p.1).map
        Prod.fst).Nodup := once.sublist (List.filter_sublist.map _)
    have hmine : ∀ f ∈ fields, (fields.map Prod.fst).contains f.1 = true :=
      fun f hf => List.contains_iff_mem.mpr (List.mem_map_of_mem hf)
    have hothers : ∀ f ∈ parts.flatten, (!(fields.map Prod.fst).contains f.1) = true := by
      intro f hf
      rw [Bool.not_eq_true', ← Bool.not_eq_true, List.contains_iff_mem]
      exact fun hmem => hdisjoint f.1 hmem f.1 (List.mem_map_of_mem hf) rfl
    rw [List.map_cons, decodeParts_record_eq_ok_iff, List.flatten_cons, forall₂_append_left_iff]
    simp only [takeFields_eq_ok_iff hfields hkept htaken, ih hparts hkeptParts hleft,
      forall₂_congr_mem fun f hf p => settles_filter_iff (hmine f hf),
      forall₂_congr_mem fun f hf p => @settles_filter_iff entries
        (fun n => !(fields.map Prod.fst).contains n) f (hothers f hf) p]
    constructor
    · rintro ⟨first, hfirst, others, hrest, rfl⟩
      exact ⟨first, others, hfirst, hrest, rfl⟩
    · rintro ⟨first, others, hfirst, hrest, rfl⟩
      exact ⟨first, hfirst, others, hrest, rfl⟩

end Parts

section Flat
variable {slots : List Slot} {entries : List (String × Decoded)} {lead tail : List Field}
  {v : Decoded}

def ownReads (slots : List Slot) (fields : List Field) : List (String × Except Error Decoded) :=
  fields.filterMap fun f => ((slots.find? fun slot => slot.key == f.1).map fun slot =>
    within f.1 (slot.typed f.2.1)).map fun r => (f.1, r)

theorem decodeFlat_eq_ok_iff {parts : List (Part Shape)} :
    decodeFlat slots lead parts tail = .ok v ↔
      ∃ found rest, visit (ownReads slots (lead ++ tail)) []
        (slots.map fun slot => (slot.key, within slot.key slot.whole)) = .ok (found, rest) ∧
        ∃ first inner last, settle lead found = .ok first ∧ decodeParts rest parts = .ok inner ∧
          settle tail found = .ok last ∧ .map (first ++ inner ++ last) = v := by
  have hown : (lead ++ tail).filterMap (fun f =>
      (slots.find? fun slot => slot.key == f.1).map fun slot =>
        (f.1, within f.1 (slot.typed f.2.1))) = ownReads slots (lead ++ tail) := by
    simp only [ownReads, Option.map_map]
    rfl
  rw [decodeFlat, hown]
  cases visit (ownReads slots (lead ++ tail)) []
      (slots.map fun slot => (slot.key, within slot.key slot.whole)) with
  | error e => simp
  | ok p =>
    obtain ⟨found, rest⟩ := p
    cases hlead : settle lead found <;> cases htail : settle tail found <;>
      simp [hlead, htail, map_eq_ok_iff]

theorem readsFields_own {fields : List Field} (hkeys : slots.map Slot.key = entries.map Prod.fst)
    (distinct : (fields.map Prod.fst).Nodup) :
    ReadsFields (fun name => (slots.find? fun slot => slot.key == name).map Slot.typed) fields
      (entries.map Prod.fst) (ownReads slots fields) := by
  obtain ⟨hfields, hothers⟩ := lookup_filterMap
    (g := fun f => (slots.find? fun slot => slot.key == f.1).map fun slot =>
      within f.1 (slot.typed f.2.1)) distinct
  refine ⟨fun f hf => ?_, hothers⟩
  rw [ownReads, hfields f hf]
  cases hslot : slots.find? fun slot => slot.key == f.1 with
  | none => rfl
  | some slot =>
    have hkey : slot.key = f.1 := by simpa using List.find?_some hslot
    have hmem : slot.key ∈ slots.map Slot.key :=
      List.mem_map_of_mem (List.mem_of_find?_eq_some hslot)
    exact ⟨hkeys ▸ hkey ▸ hmem, _, rfl, fun _ => within_eq_ok_iff⟩

/-- A flat record is decoded exactly if each of its fields settles: its own ones from what they are
decoded to, those of its parts from the typed values. -/
theorem decodeFlat_records_eq_ok_iff {parts : List (List Field)}
    (hentries : List.Forall₂ (fun slot e => e.1 = slot.key ∧ slot.whole = .ok e.2) slots entries)
    (once : (entries.map Prod.fst).Nodup)
    (distinct : ((lead ++ parts.flatten ++ tail).map Prod.fst).Nodup)
    (kept : ∀ f ∈ lead ++ parts.flatten ++ tail, f.2.2 ≠ .omitted) :
    decodeFlat slots lead (parts.map .record) tail = .ok v ↔
      ∃ first inner last,
        List.Forall₂ (Settles fun name =>
          (slots.find? fun slot => slot.key == name).map Slot.typed) lead first ∧
        List.Forall₂ (Settles fun name => (entries.lookup name).map contentAs) parts.flatten
          inner ∧
        List.Forall₂ (Settles fun name =>
          (slots.find? fun slot => slot.key == name).map Slot.typed) tail last ∧
        .map (first ++ inner ++ last) = v := by
  simp only [List.forall_mem_append] at kept
  obtain ⟨⟨hkeptLead, hkeptParts⟩, hkeptTail⟩ := kept
  have hown : ((lead ++ tail).map Prod.fst).Nodup :=
    distinct.sublist (((List.sublist_append_left _ _).append (List.Sublist.refl _)).map _)
  simp only [List.map_append, List.nodup_append] at distinct
  obtain ⟨⟨-, hparts, hbefore⟩, -, hbehind⟩ := distinct
  have hothers : ∀ f ∈ parts.flatten, f.1 ∉ (lead ++ tail).map Prod.fst := by
    intro f hf hmem
    have hname : f.1 ∈ parts.flatten.map Prod.fst := List.mem_map_of_mem hf
    rw [List.map_append, List.mem_append] at hmem
    rcases hmem with hmem | hmem
    · exact hbefore f.1 hmem f.1 hname rfl
    · exact hbehind f.1 (List.mem_append_right _ hname) f.1 hmem rfl
  have hkeys : slots.map Slot.key = entries.map Prod.fst := by
    rw [map_eq_map_iff_forall₂]
    exact hentries.imp fun _ _ he => he.1.symm
  have hvisited : slots.map (fun slot => (slot.key, within slot.key slot.whole)) =
      entries.map fun e => (e.1, .ok e.2) := by
    rw [map_eq_map_iff_forall₂]
    refine hentries.imp fun slot e he => ?_
    rw [he.1, within_eq_ok_iff.mpr he.2]
  have hreads := readsFields_own hkeys hown
  have hinner : ∀ {found rest values}, visit (ownReads slots (lead ++ tail)) []
      (entries.map fun e => (e.1, .ok e.2)) = .ok (found, rest) →
      (decodeParts rest (parts.map .record) = .ok values ↔
        List.Forall₂ (Settles fun name => (entries.lookup name).map contentAs) parts.flatten
          values) := by
    intro found rest values hvisit
    have hrest : (rest.map Prod.fst).Nodup := by
      rw [rest_of_visit hvisit]
      exact once.sublist (List.filter_sublist.map _)
    rw [decodeParts_eq_ok_iff hparts hkeptParts hrest, rest_of_visit hvisit]
    refine forall₂_congr_mem fun f hf p => @settles_filter_iff entries
      (fun n => ((ownReads slots (lead ++ tail)).lookup n).isNone) f ?_ p
    rw [hreads.other f.1 (hothers f hf)]
    rfl
  rw [decodeFlat_eq_ok_iff, hvisited]
  constructor
  · rintro ⟨found, rest, hvisit, first, inner, last, hlead, hmiddle, htail, rfl⟩
    obtain ⟨hfindsLead, hfindsTail⟩ := List.forall_mem_append.mp (hreads.finds hvisit)
    exact ⟨first, inner, last, (settle_eq_ok_iff hkeptLead hfindsLead).mp hlead,
      (hinner hvisit).mp hmiddle, (settle_eq_ok_iff hkeptTail hfindsTail).mp htail, rfl⟩
  · rintro ⟨first, inner, last, hlead, hmiddle, htail, rfl⟩
    have honce : entries.Pairwise fun p q => p.1 = q.1 → p.1 ∉ (lead ++ tail).map Prod.fst :=
      (List.pairwise_map.mp once).imp fun hne heq => absurd heq hne
    obtain ⟨⟨found, rest⟩, hvisit⟩ := hreads.exists_visit honce (List.rel_append hlead htail)
    obtain ⟨hfindsLead, hfindsTail⟩ := List.forall_mem_append.mp (hreads.finds hvisit)
    exact ⟨found, rest, hvisit, first, inner, last,
      (settle_eq_ok_iff hkeptLead hfindsLead).mpr hlead, (hinner hvisit).mpr hmiddle,
      (settle_eq_ok_iff hkeptTail hfindsTail).mpr htail, rfl⟩

end Flat
end UnitFiles

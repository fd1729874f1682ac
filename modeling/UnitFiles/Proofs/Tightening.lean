import UnitFiles.Decode.Document
import UnitFiles.Proofs.Validation

/-! Results of strict mode beside those of lenient mode. What decodes fields and slots goes on from
one result to the next and stops at the first failure, so that a refusal of strict mode comes out
where lenient mode goes on, and no other difference arises on the way. -/
namespace UnitFiles

/-- The failure that a section has in strict mode only. Contexts may have been put around it. -/
def Error.IsStray (e : Error) : Prop := ∃ name, e.root = .unknownField name

/-- What strict mode may make of a lenient result: nothing else, or the refusal of a field. -/
def Tightens {α : Type} (strict lenient : Except Error α) : Prop :=
  strict = lenient ∨ ∃ e, strict = .error e ∧ e.IsStray

namespace Tightens
variable {α β γ : Type} {strict lenient : Except Error α}

theorem refl (r : Except Error α) : Tightens r r := Or.inl rfl

theorem stray {e : Error} (h : e.IsStray) (r : Except Error α) : Tightens (.error e) r :=
  Or.inr ⟨e, rfl, h⟩

theorem ok (h : Tightens strict lenient) {a : α} (ha : strict = .ok a) : lenient = .ok a := by
  rcases h with rfl | ⟨e, rfl, -⟩
  · exact ha
  · cases ha

/-- Two results beside each other, by what comes next: the same failure, the same value, or the
refusal of a field in strict mode. -/
@[elab_as_elim]
theorem elim {motive : Except Error α → Except Error α → Prop} (h : Tightens strict lenient)
    (error : ∀ e, motive (.error e) (.error e)) (ok : ∀ a, motive (.ok a) (.ok a))
    (refused : ∀ e r, Error.IsStray e → motive (.error e) r) : motive strict lenient := by
  rcases h with rfl | ⟨e, rfl, he⟩
  · cases strict with
    | error e => exact error e
    | ok a => exact ok a
  · exact refused e lenient he

theorem map (h : Tightens strict lenient) (f : α → β) :
    Tightens (strict.map f) (lenient.map f) := by
  rcases h with rfl | ⟨e, rfl, he⟩
  · exact refl _
  · exact stray he _

theorem mapError (h : Tightens strict lenient) {f : Error → Error}
    (hf : ∀ e, Error.IsStray e → (f e).IsStray) :
    Tightens (strict.mapError f) (lenient.mapError f) := by
  rcases h with rfl | ⟨e, rfl, he⟩
  · exact refl _
  · exact stray (hf e he) _

theorem within (h : Tightens strict lenient) (place : String) :
    Tightens (within place strict) (UnitFiles.within place lenient) :=
  h.mapError fun _ he => he

theorem asMissingSection (h : Tightens strict lenient) :
    Tightens (asMissingSection strict) (UnitFiles.asMissingSection lenient) := by
  rcases h with rfl | ⟨e, rfl, name, hname⟩
  · exact refl _
  · cases e with
    | missingField field => cases hname
    | _ => exact stray ⟨name, hname⟩ _

theorem mapAll {f : α → Except Error γ} {g : β → Except Error γ} {l : List α} {l' : List β}
    (h : List.Forall₂ (fun a b => Tightens (f a) (g b)) l l') :
    Tightens (mapAll f l) (UnitFiles.mapAll g l') := by
  induction h with
  | nil => exact refl _
  | cons hab _ ih =>
    rw [UnitFiles.mapAll, UnitFiles.mapAll]
    refine hab.elim (fun e => refl _) (fun c => ?_) fun e r he => stray he _
    exact ih.map (c :: ·)

theorem decodeItems {decoders decoders' : List (α → Except Error Decoded)}
    (h : List.Forall₂ (fun f g => ∀ a, Tightens (f a) (g a)) decoders decoders') (whole : String)
    (n : Nat) (items : List α) :
    Tightens (decodeItems whole n decoders items)
      (UnitFiles.decodeItems whole n decoders' items) := by
  induction h generalizing n items with
  | nil => cases items <;> exact refl _
  | cons hfg _ ih =>
    cases items with
    | nil => exact refl _
    | cons a items =>
      rw [UnitFiles.decodeItems, UnitFiles.decodeItems]
      refine (hfg a).elim (fun e => refl _) (fun d => ?_) fun e r he => stray he _
      exact (ih (n + 1) items).map (d :: ·)

end Tightens

section Fields

theorem decodeFields_tightens {decode decode' : String → Option (Shape → Except Error Decoded)}
    {fields : List Field} (h : ∀ f ∈ fields,
      Option.Rel (fun g g' => Tightens (g f.2.1) (g' f.2.1)) (decode f.1) (decode' f.1))
    (seen : List String) :
    Tightens (decodeFields decode seen fields) (decodeFields decode' seen fields) := by
  induction fields generalizing seen with
  | nil => exact .refl _
  | cons f rest ih =>
    obtain ⟨name, s, missing⟩ := f
    obtain ⟨hf, hrest⟩ := List.forall_mem_cons.mp h
    rw [decodeFields, decodeFields]
    dsimp only at hf
    generalize decode name = g, decode' name = g' at hf
    cases hf with
    | none => exact ih hrest seen
    | some hf =>
      dsimp only
      split
      · exact .refl _
      · refine (hf.within name).elim (fun e => .refl _) (fun v => ?_) fun e r he => .stray he _
        exact (ih hrest (name :: seen)).map ((name, v) :: ·)

theorem decodeRecord_tightens {decode decode' : String → Option (Shape → Except Error Decoded)}
    {fields : List Field} (h : ∀ f ∈ fields,
      Option.Rel (fun g g' => Tightens (g f.2.1) (g' f.2.1)) (decode f.1) (decode' f.1)) :
    Tightens (decodeRecord decode fields) (decodeRecord decode' fields) := by
  rw [decodeRecord, decodeRecord]
  exact (decodeFields_tightens h []).elim (fun e => .refl _) (fun found => .refl _)
    fun e r he => .stray he _

/-- What stands under a key in strict mode, beside the same in lenient mode. -/
def TightensAt (p q : String × Except Error Decoded) : Prop := p.1 = q.1 ∧ Tightens p.2 q.2

theorem lookup_tightens {fields fields' : List (String × Except Error Decoded)}
    (h : List.Forall₂ TightensAt fields fields') (key : String) :
    Option.Rel Tightens (fields.lookup key) (fields'.lookup key) := by
  induction h with
  | nil => exact .none
  | @cons p q rest rest' hpq _ ih =>
    obtain ⟨name, r⟩ := p
    obtain ⟨name', r'⟩ := q
    obtain ⟨rfl, hr⟩ : name = name' ∧ Tightens r r' := hpq
    rw [List.lookup_cons, List.lookup_cons]
    split
    · exact .some hr
    · exact ih

theorem visit_tightens {fields fields' entries entries' : List (String × Except Error Decoded)}
    (hfields : List.Forall₂ TightensAt fields fields')
    (hentries : List.Forall₂ TightensAt entries entries') (seen : List String) :
    Tightens (visit fields seen entries) (visit fields' seen entries') := by
  induction hentries generalizing seen with
  | nil => exact .refl _
  | @cons p q rest rest' hpq _ ih =>
    obtain ⟨key, whole⟩ := p
    obtain ⟨key', whole'⟩ := q
    obtain ⟨rfl, hwhole⟩ : key = key' ∧ Tightens whole whole' := hpq
    have hfound := lookup_tightens hfields key
    rw [visit.eq_def, visit.eq_def]
    dsimp only
    generalize fields.lookup key = r, fields'.lookup key = r' at hfound ⊢
    cases hfound with
    | none =>
      exact hwhole.elim (fun e => .refl _) (fun v => (ih seen).map _) fun e r he => .stray he _
    | some hr =>
      dsimp only
      split
      · exact .refl _
      · exact hr.elim (fun e => .refl _) (fun v => (ih (key :: seen)).map _)
          fun e r he => .stray he _

end Fields

section Slots

/-- A key of what is decoded in strict mode, beside the same key in lenient mode. Only some shapes
have to agree. -/
structure Slot.Beside (shapes : Shape → Prop) (strict lenient : Slot) : Prop where
  key : strict.key = lenient.key
  whole : Tightens strict.whole lenient.whole
  typed : ∀ s, shapes s → Tightens (strict.typed s) (lenient.typed s)

variable {shapes : Shape → Prop} {slots slots' : List Slot}

theorem wholes_tighten (h : List.Forall₂ (Slot.Beside shapes) slots slots') :
    List.Forall₂ TightensAt (slots.map fun slot => (slot.key, within slot.key slot.whole))
      (slots'.map fun slot => (slot.key, within slot.key slot.whole)) := by
  rw [List.forall₂_map_left_iff, List.forall₂_map_right_iff]
  refine h.imp fun slot slot' hslot => ⟨hslot.key, ?_⟩
  rw [hslot.key]
  exact hslot.whole.within _

theorem wholeMap_tightens (h : List.Forall₂ (Slot.Beside shapes) slots slots') :
    Tightens (wholeMap slots) (wholeMap slots') := by
  refine (Tightens.mapAll (h.imp fun slot slot' hslot => ?_)).map _
  rw [hslot.key]
  exact (hslot.whole.within _).map _

theorem decodeMap_tightens (h : List.Forall₂ (Slot.Beside shapes) slots slots') {s : Shape}
    (hs : shapes s) : Tightens (decodeMap slots s) (decodeMap slots' s) := by
  refine (Tightens.mapAll (h.imp fun slot slot' hslot => ?_)).map _
  rw [hslot.key]
  exact ((hslot.typed s hs).within _).map _

theorem find_slot_beside (h : List.Forall₂ (Slot.Beside shapes) slots slots') (key : String) :
    Option.Rel (Slot.Beside shapes) (slots.find? fun slot => slot.key == key)
      (slots'.find? fun slot => slot.key == key) := by
  induction h with
  | nil => exact .none
  | cons hslot _ ih =>
    rw [List.find?_cons, List.find?_cons, hslot.key]
    split
    · exact .some hslot
    · exact ih

theorem own_tighten (h : List.Forall₂ (Slot.Beside shapes) slots slots') {fields : List Field}
    (hfields : ∀ f ∈ fields, shapes f.2.1) :
    List.Forall₂ TightensAt
      (fields.filterMap fun f => (slots.find? fun slot => slot.key == f.1).map fun slot =>
        (f.1, within f.1 (slot.typed f.2.1)))
      (fields.filterMap fun f => (slots'.find? fun slot => slot.key == f.1).map fun slot =>
        (f.1, within f.1 (slot.typed f.2.1))) := by
  induction fields with
  | nil => exact .nil
  | cons f rest ih =>
    obtain ⟨hf, hrest⟩ := List.forall_mem_cons.mp hfields
    have hfound := find_slot_beside h f.1
    rw [List.filterMap_cons, List.filterMap_cons]
    generalize slots.find? (fun slot => slot.key == f.1) = found,
      slots'.find? (fun slot => slot.key == f.1) = found' at hfound
    cases hfound with
    | none => exact ih hrest
    | some hslot => exact .cons ⟨rfl, (hslot.typed f.2.1 hf).within f.1⟩ (ih hrest)

theorem decodeFlat_tightens (h : List.Forall₂ (Slot.Beside shapes) slots slots')
    {lead tail : List Field} (hfields : ∀ f ∈ lead ++ tail, shapes f.2.1)
    (parts : List (Part Shape)) :
    Tightens (decodeFlat slots lead parts tail) (decodeFlat slots' lead parts tail) := by
  rw [decodeFlat, decodeFlat]
  -- the parts read what is left over as typed values, which no longer know of the mode
  exact (visit_tightens (own_tighten h hfields) (wholes_tighten h) []).elim (fun e => .refl _)
    (fun found => .refl _) fun e r he => .stray he _

end Slots

end UnitFiles

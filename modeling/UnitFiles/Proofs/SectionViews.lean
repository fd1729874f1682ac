import UnitFiles.Proofs.DynamicValues
import UnitFiles.Proofs.Flattening

/-! Three ways to see the typed values of a section: one option at a time, all options that can be
read, and all at once as an object. The first two pass over values that cannot be read, and the last
one fails with them. -/
namespace UnitFiles
open Text

section Readable
variable {spec : SectionSpec} {sec : Section} {o : OptionSpec}

theorem readable?_of_unset (h : sec.has o.name = false) : readable? sec o = none := by
  rw [readable?, Section.values_eq_nil_iff.mpr h]
  rfl

theorem readable?_eq_some_iff {v : Json} :
    readable? sec o = some v ↔ sec.has o.name = true ∧
      ∃ w, valueOfType o.type (sec.values o.name) = .ok w ∧ w.toJson = v := by
  cases hset : sec.has o.name with
  | false => simp [readable?_of_unset hset]
  | true =>
    simp only [readable?, Section.isEmpty_values, hset, Bool.not_true, Bool.false_eq_true,
      if_false, true_and]
    cases valueOfType o.type (sec.values o.name) <;> simp [Except.toOption]

def readableFields (spec : SectionSpec) (sec : Section) : List (String × Json) :=
  spec.options.filterMap fun o => (readable? sec o).map fun v => (o.name, v)

theorem mem_readableFields {p : String × Json} :
    p ∈ readableFields spec sec ↔
      ∃ o ∈ spec.options, readable? sec o = some p.2 ∧ o.name = p.1 := by
  obtain ⟨name, v⟩ := p
  simp [readableFields, List.mem_filterMap]

end Readable

namespace SectionSpec
variable {spec : SectionSpec} {sec : Section} {o : OptionSpec}

theorem Distinct.nodup_readableFields (distinct : spec.Distinct) (sec : Section) :
    ((readableFields spec sec).map Prod.fst).Nodup := by
  rw [List.Nodup, List.pairwise_map, readableFields, List.pairwise_filterMap]
  refine distinct.imp fun {a b} hab p hp q hq heq => ?_
  obtain ⟨v, -, rfl⟩ := Option.map_eq_some_iff.mp hp
  obtain ⟨w, -, rfl⟩ := Option.map_eq_some_iff.mp hq
  rw [show a.name = b.name from heq, sameName_refl] at hab
  cases hab

/-- Each option has its own entry in the map. -/
theorem Distinct.get?_valueMap (distinct : spec.Distinct) (ho : o ∈ spec.options) :
    Keyed.get? o.name (spec.valueMap sec) = readable? sec o := by
  have hordered : (spec.valueMap sec).Ordered := Keyed.ordered_ofList _
  apply Option.ext
  intro v
  rw [← hordered.mem_iff]
  change (o.name, v) ∈ Keyed.ofList (readableFields spec sec) ↔ _
  rw [Keyed.mem_ofList (distinct.nodup_readableFields sec), mem_readableFields]
  constructor
  · rintro ⟨o', ho', hread, hname⟩
    have hsame : sameName o'.name o.name = true := by rw [hname, sameName_refl]
    rwa [distinct.eq ho' ho hsame] at hread
  · exact fun hread => ⟨o, ho, hread, rfl⟩

theorem Distinct.value?_eq (distinct : spec.Distinct) (ho : o ∈ spec.options) :
    spec.value? sec o.name = readable? sec o := by
  rw [value?, distinct.get?_eq ho (sameName_refl o.name)]
  rfl

end SectionSpec

section Whole
variable {spec : SectionSpec} {sec : Section} {v w : Decoded} {entries : List (String × Decoded)}

theorem filterMap_eq_of_forall₂ {α β : Type} {f : α → Option β} {l : List α} {l' : List β}
    (h : List.Forall₂ (fun a b => f a = some b) l l') : l.filterMap f = l' := by
  induction h with
  | nil => rfl
  | cons hab _ ih => rw [List.filterMap_cons_some hab, ih]

/-- If all options can be read, none is passed over. -/
theorem SetValues.readableFields_eq (h : SetValues spec sec entries) :
    readableFields spec sec = Decoded.toJsonFields entries := by
  have hset : readableFields spec sec = (spec.options.filter fun o => sec.has o.name).filterMap
      fun o => (readable? sec o).map fun v => (o.name, v) := by
    rw [readableFields, List.filterMap_filter]
    refine List.filterMap_congr fun o _ => ?_
    split
    · rfl
    · rename_i hunset
      rw [readable?_of_unset (Bool.of_not_eq_true hunset)]
      rfl
  rw [hset, Decoded.toJsonFields_eq_map]
  apply filterMap_eq_of_forall₂
  rw [List.forall₂_map_right_iff]
  refine forall₂_imp_mem h ?_
  rintro o ho ⟨_, w⟩ - ⟨rfl, hw⟩
  rw [readable?_eq_some_iff.mpr ⟨(List.mem_filter.mp ho).2, w, hw, rfl⟩]
  rfl

theorem sectionAs_any_eq_ok_iff :
    sectionAs false spec sec .any = .ok v ↔
      ∃ w, wholeSection false spec sec = .ok w ∧ .dynamic w.toJson = v := by
  have hmap : sectionAs false spec sec .any =
      asMissingOption ((wholeSection false spec sec).map fun w => .dynamic w.toJson) := rfl
  rw [hmap, asMissingOption_eq_ok_iff, map_eq_ok_iff]

theorem toJson_wholeSection (h : wholeSection false spec sec = .ok w) :
    w.toJson = .object (spec.valueMap sec) := by
  obtain ⟨entries, hentries, rfl⟩ := wholeSection_eq_ok_iff.mp h
  rw [Decoded.toJson, ← hentries.readableFields_eq]
  rfl

/-- The entry of an option in the map is what the option is on its own; the whole section is an
object exactly if every option that is set can be read, and then it is the map. -/
theorem section_views (distinct : spec.Distinct) (sec : Section) :
    (∀ name, spec.value? sec name =
      (spec.get? name).bind fun o => Keyed.get? o.name (spec.valueMap sec)) ∧
    ((∃ v, sectionAs false spec sec .any = .ok v) ↔
      ∀ o ∈ spec.options, sec.has o.name = true → ∃ v, spec.value? sec o.name = some v) ∧
    ∀ v, sectionAs false spec sec .any = .ok v → v = .dynamic (.object (spec.valueMap sec)) := by
  refine ⟨fun name => ?_, ?_, fun v h => ?_⟩
  · rw [SectionSpec.value?]
    cases ho : spec.get? name with
    | none => rfl
    | some o => exact (distinct.get?_valueMap (SectionSpec.mem_of_get? ho)).symm
  · have hwhole : (∃ v, sectionAs false spec sec .any = .ok v) ↔
        ∃ w, wholeSection false spec sec = .ok w := by
      simp only [sectionAs_any_eq_ok_iff]
      exact ⟨fun ⟨_, w, hw, _⟩ => ⟨w, hw⟩, fun ⟨w, hw⟩ => ⟨_, w, hw, rfl⟩⟩
    rw [hwhole, exists_wholeSection_iff]
    refine forall₂_congr fun o ho => imp_congr_right fun hset => ?_
    simp only [distinct.value?_eq ho, readable?_eq_some_iff, hset, true_and]
    exact ⟨fun ⟨w, hw⟩ => ⟨_, w, hw, rfl⟩, fun ⟨_, w, hw, _⟩ => ⟨w, hw⟩⟩
  · obtain ⟨w, hw, rfl⟩ := sectionAs_any_eq_ok_iff.mp h
    rw [toJson_wholeSection hw]

def listenerOptions : SectionSpec :=
  ⟨[{ name := "Port", type := .intList }, { name := "Debug", type := .bool }, { name := "Name" }]⟩

/-- A section with a truth value that is none. -/
def listener : Section := ⟨"Listener", [⟨"PORT", "80"⟩, ⟨"port", "0x1bb"⟩, ⟨"debug", "perhaps"⟩]⟩

theorem section_views_listener :
    listenerOptions.Distinct ∧
      listenerOptions.value? listener "PORT" = some (.array [.int 80, .int 443]) ∧
      listenerOptions.valueMap listener = [("Port", .array [.int 80, .int 443])] ∧
      ¬∃ v, sectionAs false listenerOptions listener .any = .ok v := by
  have distinct : listenerOptions.Distinct := by decide +kernel
  obtain ⟨hvalue, hwhole, -⟩ := section_views distinct listener
  have hmap : listenerOptions.valueMap listener = [("Port", .array [.int 80, .int 443])] := rfl
  refine ⟨distinct, ?_, hmap, ?_⟩
  · rw [hvalue, hmap]
    rfl
  · rw [hwhole]
    intro h
    obtain ⟨v, hv⟩ := h { name := "Debug", type := .bool } (by simp [listenerOptions])
      (by decide +kernel)
    rw [hvalue, hmap] at hv
    cases hv

end Whole
end UnitFiles

import UnitFiles.Proofs.Durations
import UnitFiles.Proofs.RecordTypes

/-! What the values of a field are written as in an option, and that they are read back from that. A
zero value may be left out, and the field is then settled without the option. -/
namespace UnitFiles
open Text Number

namespace Decoded

theorem toData_eq_map (items : List Decoded) : toData items = items.map toDatum := by
  induction items with
  | nil => rfl
  | cons v rest ih => rw [toData, ih, List.map_cons]

def optionText : Decoded → String
  | bool b => toString b
  | int n => integerText n
  | text s => s
  | duration d => d.text
  | variant name => name
  | _ => ""

def optionTexts (skipZero : Bool) : Decoded → List String
  | absent => []
  | present v => [v.optionText]
  | seq items => items.map optionText
  | v => if v.isZero && skipZero then [] else [v.optionText]

def options (skipZero : Bool) (p : String × Decoded) : List Entry :=
  (p.2.optionTexts skipZero).map fun text => ⟨p.1, text⟩

end Decoded

namespace ValueType
variable {t : ValueType} {v : Decoded}

theorem Has.entries_toDatum (h : t.Has v) (name : String) (skipZero : Bool) :
    v.toDatum.entries name skipZero =
      .ok (if v.isZero && skipZero then [] else [⟨name, v.optionText⟩]) := by
  cases h with
  | bool b => rfl
  | int narrow hfits hlargest =>
    rw [Decoded.toDatum, Datum.entries, if_neg (Int.not_lt.mpr hlargest)]
    rfl
  | text s => rfl
  | choice hname => rfl
  | duration d =>
    have hempty : d.text.isEmpty = false := by
      simpa using Duration.text_ne_nil d
    rw [Decoded.toDatum, Datum.entries, Datum.scalarEntry, hempty]
    rfl

theorem Has.optionTexts (h : t.Has v) (skipZero : Bool) :
    v.optionTexts skipZero = if v.isZero && skipZero then [] else [v.optionText] := by
  cases h <;> rfl

theorem entriesOfItems_toDatum (name : String) {items : List Decoded}
    (h : ∀ v ∈ items, t.Has v) :
    Datum.entriesOfItems name (items.map Decoded.toDatum) =
      .ok (items.map fun v => ⟨name, v.optionText⟩) := by
  induction items with
  | nil => rfl
  | cons v rest ih =>
    obtain ⟨hv, hrest⟩ := List.forall_mem_cons.mp h
    rw [List.map_cons, Datum.entriesOfItems, hv.entries_toDatum, ih hrest, Bool.and_false,
      if_neg Bool.false_ne_true]
    rfl

theorem expectValue_singleton {expected : String} {accepted : List Scalar} {type : OptionType}
    (h : accepted.contains type.scalar = true) (value : String) :
    expectValue expected accepted type [value] = .ok value := by
  rw [expectValue, if_pos h]
  rfl

/-- A number of 64 bits at most is read back if it is not too large. -/
theorem readInt_integerText {k : IntKind} (narrow : k.width ≤ 64) {n : Int}
    (hfits : k.fits n = true) (hlargest : n ≤ Datum.largestInt) :
    readInt (integerText n) = .ok n := by
  have hlow : -9_223_372_036_854_775_808 ≤ n := by
    rw [IntKind.fits] at hfits
    split at hfits
    · have hpow : (Nat.pow 2 (k.width - 1) : Int) ≤ (2 ^ 63 : Nat) :=
        Int.ofNat_le.mpr (Nat.pow_le_pow_right (by decide) (by omega))
      simp only [Bool.and_eq_true, decide_eq_true_eq] at hfits
      omega
    · simp only [Bool.and_eq_true, decide_eq_true_eq] at hfits
      omega
  rw [readInt, readInteger?_integerText hlow hlargest]
  rfl

theorem toDuration_text (d : Duration) : Shape.toDuration (.text d.text) = .ok (.duration d) := by
  have hread : readDuration d.text = .ok d := by
    rw [readDuration, Duration.read?_text]
    rfl
  rw [Shape.toDuration, hread]
  rfl

theorem valuesAs_text {type : OptionType} (h : textTypes.contains type.scalar = true)
    (value : String) : valuesAs type [value] .text = .ok (.text value) := by
  rw [valuesAs, expectValue_singleton h]
  rfl

theorem valuesAs_refined (type : OptionType) (values : List String) (s : Shape)
    (refine : Decoded → Except Error Decoded) :
    valuesAs type values (.refined s refine) = (valuesAs type values s).bind refine := rfl

theorem Has.valuesAs_optionText (h : t.Has v) {type : OptionType}
    (hscalar : type.scalar = t.scalar) : valuesAs type [v.optionText] t.shape = .ok v := by
  have haccepted : ∀ accepted : List Scalar, accepted.contains t.scalar = true →
      ∀ expected, expectValue expected accepted type [v.optionText] = .ok v.optionText :=
    fun accepted haccepted expected => expectValue_singleton (hscalar ▸ haccepted) _
  cases h with
  | bool b =>
    have hread : readBool (toString b) = .ok b := by cases b <;> decide
    rw [shape, valuesAs, haccepted _ rfl]
    exact congrArg (fun r => r.bind fun b => Except.ok (Decoded.bool b)) hread
  | @int k n narrow hfits hlargest =>
    have hwidth : k.width ≠ 128 := by omega
    have hread := readInt_integerText narrow hfits hlargest
    have hkind : toInt k n = .ok (.int n) := by rw [toInt, if_pos hfits]
    rw [shape, valuesAs, if_neg hwidth, haccepted _ rfl, ← hkind]
    exact congrArg (fun r => r.bind (toInt k)) hread
  | text s => exact valuesAs_text (hscalar ▸ rfl) s
  | @choice names name hname =>
    have hvariant : toVariant names name = .ok (.variant name) := by
      rw [toVariant, if_pos (List.contains_iff_mem.mpr hname)]
    rw [shape, valuesAs, haccepted _ rfl, ← hvariant]
    rfl
  | duration d =>
    have htext := @valuesAs_text type (hscalar ▸ rfl) d.text
    rw [shape, Shape.duration, valuesAs_refined]
    exact (congrArg (fun r => r.bind Shape.toDuration) htext).trans (toDuration_text d)

theorem valuesAs_optionShape_nil (t : ValueType) (type : OptionType) :
    valuesAs type [] t.optionShape = .ok .absent := by
  cases t <;> rfl

theorem Has.valuesAs_optionShape (h : t.Has v) {type : OptionType}
    (hscalar : type.scalar = t.scalar) :
    valuesAs type [v.optionText] t.optionShape = .ok (.present v) := by
  have hvalue := h.valuesAs_optionText hscalar
  cases h with
  | duration d =>
    have htext := @valuesAs_text type (hscalar ▸ rfl) d.text
    have hpresent : valuesAs type [d.text] (.option .text) = .ok (.present (.text d.text)) := by
      rw [valuesAs, htext]
      rfl
    rw [optionShape, Shape.durationOption, valuesAs_refined, Decoded.optionText, hpresent]
    exact congrArg (Except.map Decoded.present) (toDuration_text d)
  | _ => exact congrArg (Except.map Decoded.present) hvalue

theorem valuesAs_seq {type : OptionType} (hlist : type.isList = true) {s : Shape}
    {items : List Decoded} {value : Decoded → Decoded}
    (h : ∀ v ∈ items, valuesAs type.element [v.optionText] s = .ok (value v)) :
    valuesAs type (items.map Decoded.optionText) (.seq s) = .ok (.seq (items.map value)) := by
  have hall : mapAll (fun text => valuesAs type.element [text] s)
      (items.map Decoded.optionText) = .ok (items.map value) := by
    rw [mapAll_eq_ok_iff, List.forall₂_map_left_iff, List.forall₂_map_right_iff,
      List.forall₂_same]
    exact h
  rw [valuesAs, if_pos hlist, hall]
  rfl

theorem valuesAs_listShape {type : OptionType} (hscalar : type.scalar = t.scalar)
    (hlist : type.isList = true) {items : List Decoded} (h : ∀ v ∈ items, t.Has v) :
    valuesAs type (items.map Decoded.optionText) t.listShape = .ok (.seq items) := by
  have helement : type.element.scalar = t.scalar := type.scalar_element.trans hscalar
  have hseq := valuesAs_seq hlist fun v hv => (h v hv).valuesAs_optionText helement
  rw [List.map_id'] at hseq
  cases t with
  | duration =>
    have htexts : valuesAs type (items.map Decoded.optionText) (.seq .text) =
        .ok (.seq (items.map fun v => .text v.optionText)) :=
      valuesAs_seq hlist fun v _ => valuesAs_text (helement ▸ rfl) v.optionText
    have hall : mapAll Shape.toDuration (items.map fun v => .text v.optionText) = .ok items := by
      rw [mapAll_eq_ok_iff, List.forall₂_map_left_iff, List.forall₂_same]
      intro v hv
      cases h v hv with
      | duration d => exact toDuration_text d
    rw [listShape, Shape.durationList, valuesAs_refined, htexts]
    exact congrArg (Except.map Decoded.seq) hall
  | _ => exact hseq

end ValueType

theorem settleField_optional {α : Type} (shapes : Shapes α) (a : α) (marked : Bool)
    (name : String) :
    settleField (name, shapes.optional a, (FieldType.optional a marked).missing shapes) none =
      .ok [(name, .absent)] := by
  rw [FieldType.missing]
  split
  · rename_i h
    rw [Bool.and_eq_true] at h
    exact if_pos h.2
  · rfl

section Options
variable {f : FieldType ValueType} {v : Decoded}

theorem entries_toDatum (h : f.Holds ValueType.Has v) (name : String) (skipZero : Bool) :
    v.toDatum.entries name skipZero = .ok (Decoded.options skipZero (name, v)) := by
  cases h with
  | one default hv =>
    rw [hv.entries_toDatum, Decoded.options, hv.optionTexts]
    split <;> rfl
  | absent a marked => rfl
  | @present a v marked hv =>
    rw [Decoded.toDatum, Datum.entries, hv.entries_toDatum, Bool.and_false]
    rfl
  | @list a items hitems =>
    rw [Decoded.toDatum, Datum.entries, Decoded.toData_eq_map,
      ValueType.entriesOfItems_toDatum _ hitems, Decoded.options, Decoded.optionTexts,
      List.map_map]
    rfl

theorem settles_option (h : f.Holds ValueType.Has v) {o : OptionSpec}
    (hscalar : o.type.scalar = f.type.scalar) (hlist : o.type.isList = f.isList) {skipZero : Bool}
    (hzero : skipZero = true → f.RestoresZero o v) (name : String) :
    if (v.optionTexts skipZero).isEmpty && !o.required && !o.type.isList then
      settleField (name, f.shape ValueType.shapes, f.missing ValueType.shapes) none =
        .ok [(name, v)]
    else valuesAs o.type (v.optionTexts skipZero) (f.shape ValueType.shapes) = .ok v := by
  cases h with
  | @one a v default hv =>
    have hsingle : o.type.isList = false := hlist
    cases hskip : v.isZero && skipZero with
    | true =>
      obtain ⟨hzero', hskip'⟩ := (Bool.and_eq_true _ _).mp hskip
      obtain ⟨rfl, hrequired⟩ := hzero hskip' hzero'
      rw [hv.optionTexts, hskip, if_pos rfl, hrequired, hsingle]
      rfl
    | false =>
      rw [hv.optionTexts, hskip, if_neg Bool.false_ne_true]
      exact hv.valuesAs_optionText hscalar
  | absent a marked =>
    split
    · exact settleField_optional ValueType.shapes a marked name
    · exact ValueType.valuesAs_optionShape_nil a o.type
  | @present a v marked hv => exact hv.valuesAs_optionShape hscalar
  | @list a items hitems =>
    have hmany : o.type.isList = true := hlist
    rw [hmany, Bool.not_true, Bool.and_false, if_neg Bool.false_ne_true]
    exact ValueType.valuesAs_listShape hscalar hmany hitems

end Options

end UnitFiles

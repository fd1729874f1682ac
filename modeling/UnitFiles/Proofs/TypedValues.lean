import UnitFiles.Proofs.FieldValues

/-! Options that are read as typed values first, and given the shape of a field then. A field comes
to the same as when the option is decoded directly, whether the option is set or not. -/
namespace UnitFiles
open Number Text

inductive Scalar.Reads (raw : String) : Scalar → Decoded → Prop
  | bool {b : Bool} : readBool raw = .ok b → Reads raw .bool (.bool b)
  | int {n : Int} : readInt raw = .ok n → Reads raw .int (.int n)
  | float {x : Double} : readFloat raw = .ok x → Reads raw .float (.double x)
  | string : Reads raw .string (.text raw)
  | duration : Reads raw .duration (.text raw)

theorem exists_reads_of_typedScalar {type : OptionType} {values : List String} {w : Decoded}
    (h : typedScalar type values = .ok w) :
    ∃ raw, onlyValue values = .ok raw ∧ type.scalar.Reads raw w := by
  rw [typedScalar] at h
  cases honly : onlyValue values with
  | error e =>
    rw [honly] at h
    cases h
  | ok raw =>
    rw [honly] at h
    refine ⟨raw, rfl, ?_⟩
    cases hscalar : type.scalar <;> rw [hscalar] at h
    · cases h
      exact .string
    · obtain ⟨b, hb, rfl⟩ := map_eq_ok_iff.mp h
      exact .bool hb
    · obtain ⟨n, hn, rfl⟩ := map_eq_ok_iff.mp h
      exact .int hn
    · obtain ⟨x, hx, rfl⟩ := map_eq_ok_iff.mp h
      exact .float hx
    · cases h
      exact .duration

theorem exists_toUnit_of_valueOfType {type : OptionType} {values : List String} {w : Decoded}
    (h : valueOfType type values = .ok w) : ∃ e, toUnit w = .error e := by
  rw [valueOfType] at h
  split at h
  · obtain ⟨items, -, rfl⟩ := map_eq_ok_iff.mp h
    exact ⟨_, rfl⟩
  · obtain ⟨raw, -, hreads⟩ := exists_reads_of_typedScalar h
    generalize type.scalar = scalar at hreads
    cases hreads <;> exact ⟨_, rfl⟩

namespace ValueType
variable {t : ValueType} {type : OptionType} {values : List String} {w : Decoded}

def plainShape : ValueType → Shape
  | bool => .bool
  | int k _ => .int k
  | text => .text
  | choice names => .choice names
  | duration => .text

theorem contentAs_refined (w : Decoded) (s : Shape) (refine : Decoded → Except Error Decoded) :
    contentAs w (.refined s refine) = (contentAs w s).bind refine := rfl

theorem contentAs_plainShape (hscalar : type.scalar = t.scalar)
    (h : typedScalar type values = .ok w) :
    contentAs w t.plainShape = valuesAs type values t.plainShape := by
  obtain ⟨raw, honly, hreads⟩ := exists_reads_of_typedScalar h
  have haccepted : ∀ expected (accepted : List Scalar), accepted.contains t.scalar = true →
      expectValue expected accepted type values = .ok raw := by
    intro expected accepted hmem
    rw [expectValue, if_pos (hscalar ▸ hmem), honly]
  rw [hscalar] at hreads
  cases t with
  | bool =>
    cases hreads with
    | bool hb =>
      rw [plainShape, valuesAs, haccepted _ _ rfl]
      exact congrArg (fun r => r.bind fun b => Except.ok (Decoded.bool b)) hb.symm
  | int k narrow =>
    cases hreads with
    | int hn =>
      have hwidth : k.width ≠ 128 := by omega
      rw [plainShape, valuesAs, if_neg hwidth, haccepted _ _ rfl]
      exact congrArg (fun r => r.bind (toInt k)) hn.symm
  | text =>
    cases hreads
    rw [plainShape, valuesAs, haccepted _ _ rfl]
    rfl
  | choice names =>
    cases hreads
    rw [plainShape, valuesAs, haccepted _ _ rfl]
    rfl
  | duration =>
    cases hreads
    rw [plainShape, valuesAs, haccepted _ _ rfl]
    rfl

theorem contentAs_option (h : typedScalar type values = .ok w) (s : Shape) :
    contentAs w (.option s) = (contentAs w s).map .present := by
  obtain ⟨raw, -, hreads⟩ := exists_reads_of_typedScalar h
  generalize type.scalar = scalar at hreads
  cases hreads <;> rw [contentAs] <;> nofun

theorem contentAs_shape (hscalar : type.scalar = t.scalar) (h : typedScalar type values = .ok w) :
    contentAs w t.shape = valuesAs type values t.shape := by
  have hplain := contentAs_plainShape hscalar h
  cases t with
  | duration =>
    have htext : contentAs w .text = valuesAs type values .text := hplain
    rw [shape, Shape.duration, contentAs_refined, valuesAs_refined, htext]
  | _ => exact hplain

theorem contentAs_optionShape (hscalar : type.scalar = t.scalar)
    (h : typedScalar type values = .ok w) :
    contentAs w t.optionShape = valuesAs type values t.optionShape := by
  have hset : values.isEmpty = false := by
    cases values with
    | nil => cases h
    | cons _ _ => rfl
  have hplain : contentAs w (.option t.plainShape) =
      valuesAs type values (.option t.plainShape) := by
    rw [contentAs_option h, valuesAs, hset, contentAs_plainShape hscalar h]
    rfl
  cases t with
  | duration =>
    have htext : contentAs w (.option .text) = valuesAs type values (.option .text) := hplain
    rw [optionShape, Shape.durationOption, contentAs_refined, valuesAs_refined, htext]
  | _ => exact hplain

theorem contentAs_listShape (hscalar : type.scalar = t.scalar) (hlist : type.isList = true)
    (h : valueOfType type values = .ok w) :
    contentAs w t.listShape = valuesAs type values t.listShape := by
  rw [valueOfType, if_pos hlist] at h
  obtain ⟨items, hitems, rfl⟩ := map_eq_ok_iff.mp h
  have helement : type.element.scalar = t.scalar := type.scalar_element.trans hscalar
  have hplain : contentAs (.seq items) (.seq t.plainShape) =
      valuesAs type values (.seq t.plainShape) := by
    rw [contentAs, valuesAs, if_pos hlist]
    refine congrArg (Except.map Decoded.seq) (mapAll_congr ?_)
    exact (mapAll_eq_ok_iff.mp hitems).flip.imp fun _ _ hv => contentAs_plainShape helement hv
  cases t with
  | duration =>
    have htexts : contentAs (.seq items) (.seq .text) = valuesAs type values (.seq .text) := hplain
    rw [listShape, Shape.durationList, contentAs_refined, valuesAs_refined, htexts]
  | _ => exact hplain

theorem exists_valuesAs_shape_nil (t : ValueType) (type : OptionType) :
    ∃ e, valuesAs type [] t.shape = .error e := by
  have hnone : ∀ expected accepted, ∃ e, expectValue expected accepted type [] = .error e := by
    intro expected accepted
    rw [expectValue]
    split <;> exact ⟨_, rfl⟩
  cases t with
  | bool =>
    obtain ⟨e, he⟩ := hnone "bool" [.bool]
    exact ⟨e, by rw [shape, valuesAs, he]; rfl⟩
  | int k narrow =>
    obtain ⟨e, he⟩ := hnone "integer" [.int]
    have hwidth : k.width ≠ 128 := by omega
    exact ⟨e, by rw [shape, valuesAs, if_neg hwidth, he]; rfl⟩
  | text =>
    obtain ⟨e, he⟩ := hnone "string" textTypes
    exact ⟨e, by rw [shape, valuesAs, he]; rfl⟩
  | choice names =>
    obtain ⟨e, he⟩ := hnone "enum" textTypes
    exact ⟨e, by rw [shape, valuesAs, he]; rfl⟩
  | duration =>
    obtain ⟨e, he⟩ := hnone "string" textTypes
    exact ⟨e, by rw [shape, Shape.duration, valuesAs_refined, valuesAs, he]; rfl⟩

end ValueType

def FieldType.fallsBack {α : Type} : FieldType α → Bool
  | one _ (some _) => true
  | _ => false

section Field
variable {o : OptionSpec} {w : Decoded}

theorem contentAs_fieldShape {f : FieldType ValueType} {type : OptionType} {values : List String}
    (hscalar : type.scalar = f.type.scalar) (hlist : type.isList = f.isList)
    (h : valueOfType type values = .ok w) :
    contentAs w (f.shape ValueType.shapes) = valuesAs type values (f.shape ValueType.shapes) := by
  cases f with
  | one a default =>
    rw [valueOfType, hlist] at h
    exact ValueType.contentAs_shape hscalar h
  | optional a marked =>
    rw [valueOfType, hlist] at h
    exact ValueType.contentAs_optionShape hscalar h
  | list a => exact ValueType.contentAs_listShape hscalar hlist h

/-- Values that are expected but not set make up what the field is without them. -/
theorem settleField_unset_iff {f : FieldType ValueType} {name : String}
    (hscalar : o.type.scalar = f.type.scalar) (hlist : o.type.isList = f.isList)
    (hrequired : f.fallsBack = true → o.required = false)
    (hpresent : (!o.required && !o.type.isList) = false) {p : String × Decoded}
    (hp : p.1 = name) :
    settleField (name, f.shape ValueType.shapes, f.missing ValueType.shapes) none = .ok [p] ↔
      valuesAs o.type [] (f.shape ValueType.shapes) = .ok p.2 := by
  obtain ⟨name, v⟩ := p
  cases hp
  cases f with
  | one a default =>
    cases default with
    | none =>
      obtain ⟨e, he⟩ := a.exists_valuesAs_shape_nil o.type
      have hshape : (FieldType.one a none).shape ValueType.shapes = a.shape := rfl
      have hplain : a.shape.isOption = false := by cases a <;> rfl
      rw [hshape, he, FieldType.missing]
      simp [settleField, hplain]
    | some d =>
      have hsingle : o.type.isList = false := hlist
      rw [hrequired rfl, hsingle] at hpresent
      cases hpresent
  | optional a marked =>
    have habsent := settleField_optional ValueType.shapes a marked name
    have hnil := ValueType.valuesAs_optionShape_nil a o.type
    rw [FieldType.shape, habsent, ValueType.shapes, hnil]
    simp
  | list a =>
    have hnil : valuesAs o.type [] a.listShape = .ok (.seq []) :=
      @ValueType.valuesAs_listShape a o.type hscalar hlist [] (by simp)
    rw [FieldType.shape, ValueType.shapes, hnil]
    simp [settleField, FieldType.missing]

end Field
end UnitFiles
